import Mathlib.Data.List.Perm.Basic
import QMdmm.Core.RpsOutcome
import QMdmm.Core.RoomSteps

namespace QMdmmCore

open Data

/-- How many orders a player holds. -/
def held (orders : QHash Int String) (p : String) : Nat :=
  (orders.entries.map fun entry => entry.2).count p

/-- How many orders a player strives for. -/
def desires (orders : QMultiHash Int String) (p : String) : Nat :=
  (orders.map Prod.snd).count p

theorem held_insert {orders : QHash Int String} {order : Int} (hnew : order ∉ orders)
    (holder p : String) :
    held (AList.insert order holder orders) p = held orders p + if holder = p then 1 else 0 := by
  rw [held, held, AList.entries_insert_of_notMem hnew, List.map_cons, List.count_cons]
  simp

theorem held_pos_of_lookup {orders : QHash Int String} {order : Int} {p : String}
    (hlookup : orders.lookup order = some p) : 0 < held orders p :=
  List.count_pos_iff.mpr (List.mem_map_of_mem (QHash.lookup_eq_some.mp hlookup))

namespace LogicP

variable {d : LogicP}

/-- What a hand-out relies on: the confirmed orders exist, and nobody holds
more of them than it won. -/
structure Shared (d : LogicP) : Prop where
  winners_mem : ∀ p ∈ d.rpsForActionWinners, p ∈ d.room.playerNames
  confirmed_range : ∀ order ∈ d.confirmedActionOrders,
    1 ≤ order ∧ order ≤ d.rpsForActionWinners.length
  yields_nonneg : ∀ p, 0 ≤ d.actionOrderYields.value p 0
  held_le : ∀ p, held d.confirmedActionOrders p ≤ d.rpsForActionWinners.count p

/-- What the negotiation keeps: selections move between the four containers,
and no player ever has more of them than it won. -/
structure Conserved (d : LogicP) : Prop where
  winners_mem : ∀ p ∈ d.rpsForActionWinners, p ∈ d.room.playerNames
  confirmed_range : ∀ order ∈ d.confirmedActionOrders,
    1 ≤ order ∧ order ≤ d.rpsForActionWinners.length
  desired_open : ∀ entry ∈ d.desiredActionOrders,
    (1 ≤ entry.1 ∧ entry.1 ≤ d.rpsForActionWinners.length) ∧ entry.1 ∉ d.confirmedActionOrders
  selections_nonneg : ∀ p, 0 ≤ d.actionOrderRemainingSelections.value p 0
  yields_nonneg : ∀ p, 0 ≤ d.actionOrderYields.value p 0
  shares : ∀ p, (held d.confirmedActionOrders p : Int) + desires d.desiredActionOrders p +
    d.actionOrderRemainingSelections.value p 0 ≤ d.rpsForActionWinners.count p

theorem remainingActionCount_value (d : LogicP) (p : String) :
    d.remainingActionCount.value p 0 =
      d.rpsForActionWinners.count p - held d.confirmedActionOrders p := by
  have hempty : QHash.value (∅ : QHash String Int) p 0 = 0 := rfl
  unfold remainingActionCount
  rw [QHash.value_dropZeros, QHash.value_addEach, QHash.value_addEach, hempty, held]
  omega

theorem mem_allOrders {order : Int} :
    order ∈ d.allOrders ↔ 1 ≤ order ∧ order ≤ d.rpsForActionWinners.length := by
  simp only [allOrders, List.mem_map, List.mem_range'_1]
  constructor
  · rintro ⟨n, hn, rfl⟩
    simp only [Int.ofNat_eq_natCast]
    omega
  · intro horder
    exact ⟨order.toNat, by omega, by simp only [Int.ofNat_eq_natCast]; omega⟩

theorem allOrders_nodup (d : LogicP) : d.allOrders.Nodup :=
  List.Nodup.map (fun _ _ h => Int.ofNat.inj h) List.nodup_range'

@[simp] theorem length_allOrders (d : LogicP) :
    d.allOrders.length = d.rpsForActionWinners.length := by
  simp [allOrders]

theorem mem_remainingActionOrders {order : Int} :
    order ∈ d.remainingActionOrders ↔
      (1 ≤ order ∧ order ≤ d.rpsForActionWinners.length) ∧ order ∉ d.confirmedActionOrders := by
  have hfold (entries : List (Sigma fun _ : Int => String)) (orders : List Int) :
      order ∈ entries.foldl (fun orders entry => orders.filter (· ≠ entry.1)) orders ↔
        order ∈ orders ∧ order ∉ entries.map fun entry => entry.1 := by
    induction entries generalizing orders with
    | nil => simp
    | cons entry rest ih =>
      rw [List.foldl_cons, ih]
      simp only [List.mem_filter, decide_eq_true_eq, List.map_cons, List.mem_cons, not_or]
      tauto
  unfold remainingActionOrders
  rw [hfold, mem_allOrders]
  rfl

theorem remainingActionOrders_nodup (d : LogicP) : d.remainingActionOrders.Nodup := by
  have hfold (entries : List (Sigma fun _ : Int => String)) (orders : List Int)
      (horders : orders.Nodup) :
      (entries.foldl (fun orders entry => orders.filter (· ≠ entry.1)) orders).Nodup := by
    induction entries generalizing orders with
    | nil => exact horders
    | cons entry rest ih => exact ih _ (horders.filter _)
  exact hfold _ _ d.allOrders_nodup

/-- Every order of 1..N is either confirmed or still to be had. -/
theorem remainingActionOrders_perm (hrange : ∀ order ∈ d.confirmedActionOrders,
      1 ≤ order ∧ order ≤ d.rpsForActionWinners.length) :
    (d.remainingActionOrders ++ d.confirmedActionOrders.keys).Perm d.allOrders := by
  have hnodup : (d.remainingActionOrders ++ d.confirmedActionOrders.keys).Nodup := by
    refine List.nodup_append.mpr ⟨d.remainingActionOrders_nodup, d.confirmedActionOrders.nodupKeys,
      ?_⟩
    intro order horder other hother heq
    exact (mem_remainingActionOrders.mp horder).2 (heq ▸ hother)
  refine (List.perm_ext_iff_of_nodup hnodup d.allOrders_nodup).mpr fun order => ?_
  rw [List.mem_append, mem_remainingActionOrders, mem_allOrders]
  constructor
  · rintro (hremaining | hconfirmed)
    · exact hremaining.1
    · exact hrange order hconfirmed
  · intro horder
    by_cases hconfirmed : order ∈ d.confirmedActionOrders
    · exact .inr hconfirmed
    · exact .inl ⟨horder, hconfirmed⟩

private theorem count_flatMap_replicate {names : List String} (hnodup : names.Nodup)
    (share : String → Nat) (p : String) :
    (names.flatMap fun name => List.replicate (share name) name).count p =
      if p ∈ names then share p else 0 := by
  induction names with
  | nil => simp
  | cons name rest ih =>
    obtain ⟨hname, hrest⟩ := List.nodup_cons.mp hnodup
    rw [List.flatMap_cons, List.count_append, ih hrest, List.count_replicate]
    by_cases hp : name = p
    · subst hp
      simp [hname]
    · simp [hp, Ne.symm hp]

theorem count_leftoverPlayers (d : LogicP) (p : String) :
    d.leftoverPlayers.count p =
      ((d.rpsForActionWinners.count p : Int) - held d.confirmedActionOrders p).toNat := by
  have hnodup : (d.remainingActionCount.keys.insertionSort (· ≤ ·)).Nodup :=
    (List.perm_insertionSort _ _).nodup_iff.mpr d.remainingActionCount.nodupKeys
  unfold leftoverPlayers
  rw [count_flatMap_replicate hnodup]
  split
  · rw [remainingActionCount_value]
  · next habsent =>
    have hkey : p ∉ d.remainingActionCount := fun hmem =>
      habsent ((List.perm_insertionSort _ _).mem_iff.mpr hmem)
    have hzero := d.remainingActionCount_value p
    rw [QHash.value, AList.lookup_eq_none.mpr hkey] at hzero
    simp only [Option.getD_none] at hzero
    omega

/-- The leftover players and the holders of the confirmed orders are the
winners, each as often as it won. -/
theorem leftoverPlayers_perm
    (hshares : ∀ p, held d.confirmedActionOrders p ≤ d.rpsForActionWinners.count p) :
    (d.leftoverPlayers ++ d.confirmedActionOrders.entries.map fun entry => entry.2).Perm
      d.rpsForActionWinners := by
  refine List.perm_iff_count.mpr fun p => ?_
  rw [List.count_append, count_leftoverPlayers]
  have := hshares p
  unfold held at this ⊢
  omega

theorem length_leftoverPlayers
    (hrange : ∀ order ∈ d.confirmedActionOrders, 1 ≤ order ∧ order ≤ d.rpsForActionWinners.length)
    (hshares : ∀ p, held d.confirmedActionOrders p ≤ d.rpsForActionWinners.count p) :
    d.leftoverPlayers.length = d.remainingActionOrders.length := by
  have hplayers := (leftoverPlayers_perm hshares).length_eq
  have horders := (remainingActionOrders_perm hrange).length_eq
  have hkeys : d.confirmedActionOrders.keys.length = d.confirmedActionOrders.entries.length := by
    simp [AList.keys, List.keys]
  rw [List.length_append, List.length_map] at hplayers
  rw [List.length_append, length_allOrders] at horders
  omega

/-- Handing out fails on a missing index only, and confirms the next orders. -/
theorem handOut_spec {orders : List Int} (hnodup : orders.Nodup) (orderIndex : Nat)
    (players : List String) {confirmed : QHash Int String}
    (hlength : orderIndex + players.length ≤ orders.length)
    (hopen : ∀ order ∈ orders.drop orderIndex, order ∉ confirmed) :
    ∃ result, handOut orders orderIndex players confirmed = .ok result ∧
      (∀ p, held result p = held confirmed p + players.count p) ∧
      (∀ order, order ∈ result ↔
        order ∈ confirmed ∨ order ∈ (orders.drop orderIndex).take players.length) ∧
      ∀ order p, confirmed.lookup order = some p → result.lookup order = some p := by
  induction players generalizing orderIndex confirmed with
  | nil => exact ⟨confirmed, rfl, by simp, by simp, fun _ _ h => h⟩
  | cons player rest ih =>
    simp only [List.length_cons] at hlength
    have hindex : orderIndex < orders.length := by omega
    have hdrop : orders.drop orderIndex = orders[orderIndex] :: orders.drop (orderIndex + 1) :=
      List.drop_eq_getElem_cons hindex
    have hdropNodup : (orders.drop orderIndex).Nodup := hnodup.sublist (List.drop_sublist _ _)
    rw [hdrop] at hopen hdropNodup
    have hnew : orders[orderIndex] ∉ confirmed := hopen _ List.mem_cons_self
    have hlater : ∀ order ∈ orders.drop (orderIndex + 1),
        order ∉ AList.insert orders[orderIndex] player confirmed := by
      intro order horder hmem
      rcases (AList.mem_insert _).mp hmem with rfl | hmem
      · exact (List.nodup_cons.mp hdropNodup).1 horder
      · exact hopen _ (List.mem_cons_of_mem _ horder) hmem
    obtain ⟨result, hresult, hheld, hmem, hkeep⟩ := ih (orderIndex + 1) (by omega) hlater
    refine ⟨result, ?_, fun p => ?_, fun order => ?_, fun order p hlookup => ?_⟩
    · rw [handOut, List.getElem?_eq_getElem hindex]
      exact hresult
    · rw [hheld, held_insert hnew, List.count_cons]
      simp only [beq_iff_eq]
      omega
    · rw [hmem, AList.mem_insert, hdrop, List.length_cons, List.take_succ_cons, List.mem_cons]
      tauto
    · refine hkeep order p ?_
      rw [AList.lookup_insert_ne]
      · exact hlookup
      · rintro rfl
        exact hnew (AList.lookup_isSome.mp (by rw [hlookup]; rfl))

theorem dropLosers_sublist (d : LogicP) (striving winners : List String) :
    (d.dropLosers striving winners).desiredActionOrders.Sublist d.desiredActionOrders := by
  have hfold (losers : List String) (order : Int) (hash : QMultiHash Int String) :
      (losers.foldl (fun hash loser => hash.removeEntry order loser) hash).Sublist hash := by
    induction losers generalizing hash with
    | nil => exact .refl _
    | cons loser rest ih => exact (ih _).trans List.filter_sublist
  exact hfold _ _ _

/-- An order that is confirmed is claimed no more, and the other orders as before. -/
theorem count_confirmOrder (d : LogicP) (first order : Int) :
    (d.confirmOrder first).desiredActionOrders.count order =
      if order = first ∧ d.desiredActionOrders.count first = 1 then 0
      else d.desiredActionOrders.count order := by
  by_cases hsingle : d.desiredActionOrders.count first = 1
  · rw [confirmOrder, if_pos hsingle, QMultiHash.count, QMultiHash.values_removeKey]
    by_cases horder : order = first
    · rw [if_pos horder, if_pos ⟨horder, hsingle⟩, List.length_nil]
    · rw [if_neg horder, if_neg fun hboth => horder hboth.1, QMultiHash.count]
  · rw [confirmOrder, if_neg hsingle, if_neg fun hboth => hsingle hboth.2]

theorem confirmUncontested_rpsForActionWinners (d : LogicP) :
    d.confirmUncontested.rpsForActionWinners = d.rpsForActionWinners := by
  have hfold (orders : List Int) (d : LogicP) :
      (orders.foldl confirmOrder d).rpsForActionWinners = d.rpsForActionWinners := by
    induction orders generalizing d with
    | nil => rfl
    | cons order rest ih =>
      rw [List.foldl_cons, ih, confirmOrder]
      split <;> rfl
  exact hfold _ d

/-- `d'` comes from `d` without taking a confirmed order back. -/
def Keeps (d d' : LogicP) : Prop :=
  ∀ order p, d.confirmedActionOrders.lookup order = some p →
    d'.confirmedActionOrders.lookup order = some p

theorem Keeps.trans {d d' d'' : LogicP} (h : Keeps d d') (h' : Keeps d' d'') : Keeps d d'' :=
  fun order p hlookup => h' order p (h order p hlookup)

theorem keeps_insert {orders : QHash Int String} {order other : Int} {holder p : String}
    (hnew : order ∉ orders) (hlookup : orders.lookup other = some p) :
    (AList.insert order holder orders).lookup other = some p := by
  rw [AList.lookup_insert_ne]
  · exact hlookup
  · rintro rfl
    exact hnew (AList.lookup_isSome.mp (by rw [hlookup]; rfl))

theorem Conserved.shared (h : d.Conserved) : d.Shared where
  winners_mem := h.winners_mem
  confirmed_range := h.confirmed_range
  yields_nonneg := h.yields_nonneg
  held_le p := by
    have := h.shares p
    have := h.selections_nonneg p
    omega

/-- Whoever strives has something to strive for. -/
theorem strivingActionCount_pos {name : String} (hname : name ∈ d.strivingNames) :
    0 < d.strivingActionCount.value name 0 := by
  have hkey : name ∈ d.strivingActionCount := (List.perm_insertionSort _ _).mem_iff.mp hname
  obtain ⟨n, hn⟩ := Option.isSome_iff_exists.mp (AList.lookup_isSome.mpr hkey)
  rw [QHash.value, hn]
  rw [strivingActionCount, QHash.lookup_filterMap, Option.bind_eq_some_iff] at hn
  obtain ⟨count, _, hstriving⟩ := hn
  obtain ⟨hpos, heq⟩ := Option.ite_none_right_eq_some.mp hstriving
  cases heq
  exact hpos

namespace Shared

/-- A negotiation starts with nothing handed out. -/
theorem start {replies : QHash String RockPaperScissors}
    (hreplies : ∀ p ∈ replies, p ∈ d.room.playerNames) :
    Shared { d with
      rpsForActionWinners := rockPaperScissorsWinners replies
      confirmedActionOrders := ∅
      actionOrderYields := ∅ } where
  winners_mem p hp := hreplies p (mem_of_mem_rpsWinners (mem_rpsWinners_of_mem hp))
  confirmed_range _ horder := absurd horder (AList.notMem_empty _)
  yields_nonneg _ := le_rfl
  held_le _ := Nat.zero_le _

/-- The leftover hand-out always finds its indices, and completes a perfect
partition of the orders. -/
theorem handOut (h : d.Shared) :
    ∃ result, LogicP.handOut d.remainingActionOrders 0 d.leftoverPlayers d.confirmedActionOrders
        = .ok result ∧
      (∀ p, held result p = d.rpsForActionWinners.count p) ∧
      (∀ order, order ∈ result ↔ 1 ≤ order ∧ order ≤ d.rpsForActionWinners.length) ∧
      ∀ order p, d.confirmedActionOrders.lookup order = some p → result.lookup order = some p := by
  have hlength := length_leftoverPlayers h.confirmed_range h.held_le
  obtain ⟨result, hresult, hheld, hmem, hkeep⟩ := handOut_spec
    d.remainingActionOrders_nodup 0 d.leftoverPlayers (by omega)
    fun order horder => (mem_remainingActionOrders.mp horder).2
  refine ⟨result, hresult, fun p => ?_, fun order => ?_, hkeep⟩
  · have := h.held_le p
    rw [hheld, count_leftoverPlayers]
    omega
  · rw [hmem, List.drop_zero, hlength, List.take_length, mem_remainingActionOrders]
    constructor
    · rintro (hconfirmed | hremaining)
      · exact h.confirmed_range order hconfirmed
      · exact hremaining.1
    · intro horder
      by_cases hconfirmed : order ∈ d.confirmedActionOrders
      · exact .inl hconfirmed
      · exact .inr ⟨horder, hconfirmed⟩

/-- What a player is asked for is what it has left, less its yields. -/
theorem striving_le (h : d.Shared) (p : String) :
    0 ≤ d.strivingActionCount.value p 0 ∧
      (held d.confirmedActionOrders p : Int) + d.strivingActionCount.value p 0 ≤
        d.rpsForActionWinners.count p := by
  have hcount := d.remainingActionCount_value p
  have hheld := h.held_le p
  have hyields := h.yields_nonneg p
  unfold strivingActionCount
  rw [QHash.value, QHash.lookup_filterMap]
  unfold QHash.value at hcount
  cases hlookup : d.remainingActionCount.lookup p with
  | none =>
    simp only [Option.bind_none, Option.getD_none]
    omega
  | some count =>
    rw [hlookup] at hcount
    simp only [Option.getD_some, Option.bind_some] at hcount ⊢
    split <;> simp only [Option.getD_some, Option.getD_none] <;> omega

theorem enterActionOrder (h : d.Shared) : d.enterActionOrder.Conserved := by
  have hselections (p : String) : d.enterActionOrder.actionOrderRemainingSelections.value p 0 =
      if p ∈ d.strivingNames then d.strivingActionCount.value p 0 else 0 := by
    unfold LogicP.enterActionOrder
    dsimp only
    rw [QHash.value_foldl_insert]
    rfl
  refine ⟨h.winners_mem, h.confirmed_range, fun entry hentry => absurd hentry List.not_mem_nil,
    fun p => ?_, h.yields_nonneg, fun p => ?_⟩
  · rw [hselections]
    have := h.striving_le p
    split <;> omega
  · rw [hselections]
    have := h.striving_le p
    have hheld := h.held_le p
    have hnone : desires d.enterActionOrder.desiredActionOrders p = 0 := rfl
    have hsame : d.enterActionOrder.confirmedActionOrders = d.confirmedActionOrders := rfl
    have hwinners : d.enterActionOrder.rpsForActionWinners = d.rpsForActionWinners := rfl
    rw [hnone, hsame, hwinners]
    split <;> omega

end Shared

namespace Conserved

/-- Giving up some of the desired orders. -/
theorem of_sublist {desired : QMultiHash Int String} (h : d.Conserved)
    (hsub : desired.Sublist d.desiredActionOrders) :
    Conserved { d with desiredActionOrders := desired } where
  winners_mem := h.winners_mem
  confirmed_range := h.confirmed_range
  desired_open entry hentry := h.desired_open entry (hsub.subset hentry)
  selections_nonneg := h.selections_nonneg
  yields_nonneg := h.yields_nonneg
  shares p := by
    have hcount : desires desired p ≤ desires d.desiredActionOrders p :=
      (hsub.map Prod.snd).count_le p
    have := h.shares p
    dsimp only
    omega

/-- The replies of a tie-break are no part of the account. -/
theorem reply (h : d.Conserved) (replies : QHash String RockPaperScissors) :
    Conserved { d with rpsForActionOrderReplies := replies } :=
  ⟨h.winners_mem, h.confirmed_range, h.desired_open, h.selections_nonneg, h.yields_nonneg,
    h.shares⟩

theorem confirmOrder (h : d.Conserved) (order : Int) :
    (d.confirmOrder order).Conserved ∧ Keeps d (d.confirmOrder order) := by
  unfold LogicP.confirmOrder
  split
  · next hcount =>
    have hvalues := QMultiHash.values_of_count_eq_one hcount ""
    set holder := d.desiredActionOrders.value order ""
    have hentry : (order, holder) ∈ d.desiredActionOrders :=
      QMultiHash.mem_of_count_eq_one hcount ""
    obtain ⟨hrange, hnew⟩ := h.desired_open _ hentry
    refine ⟨⟨h.winners_mem, ?_, ?_, h.selections_nonneg, h.yields_nonneg, fun p => ?_⟩,
      fun other p hlookup => keeps_insert hnew hlookup⟩
    · intro other hother
      rcases (AList.mem_insert _).mp hother with rfl | hother
      · exact hrange
      · exact h.confirmed_range other hother
    · intro entry hentry
      obtain ⟨hentry, hother⟩ := List.mem_filter.mp hentry
      refine ⟨(h.desired_open entry hentry).1, fun hmem => ?_⟩
      rcases (AList.mem_insert _).mp hmem with heq | hmem
      · exact of_decide_eq_true hother heq
      · exact (h.desired_open entry hentry).2 hmem
    · have hsplit := QMultiHash.count_values_add_removeKey d.desiredActionOrders order p
      have := h.shares p
      rw [hvalues, List.count_singleton] at hsplit
      dsimp only
      rw [held_insert hnew]
      unfold desires at this ⊢
      by_cases hholder : holder = p
      · simp only [hholder, beq_self_eq_true, if_true] at hsplit ⊢
        omega
      · simp only [hholder, beq_iff_eq, if_false] at hsplit ⊢
        omega
  · exact ⟨h, fun _ _ hlookup => hlookup⟩

theorem confirmUncontested (h : d.Conserved) :
    d.confirmUncontested.Conserved ∧ Keeps d d.confirmUncontested := by
  have hfold (orders : List Int) (d : LogicP) (h : d.Conserved) :
      (orders.foldl LogicP.confirmOrder d).Conserved ∧
        Keeps d (orders.foldl LogicP.confirmOrder d) := by
    induction orders generalizing d with
    | nil => exact ⟨h, fun _ _ hlookup => hlookup⟩
    | cons order rest ih =>
      obtain ⟨hfirst, hkeeps⟩ := h.confirmOrder order
      obtain ⟨hrest, hkeeps'⟩ := ih _ hfirst
      exact ⟨hrest, hkeeps.trans hkeeps'⟩
  exact hfold _ d h

theorem dropLosers (h : d.Conserved) (striving winners : List String) :
    (d.dropLosers striving winners).Conserved :=
  h.of_sublist (d.dropLosers_sublist striving winners)

end Conserved

private theorem checkDesiredOrders_spec {desired chosen result : List Int} {yields total : Nat}
    (hcheck : d.checkDesiredOrders desired chosen yields = some (result, total)) :
    (∀ order ∈ result, order ∈ chosen ∨
      (1 ≤ order ∧ order ≤ d.rpsForActionWinners.length) ∧ order ∉ d.confirmedActionOrders) ∧
      result.length + total = chosen.length + yields + desired.length := by
  induction desired generalizing chosen yields with
  | nil =>
    cases hcheck
    exact ⟨fun _ h => .inl h, by simp⟩
  | cons order rest ih =>
    rw [checkDesiredOrders] at hcheck
    split at hcheck
    · obtain ⟨hlegal, hlength⟩ := ih hcheck
      exact ⟨hlegal, by simp only [List.length_cons]; omega⟩
    · split at hcheck
      · next hopen =>
        obtain ⟨hlegal, hlength⟩ := ih hcheck
        refine ⟨fun other hother => ?_, ?_⟩
        · rcases hlegal other hother with hmem | hlegal
          · rcases List.mem_append.mp hmem with hmem | hmem
            · exact .inl hmem
            · rw [List.mem_singleton.mp hmem]
              exact .inr ⟨⟨hopen.1, hopen.2.1⟩, by simpa [QHash.contains] using hopen.2.2.1⟩
          · exact .inr hlegal
        · simp only [List.length_append, List.length_cons, List.length_nil] at hlength ⊢
          omega
      · cases hcheck

/-- Legal or not, a reply never picks more than it was asked for, nor an order
that is not open. -/
theorem chosenOrders_spec {selections : Int} {desired chosen : List Int} {accepted : Bool}
    {yields : Nat} (hasked : 0 ≤ selections)
    (hchosen : d.chosenOrders selections desired = (accepted, chosen, yields)) :
    (∀ order ∈ chosen,
      (1 ≤ order ∧ order ≤ d.rpsForActionWinners.length) ∧ order ∉ d.confirmedActionOrders) ∧
      (chosen.length : Int) + yields = selections := by
  unfold chosenOrders at hchosen
  split at hchosen
  · next hlength =>
    split at hchosen
    · next hcheck =>
      cases hchosen
      obtain ⟨hlegal, htotal⟩ := checkDesiredOrders_spec hcheck
      refine ⟨fun order horder => (hlegal order horder).resolve_left List.not_mem_nil, ?_⟩
      simp only [List.length_nil] at htotal
      omega
    · cases hchosen
      exact ⟨fun _ h => absurd h List.not_mem_nil, by simp only [List.length_nil]; omega⟩
  · cases hchosen
    exact ⟨fun _ h => absurd h List.not_mem_nil, by simp only [List.length_nil]; omega⟩

theorem desires_foldl_insert (name p : String) (chosen : List Int)
    (hash : QMultiHash Int String) :
    desires (chosen.foldl (fun hash order => hash.insert order name) hash) p =
      desires hash p + if name = p then chosen.length else 0 := by
  induction chosen generalizing hash with
  | nil => simp
  | cons order rest ih =>
    rw [List.foldl_cons, ih]
    unfold desires QMultiHash.insert
    rw [List.map_cons, List.count_cons, List.length_cons]
    by_cases hname : name = p
    · simp only [hname, beq_self_eq_true, if_true]
      omega
    · simp [hname]

private theorem mem_foldl_insert {name : String} {entry : Int × String} {chosen : List Int}
    {hash : QMultiHash Int String}
    (hentry : entry ∈ chosen.foldl (fun hash order => hash.insert order name) hash) :
    entry ∈ hash ∨ entry.1 ∈ chosen := by
  induction chosen generalizing hash with
  | nil => exact .inl hentry
  | cons order rest ih =>
    rcases ih hentry with hmem | hmem
    · rcases List.mem_cons.mp hmem with rfl | hmem
      · exact .inr List.mem_cons_self
      · exact .inl hmem
    · exact .inr (List.mem_cons_of_mem _ hmem)

theorem Conserved.recordActionOrder (h : d.Conserved) {name : String} {desired chosen : List Int}
    {accepted : Bool} {yields : Nat}
    (hasked : 0 ≤ d.actionOrderRemainingSelections.value name (-1))
    (hchosen : d.chosenOrders (d.actionOrderRemainingSelections.value name (-1)) desired
      = (accepted, chosen, yields)) : (d.recordActionOrder name chosen yields).Conserved := by
  obtain ⟨hlegal, htotal⟩ := chosenOrders_spec hasked hchosen
  have hselections : d.actionOrderRemainingSelections.value name (-1) =
      d.actionOrderRemainingSelections.value name 0 := by
    unfold QHash.value at hasked ⊢
    cases hlookup : d.actionOrderRemainingSelections.lookup name with
    | none => simp [hlookup] at hasked
    | some n => rfl
  refine ⟨h.winners_mem, h.confirmed_range, fun entry hentry => ?_, fun p => ?_, fun p => ?_,
    fun p => ?_⟩
  · rcases mem_foldl_insert hentry with hold | hnew
    · exact h.desired_open entry hold
    · exact hlegal _ hnew
  · have := h.selections_nonneg p
    simp only [LogicP.recordActionOrder, QHash.value_erase]
    split <;> omega
  · have := h.yields_nonneg p
    simp only [LogicP.recordActionOrder]
    split
    · rw [QHash.value_addEach]
      positivity
    · exact this
  · have := h.shares p
    have hnonneg := h.selections_nonneg p
    simp only [LogicP.recordActionOrder, QHash.value_erase, desires_foldl_insert]
    by_cases hname : name = p
    · subst hname
      simp only [if_true]
      omega
    · simp only [hname, Ne.symm hname, if_false]
      omega

end LogicP

end QMdmmCore
