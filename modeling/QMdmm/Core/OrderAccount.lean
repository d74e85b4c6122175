import Mathlib.Algebra.BigOperators.Group.Finset.Basic
import Mathlib.Algebra.Order.BigOperators.Group.Finset
import QMdmm.Core.Asked

namespace QMdmmCore

open Data Logic

namespace LogicP

variable {d : LogicP}

/-- The selections of a player: confirmed, yielded, claimed, or still to be made. -/
def accounted (d : LogicP) (p : String) : Int :=
  held d.confirmedActionOrders p + d.actionOrderYields.value p 0 +
    desires d.desiredActionOrders p + d.actionOrderRemainingSelections.value p 0

/-- What a player has won and neither had confirmed nor yielded. -/
def unsettledOf (d : LogicP) (p : String) : Int :=
  d.rpsForActionWinners.count p - held d.confirmedActionOrders p - d.actionOrderYields.value p 0

/-- The selections that are unconfirmed, minus the yielded ones. -/
def unsettled (d : LogicP) : Nat := ∑ p ∈ d.rpsForActionWinners.toFinset, (d.unsettledOf p).toNat

/-- What the negotiation has left to do: the unsettled selections, and the
claims of the round. While claims are still being made there may be as many as
there are unsettled selections. -/
def negotiationMeasure (d : LogicP) : Nat × Nat :=
  (d.unsettled, if d.state = .ActionOrder then d.unsettled + 1 else d.desiredActionOrders.length)

/-- Nobody has more selections than it won. -/
def Affordable (d : LogicP) : Prop := ∀ p, d.accounted p ≤ d.rpsForActionWinners.count p

theorem unsettled_le {d' : LogicP} (hwinners : d'.rpsForActionWinners = d.rpsForActionWinners)
    (hle : ∀ p, d'.unsettledOf p ≤ d.unsettledOf p) : d'.unsettled ≤ d.unsettled := by
  unfold unsettled
  rw [hwinners]
  apply Finset.sum_le_sum
  intro p _
  have := hle p
  omega

theorem unsettled_lt {d' : LogicP} (hwinners : d'.rpsForActionWinners = d.rpsForActionWinners)
    (hle : ∀ p, d'.unsettledOf p ≤ d.unsettledOf p) {p : String}
    (hp : p ∈ d.rpsForActionWinners) (hlt : d'.unsettledOf p < d.unsettledOf p)
    (hpos : 0 < d.unsettledOf p) : d'.unsettled < d.unsettled := by
  unfold unsettled
  rw [hwinners]
  apply Finset.sum_lt_sum
  · intro q _
    have := hle q
    omega
  · exact ⟨p, List.mem_toFinset.mpr hp, by omega⟩

theorem unsettled_pos {p : String} (hp : p ∈ d.rpsForActionWinners) (hpos : 0 < d.unsettledOf p) :
    0 < d.unsettled := by
  have hterm : (d.unsettledOf p).toNat ≤ d.unsettled :=
    Finset.single_le_sum (f := fun p => (d.unsettledOf p).toNat) (fun _ _ => Nat.zero_le _)
      (List.mem_toFinset.mpr hp)
  omega

/-- Before the first order is confirmed, every selection is unsettled. -/
theorem unsettled_of_fresh (hheld : ∀ p, held d.confirmedActionOrders p = 0)
    (hyields : ∀ p, d.actionOrderYields.value p 0 = 0) :
    d.unsettled = d.rpsForActionWinners.length := by
  have hterm (p : String) : (d.unsettledOf p).toNat = d.rpsForActionWinners.count p := by
    have := hheld p
    have := hyields p
    unfold unsettledOf
    omega
  unfold unsettled
  simp only [hterm]
  exact List.sum_toFinset_count_eq_length _

/-- Once every asked player has picked, each unsettled selection is a claim. -/
theorem length_desiredActionOrders (h : d.Conserved)
    (hbalanced : ∀ p, d.accounted p = d.rpsForActionWinners.count p)
    (hnone : ∀ p, d.actionOrderRemainingSelections.value p 0 = 0) :
    d.desiredActionOrders.length = d.unsettled := by
  have hterm (p : String) : (d.unsettledOf p).toNat = (d.desiredActionOrders.map Prod.snd).count p := by
    have := hbalanced p
    have := hnone p
    unfold accounted desires at *
    unfold unsettledOf
    omega
  have hnames : ∀ p ∈ (↑(d.desiredActionOrders.map Prod.snd) : Multiset String),
      p ∈ d.rpsForActionWinners.toFinset := by
    intro p hp
    have hpos : 0 < desires d.desiredActionOrders p := List.count_pos_iff.mpr hp
    have hshare := h.shares p
    have hselections := h.selections_nonneg p
    have hwon : 0 < d.rpsForActionWinners.count p := by omega
    exact List.mem_toFinset.mpr (List.count_pos_iff.mp hwon)
  unfold unsettled
  simp only [hterm]
  have := Multiset.sum_count_eq_card hnames
  simpa using this.symm

/-- Confirming moves selections from the claims to the confirmed orders alone. -/
theorem confirmUncontested_frame (d : LogicP) :
    ∃ confirmed desired, d.confirmUncontested =
      { d with confirmedActionOrders := confirmed, desiredActionOrders := desired } := by
  have hfold (orders : List Int) (d : LogicP) : ∃ confirmed desired,
      orders.foldl confirmOrder d =
        { d with confirmedActionOrders := confirmed, desiredActionOrders := desired } := by
    induction orders generalizing d with
    | nil => exact ⟨_, _, rfl⟩
    | cons order rest ih =>
      obtain ⟨confirmed, desired, hrest⟩ := ih (d.confirmOrder order)
      refine ⟨confirmed, desired, ?_⟩
      rw [List.foldl_cons, hrest, confirmOrder]
      split <;> rfl
  exact hfold _ d

theorem Conserved.accounted_confirmOrder (h : d.Conserved) (order : Int) (p : String) :
    (d.confirmOrder order).accounted p = d.accounted p := by
  unfold LogicP.confirmOrder
  split
  · next hcount =>
    have hvalues := QMultiHash.values_of_count_eq_one hcount ""
    set holder := d.desiredActionOrders.value order ""
    have hentry : (order, holder) ∈ d.desiredActionOrders :=
      QMultiHash.mem_of_count_eq_one hcount ""
    have hsplit := QMultiHash.count_values_add_removeKey d.desiredActionOrders order p
    rw [hvalues, List.count_singleton] at hsplit
    unfold accounted
    dsimp only
    rw [held_insert (h.desired_open _ hentry).2]
    unfold desires
    by_cases hholder : holder = p
    · simp only [hholder, beq_self_eq_true, if_true] at hsplit ⊢
      omega
    · simp only [hholder, beq_iff_eq, if_false] at hsplit ⊢
      omega
  · rfl

theorem Conserved.accounted_confirmUncontested (h : d.Conserved) (p : String) :
    d.confirmUncontested.accounted p = d.accounted p := by
  have hfold (orders : List Int) (d : LogicP) (h : d.Conserved) :
      (orders.foldl LogicP.confirmOrder d).accounted p = d.accounted p := by
    induction orders generalizing d with
    | nil => rfl
    | cons order rest ih =>
      rw [List.foldl_cons, ih _ (h.confirmOrder order).1, h.accounted_confirmOrder]
  exact hfold _ d h

theorem desires_le_of_sublist {desired desired' : QMultiHash Int String}
    (hsub : desired'.Sublist desired) (p : String) : desires desired' p ≤ desires desired p :=
  (hsub.map Prod.snd).count_le p

theorem Affordable.dropLosers (h : d.Affordable) (striving winners : List String) :
    (d.dropLosers striving winners).Affordable := by
  intro p
  have hle := h p
  have hdesires := desires_le_of_sublist (d.dropLosers_sublist striving winners) p
  unfold accounted at hle ⊢
  simp only [LogicP.dropLosers] at hdesires ⊢
  omega

/-- What leaves the claims while orders are confirmed is settled. -/
theorem Conserved.unsettledOf_confirmUncontested (h : d.Conserved) (p : String) :
    d.unsettledOf p - d.confirmUncontested.unsettledOf p =
      desires d.desiredActionOrders p - desires d.confirmUncontested.desiredActionOrders p := by
  have haccounted := h.accounted_confirmUncontested p
  obtain ⟨confirmed, desired, hframe⟩ := d.confirmUncontested_frame
  rw [hframe] at haccounted ⊢
  unfold accounted at haccounted
  unfold unsettledOf
  dsimp only at haccounted ⊢
  omega

theorem Conserved.unsettled_confirmUncontested_le (h : d.Conserved) :
    d.confirmUncontested.unsettled ≤ d.unsettled := by
  apply unsettled_le (confirmUncontested_rpsForActionWinners d)
  intro p
  have := h.unsettledOf_confirmUncontested p
  have := desires_le_of_sublist d.confirmUncontested_sublist p
  omega

/-- Whoever claims an order has selections that are unsettled. -/
theorem Conserved.unsettledOf_pos (h : d.Conserved) (hafford : d.Affordable) {entry : Int × String}
    (hentry : entry ∈ d.desiredActionOrders) :
    entry.2 ∈ d.rpsForActionWinners ∧ 0 < desires d.desiredActionOrders entry.2 ∧
      0 < d.unsettledOf entry.2 := by
  have hdesires : 0 < desires d.desiredActionOrders entry.2 :=
    List.count_pos_iff.mpr (List.mem_map_of_mem hentry)
  have hafford := hafford entry.2
  have hselections := h.selections_nonneg entry.2
  have hyields := h.yields_nonneg entry.2
  unfold accounted at hafford
  refine ⟨?_, hdesires, ?_⟩
  · have hwon : 0 < d.rpsForActionWinners.count entry.2 := by omega
    exact List.count_pos_iff.mp hwon
  · unfold unsettledOf
    omega

/-- Where every claim is gone once orders are confirmed, some order has been. -/
theorem Conserved.unsettled_confirmUncontested_lt (h : d.Conserved) (hafford : d.Affordable)
    (hsome : d.desiredActionOrders ≠ []) (hnone : d.confirmUncontested.desiredActionOrders = []) :
    d.confirmUncontested.unsettled < d.unsettled := by
  obtain ⟨entry, hentry⟩ := List.exists_mem_of_ne_nil _ hsome
  obtain ⟨hwinner, hdesires, hpos⟩ := h.unsettledOf_pos hafford hentry
  have hsettled (p : String) := h.unsettledOf_confirmUncontested p
  simp only [hnone, desires, List.map_nil, List.count_nil, Nat.cast_zero, sub_zero] at hsettled
  apply unsettled_lt (confirmUncontested_rpsForActionWinners d) _ hwinner _ hpos
  · intro p
    have := hsettled p
    omega
  · have := hsettled entry.2
    unfold desires at hdesires
    omega

theorem yields_recordActionOrder (d : LogicP) (name : String) (chosen : List Int) (yields : Nat)
    (p : String) : (d.recordActionOrder name chosen yields).actionOrderYields.value p 0 =
      d.actionOrderYields.value p 0 + if name = p then (yields : Int) else 0 := by
  unfold recordActionOrder
  dsimp only
  split
  · rw [QHash.value_addEach, List.count_singleton]
    by_cases hname : name = p
    · simp [hname]
    · simp [hname]
  · have hzero : yields = 0 := by omega
    simp [hzero]

/-- A reply turns selections into claims and yields. -/
theorem accounted_recordActionOrder {name : String} {desired chosen : List Int}
    {accepted : Bool} {yields : Nat}
    (hasked : 0 ≤ d.actionOrderRemainingSelections.value name (-1))
    (hchosen : d.chosenOrders (d.actionOrderRemainingSelections.value name (-1)) desired
      = (accepted, chosen, yields)) (p : String) :
    (d.recordActionOrder name chosen yields).accounted p = d.accounted p := by
  obtain ⟨_, htotal⟩ := chosenOrders_spec hasked hchosen
  have hselections : d.actionOrderRemainingSelections.value name (-1) =
      d.actionOrderRemainingSelections.value name 0 := by
    unfold QHash.value at hasked ⊢
    cases hlookup : d.actionOrderRemainingSelections.lookup name with
    | none => simp [hlookup] at hasked
    | some n => rfl
  unfold accounted
  rw [yields_recordActionOrder]
  simp only [recordActionOrder, desires_foldl_insert, QHash.value_erase]
  by_cases hname : name = p
  · subst hname
    simp only [if_true]
    omega
  · simp only [hname, Ne.symm hname, if_false]
    omega

theorem length_foldl_insert (name : String) (chosen : List Int) (hash : QMultiHash Int String) :
    (chosen.foldl (fun hash order => hash.insert order name) hash).length =
      hash.length + chosen.length := by
  induction chosen generalizing hash with
  | nil => rfl
  | cons order rest ih =>
    rw [List.foldl_cons, ih, QMultiHash.insert, List.length_cons, List.length_cons]
    omega

theorem mem_dropLosers {striving winners : List String} {entry : Int × String} :
    entry ∈ (d.dropLosers striving winners).desiredActionOrders ↔
      entry ∈ d.desiredActionOrders ∧ (entry.1 = d.currentStrivingActionOrder →
        winners ≠ [] → entry.2 ∈ striving → entry.2 ∈ winners) := by
  have hfold (losers : List String) (order : Int) (hash : QMultiHash Int String) :
      entry ∈ losers.foldl (fun hash loser => hash.removeEntry order loser) hash ↔
        entry ∈ hash ∧ (entry.1 = order → entry.2 ∉ losers) := by
    induction losers generalizing hash with
    | nil => simp
    | cons loser rest ih =>
      rw [List.foldl_cons, ih, QMultiHash.removeEntry, List.mem_filter, List.mem_cons]
      simp only [decide_eq_true_eq]
      tauto
  unfold dropLosers
  rw [hfold]
  by_cases hnone : winners = []
  · simp [hnone]
  · simp only [hnone, if_false, List.mem_filter, decide_eq_true_eq]
    tauto

/-- A decided tie-break between the strivers drops a claim and keeps one. -/
theorem dropLosers_decided {replies : QHash String RockPaperScissors}
    (hreplies : ∀ p, p ∈ replies ↔ p ∈ d.desiredActionOrders.values d.currentStrivingActionOrder)
    (hdecided : rockPaperScissorsWinners replies ≠ []) :
    (d.dropLosers (d.desiredActionOrders.values d.currentStrivingActionOrder)
        (rockPaperScissorsWinners replies)).desiredActionOrders.length <
      d.desiredActionOrders.length := by
  obtain ⟨loser, hthrown, hloser⟩ := exists_loser hdecided
  have hstriver := (hreplies loser).mp hthrown
  have hentry := QMultiHash.mem_of_mem_values hstriver
  have hsub := d.dropLosers_sublist (d.desiredActionOrders.values d.currentStrivingActionOrder)
    (rockPaperScissorsWinners replies)
  apply Nat.lt_of_le_of_ne hsub.length_le
  intro heq
  rw [← hsub.eq_of_length heq, mem_dropLosers] at hentry
  exact hloser (hentry.2 rfl hdecided hstriver)

theorem dropLosers_ne_nil {replies : QHash String RockPaperScissors}
    (hreplies : ∀ p, p ∈ replies ↔ p ∈ d.desiredActionOrders.values d.currentStrivingActionOrder)
    {replier : String} (hreplier : replier ∈ replies) :
    (d.dropLosers (d.desiredActionOrders.values d.currentStrivingActionOrder)
        (rockPaperScissorsWinners replies)).desiredActionOrders ≠ [] := by
  have hkept : ∃ p ∈ replies, rockPaperScissorsWinners replies ≠ [] →
      p ∈ rockPaperScissorsWinners replies := by
    by_cases hnone : rockPaperScissorsWinners replies = []
    · exact ⟨replier, hreplier, fun hsome => absurd hnone hsome⟩
    · obtain ⟨winner, hwinner⟩ := List.exists_mem_of_ne_nil _ hnone
      exact ⟨winner, mem_of_mem_rpsWinners (mem_rpsWinners_of_mem hwinner), fun _ => hwinner⟩
  obtain ⟨p, hp, hwins⟩ := hkept
  have hentry := QMultiHash.mem_of_mem_values ((hreplies p).mp hp)
  apply List.ne_nil_of_mem (mem_dropLosers.mpr ⟨hentry, _⟩)
  intro _ hsome _
  exact hwins hsome

/-- What is asked for is exactly what is unsettled. -/
theorem Shared.strivingActionCount_value (h : d.Shared) (p : String)
    (hnonneg : 0 ≤ d.unsettledOf p) : d.strivingActionCount.value p 0 = d.unsettledOf p := by
  have hcount := d.remainingActionCount_value p
  have hyields := h.yields_nonneg p
  unfold unsettledOf at hnonneg ⊢
  unfold strivingActionCount
  rw [QHash.value, QHash.lookup_filterMap]
  unfold QHash.value at hcount
  cases hlookup : d.remainingActionCount.lookup p with
  | none =>
    rw [hlookup] at hcount
    simp only [Option.getD_none, Option.bind_none] at hcount ⊢
    omega
  | some count =>
    rw [hlookup] at hcount
    simp only [Option.getD_some, Option.bind_some] at hcount ⊢
    split <;> simp only [Option.getD_some, Option.getD_none] <;> omega

theorem Shared.accounted_enterActionOrder (h : d.Shared) (hnonneg : ∀ p, 0 ≤ d.unsettledOf p)
    (p : String) : d.enterActionOrder.accounted p = d.rpsForActionWinners.count p := by
  have hvalue := h.strivingActionCount_value p (hnonneg p)
  have hselections : d.enterActionOrder.actionOrderRemainingSelections.value p 0 =
      d.unsettledOf p := by
    unfold LogicP.enterActionOrder
    dsimp only
    rw [QHash.value_foldl_insert]
    split
    · exact hvalue
    · next hname =>
      have hkey : p ∉ d.strivingActionCount := fun hmem =>
        hname ((List.perm_insertionSort _ _).mem_iff.mpr hmem)
      have hnone : d.strivingActionCount.value p 0 = 0 := by
        rw [QHash.value, AList.lookup_eq_none.mpr hkey]
        rfl
      rw [← hvalue, hnone]
      rfl
  have hdesires : desires d.enterActionOrder.desiredActionOrders p = 0 := rfl
  have hheld : d.enterActionOrder.confirmedActionOrders = d.confirmedActionOrders := rfl
  have hyields : d.enterActionOrder.actionOrderYields = d.actionOrderYields := rfl
  unfold accounted
  rw [hselections, hdesires, hheld, hyields]
  unfold unsettledOf
  omega

/-- Whoever is asked for orders has something unsettled. -/
theorem Shared.unsettled_pos (h : d.Shared) (hnonneg : ∀ p, 0 ≤ d.unsettledOf p)
    (hnothing : d.nothingLeftToFightFor = false) : 0 < d.unsettled := by
  obtain ⟨signal, hsignal⟩ := List.exists_mem_of_ne_nil _ (actionOrderRequests_ne_nil hnothing)
  obtain ⟨name, hname, _⟩ := List.mem_map.mp hsignal
  have hpos := strivingActionCount_pos hname
  rw [h.strivingActionCount_value name (hnonneg name)] at hpos
  have hyields := h.yields_nonneg name
  have hwon : 0 < d.rpsForActionWinners.count name := by
    unfold unsettledOf at hpos
    omega
  exact LogicP.unsettled_pos (List.count_pos_iff.mp hwon) hpos

end LogicP

end QMdmmCore
