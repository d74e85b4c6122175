import QMdmm.Core.OrderRounds

namespace QMdmmCore

open Data Logic

/-- A round of picks: what accepted replies listed, the selections that were
yielded, and the tie-breaks decided since, each with its winners. -/
structure PickRound where
  picks : List (String × Int)
  yields : List (String × Nat)
  tieBreaks : List (Int × List String)
  deriving DecidableEq

/-- A record of the last negotiation: its winners, and its rounds, the last one
first. -/
structure Chronicle where
  winners : List String
  rounds : List PickRound
  deriving DecidableEq

namespace PickRound

variable {round : PickRound} {p : String} {order : Int}

/-- A tie-break for the order was decided against the player. -/
def Beaten (round : PickRound) (p : String) (order : Int) : Prop :=
  ∃ tieBreak ∈ round.tieBreaks, tieBreak.1 = order ∧ p ∉ tieBreak.2

instance (round : PickRound) (p : String) (order : Int) : Decidable (round.Beaten p order) :=
  inferInstanceAs (Decidable (∃ tieBreak ∈ round.tieBreaks, tieBreak.1 = order ∧ p ∉ tieBreak.2))

/-- The player listed the order and lost no tie-break for it, and whoever else
listed it did. -/
def Earned (round : PickRound) (p : String) (order : Int) : Prop :=
  (p, order) ∈ round.picks ∧ ¬ round.Beaten p order ∧
    ∀ pick ∈ round.picks, pick.2 = order → pick.1 = p ∨ round.Beaten pick.1 order

instance (round : PickRound) (p : String) (order : Int) : Decidable (round.Earned p order) :=
  inferInstanceAs (Decidable (_ ∧ _ ∧ ∀ pick ∈ round.picks, _))

def yieldedBy (round : PickRound) (p : String) : Nat :=
  ((round.yields.filter fun entry => entry.1 = p).map Prod.snd).sum

/-- Tie-breaks for other orders. -/
theorem beaten_of_ne {other : Int} {winners : List String} (hne : order ≠ other) :
    Beaten { round with tieBreaks := (other, winners) :: round.tieBreaks } p order ↔
      round.Beaten p order := by
  unfold Beaten
  simp [Ne.symm hne]

theorem Beaten.cons {tieBreak : Int × List String} (h : round.Beaten p order) :
    Beaten { round with tieBreaks := tieBreak :: round.tieBreaks } p order := by
  obtain ⟨other, hother, hlost⟩ := h
  exact ⟨other, List.mem_cons_of_mem _ hother, hlost⟩

theorem earned_of_ne {other : Int} {winners : List String} (hne : order ≠ other) :
    Earned { round with tieBreaks := (other, winners) :: round.tieBreaks } p order ↔
      round.Earned p order := by
  simp only [Earned, beaten_of_ne hne]

end PickRound

namespace Chronicle

variable {record : Chronicle}

def Earned (record : Chronicle) (p : String) (order : Int) : Prop :=
  ∃ round ∈ record.rounds, round.Earned p order

instance (record : Chronicle) (p : String) (order : Int) : Decidable (record.Earned p order) :=
  inferInstanceAs (Decidable (∃ round ∈ record.rounds, round.Earned p order))

/-- The selections the player has yielded. -/
def yielded (record : Chronicle) (p : String) : Nat :=
  (record.rounds.map fun round => round.yieldedBy p).sum

def inRound (f : PickRound → PickRound) (record : Chronicle) : Chronicle :=
  { record with rounds := record.rounds.modifyHead f }

def newRound (record : Chronicle) : Chronicle :=
  { record with rounds := ⟨[], [], []⟩ :: record.rounds }

/-- A result is one of the Rock-Paper-Scissors the machine is in. -/
def observe (before : LogicP) (record : Chronicle) : Signal → Chronicle
  | .rpsResult replies =>
    if before.state = .RpsForAction then ⟨rockPaperScissorsWinners replies, []⟩
    else if rockPaperScissorsWinners replies = [] then record
    else record.inRound fun round =>
      { round with
        tieBreaks := (before.currentStrivingActionOrder, rockPaperScissorsWinners replies) ::
          round.tieBreaks }
  | _ => record

/-- An accepted reply lists orders and yields the zeros of it; an invalid one
yields all that was asked for. -/
def reply (before : LogicP) (record : Chronicle) : Call → Chronicle
  | .actionOrderReply name desired =>
    let selections := before.actionOrderRemainingSelections.value name (-1)
    if before.Accepts (.actionOrderReply name desired) then
      if (before.chosenOrders selections desired).1 then
        record.inRound fun round =>
          { round with
            picks := (desired.filter (· ≠ 0)).map (fun order => (name, order)) ++ round.picks
            yields := (name, desired.count 0) :: round.yields }
      else record.inRound fun round =>
        { round with yields := (name, selections.toNat) :: round.yields }
    else record
  | _ => record

def hear (before : LogicP) (signals : List Signal) (record : Chronicle) : Chronicle :=
  listen (observe before) newRound signals record

def note (before : Logic (List Signal)) (c : Call) (after : Logic (List Signal))
    (record : Chronicle) : Chronicle :=
  hear before.d (after.env.drop before.env.length) (record.reply before.d c)

/-- The logic under queued delivery, with a record of its negotiations. -/
def system : TransitionSystem (Logic (List Signal) × Chronicle) Call :=
  Logic.system.recorded ⟨[], []⟩ note

/-- The orders of the player that it did not earn. -/
def unearned (record : Chronicle) (result : QHash Int String) (p : String) : Nat :=
  result.entries.countP fun entry => entry.2 = p ∧ ¬ record.Earned p entry.1

/-- Whoever earned an order gets it, each order goes to who earned it or is left
over, and of what is left over everybody gets as much as it yielded. -/
structure Honoured (record : Chronicle) (result : QHash Int String) : Prop where
  earned : ∀ p order, record.Earned p order → result.lookup order = some p
  held : ∀ p order, result.lookup order = some p →
    record.Earned p order ∨ ∀ q, ¬ record.Earned q order
  yielded : ∀ p, record.unearned result p = record.yielded p

theorem observe_still {signal : Signal} (h : Still signal) (before : LogicP) (record : Chronicle) :
    record.observe before signal = record := by
  cases signal with
  | rpsResult replies => exact absurd rfl (h.2.1 replies)
  | _ => rfl

@[simp] theorem hear_nil (before : LogicP) (record : Chronicle) : hear before [] record = record :=
  rfl

theorem hear_still {signals : List Signal} (hstill : ∀ signal ∈ signals, Still signal)
    (before : LogicP) (record : Chronicle) : hear before signals record = record := by
  apply listen_quiet
  · intro signal hsignal
    exact (hstill signal hsignal).1
  · intro signal hsignal record
    exact observe_still (hstill signal hsignal) before record

theorem hear_cons {signal : Signal} (hasks : signal.asksForOrders = false) (signals : List Signal)
    (before : LogicP) (record : Chronicle) :
    hear before (signal :: signals) record = hear before signals (record.observe before signal) :=
  listen_cons hasks signals record

/-- The requests of a round open it. -/
theorem hear_actionOrderRequests {d : LogicP} (hnothing : d.nothingLeftToFightFor = false)
    (before : LogicP) (record : Chronicle) :
    hear before (actionOrderRequests d) record = record.newRound := by
  apply listen_actionOrderRequests hnothing
  exact fun _ _ _ _ _ => rfl

theorem note_of_env {before after : Logic (List Signal)} {signals : List Signal}
    (henv : after.env = before.env ++ signals) (c : Call) (record : Chronicle) :
    note before c after record = hear before.d signals (record.reply before.d c) := by
  rw [note, henv, List.drop_left]

theorem inRound_of_rounds {round : PickRound} {rest : List PickRound}
    (hrounds : record.rounds = round :: rest) (f : PickRound → PickRound) :
    record.inRound f = ⟨record.winners, f round :: rest⟩ := by
  simp [inRound, hrounds]

theorem earned_newRound (record : Chronicle) (p : String) (order : Int) :
    record.newRound.Earned p order ↔ record.Earned p order := by
  simp [Earned, newRound, PickRound.Earned]

theorem yielded_newRound (record : Chronicle) (p : String) :
    record.newRound.yielded p = record.yielded p := by
  simp [yielded, newRound, PickRound.yieldedBy]

end Chronicle

namespace LogicP

variable {d : LogicP} {record : Chronicle} {round : PickRound} {rest : List PickRound}

/-- The record agrees with the books of the machine. -/
structure Books (d : LogicP) (record : Chronicle) : Prop where
  winners : record.winners = d.rpsForActionWinners
  yields : ∀ p, d.actionOrderYields.value p 0 = record.yielded p
  earned : ∀ order p, d.confirmedActionOrders.lookup order = some p → record.Earned p order

/-- A round is over once each pick of it is lost or confirmed. -/
def Closed (d : LogicP) (round : PickRound) : Prop :=
  ∀ pick ∈ round.picks,
    round.Beaten pick.1 pick.2 ∨ d.confirmedActionOrders.lookup pick.2 = some pick.1

/-- What is claimed in the round that is on: the picks that are neither lost nor confirmed. -/
structure Claiming (d : LogicP) (record : Chronicle) (round : PickRound) (rest : List PickRound) :
    Prop where
  books : Books d record
  rounds : record.rounds = round :: rest
  past : ∀ earlier ∈ rest, Closed d earlier
  claimed : ∀ entry ∈ d.desiredActionOrders,
    (entry.2, entry.1) ∈ round.picks ∧ ¬ round.Beaten entry.2 entry.1
  resolved : ∀ pick ∈ round.picks, (pick.2, pick.1) ∈ d.desiredActionOrders ∨
    round.Beaten pick.1 pick.2 ∨ d.confirmedActionOrders.lookup pick.2 = some pick.1

theorem Closed.mono {d' : LogicP} (h : Closed d round) (hkeeps : Keeps d d') : Closed d' round := by
  intro pick hpick
  obtain hlost | hconfirmed := h pick hpick
  · exact .inl hlost
  · exact .inr (hkeeps _ _ hconfirmed)

/-- An order that one player alone still claims is earned. -/
theorem Claiming.confirmOrder (h : d.Claiming record round rest) (hconserved : d.Conserved)
    (order : Int) : (d.confirmOrder order).Claiming record round rest := by
  have hkeeps := (hconserved.confirmOrder order).2
  by_cases hcount : d.desiredActionOrders.count order = 1
  · have hvalues := QMultiHash.values_of_count_eq_one hcount ""
    have hholder {p : String} (hentry : (order, p) ∈ d.desiredActionOrders) :
        p = d.desiredActionOrders.value order "" := by
      have hp := QMultiHash.mem_values_of_mem hentry
      rw [hvalues] at hp
      exact List.mem_singleton.mp hp
    have hentry := QMultiHash.mem_of_count_eq_one hcount ""
    obtain ⟨_, hopen⟩ := hconserved.desired_open _ hentry
    obtain ⟨hpicked, hunbeaten⟩ := h.claimed _ hentry
    rw [LogicP.confirmOrder, if_pos hcount] at hkeeps ⊢
    constructor
    · refine ⟨h.books.winners, h.books.yields, fun other p hlookup => ?_⟩
      by_cases hother : other = order
      · subst hother
        dsimp only at hlookup
        rw [AList.lookup_insert] at hlookup
        obtain rfl := Option.some.inj hlookup
        refine ⟨round, h.rounds ▸ List.mem_cons_self, hpicked, hunbeaten, ?_⟩
        rintro ⟨q, other⟩ hpick rfl
        obtain hclaimed | hlost | hconfirmed := h.resolved _ hpick
        · exact .inl (hholder hclaimed)
        · exact .inr hlost
        · exact absurd (AList.lookup_isSome.mp (Option.isSome_of_eq_some hconfirmed)) hopen
      · dsimp only at hlookup
        rw [AList.lookup_insert_ne hother] at hlookup
        exact h.books.earned other p hlookup
    · exact h.rounds
    · exact fun earlier hearlier => (h.past earlier hearlier).mono hkeeps
    · exact fun entry hentry => h.claimed entry (List.mem_of_mem_filter hentry)
    · intro pick hpick
      obtain hclaimed | hlost | hconfirmed := h.resolved pick hpick
      · by_cases horder : pick.2 = order
        · right
          right
          dsimp only
          rw [horder] at hclaimed ⊢
          rw [AList.lookup_insert, hholder hclaimed]
        · left
          exact List.mem_filter.mpr ⟨hclaimed, by simpa using horder⟩
      · exact .inr (.inl hlost)
      · exact .inr (.inr (hkeeps _ _ hconfirmed))
  · rw [LogicP.confirmOrder, if_neg hcount]
    exact h

theorem Claiming.confirmUncontested (h : d.Claiming record round rest) (hconserved : d.Conserved) :
    d.confirmUncontested.Claiming record round rest := by
  have hfold (orders : List Int) (d : LogicP) (h : d.Claiming record round rest)
      (hconserved : d.Conserved) :
      (orders.foldl LogicP.confirmOrder d).Claiming record round rest := by
    induction orders generalizing d with
    | nil => exact h
    | cons order rest ih =>
      exact ih _ (h.confirmOrder hconserved order) (hconserved.confirmOrder order).1
  exact hfold _ d h hconserved

/-- A tie-break decided for an open order: who is dropped has lost it. -/
theorem Claiming.tieBreak (h : d.Claiming record round rest) {winners : List String}
    (hopen : d.currentStrivingActionOrder ∉ d.confirmedActionOrders) (hdecided : winners ≠ []) :
    (d.dropLosers (d.desiredActionOrders.values d.currentStrivingActionOrder) winners).Claiming
      (record.inRound fun round =>
        { round with tieBreaks := (d.currentStrivingActionOrder, winners) :: round.tieBreaks })
      { round with tieBreaks := (d.currentStrivingActionOrder, winners) :: round.tieBreaks }
      rest := by
  have hconfirmed {p : String} {order : Int} (hlookup : d.confirmedActionOrders.lookup order = some p) :
      order ≠ d.currentStrivingActionOrder := by
    rintro rfl
    exact hopen (AList.lookup_isSome.mp (Option.isSome_of_eq_some hlookup))
  rw [Chronicle.inRound_of_rounds h.rounds]
  constructor
  · refine ⟨h.books.winners, fun p => ?_, fun order p hlookup => ?_⟩
    · have hyields := h.books.yields p
      rw [Chronicle.yielded, h.rounds] at hyields
      exact hyields
    · obtain ⟨earlier, hearlier, hearned⟩ := h.books.earned order p hlookup
      rw [h.rounds] at hearlier
      obtain rfl | hearlier := List.mem_cons.mp hearlier
      · exact ⟨_, List.mem_cons_self, (PickRound.earned_of_ne (hconfirmed hlookup)).mpr hearned⟩
      · exact ⟨earlier, List.mem_cons_of_mem _ hearlier, hearned⟩
  · rfl
  · exact h.past
  · intro entry hentry
    obtain ⟨hentry, hkept⟩ := mem_dropLosers.mp hentry
    obtain ⟨hpicked, hunbeaten⟩ := h.claimed entry hentry
    refine ⟨hpicked, ?_⟩
    rintro ⟨tieBreak, hmem, horder, hlost⟩
    obtain rfl | hmem := List.mem_cons.mp hmem
    · apply hlost
      dsimp only at horder
      apply hkept horder.symm hdecided
      rw [horder]
      exact QMultiHash.mem_values_of_mem hentry
    · exact hunbeaten ⟨tieBreak, hmem, horder, hlost⟩
  · intro pick hpick
    obtain hclaimed | hlost | hconfirmed := h.resolved pick hpick
    · by_cases hkept : (pick.2, pick.1) ∈ (d.dropLosers
          (d.desiredActionOrders.values d.currentStrivingActionOrder) winners).desiredActionOrders
      · exact .inl hkept
      · rw [mem_dropLosers] at hkept
        push Not at hkept
        obtain ⟨horder, _, _, hlost⟩ := hkept hclaimed
        exact .inr (.inl ⟨_, List.mem_cons_self, horder.symm, hlost⟩)
    · exact .inr (.inl hlost.cons)
    · exact .inr (.inr hconfirmed)

theorem mem_recordActionOrder {name : String} {chosen : List Int} {yields : Nat}
    {entry : Int × String} :
    entry ∈ (d.recordActionOrder name chosen yields).desiredActionOrders ↔
      entry ∈ d.desiredActionOrders ∨ entry.1 ∈ chosen ∧ entry.2 = name := by
  unfold recordActionOrder
  dsimp only
  induction chosen generalizing d with
  | nil => simp
  | cons order rest ih =>
    rw [List.foldl_cons]
    have hrest := @ih { d with desiredActionOrders := d.desiredActionOrders.insert order name }
    dsimp only at hrest
    rw [hrest, QMultiHash.insert, List.mem_cons, List.mem_cons, Prod.ext_iff]
    tauto

private theorem checkDesiredOrders_eq_some {desired chosen result : List Int} {yields total : Nat}
    (hcheck : d.checkDesiredOrders desired chosen yields = some (result, total)) :
    result = chosen ++ desired.filter (· ≠ 0) ∧ total = yields + desired.count 0 := by
  induction desired generalizing chosen yields with
  | nil =>
    cases hcheck
    simp
  | cons order rest ih =>
    rw [checkDesiredOrders] at hcheck
    split at hcheck
    · next hzero =>
      obtain ⟨rfl, rfl⟩ := ih hcheck
      subst hzero
      simp only [ne_eq, not_true_eq_false, decide_false, Bool.false_eq_true, not_false_eq_true,
        List.filter_cons_of_neg, List.count_cons_self, true_and]
      omega
    · next hnonzero =>
      split at hcheck
      · obtain ⟨rfl, rfl⟩ := ih hcheck
        simp [hnonzero]
      · cases hcheck

/-- What the record takes from a reply is what the machine takes from it. -/
theorem reply_eq {name : String} {desired chosen : List Int} {accepted : Bool} {yields : Nat}
    (haccepts : d.Accepts (.actionOrderReply name desired))
    (hchosen : d.chosenOrders (d.actionOrderRemainingSelections.value name (-1)) desired
      = (accepted, chosen, yields)) (record : Chronicle) :
    record.reply d (.actionOrderReply name desired) = record.inRound fun round =>
      { round with
        picks := chosen.map (fun order => (name, order)) ++ round.picks
        yields := (name, yields) :: round.yields } := by
  simp only [Chronicle.reply, if_pos haccepts, hchosen]
  unfold chosenOrders at hchosen
  split at hchosen
  · split at hchosen
    · next hcheck =>
      cases hchosen
      obtain ⟨rfl, rfl⟩ := checkDesiredOrders_eq_some hcheck
      simp
    · cases hchosen
      rfl
  · cases hchosen
    rfl

/-- A reply's picks are claims, as nothing has been fought for in the round. -/
theorem Claiming.recordActionOrder (h : d.Claiming record round rest) {name : String}
    {desired chosen : List Int} {accepted : Bool} {yields : Nat} (hnone : round.tieBreaks = [])
    (haccepts : d.Accepts (.actionOrderReply name desired))
    (hchosen : d.chosenOrders (d.actionOrderRemainingSelections.value name (-1)) desired
      = (accepted, chosen, yields)) :
    ∃ round', round'.tieBreaks = [] ∧ (d.recordActionOrder name chosen yields).Claiming
      (record.reply d (.actionOrderReply name desired)) round' rest := by
  have hunbeaten (p : String) (order : Int) (round' : PickRound) (h : round'.tieBreaks = []) :
      ¬ round'.Beaten p order := by
    rintro ⟨tieBreak, hmem, _⟩
    rw [h] at hmem
    exact List.not_mem_nil hmem
  obtain ⟨hlegal, _⟩ := chosenOrders_spec haccepts.2.2 hchosen
  rw [reply_eq haccepts hchosen, Chronicle.inRound_of_rounds h.rounds]
  refine ⟨{ round with
    picks := chosen.map (fun order => (name, order)) ++ round.picks
    yields := (name, yields) :: round.yields }, hnone, ?_⟩
  constructor
  · refine ⟨h.books.winners, fun p => ?_, fun order p hlookup => ?_⟩
    · have hyields := h.books.yields p
      rw [Chronicle.yielded, h.rounds] at hyields
      rw [yields_recordActionOrder, hyields]
      by_cases hname : name = p
      · simp [Chronicle.yielded, PickRound.yieldedBy, hname]
        omega
      · simp [Chronicle.yielded, PickRound.yieldedBy, hname]
    · obtain ⟨earlier, hearlier, hearned⟩ := h.books.earned order p hlookup
      rw [h.rounds] at hearlier
      obtain rfl | hearlier := List.mem_cons.mp hearlier
      · refine ⟨_, List.mem_cons_self, List.mem_append_right _ hearned.1,
          hunbeaten _ _ _ hnone, ?_⟩
        intro pick hpick horder
        obtain hnew | hold := List.mem_append.mp hpick
        · obtain ⟨other, hother, rfl⟩ := List.mem_map.mp hnew
          dsimp only at horder
          subst horder
          have hconfirmed : other ∈ d.confirmedActionOrders :=
            AList.lookup_isSome.mp (Option.isSome_of_eq_some hlookup)
          exact absurd hconfirmed (hlegal _ hother).2
        · obtain hsame | hlost := hearned.2.2 pick hold horder
          · exact .inl hsame
          · exact absurd hlost (hunbeaten _ _ _ hnone)
      · exact ⟨earlier, List.mem_cons_of_mem _ hearlier, hearned⟩
  · rfl
  · exact h.past
  · intro entry hentry
    refine ⟨?_, hunbeaten _ _ _ hnone⟩
    obtain hold | ⟨hnew, hname⟩ := mem_recordActionOrder.mp hentry
    · exact List.mem_append_right _ (h.claimed entry hold).1
    · rw [hname]
      exact List.mem_append_left _ (List.mem_map_of_mem hnew)
  · intro pick hpick
    obtain hnew | hold := List.mem_append.mp hpick
    · obtain ⟨order, horder, rfl⟩ := List.mem_map.mp hnew
      exact .inl (mem_recordActionOrder.mpr (.inr ⟨horder, rfl⟩))
    · obtain hclaimed | hlost | hconfirmed := h.resolved pick hold
      · exact .inl (mem_recordActionOrder.mpr (.inl hclaimed))
      · exact .inr (.inl hlost)
      · exact .inr (.inr hconfirmed)

/-- Every round of the record is over. -/
structure Filed (d : LogicP) (record : Chronicle) : Prop where
  books : Books d record
  rounds : ∀ round ∈ record.rounds, Closed d round

theorem Claiming.filed (h : d.Claiming record round rest) (hnone : d.desiredActionOrders = []) :
    d.Filed record where
  books := h.books
  rounds earlier hearlier := by
    rw [h.rounds] at hearlier
    obtain rfl | hearlier := List.mem_cons.mp hearlier
    · intro pick hpick
      obtain hclaimed | hover := h.resolved pick hpick
      · rw [hnone] at hclaimed
        exact absurd hclaimed List.not_mem_nil
      · exact hover
    · exact h.past earlier hearlier

/-- A new round starts without claims. -/
theorem Filed.enterActionOrder (h : d.Filed record) :
    d.enterActionOrder.Claiming record.newRound ⟨[], [], []⟩ record.rounds where
  books := by
    refine ⟨h.books.winners, fun p => ?_, fun order p hlookup => ?_⟩
    · rw [Chronicle.yielded_newRound]
      exact h.books.yields p
    · rw [Chronicle.earned_newRound]
      exact h.books.earned order p hlookup
  rounds := rfl
  past := h.rounds
  claimed entry hentry := absurd hentry List.not_mem_nil
  resolved pick hpick := absurd hpick List.not_mem_nil

theorem Filed.earned_iff (h : d.Filed record) {p : String} {order : Int} :
    record.Earned p order ↔ d.confirmedActionOrders.lookup order = some p := by
  constructor
  · rintro ⟨round, hround, hpicked, hunbeaten, _⟩
    exact (h.rounds round hround _ hpicked).resolve_left hunbeaten
  · exact h.books.earned order p

/-- A tie drops nobody. -/
theorem dropLosers_nil (d : LogicP) (striving : List String) : d.dropLosers striving [] = d := by
  rw [LogicP.dropLosers, if_pos rfl, List.foldl_nil]

theorem Claiming.setReplies (h : d.Claiming record round rest)
    (replies : QHash String RockPaperScissors) :
    Claiming { d with rpsForActionOrderReplies := replies } record round rest :=
  ⟨⟨h.books.winners, h.books.yields, h.books.earned⟩, h.rounds, h.past, h.claimed, h.resolved⟩

theorem lowestContestedOrder_desired (hnot : d.lowestContestedOrder ≠ 0) :
    ∃ name, (d.lowestContestedOrder, name) ∈ d.desiredActionOrders := by
  unfold lowestContestedOrder at hnot ⊢
  cases hfind : d.allOrders.find? fun order => d.desiredActionOrders.contains order with
  | none => simp [hfind] at hnot
  | some order =>
    have hcontains := List.find?_some hfind
    obtain ⟨entry, hentry, rfl⟩ := List.mem_map.mp (of_decide_eq_true hcontains)
    exact ⟨entry.2, hentry⟩

theorem held_eq_countP (orders : QHash Int String) (p : String) :
    held orders p = orders.entries.countP fun entry => entry.2 = p := by
  rw [held, List.count_eq_countP, List.countP_map]
  rfl

/-- The entries that were in the map before. -/
theorem countP_entries_of_lookup {orders result : QHash Int String} (p : String)
    (hkeep : ∀ order p, orders.lookup order = some p → result.lookup order = some p) :
    (result.entries.countP fun entry => entry.2 = p ∧ orders.lookup entry.1 = some p) =
      held orders p := by
  have hresult := List.NodupKeys.nodup result.nodupKeys
  have horders := List.NodupKeys.nodup orders.nodupKeys
  rw [held_eq_countP, List.countP_eq_length_filter, List.countP_eq_length_filter]
  apply List.Perm.length_eq
  rw [List.perm_ext_iff_of_nodup (hresult.filter _) (horders.filter _)]
  rintro ⟨order, q⟩
  simp only [List.mem_filter, decide_eq_true_eq]
  constructor
  · rintro ⟨_, rfl, hlookup⟩
    exact ⟨QHash.lookup_eq_some.mp hlookup, rfl⟩
  · rintro ⟨hentry, rfl⟩
    have hlookup := QHash.lookup_eq_some.mpr hentry
    exact ⟨QHash.lookup_eq_some.mp (hkeep order q hlookup), rfl, hlookup⟩

/-- With nothing to fight for, what is handed out makes up for the yields. -/
theorem Filed.honoured (h : d.Filed record) (hshared : d.Shared)
    (hnonneg : ∀ p, 0 ≤ d.unsettledOf p) (hnobody : d.strivingActionCount.count = 0)
    {result : QHash Int String}
    (hhand : handOut d.remainingActionOrders 0 d.leftoverPlayers d.confirmedActionOrders =
      .ok result) : record.Honoured result := by
  obtain ⟨confirmed, hconfirmed, hheld, _, hkeep⟩ := hshared.handOut
  obtain rfl : result = confirmed := Except.ok.inj (hhand.symm.trans hconfirmed)
  constructor
  · intro p order hearned
    exact hkeep order p (h.earned_iff.mp hearned)
  · intro p order hlookup
    by_cases hsome : ∃ q, record.Earned q order
    · obtain ⟨q, hearned⟩ := hsome
      have hq := hkeep order q (h.earned_iff.mp hearned)
      rw [hlookup] at hq
      obtain rfl := Option.some.inj hq
      exact .inl hearned
    · exact .inr (not_exists.mp hsome)
  · intro p
    have hsettled : d.unsettledOf p = 0 := by
      rw [← hshared.strivingActionCount_value p (hnonneg p), QHash.value,
        AList.lookup_eq_none.mpr (QHash.count_eq_zero_iff.mp hnobody p)]
      rfl
    have hyields := h.books.yields p
    have hall := hheld p
    have hbefore := countP_entries_of_lookup p hkeep
    have hsplit := List.countP_eq_countP_filter_add result.entries
      (fun entry => decide (entry.2 = p))
      (fun entry => decide (d.confirmedActionOrders.lookup entry.1 = some p))
    rw [held_eq_countP] at hall
    simp only [List.countP_filter, ← Bool.decide_and, ← decide_not] at hsplit
    rw [hall, hbefore] at hsplit
    unfold unsettledOf at hsettled
    simp only [Chronicle.unearned, h.earned_iff]
    omega

end LogicP

namespace Logic

open LogicP

variable {self self' : Logic (List Signal)} {record : Chronicle} {round : PickRound}
  {rest : List PickRound} {env : List Signal} {before : LogicP}

/-- What the record has of a negotiation that is on. -/
def ChoicesInv (d : LogicP) (record : Chronicle) : Prop :=
  match d.state with
  | .ActionOrder => (∀ p, d.accounted p = d.rpsForActionWinners.count p) ∧
      ∃ round rest, d.Claiming record round rest ∧ round.tieBreaks = []
  | .RpsForActionOrder => d.Affordable ∧
      (∃ name, (d.currentStrivingActionOrder, name) ∈ d.desiredActionOrders) ∧
      ∃ round rest, d.Claiming record round rest
  | _ => True

theorem ChoicesInv.of_not_negotiates {d : LogicP} (hstate : ¬ Negotiates d) :
    ChoicesInv d record := by
  unfold Negotiates at hstate
  unfold ChoicesInv
  cases hd : d.state with
  | ActionOrder | RpsForActionOrder => simp [hd] at hstate
  | _ => trivial

theorem choicesInv_rpsForActionOrder {d : LogicP} (hstate : d.state = .RpsForActionOrder) :
    ChoicesInv d record ↔ d.Affordable ∧
      (∃ name, (d.currentStrivingActionOrder, name) ∈ d.desiredActionOrders) ∧
      ∃ round rest, d.Claiming record round rest := by
  unfold ChoicesInv
  rw [hstate]

theorem ChoicesInv.setReplies {d : LogicP} (h : ChoicesInv d record)
    (hstate : d.state = .RpsForActionOrder) (replies : QHash String RockPaperScissors) :
    ChoicesInv { d with rpsForActionOrderReplies := replies } record := by
  obtain ⟨hafford, hclaimed, round, rest, hclaiming⟩ := (choicesInv_rpsForActionOrder hstate).mp h
  rw [choicesInv_rpsForActionOrder (by exact hstate)]
  exact ⟨hafford, hclaimed, round, rest, hclaiming.setReplies replies⟩

/-- What is on record once the signals after `env` have been heard: a result
among them is right about it. -/
def Chronicled (env : List Signal) (before : LogicP) (record : Chronicle)
    (logic : Logic (List Signal)) : Prop :=
  ∃ signals, logic.env = env ++ signals ∧ ChoicesInv logic.d (record.hear before signals) ∧
    ∀ result, .actionOrderResult result ∈ signals →
      2 ≤ (record.hear before signals).winners.dedup.length →
      (record.hear before signals).Honoured result

theorem Chronicled.after (signal : Signal) (hasks : signal.asksForOrders = false)
    (hresult : ∀ result, signal ≠ .actionOrderResult result)
    (h : Chronicled (env ++ [signal]) before (record.observe before signal) self) :
    Chronicled env before record self := by
  obtain ⟨signals, henv, hinv, hhonoured⟩ := h
  refine ⟨signal :: signals, by rw [henv, List.append_assoc, List.singleton_append], ?_⟩
  rw [Chronicle.hear_cons hasks]
  refine ⟨hinv, fun result hmem htwo => ?_⟩
  obtain heq | hmem := List.mem_cons.mp hmem
  · exact absurd heq.symm (hresult result)
  · exact hhonoured result hmem htwo

theorem Chronicled.still (hstate : ¬ Negotiates self.d) (hstill : Appends Still env self.env) :
    Chronicled env before record self := by
  obtain ⟨signals, henv, hstill⟩ := hstill
  refine ⟨signals, henv, .of_not_negotiates hstate, fun result hmem _ => ?_⟩
  exact absurd rfl ((hstill _ hmem).2.2 result)

theorem Chronicled.unchanged (henv : self.env = env) (hinv : ChoicesInv self.d record) :
    Chronicled env before record self :=
  ⟨[], by rw [henv, List.append_nil], hinv, fun _ hmem => absurd hmem List.not_mem_nil⟩

theorem StartActionOrder.chronicled (hstep : StartActionOrder self self')
    (h : self.d.Filed record) (hshared : self.d.Shared) (hnonneg : ∀ p, 0 ≤ self.d.unsettledOf p)
    (hgoing : self.d.room.isRoundOver = false) : Chronicled self.env before record self' := by
  cases hstep with
  | @settled confirmed _ hnothing hhand haction =>
    have hstill := haction.still
    obtain ⟨later, henv, hlater⟩ := hstill
    have hsame : record.hear before (.actionOrderResult confirmed :: later) = record := by
      rw [Chronicle.hear_cons rfl]
      exact Chronicle.hear_still hlater before record
    refine ⟨.actionOrderResult confirmed :: later, ?_, ?_, ?_⟩
    · rw [henv, List.append_assoc, List.singleton_append]
    · exact .of_not_negotiates (haction.not_negotiates (.inl hgoing))
    · intro result hmem htwo
      rw [hsame] at htwo ⊢
      obtain heq | hmem := List.mem_cons.mp hmem
      · cases heq
        rw [h.books.winners] at htwo
        have hnobody : self.d.strivingActionCount.count = 0 := by
          simp only [nothingLeftToFightFor, Bool.or_eq_true, decide_eq_true_eq] at hnothing
          omega
        exact h.honoured hshared hnonneg hnobody hhand
      · exact absurd rfl ((hlater _ hmem).2.2 result)
  | contested hnothing =>
    refine ⟨_, rfl, ?_, fun result hmem => ?_⟩
    · rw [Chronicle.hear_actionOrderRequests hnothing]
      exact ⟨hshared.accounted_enterActionOrder hnonneg, _, _, h.enterActionOrder, rfl⟩
    · obtain ⟨name, _, heq⟩ := List.mem_map.mp hmem
      cases heq

theorem StartRpsForActionOrder.chronicled (hstep : StartRpsForActionOrder self self')
    (h : self.d.Claiming record round rest) (hconserved : self.d.Conserved)
    (hafford : self.d.Affordable) (hgoing : self.d.room.isRoundOver = false) :
    Chronicled self.env before record self' := by
  have hconfirm := hconserved.confirmUncontested.1
  have hclaiming := h.confirmUncontested hconserved
  have hafford' : self.d.confirmUncontested.Affordable := by
    intro p
    rw [hconserved.accounted_confirmUncontested, confirmUncontested_rpsForActionWinners]
    exact hafford p
  cases hstep with
  | uncontested hnone hstart =>
    refine hstart.chronicled (hclaiming.filed hnone) hconfirm.shared (fun p => ?_) ?_
    · have hafford := hafford' p
      have hselections := hconfirm.selections_nonneg p
      unfold accounted at hafford
      unfold unsettledOf
      dsimp only
      omega
    · exact (confirmUncontested_room self.d).symm ▸ hgoing
  | contested hsome horder hnot =>
    refine ⟨_, rfl, ?_, fun result hmem => absurd (List.mem_singleton.mp hmem) (by simp)⟩
    have hstill (names : List String) (order : Int) :
        Still (.requestRpsForActionOrder names order) := by
      simp [Still, Signal.asksForOrders]
    rw [Chronicle.hear_still (List.forall_mem_singleton.mpr (hstill _ _))]
    refine ⟨hafford', ?_, round, rest, ?_⟩
    · subst horder
      exact lowestContestedOrder_desired hnot
    · exact ⟨⟨hclaiming.books.winners, hclaiming.books.yields, hclaiming.books.earned⟩,
        hclaiming.rounds, hclaiming.past, hclaiming.claimed, hclaiming.resolved⟩

theorem RpsForAction.chronicled (hstep : RpsForAction self self')
    (hstate : before.state = .RpsForAction) (hwaiting : ¬ Negotiates self.d)
    (hreplies : ∀ p ∈ self.d.rpsForActionReplies, p ∈ self.d.room.playerNames) :
    Chronicled self.env before record self' := by
  cases hstep with
  | waiting => exact .still hwaiting (.refl _)
  | tie =>
    apply Chronicled.after (.rpsResult self.d.rpsForActionReplies) rfl (by simp)
    apply Chronicled.still (by simp [Negotiates, enterRpsForAction])
    exact .append (by simp [Still, Signal.asksForOrders])
  | @decided winners _ hcount hwinners hsome hstart =>
    have htwo := two_le_count_of_winners (hwinners ▸ hsome)
    have hgoing : self.d.room.isRoundOver = false := by
      rw [hcount] at htwo
      simp only [Room.isRoundOver, decide_eq_false_iff_not]
      omega
    subst hwinners
    apply Chronicled.after (.rpsResult self.d.rpsForActionReplies) rfl (by simp)
    have hnew : record.observe before (.rpsResult self.d.rpsForActionReplies) =
        ⟨rockPaperScissorsWinners self.d.rpsForActionReplies, []⟩ := if_pos hstate
    rw [hnew]
    refine hstart.chronicled ⟨⟨rfl, fun p => rfl, ?_⟩, ?_⟩ (.start hreplies) (fun p => ?_) hgoing
    · exact fun order p hlookup => by cases hlookup
    · exact fun earlier hearlier => absurd hearlier List.not_mem_nil
    · have hheld : held (∅ : QHash Int String) p = 0 := rfl
      have hyields : QHash.value (∅ : QHash String Int) p 0 = 0 := rfl
      unfold unsettledOf
      dsimp only
      omega

/-- A reply of a tie-break, and what follows from the last one. -/
theorem RpsForActionOrder.chronicled (hstep : RpsForActionOrder self self')
    (hbefore : before.state = .RpsForActionOrder)
    (hstriving : before.currentStrivingActionOrder = self.d.currentStrivingActionOrder)
    (hstate : self.d.state = .RpsForActionOrder) (hconserved : self.d.Conserved)
    (hgoing : self.d.room.isRoundOver = false) (hinv : ChoicesInv self.d record) :
    Chronicled self.env before record self' := by
  cases hstep with
  | waiting => exact .unchanged rfl hinv
  | decided _ hstart =>
    obtain ⟨hafford, ⟨name, hclaimed⟩, round, rest, hclaiming⟩ :=
      (choicesInv_rpsForActionOrder hstate).mp hinv
    obtain ⟨_, hopen⟩ := hconserved.desired_open _ hclaimed
    apply Chronicled.after (.rpsResult self.d.rpsForActionOrderReplies) rfl (by simp)
    have hnot : before.state ≠ .RpsForAction := by simp [hbefore]
    have hconserved' := hconserved.dropLosers
      (self.d.desiredActionOrders.values self.d.currentStrivingActionOrder)
      (rockPaperScissorsWinners self.d.rpsForActionOrderReplies)
    have hafford' := LogicP.Affordable.dropLosers hafford
      (self.d.desiredActionOrders.values self.d.currentStrivingActionOrder)
      (rockPaperScissorsWinners self.d.rpsForActionOrderReplies)
    by_cases hdecided : rockPaperScissorsWinners self.d.rpsForActionOrderReplies = []
    · have hsame : record.observe before (.rpsResult self.d.rpsForActionOrderReplies) = record := by
        simp [Chronicle.observe, hnot, hdecided]
      rw [hsame]
      have hclaiming' : Claiming (self.d.dropLosers
          (self.d.desiredActionOrders.values self.d.currentStrivingActionOrder)
          (rockPaperScissorsWinners self.d.rpsForActionOrderReplies)) record round rest := by
        rw [hdecided, dropLosers_nil]
        exact hclaiming
      exact hstart.chronicled hclaiming' hconserved' hafford' hgoing
    · rw [Chronicle.observe, if_neg hnot, if_neg hdecided, hstriving]
      exact hstart.chronicled (hclaiming.tieBreak hopen hdecided) hconserved' hafford' hgoing

theorem CallStep.chronicled {c : Call} {ret : Bool} (hneg : NegotiationInv self)
    (hinv : ChoicesInv self.d record) (hstep : CallStep self c ret self') :
    Chronicled self.env self.d (record.reply self.d c) self' := by
  have hphase := hneg.phase
  unfold PhaseInv at hphase
  cases hstep with
  | rejected hreject =>
    have hsame : record.reply self.d c = record := by
      cases c with
      | actionOrderReply => exact if_neg hreject
      | _ => rfl
    rw [hsame]
    exact .unchanged rfl hinv
  | addPlayer hstate | removePlayer hstate =>
    exact .still (by simp [Negotiates, hstate]) (.refl _)
  | roundStart hstate =>
    apply Chronicled.still
    · simp [Negotiates, enterRpsForAction]
    · exact .append (by simp [Still, Signal.asksForOrders])
  | rpsForAction hmember hstate _ hstep =>
    rw [hstate] at hphase
    refine hstep.chronicled hstate (by simp [Negotiates, hstate]) fun p hp => ?_
    obtain rfl | hp := (AList.mem_insert _).mp hp
    · exact hmember
    · exact hphase.1 p hp
  | rpsForActionOrder _ hstate _ hstep =>
    rw [hstate] at hphase
    obtain ⟨hnegotiating, hconserved, _⟩ := hphase
    exact hstep.chronicled hstate rfl hstate (hconserved.reply _) hnegotiating.going
      (hinv.setReplies hstate _)
  | @pick name desired _ chosen yields _ hmember hstate hasked hchosen hrecord =>
    rw [hstate] at hphase
    simp only [ChoicesInv, hstate] at hinv
    obtain ⟨hbalanced, round, rest, hclaiming, hnone⟩ := hinv
    obtain ⟨round', hnone', hclaiming'⟩ :=
      hclaiming.recordActionOrder hnone ⟨hmember, hstate, hasked⟩ hchosen
    subst hrecord
    apply Chronicled.unchanged rfl
    have hstate' : (self.d.recordActionOrder name chosen yields).state = .ActionOrder := hstate
    simp only [ChoicesInv, hstate']
    refine ⟨fun p => ?_, round', rest, hclaiming', hnone'⟩
    rw [accounted_recordActionOrder hasked hchosen]
    exact hbalanced p
  | lastPick hmember hstate hasked hchosen hrecord _ hstep =>
    rw [hstate] at hphase
    simp only [ChoicesInv, hstate] at hinv
    obtain ⟨hbalanced, round, rest, hclaiming, hnone⟩ := hinv
    obtain ⟨round', _, hclaiming'⟩ :=
      hclaiming.recordActionOrder hnone ⟨hmember, hstate, hasked⟩ hchosen
    subst hrecord
    refine hstep.chronicled hclaiming' (hphase.2.recordActionOrder hasked hchosen) (fun p => ?_)
      hphase.1.going
    rw [accounted_recordActionOrder hasked hchosen]
    exact (hbalanced p).le
  | action _ hstate _ _ hperform hstep =>
    obtain ⟨hframe, _, _⟩ := (performAction_cases hperform).frame
    refine .still (hstep.not_negotiates (.inr ?_)) (Appends.trans (.append ?_) hstep.still)
    · rw [hframe]
      exact hstate
    · simp [Still, Signal.asksForOrders]
  | upgrade _ hstate _ _ _ hstep =>
    cases hstep with
    | waiting => exact .still (by simp [Negotiates, hstate]) (.refl _)
    | gameOver | result =>
      apply Chronicled.still (by simp [Negotiates])
      exact .append (by simp [Still, Signal.asksForOrders])

theorem choices_invariant :
    Chronicle.system.Invariant fun s => NegotiationInv s.1 ∧ ChoicesInv s.1.d s.2 := by
  refine ⟨?_, fun s c t h hstep => ?_⟩
  · rintro ⟨logic, record⟩ ⟨⟨conf, rfl⟩, rfl⟩
    exact ⟨negotiationInv_invariant.init _ ⟨conf, rfl⟩, trivial⟩
  · obtain ⟨hneg, hinv⟩ := h
    obtain ⟨⟨ret, hcall⟩, hnote⟩ := hstep
    have hcases := call_cases hcall
    obtain ⟨signals, henv, hchoices, _⟩ := hcases.chronicled hneg hinv
    rw [hnote, Chronicle.note_of_env henv]
    exact ⟨hneg.call hcases, hchoices⟩

/-- In every run of the logic, whoever calls its slots: where a negotiation of two
or more winners ends, each order goes to the player that earned it, or is left
over, and a player gets as many of the left over ones as it yielded selections. -/
theorem choices_honoured {s t : Logic (List Signal) × Chronicle} {c : Call}
    (hreach : Chronicle.system.Reachable s) (hstep : Chronicle.system.step s c t)
    {result : QHash Int String}
    (hresult : .actionOrderResult result ∈ t.1.env.drop s.1.env.length)
    (htwo : 2 ≤ t.2.winners.dedup.length) : t.2.Honoured result := by
  obtain ⟨hneg, hinv⟩ := choices_invariant.of_reachable hreach
  obtain ⟨⟨ret, hcall⟩, hnote⟩ := hstep
  obtain ⟨signals, henv, _, hhonoured⟩ := (call_cases hcall).chronicled hneg hinv
  rw [henv, List.drop_left] at hresult
  rw [hnote, Chronicle.note_of_env henv] at htwo ⊢
  exact hhonoured result hresult htwo

def Signal.reports (P : QHash Int String → Bool) : Signal → Bool
  | .actionOrderResult result => P result
  | _ => false

/-- A's yield ends the negotiation: B has earned the first order, and A gets the other. -/
def endsContested (s : Logic (List Signal) × Chronicle) : Bool :=
  (recordedCall Chronicle.note s (.actionOrderReply "A" [0])).any fun t =>
    decide (2 ≤ t.2.winners.dedup.length ∧ t.2.Earned "B" 1 ∧ t.2.yielded "A" = 1) &&
      (t.1.env.drop s.1.env.length).any (Signal.reports fun result =>
        decide (result.lookup 1 = some "B" ∧ result.lookup 2 = some "A"))

/-- B wins the tie-break for the first order, and A, asked again, yields. -/
theorem choices_honoured_contested : ∃ s c t result, Chronicle.system.Reachable s ∧
    Chronicle.system.step s c t ∧ result.lookup 1 = some "B" ∧ result.lookup 2 = some "A" ∧
    t.2.Earned "B" 1 ∧ t.2.yielded "A" = 1 ∧ t.2.Honoured result := by
  obtain ⟨s, hreach, hlast⟩ := @exists_recorded_run Chronicle ⟨[], []⟩ Chronicle.note .defaults
    (fun _ _ => true)
    (twoWinners ++ [.actionOrderReply "A" [1], .actionOrderReply "B" [1], .rpsReply "A" .Rock,
      .rpsReply "B" .Paper]) endsContested (by decide +kernel)
  have hreach : Chronicle.system.Reachable s := .of_guarded hreach
  obtain ⟨t, hcall, hlast⟩ := (Option.any_eq_true _ _).mp hlast
  obtain ⟨hrecord, hsignals⟩ := Bool.and_eq_true_iff.mp hlast
  obtain ⟨htwo, hearned, hyielded⟩ := of_decide_eq_true hrecord
  obtain ⟨signal, hresult, hreports⟩ := List.any_eq_true.mp hsignals
  have hstep : Chronicle.system.step s (.actionOrderReply "A" [0]) t := step_of_recordedCall hcall
  cases signal with
  | actionOrderResult result =>
    obtain ⟨hB, hA⟩ := of_decide_eq_true hreports
    exact ⟨s, _, t, result, hreach, hstep, hB, hA, hearned, hyielded,
      choices_honoured hreach hstep hresult htwo⟩
  | _ => cases hreports

end Logic

end QMdmmCore
