import QMdmm.Core.ActionOrders

namespace QMdmmCore

open Data Logic

namespace LogicP

variable {d : LogicP}

/-- While orders are contested, the lowest of them exists. -/
theorem lowestContestedOrder_ne_zero (h : d.Conserved) (hsome : d.desiredActionOrders ≠ []) :
    d.lowestContestedOrder ≠ 0 := by
  obtain ⟨entry, hentry⟩ := List.exists_mem_of_ne_nil _ hsome
  have hopen := mem_allOrders.mpr (h.desired_open entry hentry).1
  have hcontains : d.desiredActionOrders.contains entry.1 = true := by
    simpa [QMultiHash.contains] using ⟨entry.2, hentry⟩
  unfold lowestContestedOrder
  cases hfind : d.allOrders.find? fun order => d.desiredActionOrders.contains order with
  | none => exact absurd hcontains (by simpa using List.find?_eq_none.mp hfind _ hopen)
  | some order =>
    have := (mem_allOrders.mp (List.mem_of_find?_eq_some hfind)).1
    simp only [Option.getD_some]
    omega

theorem actionFeasible_ok {name : String} (hmember : name ∈ d.room.playerNames)
    (action : Action) (toPlayer : String) (toPlace : Int) :
    ∃ accepted, d.actionFeasible name action toPlayer toPlace = .ok accepted := by
  obtain ⟨source, hsource⟩ := deref_of_mem hmember
  unfold actionFeasible
  rw [hsource]
  cases action <;> exact ⟨_, rfl⟩

/-- A feasible action, and the one an infeasible action is replaced by, follow
no null pointer. -/
theorem performAction_ok {name toPlayer : String} {action : Action} {toPlace : Int} {accepted : Bool}
    (hmember : name ∈ d.room.playerNames)
    (hfeasible : d.actionFeasible name action toPlayer toPlace = .ok accepted) :
    ∃ result, d.performAction name (if accepted then action else .DoNothing) toPlayer toPlace
      = .ok result := by
  obtain ⟨source, hsource⟩ := deref_of_mem hmember
  cases accepted with
  | false =>
    simp only [Bool.false_eq_true, if_false, performAction, hsource]
    exact ⟨_, rfl⟩
  | true =>
    unfold actionFeasible at hfeasible
    rw [hsource] at hfeasible
    simp only [if_true, performAction, hsource, Except.ok_bind]
    have htarget {can : Player → Bool}
        (hany : (pure ((d.room.player toPlayer).any can) : Except Fault Bool) = .ok true) :
        ∃ target, d.deref toPlayer = .ok target := by
      cases hplayer : d.room.player toPlayer with
      | none => simp [hplayer] at hany
      | some target => exact ⟨target, deref_eq_ok.mpr hplayer⟩
    cases action with
    | DoNothing | BuyKnife | BuyHorse | Move => exact ⟨_, rfl⟩
    | Slash | Kick | LetMove =>
      obtain ⟨target, htarget⟩ := htarget hfeasible
      simp only [htarget]
      exact ⟨_, rfl⟩

end LogicP

namespace Logic

open LogicP

variable {self self' : Logic (List Signal)}

theorem startActionOrder_ok (self : Logic (List Signal)) (h : self.d.Shared) : ∃ self', startActionOrder post self = .ok self' := by
  unfold startActionOrder
  split
  · obtain ⟨result, hresult, hheld, horders, _⟩ := h.handOut
    rw [hresult]
    exact startAction_ok _ fun order hlater horder =>
      holders_of_handOut h hheld horders order hlater horder
  · rw [requestActionOrders_post]
    exact ⟨_, rfl⟩

theorem startRpsForActionOrder_ok (self : Logic (List Signal)) (h : self.d.Conserved) :
    ∃ self', startRpsForActionOrder post self = .ok self' := by
  have hconfirm := h.confirmUncontested.1
  unfold startRpsForActionOrder
  dsimp only [modify]
  split
  · exact startActionOrder_ok _ hconfirm.shared
  · next hsome =>
    rw [if_neg (lowestContestedOrder_ne_zero hconfirm hsome)]
    exact ⟨_, rfl⟩

theorem rpsForAction_ok (self : Logic (List Signal))
    (hreplies : ∀ p ∈ self.d.rpsForActionReplies, p ∈ self.d.room.playerNames) :
    ∃ self', rpsForAction post self = .ok self' := by
  unfold rpsForAction
  split
  · simp only [post_apply, Except.ok_bind]
    split
    · exact ⟨_, rfl⟩
    · exact startActionOrder_ok _ (Shared.start hreplies)
  · exact ⟨_, rfl⟩

theorem rpsForActionOrder_ok (self : Logic (List Signal)) (h : self.d.Conserved) :
    ∃ self', rpsForActionOrder post self = .ok self' := by
  unfold rpsForActionOrder
  dsimp only
  split
  · exact startRpsForActionOrder_ok _ (h.dropLosers _ _)
  · exact ⟨_, rfl⟩

theorem actionOrder_ok (self : Logic (List Signal)) (h : self.d.Conserved) :
    ∃ self', actionOrder post self = .ok self' := by
  unfold actionOrder
  split
  · exact startRpsForActionOrder_ok _ h
  · exact ⟨_, rfl⟩

theorem addPlayer_ok (self : Logic (List Signal)) (name : String) :
    ∃ result, self.addPlayer name = .ok result := by
  unfold Logic.addPlayer
  split
  · split <;> exact ⟨_, rfl⟩
  · exact ⟨_, rfl⟩

theorem removePlayer_ok (self : Logic (List Signal)) (name : String) :
    ∃ result, self.removePlayer name = .ok result := by
  unfold Logic.removePlayer
  split
  · split <;> exact ⟨_, rfl⟩
  · exact ⟨_, rfl⟩

theorem roundStart_ok (self : Logic (List Signal)) : ∃ result, self.roundStart post = .ok result := by
  unfold Logic.roundStart
  split <;> exact ⟨_, rfl⟩

theorem NegotiationInv.rpsReply_ok (h : NegotiationInv self) (name : String)
    (rps : RockPaperScissors) : ∃ result, self.rpsReply post name rps = .ok result := by
  have hphase := h.phase
  unfold PhaseInv at hphase
  unfold Logic.rpsReply
  split
  · next hplayer =>
    have hmember := Room.player_isSome.mp hplayer
    split
    · next hready =>
      rw [hready.1] at hphase
      obtain ⟨next, hnext⟩ := rpsForAction_ok (self.modify fun d =>
        { d with rpsForActionReplies := AList.insert name rps d.rpsForActionReplies })
        fun p hp => by
          rcases (AList.mem_insert _).mp hp with rfl | hp
          · exact hmember
          · exact hphase.1 p hp
      rw [hnext]
      exact ⟨_, rfl⟩
    · split
      · next hready =>
        rw [hready.1] at hphase
        obtain ⟨next, hnext⟩ := rpsForActionOrder_ok (self.modify fun d =>
          { d with
            rpsForActionOrderReplies := AList.insert name rps d.rpsForActionOrderReplies })
          (hphase.2.1.reply _)
        rw [hnext]
        exact ⟨_, rfl⟩
      · exact ⟨_, rfl⟩
  · exact ⟨_, rfl⟩

theorem NegotiationInv.actionOrderReply_ok (h : NegotiationInv self) (name : String)
    (desired : List Int) : ∃ result, self.actionOrderReply post name desired = .ok result := by
  have hphase := h.phase
  unfold PhaseInv at hphase
  unfold Logic.actionOrderReply
  split
  · next hready =>
    rw [hready.2] at hphase
    dsimp only
    split
    · next hasked =>
      rcases hchosen : self.d.chosenOrders
        (self.d.actionOrderRemainingSelections.value name (-1)) desired with ⟨accepted, chosen, yields⟩
      obtain ⟨next, hnext⟩ := actionOrder_ok (self.modify fun d =>
        d.recordActionOrder name chosen yields) (hphase.2.recordActionOrder hasked hchosen)
      rw [hnext]
      exact ⟨_, rfl⟩
    · exact ⟨_, rfl⟩
  · exact ⟨_, rfl⟩

theorem NegotiationInv.actionReply_ok (h : NegotiationInv self) (name : String) (action : Action)
    (toPlayer : String) (toPlace : Int) :
    ∃ result, self.actionReply post name action toPlayer toPlace = .ok result := by
  have hphase := h.phase
  unfold PhaseInv at hphase
  unfold Logic.actionReply
  split
  · next hready =>
    rw [hready.2] at hphase
    have hmember := Room.player_isSome.mp hready.1
    obtain ⟨accepted, hfeasible⟩ := actionFeasible_ok hmember action toPlayer toPlace
    obtain ⟨⟨ok, d'⟩, hperform⟩ := performAction_ok hmember hfeasible
    obtain ⟨hframe, hnames, _⟩ := (performAction_cases hperform).frame
    simp only [hfeasible, Except.ok_bind, applyAction, post_apply, hperform, Except.pure_eq_ok]
    obtain ⟨next, hnext⟩ := startAction_ok ⟨d', self.env ++
        [.actionResult name (if accepted then action else .DoNothing) toPlayer toPlace]⟩
      fun order hlater horder => by
        rw [hframe] at hlater horder
        rw [hnames, hframe]
        exact hphase order (by omega) horder
    rw [hnext]
    exact ⟨_, rfl⟩
  · exact ⟨_, rfl⟩

/-- No call faults, except perhaps while upgrades are collected: every index is
in range, every player that is looked up exists, and no assertion fails. -/
theorem NegotiationInv.call_ok (h : NegotiationInv self) (hstate : self.d.state ≠ .Upgrade)
    (c : Call) : ∃ result, self.call post c = .ok result := by
  cases c with
  | addPlayer name => exact addPlayer_ok self name
  | removePlayer name => exact removePlayer_ok self name
  | roundStart => exact roundStart_ok self
  | rpsReply name rps => exact h.rpsReply_ok name rps
  | actionOrderReply name desired => exact h.actionOrderReply_ok name desired
  | actionReply name action toPlayer toPlace => exact h.actionReply_ok name action toPlayer toPlace
  | upgradeReply name items =>
    simp only [Logic.call, Logic.upgradeReply]
    split
    · exact ⟨_, rfl⟩
    · rw [if_neg fun hready => hstate hready.1]
      exact ⟨_, rfl⟩

theorem StartAction.confirmedActionOrders (hstep : StartAction self self') :
    self'.d.confirmedActionOrders = self.d.confirmedActionOrders := by
  cases hstep with
  | next _ hnext => cases hnext <;> rfl
  | roundOver => rfl

theorem StartActionOrder.keeps (hstep : StartActionOrder self self') (h : self.d.Shared) :
    Keeps self.d self'.d := by
  cases hstep with
  | @settled confirmed _ _ hhand haction =>
    obtain ⟨result, hresult, _, _, hkeep⟩ := h.handOut
    obtain rfl : confirmed = result := Except.ok.inj (hhand.symm.trans hresult)
    intro order p hlookup
    rw [haction.confirmedActionOrders]
    exact hkeep order p hlookup
  | contested => exact fun _ _ hlookup => hlookup

theorem StartRpsForActionOrder.keeps (hstep : StartRpsForActionOrder self self')
    (h : self.d.Conserved) : Keeps self.d self'.d := by
  obtain ⟨hconfirm, hkeeps⟩ := h.confirmUncontested
  cases hstep with
  | uncontested _ hstart => exact hkeeps.trans (hstart.keeps hconfirm.shared)
  | contested => exact hkeeps

/-- During a negotiation no call takes a confirmed order away again. -/
theorem NegotiationInv.keeps (h : NegotiationInv self) {c : Call} {ret : Bool}
    (hstate : self.d.state = .ActionOrder ∨ self.d.state = .RpsForActionOrder)
    (hstep : CallStep self c ret self') : Keeps self.d self'.d := by
  have hphase := h.phase
  unfold PhaseInv at hphase
  cases hstep with
  | rejected | addPlayer | removePlayer | roundStart => exact fun _ _ hlookup => hlookup
  | rpsForAction _ hother | action _ hother | upgrade _ hother =>
    rw [hother] at hstate
    simp at hstate
  | rpsForActionOrder _ hother _ hstep =>
    rw [hother] at hphase
    cases hstep with
    | waiting => exact fun _ _ hlookup => hlookup
    | decided _ hstart =>
      exact fun order p hlookup =>
        hstart.keeps ((hphase.2.1.reply _).dropLosers _ _) order p hlookup
  | pick _ _ _ _ hrecord =>
    rw [hrecord]
    exact fun _ _ hlookup => hlookup
  | lastPick _ hother hasked hchosen hrecord _ hstep =>
    rw [hother] at hphase
    have hrecorded := hphase.2.recordActionOrder hasked hchosen
    rw [← hrecord] at hrecorded
    intro order p hlookup
    refine hstep.keeps hrecorded order p ?_
    rw [hrecord]
    exact hlookup

/-- In every run of the logic, whoever calls its slots, every negotiation that
ends has handed the orders out as a perfect partition, no call of it faults, and
a confirmed order stays with its player. -/
theorem actionOrder_perfect_partition (hreach : system.Reachable self) :
    (∀ earlier result later, self.env = earlier ++ .actionOrderResult result :: later →
      PerfectPartition (Outcome.of earlier).judgers result) ∧
    (self.d.state ≠ .Upgrade → ∀ c, ∃ ret self', self.call post c = .ok (ret, self')) ∧
    (self.d.state = .ActionOrder ∨ self.d.state = .RpsForActionOrder →
      ∀ c ret self', self.call post c = .ok (ret, self') →
        ∀ order p, self.d.confirmedActionOrders.lookup order = some p →
          self'.d.confirmedActionOrders.lookup order = some p) := by
  have hinv := negotiationInv_invariant.of_reachable hreach
  refine ⟨hinv.partitions, fun hstate c => ?_, fun hstate c ret self' hcall => ?_⟩
  · obtain ⟨⟨ret, self'⟩, hcall⟩ := hinv.call_ok hstate c
    exact ⟨ret, self', hcall⟩
  · exact hinv.keeps hstate (call_cases hcall)

/-- A tie for the first order, a tie-break, and a yield. -/
def contestedCalls : List Call := [
  .addPlayer "A", .addPlayer "B", .addPlayer "C", .roundStart,
  .rpsReply "A" .Rock, .rpsReply "B" .Rock, .rpsReply "C" .Scissors,
  .actionOrderReply "A" [1], .actionOrderReply "B" [1],
  .rpsReply "A" .Rock, .rpsReply "B" .Paper, .actionOrderReply "A" [0]]

theorem actionOrder_perfect_partition_contested :
    ∃ self, system.Reachable self ∧
      (∃ earlier result later, self.env = earlier ++ .actionOrderResult result :: later ∧
        PerfectPartition (Outcome.of earlier).judgers result) := by
  obtain ⟨self, hreach, hresult⟩ := exists_reachable .defaults contestedCalls
    (fun self => self.env.any fun signal => signal matches .actionOrderResult _) (by decide)
  obtain ⟨signal, hmem, hresult⟩ := List.any_eq_true.mp hresult
  obtain ⟨earlier, later, hsplit⟩ := List.append_of_mem hmem
  cases signal with
  | actionOrderResult result =>
    exact ⟨self, hreach, earlier, result, later, hsplit,
      (actionOrder_perfect_partition hreach).1 earlier result later hsplit⟩
  | _ => simp at hresult

end Logic

end QMdmmCore
