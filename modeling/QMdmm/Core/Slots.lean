import QMdmm.Core.Queued

namespace QMdmmCore

open Data

namespace LogicP

/-- The calls a logic acts on; every other call returns false at once. -/
def Accepts (d : LogicP) : Logic.Call → Prop
  | .addPlayer name => d.state = .BeforeRoundStart ∧ name ∉ d.room.playerNames
  | .removePlayer name => d.state = .BeforeRoundStart ∧ name ∈ d.room.playerNames
  | .roundStart => d.state = .BeforeRoundStart ∧ 2 ≤ d.room.playerNames.length
  | .rpsReply name _ => name ∈ d.room.playerNames ∧
      ((d.state = .RpsForAction ∧ name ∉ d.rpsForActionReplies) ∨
        (d.state = .RpsForActionOrder ∧ name ∉ d.rpsForActionOrderReplies))
  | .actionOrderReply name _ => name ∈ d.room.playerNames ∧ d.state = .ActionOrder ∧
      0 ≤ d.actionOrderRemainingSelections.value name (-1)
  | .actionReply name _ _ _ => name ∈ d.room.playerNames ∧ d.state = .Action
  | .upgradeReply name _ => name ∈ d.room.playerNames ∧ d.state = .Upgrade ∧ name ∉ d.upgrades

instance (d : LogicP) : (c : Logic.Call) → Decidable (d.Accepts c)
  | .addPlayer _ => inferInstanceAs (Decidable (_ ∧ _))
  | .removePlayer _ => inferInstanceAs (Decidable (_ ∧ _))
  | .roundStart => inferInstanceAs (Decidable (_ ∧ _))
  | .rpsReply _ _ => inferInstanceAs (Decidable (_ ∧ (_ ∧ _ ∨ _ ∧ _)))
  | .actionOrderReply _ _ => inferInstanceAs (Decidable (_ ∧ _ ∧ _))
  | .actionReply _ _ _ _ => inferInstanceAs (Decidable (_ ∧ _))
  | .upgradeReply _ _ => inferInstanceAs (Decidable (_ ∧ _ ∧ _))

end LogicP

namespace Logic

open LogicP

variable {self self' : Logic (List Signal)}

/-- What one slot call does under queued delivery, with the returned value. -/
inductive CallStep (self : Logic (List Signal)) : Call → Bool → Logic (List Signal) → Prop where
  | rejected {c : Call} (hreject : ¬ self.d.Accepts c) : CallStep self c false self
  | addPlayer {name : String} (hstate : self.d.state = .BeforeRoundStart)
      (habsent : name ∉ self.d.room.playerNames) :
      CallStep self (.addPlayer name) true
        ⟨{ self.d with room := (self.d.room.addPlayer name).2.resetUpgrades }, self.env⟩
  | removePlayer {name : String} (hstate : self.d.state = .BeforeRoundStart)
      (hmember : name ∈ self.d.room.playerNames) :
      CallStep self (.removePlayer name) true
        ⟨{ self.d with room := (self.d.room.removePlayer name).2.resetUpgrades }, self.env⟩
  | roundStart (hstate : self.d.state = .BeforeRoundStart)
      (htwo : 2 ≤ self.d.room.playerNames.length) :
      CallStep self .roundStart true
        ⟨{ self.d with room := self.d.room.prepareForRoundStart }.enterRpsForAction,
          self.env ++ [.requestRpsForAction self.d.room.prepareForRoundStart.alivePlayerNames]⟩
  | rpsForAction {name : String} {rps : RockPaperScissors} {self' : Logic (List Signal)}
      (hmember : name ∈ self.d.room.playerNames) (hstate : self.d.state = .RpsForAction)
      (hnew : name ∉ self.d.rpsForActionReplies)
      (hstep : RpsForAction
        ⟨{ self.d with rpsForActionReplies := AList.insert name rps self.d.rpsForActionReplies },
          self.env⟩ self') : CallStep self (.rpsReply name rps) true self'
  | rpsForActionOrder {name : String} {rps : RockPaperScissors} {self' : Logic (List Signal)}
      (hmember : name ∈ self.d.room.playerNames) (hstate : self.d.state = .RpsForActionOrder)
      (hnew : name ∉ self.d.rpsForActionOrderReplies)
      (hstep : RpsForActionOrder
        ⟨{ self.d with
            rpsForActionOrderReplies := AList.insert name rps self.d.rpsForActionOrderReplies },
          self.env⟩ self') : CallStep self (.rpsReply name rps) true self'
  | pick {name : String} {desired : List Int} {accepted : Bool} {chosen : List Int} {yields : Nat}
      {d' : LogicP} (hmember : name ∈ self.d.room.playerNames)
      (hstate : self.d.state = .ActionOrder)
      (hasked : 0 ≤ self.d.actionOrderRemainingSelections.value name (-1))
      (hchosen : self.d.chosenOrders (self.d.actionOrderRemainingSelections.value name (-1)) desired
        = (accepted, chosen, yields))
      (hrecord : d' = self.d.recordActionOrder name chosen yields)
      (hmore : d'.actionOrderRemainingSelections.count ≠ 0) :
      CallStep self (.actionOrderReply name desired) accepted ⟨d', self.env⟩
  | lastPick {name : String} {desired : List Int} {accepted : Bool} {chosen : List Int}
      {yields : Nat} {d' : LogicP} {self' : Logic (List Signal)}
      (hmember : name ∈ self.d.room.playerNames) (hstate : self.d.state = .ActionOrder)
      (hasked : 0 ≤ self.d.actionOrderRemainingSelections.value name (-1))
      (hchosen : self.d.chosenOrders (self.d.actionOrderRemainingSelections.value name (-1)) desired
        = (accepted, chosen, yields))
      (hrecord : d' = self.d.recordActionOrder name chosen yields)
      (hlast : d'.actionOrderRemainingSelections.count = 0)
      (hstep : StartRpsForActionOrder ⟨d', self.env⟩ self') :
      CallStep self (.actionOrderReply name desired) accepted self'
  | action {name : String} {action done : Action} {toPlayer : String} {toPlace : Int}
      {accepted ok : Bool} {d' : LogicP} {self' : Logic (List Signal)}
      (hmember : name ∈ self.d.room.playerNames) (hstate : self.d.state = .Action)
      (hfeasible : self.d.actionFeasible name action toPlayer toPlace = .ok accepted)
      (hdone : done = if accepted then action else .DoNothing)
      (hperform : self.d.performAction name done toPlayer toPlace = .ok (ok, d'))
      (hstep : StartAction ⟨d', self.env ++ [.actionResult name done toPlayer toPlace]⟩ self') :
      CallStep self (.actionReply name action toPlayer toPlace) accepted self'
  | upgrade {name : String} {p : Player} {items done : List UpgradeItem} {accepted : Bool}
      {self' : Logic (List Signal)} (hplayer : self.d.room.player name = some p)
      (hstate : self.d.state = .Upgrade) (hnew : name ∉ self.d.upgrades)
      (hfeasible : self.d.upgradeFeasible name items = .ok accepted)
      (hdone : done = if accepted then items
        else feasibleItems self.d.room.logicConfiguration p)
      (hstep : UpgradeStep
        ⟨{ self.d with upgrades := AList.insert name done self.d.upgrades }, self.env⟩ self') :
      CallStep self (.upgradeReply name items) accepted self'

private theorem addPlayer_cases {name : String} {ret : Bool}
    (hcall : self.addPlayer name = .ok (ret, self')) : CallStep self (.addPlayer name) ret self' := by
  unfold Logic.addPlayer at hcall
  split at hcall
  · next hstate =>
    by_cases hmember : name ∈ self.d.room.playerNames
    · rw [Room.addPlayer_of_mem hmember] at hcall
      cases hcall
      exact .rejected fun haccepts => haccepts.2 hmember
    · have hadd := Room.addPlayer_of_notMem hmember
      rw [hadd] at hcall
      cases hcall
      have hstep := CallStep.addPlayer hstate hmember
      rwa [hadd] at hstep
  · next hstate =>
    cases hcall
    exact .rejected fun haccepts => hstate haccepts.1

private theorem removePlayer_cases {name : String} {ret : Bool}
    (hcall : self.removePlayer name = .ok (ret, self')) :
    CallStep self (.removePlayer name) ret self' := by
  unfold Logic.removePlayer at hcall
  split at hcall
  · next hstate =>
    by_cases hmember : name ∈ self.d.room.playerNames
    · have hremove := Room.removePlayer_of_mem hmember
      rw [hremove] at hcall
      cases hcall
      have hstep := CallStep.removePlayer hstate hmember
      rwa [hremove] at hstep
    · rw [Room.removePlayer_of_notMem hmember] at hcall
      cases hcall
      exact .rejected fun haccepts => hmember haccepts.2
  · next hstate =>
    cases hcall
    exact .rejected fun haccepts => hstate haccepts.1

private theorem roundStart_cases {ret : Bool} (hcall : self.roundStart post = .ok (ret, self')) :
    CallStep self .roundStart ret self' := by
  unfold Logic.roundStart at hcall
  split at hcall
  · next hready =>
    cases hcall
    exact .roundStart hready.1 hready.2
  · next hready =>
    cases hcall
    exact .rejected hready

private theorem rpsReply_cases {name : String} {rps : RockPaperScissors} {ret : Bool}
    (hcall : self.rpsReply post name rps = .ok (ret, self')) :
    CallStep self (.rpsReply name rps) ret self' := by
  unfold Logic.rpsReply at hcall
  split at hcall
  · next hplayer =>
    have hmember := Room.player_isSome.mp hplayer
    split at hcall
    · next hready =>
      obtain ⟨next, hnext, hcall⟩ := Except.bind_eq_ok.mp hcall
      cases hcall
      exact .rpsForAction hmember hready.1 (by simpa [QHash.contains] using hready.2)
        (rpsForAction_cases hnext)
    · next hnotAction =>
      split at hcall
      · next hready =>
        obtain ⟨next, hnext, hcall⟩ := Except.bind_eq_ok.mp hcall
        cases hcall
        exact .rpsForActionOrder hmember hready.1 (by simpa [QHash.contains] using hready.2)
          (rpsForActionOrder_cases hnext)
      · next hnotOrder =>
        cases hcall
        refine .rejected fun haccepts => ?_
        rcases haccepts.2 with hready | hready
        · exact hnotAction ⟨hready.1, by simpa [QHash.contains] using hready.2⟩
        · exact hnotOrder ⟨hready.1, by simpa [QHash.contains] using hready.2⟩
  · next hplayer =>
    cases hcall
    exact .rejected fun haccepts => hplayer (Room.player_isSome.mpr haccepts.1)

private theorem actionOrderReply_cases {name : String} {desired : List Int} {ret : Bool}
    (hcall : self.actionOrderReply post name desired = .ok (ret, self')) :
    CallStep self (.actionOrderReply name desired) ret self' := by
  unfold Logic.actionOrderReply at hcall
  split at hcall
  · next hready =>
    have hmember := Room.player_isSome.mp hready.1
    dsimp only at hcall
    split at hcall
    · next hasked =>
      obtain ⟨next, hnext, hcall⟩ := Except.bind_eq_ok.mp hcall
      cases hcall
      unfold actionOrder at hnext
      split at hnext
      · next hlast =>
        exact .lastPick hmember hready.2 hasked rfl rfl hlast (startRpsForActionOrder_cases hnext)
      · next hmore =>
        cases hnext
        exact .pick hmember hready.2 hasked rfl rfl hmore
    · next hasked =>
      cases hcall
      exact .rejected fun haccepts => hasked haccepts.2.2
  · next hready =>
    cases hcall
    exact .rejected fun haccepts => hready ⟨Room.player_isSome.mpr haccepts.1, haccepts.2.1⟩

private theorem actionReply_cases {name : String} {action : Action} {toPlayer : String}
    {toPlace : Int} {ret : Bool}
    (hcall : self.actionReply post name action toPlayer toPlace = .ok (ret, self')) :
    CallStep self (.actionReply name action toPlayer toPlace) ret self' := by
  unfold Logic.actionReply at hcall
  split at hcall
  · next hready =>
    obtain ⟨accepted, hfeasible, hcall⟩ := Except.bind_eq_ok.mp hcall
    obtain ⟨⟨ok, applied⟩, happly, hcall⟩ := Except.bind_eq_ok.mp hcall
    obtain ⟨next, hnext, hcall⟩ := Except.bind_eq_ok.mp hcall
    cases hcall
    unfold applyAction at happly
    rw [post_apply, Except.ok_bind] at happly
    obtain ⟨⟨done, d'⟩, hperform, happly⟩ := Except.bind_eq_ok.mp happly
    cases happly
    exact .action (Room.player_isSome.mp hready.1) hready.2 hfeasible rfl hperform
      (startAction_cases hnext)
  · next hready =>
    cases hcall
    exact .rejected fun haccepts => hready ⟨Room.player_isSome.mpr haccepts.1, haccepts.2⟩

private theorem upgradeReply_cases {name : String} {items : List UpgradeItem} {ret : Bool}
    (hcall : self.upgradeReply post name items = .ok (ret, self')) :
    CallStep self (.upgradeReply name items) ret self' := by
  unfold Logic.upgradeReply at hcall
  split at hcall
  · next hnone =>
    cases hcall
    exact .rejected fun haccepts => Room.player_eq_none.mp hnone haccepts.1
  · next p hplayer =>
    split at hcall
    · next hready =>
      obtain ⟨accepted, hfeasible, hcall⟩ := Except.bind_eq_ok.mp hcall
      obtain ⟨next, hnext, hcall⟩ := Except.bind_eq_ok.mp hcall
      cases hcall
      exact .upgrade hplayer hready.1 (by simpa [QHash.contains] using hready.2) hfeasible rfl
        (upgrade_cases hnext)
    · next hready =>
      cases hcall
      refine .rejected fun haccepts => hready ⟨haccepts.2.1, ?_⟩
      simpa [QHash.contains] using haccepts.2.2

/-- Every slot call that returns is one of the steps. -/
theorem call_cases {c : Call} {ret : Bool} (hcall : self.call post c = .ok (ret, self')) :
    CallStep self c ret self' := by
  cases c with
  | addPlayer name => exact addPlayer_cases hcall
  | removePlayer name => exact removePlayer_cases hcall
  | roundStart => exact roundStart_cases hcall
  | rpsReply name rps => exact rpsReply_cases hcall
  | actionOrderReply name desired => exact actionOrderReply_cases hcall
  | actionReply name action toPlayer toPlace => exact actionReply_cases hcall
  | upgradeReply name items => exact upgradeReply_cases hcall

/-- A call that is not accepted returns false and does nothing else, however
signals are delivered. -/
theorem call_of_not_accepts {G : Type} {emit : Emit G} {self : Logic G} {c : Call}
    (hreject : ¬ self.d.Accepts c) : self.call emit c = .ok (false, self) := by
  cases c with
  | addPlayer name =>
    rw [Logic.call, Logic.addPlayer]
    split
    · next hstate =>
      have hmember : name ∈ self.d.room.playerNames := by
        by_contra habsent
        exact hreject ⟨hstate, habsent⟩
      rw [Room.addPlayer_of_mem hmember]
    · rfl
  | removePlayer name =>
    rw [Logic.call, Logic.removePlayer]
    split
    · next hstate => rw [Room.removePlayer_of_notMem fun hmember => hreject ⟨hstate, hmember⟩]
    · rfl
  | roundStart => exact if_neg hreject
  | rpsReply name rps =>
    rw [Logic.call, Logic.rpsReply]
    split
    · next hplayer =>
      have hmember := Room.player_isSome.mp hplayer
      rw [if_neg fun hready => hreject ⟨hmember, .inl ⟨hready.1, by
          simpa [QHash.contains] using hready.2⟩⟩,
        if_neg fun hready => hreject ⟨hmember, .inr ⟨hready.1, by
          simpa [QHash.contains] using hready.2⟩⟩]
    · rfl
  | actionOrderReply name desired =>
    rw [Logic.call, Logic.actionOrderReply]
    split
    · next hready =>
      exact if_neg fun hasked => hreject ⟨Room.player_isSome.mp hready.1, hready.2, hasked⟩
    · rfl
  | actionReply name action toPlayer toPlace =>
    exact if_neg fun hready => hreject ⟨Room.player_isSome.mp hready.1, hready.2⟩
  | upgradeReply name items =>
    rw [Logic.call, Logic.upgradeReply]
    split
    · rfl
    · next p hplayer =>
      refine if_neg fun hready => hreject ⟨?_, hready.1, by simpa [QHash.contains] using hready.2⟩
      exact Room.player_isSome.mp (by rw [hplayer]; rfl)

end Logic

end QMdmmCore
