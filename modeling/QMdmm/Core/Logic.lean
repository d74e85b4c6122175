import QMdmm.Core.LogicP
import QMdmm.Support.ExceptBind
import QMdmm.Support.TransitionSystem

namespace QMdmmCore

open Data

namespace LogicP

/-- The loop of `actionOrderReply` over the desired orders: what is chosen and
how many are yielded, unless an entry is illegal. -/
def checkDesiredOrders (d : LogicP) : List Int → List Int → Nat → Option (List Int × Nat)
  | [], chosenOrders, yields => some (chosenOrders, yields)
  | order :: rest, chosenOrders, yields =>
    if order = 0 then checkDesiredOrders d rest chosenOrders (yields + 1)
    else if 1 ≤ order ∧ order ≤ d.rpsForActionWinners.length ∧
        !d.confirmedActionOrders.contains order ∧ order ∉ chosenOrders then
      checkDesiredOrders d rest (chosenOrders ++ [order]) yields
    else none

/-- The reply as it is applied: an illegal one yields every selection. -/
def chosenOrders (d : LogicP) (selections : Int) (desiredOrder : List Int) :
    Bool × List Int × Nat :=
  if (desiredOrder.length : Int) = selections then
    match d.checkDesiredOrders desiredOrder [] 0 with
    | some (chosen, yields) => (true, chosen, yields)
    | none => (false, [], selections.toNat)
  else (false, [], selections.toNat)

def recordActionOrder (d : LogicP) (playerName : String) (chosen : List Int) (yields : Nat) :
    LogicP :=
  { d with
    desiredActionOrders :=
      chosen.foldl (fun hash order => hash.insert order playerName) d.desiredActionOrders
    actionOrderYields :=
      if yields > 0 then d.actionOrderYields.addEach yields [playerName] else d.actionOrderYields
    actionOrderRemainingSelections := d.actionOrderRemainingSelections.erase playerName }

/-- The list `upgradeReply` falls back to: every point is spent, knife damage
first. -/
def feasibleItems (conf : LogicConfiguration) (p : Player) : List UpgradeItem :=
  let knife := min p.upgradePoint (p.upgradeKnifeRemainingTimes conf)
  let pointLeft := p.upgradePoint - knife
  let horse := min pointLeft (p.upgradeHorseRemainingTimes conf)
  let pointLeft := pointLeft - horse
  let maxHp := min pointLeft (p.upgradeMaxHpRemainingTimes conf)
  List.replicate knife.toNat .UpgradeKnife ++ List.replicate horse.toNat .UpgradeHorse
    ++ List.replicate maxHp.toNat .UpgradeMaxHp

end LogicP

namespace Logic

variable {G : Type} (emit : Emit G)

def addPlayer (self : Logic G) (playerName : String) : Except Fault (Bool × Logic G) :=
  if self.d.state = .BeforeRoundStart then
    match self.d.room.addPlayer playerName with
    | (true, room) => .ok (true, self.modify fun d => { d with room := room.resetUpgrades })
    | (false, _) => .ok (false, self)
  else .ok (false, self)

def removePlayer (self : Logic G) (playerName : String) : Except Fault (Bool × Logic G) :=
  if self.d.state = .BeforeRoundStart then
    match self.d.room.removePlayer playerName with
    | (true, room) => .ok (true, self.modify fun d => { d with room := room.resetUpgrades })
    | (false, _) => .ok (false, self)
  else .ok (false, self)

def roundStart (self : Logic G) : Except Fault (Bool × Logic G) :=
  if self.d.state = .BeforeRoundStart ∧ self.d.room.playerNames.length ≥ 2 then do
    let self ← startRpsForAction emit
      (self.modify fun d => { d with room := d.room.prepareForRoundStart })
    return (true, self)
  else .ok (false, self)

def rpsReply (self : Logic G) (playerName : String) (rps : RockPaperScissors) :
    Except Fault (Bool × Logic G) :=
  if (self.d.room.player playerName).isSome then
    if self.d.state = .RpsForAction ∧ !self.d.rpsForActionReplies.contains playerName then do
      let self ← rpsForAction emit (self.modify fun d =>
        { d with rpsForActionReplies := AList.insert playerName rps d.rpsForActionReplies })
      return (true, self)
    else if self.d.state = .RpsForActionOrder ∧
        !self.d.rpsForActionOrderReplies.contains playerName then do
      let self ← rpsForActionOrder emit (self.modify fun d =>
        { d with
          rpsForActionOrderReplies := AList.insert playerName rps d.rpsForActionOrderReplies })
      return (true, self)
    else .ok (false, self)
  else .ok (false, self)

def actionOrderReply (self : Logic G) (playerName : String) (desiredOrder : List Int) :
    Except Fault (Bool × Logic G) :=
  if (self.d.room.player playerName).isSome ∧ self.d.state = .ActionOrder then
    let selections := self.d.actionOrderRemainingSelections.value playerName (-1)
    if selections ≥ 0 then
      let (accepted, chosen, yields) := self.d.chosenOrders selections desiredOrder
      do
        let self ← actionOrder emit
          (self.modify fun d => d.recordActionOrder playerName chosen yields)
        return (accepted, self)
    else .ok (false, self)
  else .ok (false, self)

def actionReply (self : Logic G) (playerName : String) (action : Action) (toPlayer : String)
    (toPlace : Int) : Except Fault (Bool × Logic G) :=
  if (self.d.room.player playerName).isSome ∧ self.d.state = .Action then do
    let accepted ← self.d.actionFeasible playerName action toPlayer toPlace
    let action := if accepted then action else .DoNothing
    let (_, self) ← applyAction emit self playerName action toPlayer toPlace
    let self ← startAction emit self
    return (accepted, self)
  else .ok (false, self)

def upgradeReply (self : Logic G) (playerName : String) (items : List UpgradeItem) :
    Except Fault (Bool × Logic G) :=
  match self.d.room.player playerName with
  | none => .ok (false, self)
  | some p =>
    if self.d.state = .Upgrade ∧ !self.d.upgrades.contains playerName then do
      let accepted ← self.d.upgradeFeasible playerName items
      let items := if accepted then items
        else LogicP.feasibleItems self.d.room.logicConfiguration p
      let self ← upgrade emit (self.modify fun d =>
        { d with upgrades := AList.insert playerName items d.upgrades })
      return (accepted, self)
    else .ok (false, self)

/-- The public slots, as calls with their arguments. -/
inductive Call where
  | addPlayer (playerName : String)
  | removePlayer (playerName : String)
  | roundStart
  | rpsReply (playerName : String) (rps : RockPaperScissors)
  | actionOrderReply (playerName : String) (desiredOrder : List Int)
  | actionReply (playerName : String) (action : Action) (toPlayer : String) (toPlace : Int)
  | upgradeReply (playerName : String) (items : List UpgradeItem)
  deriving DecidableEq

def call (self : Logic G) : Call → Except Fault (Bool × Logic G)
  | .addPlayer playerName => self.addPlayer playerName
  | .removePlayer playerName => self.removePlayer playerName
  | .roundStart => self.roundStart emit
  | .rpsReply playerName rps => self.rpsReply emit playerName rps
  | .actionOrderReply playerName desiredOrder => self.actionOrderReply emit playerName desiredOrder
  | .actionReply playerName action toPlayer toPlace =>
    self.actionReply emit playerName action toPlayer toPlace
  | .upgradeReply playerName items => self.upgradeReply emit playerName items

/-- A queued delivery: the slots see the signals after the call has returned. -/
def post : Emit (List Signal) := fun signal self => .ok { self with env := self.env ++ [signal] }

/-- The logic under queued delivery: one step is one slot call, by anybody, in
any state, that returns. -/
def system : TransitionSystem (Logic (List Signal)) Call where
  init self := ∃ logicConfiguration, self = ⟨.new logicConfiguration, []⟩
  step self c self' := ∃ ret, self.call post c = .ok (ret, self')

/-- Slot calls one after another, each after the previous one has returned. -/
def run (emit : Emit G) : List Call → Logic G → Except Fault (List Bool × Logic G)
  | [], self => .ok ([], self)
  | c :: rest, self => do
    let (ret, self) ← self.call emit c
    let (rets, self) ← run emit rest self
    return (ret :: rets, self)

/-- The logic a server starts with. -/
def start (logicConfiguration : LogicConfiguration) : Logic (List Signal) :=
  ⟨.new logicConfiguration, []⟩

/-- The same, as long as each call meets a condition on the state before it. -/
def runWhile (guard : Logic (List Signal) → Call → Bool) :
    List Call → Logic (List Signal) → Except Fault (Option (Logic (List Signal)))
  | [], self => .ok (some self)
  | c :: rest, self =>
    if guard self c then do
      let (_, self) ← self.call post c
      runWhile guard rest self
    else .ok none

theorem guarded_reachable_runWhile {guard : Logic (List Signal) → Call → Bool}
    {self self' : Logic (List Signal)} {calls : List Call}
    (hself : (system.guarded fun logic c => guard logic c = true).Reachable self)
    (hrun : runWhile guard calls self = .ok (some self')) :
    (system.guarded fun logic c => guard logic c = true).Reachable self' := by
  induction calls generalizing self with
  | nil =>
    cases hrun
    exact hself
  | cons c rest ih =>
    rw [runWhile] at hrun
    split at hrun
    · next hguard =>
      obtain ⟨⟨ret, next⟩, hcall, hrun⟩ := Except.bind_eq_ok.mp hrun
      exact ih (.step hself ⟨hguard, ret, hcall⟩) hrun
    · cases hrun

/-- A run from the start that ends as computed. -/
theorem exists_guarded_reachable (conf : LogicConfiguration)
    (guard : Logic (List Signal) → Call → Bool) (calls : List Call)
    (P : Logic (List Signal) → Bool)
    (hrun : (match runWhile guard calls (start conf) with
      | .ok (some self) => P self
      | _ => false) = true) :
    ∃ self, (system.guarded fun logic c => guard logic c = true).Reachable self ∧
      P self = true := by
  split at hrun
  · next self heq => exact ⟨self, guarded_reachable_runWhile (.init ⟨conf, rfl⟩) heq, hrun⟩
  · cases hrun

theorem exists_reachable (conf : LogicConfiguration) (calls : List Call)
    (P : Logic (List Signal) → Bool)
    (hrun : (match runWhile (fun _ _ => true) calls (start conf) with
      | .ok (some self) => P self
      | _ => false) = true) :
    ∃ self, system.Reachable self ∧ P self = true := by
  obtain ⟨self, hreach, hP⟩ := exists_guarded_reachable conf _ calls P hrun
  exact ⟨self, .of_guarded hreach, hP⟩

section Recording

variable {H : Type} {empty : H}
  {note : Logic (List Signal) → Call → Logic (List Signal) → H → H}

/-- A step with a record beside it, as computed; a fault ends the run. -/
def recordedCall (note : Logic (List Signal) → Call → Logic (List Signal) → H → H)
    (s : Logic (List Signal) × H) (c : Call) : Option (Logic (List Signal) × H) :=
  (s.1.call post c).toOption.map fun result => (result.2, note s.1 c result.2 s.2)

theorem step_of_recordedCall {s t : Logic (List Signal) × H} {c : Call}
    (hcall : recordedCall note s c = some t) : (system.recorded empty note).step s c t := by
  obtain ⟨⟨ret, logic⟩, hresult, rfl⟩ := Option.map_eq_some_iff.mp hcall
  refine ⟨⟨ret, ?_⟩, rfl⟩
  cases hlogic : s.1.call post c with
  | error => simp [hlogic, Except.toOption] at hresult
  | ok result =>
    rw [hlogic] at hresult
    exact congrArg Except.ok (Option.some.inj hresult)

/-- A run with a record from the start, as computed. -/
theorem exists_recorded_run (logicConfiguration : LogicConfiguration)
    (guard : Logic (List Signal) → Call → Bool) (calls : List Call)
    (P : Logic (List Signal) × H → Bool)
    (hrun : (calls.foldlM (fun s c => if guard s.1 c then recordedCall note s c else none)
      (start logicConfiguration, empty)).any P = true) :
    ∃ s, ((system.recorded empty note).guarded fun s c => guard s.1 c = true).Reachable s ∧
      P s = true := by
  apply TransitionSystem.exists_reachable_foldlM
    (fun _ _ _ hcall => step_of_recordedCall hcall) _ hrun
  exact ⟨⟨logicConfiguration, rfl⟩, rfl⟩

end Recording

end Logic

end QMdmmCore
