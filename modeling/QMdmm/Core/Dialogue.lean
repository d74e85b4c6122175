import QMdmm.Core.Asked

namespace QMdmmCore

open Data Logic

/-- A logic with what its players have been told and have answered: the signals
of the last call that emitted any, and the players whose replies have been
accepted since. -/
structure Dialogue where
  logic : Logic (List Signal)
  signals : List Signal
  answered : List String

namespace Dialogue

def new (logicConfiguration : LogicConfiguration) : Dialogue :=
  ⟨.start logicConfiguration, [], []⟩

/-- The history after a call that has left this logic. -/
def next (self : Dialogue) (c : Call) (logic : Logic (List Signal)) : Dialogue :=
  let signals := logic.env.drop self.logic.env.length
  if signals = [] then
    { self with
      logic := logic
      answered := if self.logic.d.Accepts c then c.replier.toList ++ self.answered
        else self.answered }
  else ⟨logic, signals, []⟩

/-- The logic under queued delivery, with its history. -/
def system : TransitionSystem Dialogue Call where
  init self := ∃ logicConfiguration, self = new logicConfiguration
  step self c self' := ∃ ret logic, self.logic.call post c = .ok (ret, logic) ∧
    self' = self.next c logic

/-- A step as computed; a fault ends the run. -/
def call (self : Dialogue) (c : Call) : Option Dialogue :=
  match self.logic.call post c with
  | .ok (_, logic) => some (self.next c logic)
  | .error _ => none

theorem step_of_call {self self' : Dialogue} {c : Call} (hcall : self.call c = some self') :
    system.step self c self' := by
  unfold call at hcall
  split at hcall
  · next ret logic hlogic =>
    cases hcall
    exact ⟨ret, logic, hlogic, rfl⟩
  · cases hcall

/-- A run from the start, as computed. -/
theorem exists_run (logicConfiguration : LogicConfiguration) (guard : Dialogue → Call → Bool)
    (calls : List Call) (P : Dialogue → Bool)
    (hrun : (calls.foldlM (fun self c => if guard self c then self.call c else none)
      (new logicConfiguration)).any P = true) :
    ∃ self, (system.guarded fun self c => guard self c = true).Reachable self ∧
      P self = true := by
  exact TransitionSystem.exists_reachable_foldlM (fun _ _ _ hcall => step_of_call hcall)
    ⟨logicConfiguration, rfl⟩ hrun

/-- One of the last signals asks the player, and it has not answered since. -/
def Outstanding (self : Dialogue) (name : String) : Prop :=
  (∃ signal ∈ self.signals, name ∈ signal.asks) ∧ name ∉ self.answered

variable {self self' : Dialogue}

@[simp] theorem next_logic (self : Dialogue) (c : Call) (logic : Logic (List Signal)) :
    (self.next c logic).logic = logic := by
  unfold next
  dsimp only
  split <;> rfl

theorem next_of_env {c : Call} {logic : Logic (List Signal)} {signals : List Signal}
    (henv : logic.env = self.logic.env ++ signals) :
    self.next c logic =
      if signals = [] then
        ⟨logic, self.signals,
          if self.logic.d.Accepts c then c.replier.toList ++ self.answered else self.answered⟩
      else ⟨logic, signals, []⟩ := by
  rw [next, henv, List.drop_left]

/-- The history does not change what the logic does. -/
theorem logic_reachable (hreach : system.Reachable self) : Logic.system.Reachable self.logic := by
  induction hreach with
  | init hinit =>
    obtain ⟨conf, rfl⟩ := hinit
    exact .init ⟨conf, rfl⟩
  | step _ hstep ih =>
    obtain ⟨ret, logic, hcall, rfl⟩ := hstep
    rw [next_logic]
    exact .step ih ⟨ret, hcall⟩

/-- Every run of the logic has a history. -/
theorem exists_reachable {logic : Logic (List Signal)} {G : Logic (List Signal) → Call → Prop}
    (hreach : (Logic.system.guarded G).Reachable logic) :
    ∃ self, (system.guarded fun self c => G self.logic c).Reachable self ∧ self.logic = logic := by
  induction hreach with
  | init hinit =>
    obtain ⟨conf, rfl⟩ := hinit
    exact ⟨new conf, .init ⟨conf, rfl⟩, rfl⟩
  | @step _ logic c _ hstep ih =>
    obtain ⟨self, hself, rfl⟩ := ih
    obtain ⟨hguard, ret, hcall⟩ := hstep
    exact ⟨self.next c logic, .step hself ⟨hguard, ret, logic, hcall, rfl⟩, next_logic _ _ _⟩

/-- What the logic remembers of a request that is still to be answered. -/
def Awaits (d : LogicP) (answered : List String) : Signal → Prop
  | .requestRpsForAction playerNames =>
    d.state = .RpsForAction ∧ playerNames = d.room.alivePlayerNames ∧
      ∀ p ∈ d.rpsForActionReplies, p ∈ answered
  | .requestActionOrder playerName availableOrders _ selections =>
    d.state = .ActionOrder ∧ availableOrders = d.remainingActionOrders ∧ 0 < selections ∧
      (playerName ∉ answered → d.actionOrderRemainingSelections.value playerName (-1) = selections)
  | .requestRpsForActionOrder playerNames strivedOrder =>
    d.state = .RpsForActionOrder ∧ d.currentStrivingActionOrder = strivedOrder ∧
      playerNames = d.desiredActionOrders.values strivedOrder ∧
      ∀ p ∈ d.rpsForActionOrderReplies, p ∈ answered
  | .requestAction playerName _ =>
    d.state = .Action ∧ ∃ p, d.room.player playerName = some p ∧
      p.alive d.room.logicConfiguration = true
  | .requestUpgrade playerName upgradePoint =>
    d.state = .Upgrade ∧ (∃ p, d.room.player playerName = some p ∧
      p.upgradePoint = upgradePoint ∧ 0 < upgradePoint) ∧ ∀ p ∈ d.upgrades, p ∈ answered
  | _ => True

/-- Before a round starts nobody is asked for anything. -/
theorem Awaits.of_beforeRoundStart {d : LogicP} {answered : List String} {signal : Signal}
    (hstate : d.state = .BeforeRoundStart) (h : Awaits d answered signal) {d' : LogicP}
    {answered' : List String} : Awaits d' answered' signal := by
  cases signal with
  | requestRpsForAction | requestActionOrder | requestRpsForActionOrder | requestAction
  | requestUpgrade =>
    rw [Awaits, hstate] at h
    cases h.1
  | _ => trivial

end Dialogue

namespace Logic

open LogicP Dialogue

variable {self self' : Logic (List Signal)}

/-- Signals have been emitted since `env`, and what they ask for is waited for. -/
def Issues (env : List Signal) (logic : Logic (List Signal)) : Prop :=
  ∃ signals, logic.env = env ++ signals ∧ signals ≠ [] ∧
    ∀ signal ∈ signals, Awaits logic.d [] signal

/-- A report before the requests asks nobody. -/
theorem Issues.after {env : List Signal} {signal : Signal} (h : Issues (env ++ [signal]) self)
    (hquiet : Awaits self.d [] signal) : Issues env self := by
  obtain ⟨signals, henv, _, hall⟩ := h
  exact ⟨signal :: signals, by simp [henv], by simp, List.forall_mem_cons.mpr ⟨hquiet, hall⟩⟩

theorem Issues.singleton {d : LogicP} {env : List Signal} {signal : Signal}
    (h : Awaits d [] signal) : Issues env ⟨d, env ++ [signal]⟩ := by
  refine ⟨[signal], rfl, by simp, fun other hother => ?_⟩
  rwa [List.mem_singleton.mp hother]

theorem enterRpsForAction_issues (d : LogicP) (env : List Signal) :
    Issues env ⟨d.enterRpsForAction, env ++ [.requestRpsForAction d.room.alivePlayerNames]⟩ :=
  .singleton ⟨rfl, rfl, fun _ hp => absurd hp (AList.notMem_empty _)⟩

theorem NextAction.issues (hstep : NextAction self self') : Issues self.env self' := by
  cases hstep with
  | turn _ _ hplayer halive => exact .singleton ⟨rfl, _, deref_eq_ok.mp hplayer, halive⟩
  | again => exact enterRpsForAction_issues _ _

theorem StartAction.issues (hstep : StartAction self self') : Issues self.env self' := by
  cases hstep with
  | next _ hnext => exact hnext.issues
  | roundOver =>
    refine ⟨_, List.append_assoc _ _ _, by simp, fun signal hsignal => ?_⟩
    rcases List.mem_append.mp hsignal with hsignal | hsignal
    · rw [List.mem_singleton.mp hsignal]
      trivial
    · obtain ⟨p, hp, rfl⟩ := List.mem_map.mp hsignal
      obtain ⟨hmem, hpoint⟩ := List.mem_filter.mp hp
      refine ⟨?_, ⟨p, Room.player_eq_some.mpr ⟨hmem, rfl⟩, rfl, of_decide_eq_true hpoint⟩,
        fun _ hq => absurd hq (AList.notMem_empty _)⟩
      rw [enterUpgrade]
      exact if_neg (List.ne_nil_of_mem hp)

theorem StartActionOrder.issues (hstep : StartActionOrder self self') : Issues self.env self' := by
  cases hstep with
  | settled _ _ haction => exact haction.issues.after trivial
  | contested hnothing =>
    refine ⟨_, rfl, actionOrderRequests_ne_nil hnothing, fun signal hsignal => ?_⟩
    obtain ⟨name, hname, rfl⟩ := List.mem_map.mp hsignal
    refine ⟨rfl, rfl, strivingActionCount_pos hname, fun _ => ?_⟩
    simp only [enterActionOrder, QHash.value_foldl_insert, if_pos hname]

theorem StartRpsForActionOrder.issues (hstep : StartRpsForActionOrder self self') :
    Issues self.env self' := by
  cases hstep with
  | uncontested _ hstart => exact hstart.issues
  | contested => exact .singleton ⟨rfl, rfl, rfl, fun _ hp => absurd hp (AList.notMem_empty _)⟩

/-- The call emits nothing, and what it does not answer is waited for as before. -/
def Waits (self : Logic (List Signal)) (name : String) (self' : Logic (List Signal)) : Prop :=
  self'.env = self.env ∧ ∀ answered signal, Awaits self.d answered signal →
    Awaits self'.d (name :: answered) signal

theorem RpsForAction.issues {name : String} {rps : RockPaperScissors}
    (hstate : self.d.state = .RpsForAction)
    (hstep : RpsForAction
      ⟨{ self.d with rpsForActionReplies := AList.insert name rps self.d.rpsForActionReplies },
        self.env⟩ self') : Waits self name self' ∨ Issues self.env self' := by
  cases hstep with
  | waiting =>
    refine .inl ⟨rfl, fun answered signal h => ?_⟩
    cases signal with
    | requestRpsForAction names =>
      obtain ⟨_, hnames, hanswered⟩ := h
      refine ⟨hstate, hnames, fun p hp => ?_⟩
      rcases (AList.mem_insert _).mp hp with rfl | hp
      · exact List.mem_cons_self
      · exact List.mem_cons_of_mem _ (hanswered p hp)
    | requestActionOrder | requestRpsForActionOrder | requestAction | requestUpgrade =>
      rw [Awaits, hstate] at h
      cases h.1
    | _ => trivial
  | tie => exact .inr ((enterRpsForAction_issues _ _).after trivial)
  | decided _ _ _ hstart => exact .inr (hstart.issues.after trivial)

theorem RpsForActionOrder.issues {name : String} {rps : RockPaperScissors}
    (hstate : self.d.state = .RpsForActionOrder)
    (hstep : RpsForActionOrder
      ⟨{ self.d with
          rpsForActionOrderReplies := AList.insert name rps self.d.rpsForActionOrderReplies },
        self.env⟩ self') : Waits self name self' ∨ Issues self.env self' := by
  cases hstep with
  | waiting =>
    refine .inl ⟨rfl, fun answered signal h => ?_⟩
    cases signal with
    | requestRpsForActionOrder names =>
      obtain ⟨_, horder, hnames, hanswered⟩ := h
      refine ⟨hstate, horder, hnames, fun p hp => ?_⟩
      rcases (AList.mem_insert _).mp hp with rfl | hp
      · exact List.mem_cons_self
      · exact List.mem_cons_of_mem _ (hanswered p hp)
    | requestActionOrder | requestRpsForAction | requestAction | requestUpgrade =>
      rw [Awaits, hstate] at h
      cases h.1
    | _ => trivial
  | decided _ hstart => exact .inr (hstart.issues.after trivial)

/-- A pick leaves the orders as they were, and the selections of the others. -/
theorem recordActionOrder_waits {name : String} {chosen : List Int} {yields : Nat}
    (hstate : self.d.state = .ActionOrder) :
    Waits self name ⟨self.d.recordActionOrder name chosen yields, self.env⟩ := by
  refine ⟨rfl, fun answered signal h => ?_⟩
  cases signal with
  | requestActionOrder other =>
    obtain ⟨_, horders, hpos, hselections⟩ := h
    refine ⟨hstate, horders, hpos, fun hnot => ?_⟩
    obtain ⟨hne, hnot⟩ := not_or.mp (mt List.mem_cons.mpr hnot)
    simp only [recordActionOrder, QHash.value_erase, if_neg hne]
    exact hselections hnot
  | requestRpsForAction | requestRpsForActionOrder | requestAction | requestUpgrade =>
    rw [Awaits, hstate] at h
    cases h.1
  | _ => trivial

theorem UpgradeStep.issues {name : String} {items : List UpgradeItem}
    (hstate : self.d.state = .Upgrade)
    (hstep : UpgradeStep
      ⟨{ self.d with upgrades := AList.insert name items self.d.upgrades }, self.env⟩ self') :
    Waits self name self' ∨ Issues self.env self' := by
  cases hstep with
  | waiting =>
    refine .inl ⟨rfl, fun answered signal h => ?_⟩
    cases signal with
    | requestUpgrade other =>
      obtain ⟨_, hpoint, hanswered⟩ := h
      refine ⟨hstate, hpoint, fun p hp => ?_⟩
      rcases (AList.mem_insert _).mp hp with rfl | hp
      · exact List.mem_cons_self
      · exact List.mem_cons_of_mem _ (hanswered p hp)
    | requestActionOrder | requestRpsForAction | requestAction | requestRpsForActionOrder =>
      rw [Awaits, hstate] at h
      cases h.1
    | _ => trivial
  | gameOver | result => exact .inr (.singleton trivial)

/-- A reply that is accepted is waited for no more, or the phase it is for is over. -/
theorem CallStep.issues {c : Call} {ret : Bool} {name : String} (hname : c.replier = some name)
    (haccepts : self.d.Accepts c) (hstep : CallStep self c ret self') :
    Waits self name self' ∨ Issues self.env self' := by
  cases hstep with
  | rejected hreject => exact absurd haccepts hreject
  | addPlayer | removePlayer | roundStart => cases hname
  | rpsForAction _ hstate _ hstep =>
    obtain rfl := Option.some.inj hname
    exact hstep.issues hstate
  | rpsForActionOrder _ hstate _ hstep =>
    obtain rfl := Option.some.inj hname
    exact hstep.issues hstate
  | pick _ hstate _ _ hrecord =>
    obtain rfl := Option.some.inj hname
    subst hrecord
    exact .inl (recordActionOrder_waits hstate)
  | lastPick _ _ _ _ _ _ hstep => exact .inr hstep.issues
  | action _ _ _ _ _ hstep => exact .inr (hstep.issues.after trivial)
  | upgrade _ hstate _ _ _ hstep =>
    obtain rfl := Option.some.inj hname
    exact hstep.issues hstate

end Logic

namespace Dialogue

/-- What has been asked and not answered is still waited for, whoever calls what. -/
theorem awaits_invariant : system.Invariant fun self =>
    ∀ signal ∈ self.signals, Awaits self.logic.d self.answered signal where
  init self hinit := by
    obtain ⟨conf, rfl⟩ := hinit
    exact fun signal hsignal => absurd hsignal List.not_mem_nil
  step self c self' h hstep := by
    obtain ⟨ret, logic, hcall, rfl⟩ := hstep
    have hissues {logic : Logic (List Signal)} (hlogic : Issues self.logic.env logic) :
        ∀ signal ∈ (self.next c logic).signals,
          Awaits (self.next c logic).logic.d (self.next c logic).answered signal := by
      obtain ⟨signals, henv, hsome, hall⟩ := hlogic
      rw [next_of_env henv, if_neg hsome]
      exact hall
    have hquiet {logic : Logic (List Signal)} (henv : logic.env = self.logic.env) :
        self.next c logic = ⟨logic, self.signals,
          if self.logic.d.Accepts c then c.replier.toList ++ self.answered else self.answered⟩ := by
      have hnone : logic.env = self.logic.env ++ [] := by rw [henv, List.append_nil]
      rw [next_of_env hnone, if_pos rfl]
    by_cases haccepts : self.logic.d.Accepts c
    · have hstep := call_cases hcall
      cases hname : c.replier with
      | some name =>
        rcases hstep.issues hname haccepts with ⟨henv, hwaits⟩ | hlogic
        · rw [hquiet henv, if_pos haccepts, hname]
          exact fun signal hsignal => hwaits _ _ (h signal hsignal)
        · exact hissues hlogic
      | none =>
        cases hstep with
        | rejected hreject => exact absurd haccepts hreject
        | addPlayer hstate | removePlayer hstate =>
          rw [hquiet]
          · exact fun signal hsignal => (h signal hsignal).of_beforeRoundStart hstate
          · rfl
        | roundStart => exact hissues (enterRpsForAction_issues _ _)
        | _ => cases hname
    · rw [call_of_not_accepts haccepts] at hcall
      cases hcall
      rw [hquiet rfl, if_neg haccepts]
      exact h

end Dialogue

end QMdmmCore
