import QMdmm.Core.Slots

namespace QMdmmCore

open Data

namespace LogicP

theorem upgradePlayer_sameSeat {conf : LogicConfiguration} {p q : Player} {items : List UpgradeItem}
    (hupgrade : upgradePlayer conf p items = .ok q) : Player.SameSeat p q := by
  induction items generalizing p with
  | nil =>
    cases hupgrade
    exact .refl _
  | cons item rest ih =>
    have hfirst := p.upgrade_sameSeat conf item
    rcases hitem : p.upgrade conf item with ⟨ok, upgraded⟩
    rw [upgradePlayer, hitem] at hupgrade
    rw [hitem] at hfirst
    cases ok with
    | true => exact hfirst.trans (ih hupgrade)
    | false => cases hupgrade

theorem performUpgrades_logicConfiguration {room room' : Room}
    {entries : List (Sigma fun _ : String => List UpgradeItem)}
    (hroom : performUpgrades room entries = .ok room') :
    room'.logicConfiguration = room.logicConfiguration := by
  induction entries generalizing room with
  | nil =>
    cases hroom
    rfl
  | cons entry rest ih =>
    rw [performUpgrades] at hroom
    split at hroom
    · cases hroom
    · obtain ⟨upgraded, _, hroom⟩ := Except.bind_eq_ok.mp hroom
      exact @ih (room.setPlayer upgraded) hroom

theorem performUpgrades_playerNames {room room' : Room}
    {entries : List (Sigma fun _ : String => List UpgradeItem)}
    (hroom : performUpgrades room entries = .ok room') : room'.playerNames = room.playerNames := by
  induction entries generalizing room with
  | nil =>
    cases hroom
    rfl
  | cons entry rest ih =>
    rw [performUpgrades] at hroom
    split at hroom
    · cases hroom
    · obtain ⟨upgraded, _, hroom⟩ := Except.bind_eq_ok.mp hroom
      exact (ih hroom).trans (room.setPlayer_playerNames upgraded)

/-- Whoever has a list of upgrades is in the room. -/
theorem performUpgrades_mem {room room' : Room}
    {entries : List (Sigma fun _ : String => List UpgradeItem)}
    (hroom : performUpgrades room entries = .ok room') :
    ∀ entry ∈ entries, entry.1 ∈ room.playerNames := by
  induction entries generalizing room with
  | nil => exact fun _ hentry => absurd hentry List.not_mem_nil
  | cons entry rest ih =>
    rw [performUpgrades] at hroom
    split at hroom
    · cases hroom
    · next up hup =>
      obtain ⟨upgraded, _, hroom⟩ := Except.bind_eq_ok.mp hroom
      refine List.forall_mem_cons.mpr ⟨Room.player_isSome.mp (by rw [hup]; rfl), ?_⟩
      have hrest := ih hroom
      rwa [room.setPlayer_playerNames upgraded] at hrest

end LogicP

namespace Logic

open LogicP

variable {self self' : Logic (List Signal)}

/-- What a slot call does to the room. -/
inductive RoomStep (d : LogicP) : Call → Room → Prop where
  | rejected {c : Call} (hreject : ¬ d.Accepts c) : RoomStep d c d.room
  | rpsReply {name : String} {rps : RockPaperScissors} : RoomStep d (.rpsReply name rps) d.room
  | actionOrderReply {name : String} {desired : List Int} :
      RoomStep d (.actionOrderReply name desired) d.room
  | upgradeReply {name : String} {items : List UpgradeItem} :
      RoomStep d (.upgradeReply name items) d.room
  | addPlayer {name : String} (hstate : d.state = .BeforeRoundStart)
      (habsent : name ∉ d.room.playerNames) :
      RoomStep d (.addPlayer name) (d.room.addPlayer name).2.resetUpgrades
  | removePlayer {name : String} (hstate : d.state = .BeforeRoundStart)
      (hmember : name ∈ d.room.playerNames) :
      RoomStep d (.removePlayer name) (d.room.removePlayer name).2.resetUpgrades
  | roundStart (hstate : d.state = .BeforeRoundStart) :
      RoomStep d .roundStart d.room.prepareForRoundStart
  | action {name : String} {action done : Action} {toPlayer : String} {toPlace : Int}
      {accepted ok : Bool} {d' : LogicP} (hmember : name ∈ d.room.playerNames)
      (hstate : d.state = .Action)
      (hfeasible : d.actionFeasible name action toPlayer toPlace = .ok accepted)
      (hdone : done = if accepted then action else .DoNothing)
      (hperform : d.performAction name done toPlayer toPlace = .ok (ok, d')) :
      RoomStep d (.actionReply name action toPlayer toPlace) d'.room
  | upgrade {name : String} {items : List UpgradeItem} {room : Room}
      {entries : List (Sigma fun _ : String => List UpgradeItem)} (hstate : d.state = .Upgrade)
      (hroom : performUpgrades d.room entries = .ok room) (hgame : room.isGameOver = false) :
      RoomStep d (.upgradeReply name items) room
  | gameOver {name : String} {items : List UpgradeItem} {room : Room}
      {entries : List (Sigma fun _ : String => List UpgradeItem)} (hstate : d.state = .Upgrade)
      (hroom : performUpgrades d.room entries = .ok room) :
      RoomStep d (.upgradeReply name items) room.resetUpgrades

@[simp] theorem enterRpsForAction_room (d : LogicP) : d.enterRpsForAction.room = d.room := rfl

@[simp] theorem enterUpgrade_room (d : LogicP) : d.enterUpgrade.room = d.room := rfl

@[simp] theorem enterActionOrder_room (d : LogicP) : d.enterActionOrder.room = d.room := rfl

@[simp] theorem confirmUncontested_room (d : LogicP) : d.confirmUncontested.room = d.room := by
  have hfold (orders : List Int) (d : LogicP) : (orders.foldl confirmOrder d).room = d.room := by
    induction orders generalizing d with
    | nil => rfl
    | cons order rest ih =>
      rw [List.foldl_cons, ih, confirmOrder]
      split <;> rfl
  exact hfold _ d

theorem StartAction.room (hstep : StartAction self self') : self'.d.room = self.d.room := by
  cases hstep with
  | next _ hnext => cases hnext <;> rfl
  | roundOver => rfl

theorem StartActionOrder.room (hstep : StartActionOrder self self') :
    self'.d.room = self.d.room := by
  cases hstep with
  | settled _ _ haction => exact haction.room
  | contested => rfl

theorem StartRpsForActionOrder.room (hstep : StartRpsForActionOrder self self') :
    self'.d.room = self.d.room := by
  cases hstep with
  | uncontested _ hstart => exact hstart.room.trans (confirmUncontested_room self.d)
  | contested => exact confirmUncontested_room self.d

theorem RpsForAction.room (hstep : RpsForAction self self') : self'.d.room = self.d.room := by
  cases hstep with
  | waiting | tie => rfl
  | decided _ _ _ hstart => exact hstart.room

theorem RpsForActionOrder.room (hstep : RpsForActionOrder self self') :
    self'.d.room = self.d.room := by
  cases hstep with
  | waiting => rfl
  | decided _ hstart => exact hstart.room

theorem CallStep.room {c : Call} {ret : Bool} (hstep : CallStep self c ret self') :
    RoomStep self.d c self'.d.room := by
  cases hstep with
  | rejected hreject => exact .rejected hreject
  | addPlayer hstate habsent => exact .addPlayer hstate habsent
  | removePlayer hstate hmember => exact .removePlayer hstate hmember
  | roundStart hstate => exact .roundStart hstate
  | rpsForAction _ _ _ hstep =>
    rw [hstep.room]
    exact .rpsReply
  | rpsForActionOrder _ _ _ hstep =>
    rw [hstep.room]
    exact .rpsReply
  | pick _ _ _ _ hrecord =>
    rw [hrecord]
    exact .actionOrderReply
  | lastPick _ _ _ _ hrecord _ hstep =>
    rw [hstep.room, hrecord]
    exact .actionOrderReply
  | action hmember hstate hfeasible hdone hperform hstep =>
    rw [hstep.room]
    exact .action hmember hstate hfeasible hdone hperform
  | upgrade _ hstate _ _ _ hstep =>
    cases hstep with
    | waiting => exact .upgradeReply
    | gameOver _ _ hroom => exact .gameOver hstate hroom
    | result _ _ hroom hgame => exact .upgrade hstate hroom hgame

/-- A call during a round leaves the room alone, or performs an action in it. -/
theorem CallStep.started {c : Call} {ret : Bool} (hstep : CallStep self c ret self')
    (hstarted : self'.d.state ≠ .BeforeRoundStart) :
    (self.d.state ≠ .BeforeRoundStart ∧ self'.d.room = self.d.room) ∨
      (self.d.state ≠ .BeforeRoundStart ∧ ∃ name action toPlayer toPlace ok d',
        PerformAction self.d name action toPlayer toPlace ok d' ∧ self'.d.room = d'.room) ∨
      self'.d.room = self.d.room.prepareForRoundStart := by
  have hother {state : State} (hstate : self.d.state = state) (hne : state ≠ .BeforeRoundStart) :
      self.d.state ≠ .BeforeRoundStart := by rwa [hstate]
  cases hstep with
  | rejected => exact .inl ⟨hstarted, rfl⟩
  | addPlayer hstate | removePlayer hstate => exact absurd hstate hstarted
  | roundStart => exact .inr (.inr rfl)
  | rpsForAction _ hstate _ hstep => exact .inl ⟨hother hstate (by decide), hstep.room⟩
  | rpsForActionOrder _ hstate _ hstep => exact .inl ⟨hother hstate (by decide), hstep.room⟩
  | pick _ hstate _ _ hrecord =>
    subst hrecord
    exact .inl ⟨hother hstate (by decide), rfl⟩
  | lastPick _ hstate _ _ hrecord _ hstep =>
    subst hrecord
    exact .inl ⟨hother hstate (by decide), hstep.room⟩
  | action _ hstate _ _ hperform hstep =>
    exact .inr (.inl ⟨hother hstate (by decide), _, _, _, _, _, _,
      performAction_cases hperform, hstep.room⟩)
  | upgrade _ hstate _ _ _ hstep =>
    cases hstep with
    | waiting => exact .inl ⟨hother hstate (by decide), rfl⟩
    | gameOver | result => exact absurd rfl hstarted

/-- The rules of a room never change. -/
theorem RoomStep.logicConfiguration {d : LogicP} {c : Call} {room : Room}
    (hstep : RoomStep d c room) : room.logicConfiguration = d.room.logicConfiguration := by
  cases hstep with
  | rejected | rpsReply | actionOrderReply | upgradeReply | roundStart => rfl
  | addPlayer _ habsent => rw [Room.addPlayer_of_notMem habsent]; rfl
  | removePlayer _ hmember => rw [Room.removePlayer_of_mem hmember]; rfl
  | action _ _ _ _ hperform => exact (performAction_cases hperform).frame.2.2
  | upgrade _ hroom => exact performUpgrades_logicConfiguration hroom
  | gameOver _ hroom =>
    rw [Room.resetUpgrades_logicConfiguration]
    exact performUpgrades_logicConfiguration hroom

/-- The calls that change who is in the room. -/
def Call.changesNames : Call → Bool
  | .addPlayer _ | .removePlayer _ => true
  | _ => false

theorem RoomStep.playerNames {d : LogicP} {c : Call} {room : Room} (hstep : RoomStep d c room)
    (hkeeps : c.changesNames = false) : room.playerNames = d.room.playerNames := by
  cases hstep with
  | rejected | rpsReply | actionOrderReply | upgradeReply => rfl
  | addPlayer | removePlayer => cases hkeeps
  | roundStart => exact Room.prepareForRoundStart_playerNames d.room
  | action _ _ _ _ hperform => exact (performAction_cases hperform).frame.2.1
  | upgrade _ hroom => exact performUpgrades_playerNames hroom
  | gameOver _ hroom =>
    rw [Room.resetUpgrades_playerNames]
    exact performUpgrades_playerNames hroom

/-- `env'` has further signals after those of `env`, all of which satisfy `P`. -/
def Appends (P : Signal → Prop) (env env' : List Signal) : Prop :=
  ∃ signals, env' = env ++ signals ∧ ∀ signal ∈ signals, P signal

theorem Appends.refl {P : Signal → Prop} (env : List Signal) : Appends P env env :=
  ⟨[], by simp, by simp⟩

theorem Appends.append {P : Signal → Prop} {env signals : List Signal}
    (h : ∀ signal ∈ signals, P signal) : Appends P env (env ++ signals) :=
  ⟨signals, rfl, h⟩

theorem Appends.trans {P : Signal → Prop} {env env' env'' : List Signal} (h : Appends P env env')
    (h' : Appends P env' env'') : Appends P env env'' := by
  obtain ⟨signals, rfl, hsignals⟩ := h
  obtain ⟨later, rfl, hlater⟩ := h'
  refine ⟨signals ++ later, by rw [List.append_assoc], fun signal hsignal => ?_⟩
  rcases List.mem_append.mp hsignal with hsignal | hsignal
  · exact hsignals signal hsignal
  · exact hlater signal hsignal

theorem Appends.mono {P Q : Signal → Prop} (hPQ : ∀ signal, P signal → Q signal)
    {env env' : List Signal} (h : Appends P env env') : Appends Q env env' := by
  obtain ⟨signals, henv, hsignals⟩ := h
  exact ⟨signals, henv, fun signal hsignal => hPQ signal (hsignals signal hsignal)⟩

/-- A signal that reports no action. -/
def NoAction (signal : Signal) : Prop :=
  ∀ name action toPlayer toPlace, signal ≠ .actionResult name action toPlayer toPlace

/-- A signal that does not report how the upgrades have ended. -/
def NoOutcome (signal : Signal) : Prop :=
  (∀ upgrades, signal ≠ .upgradeResult upgrades) ∧ ∀ playerNames, signal ≠ .gameOver playerNames

/-- A signal that reports neither. -/
def Plain (signal : Signal) : Prop := NoAction signal ∧ NoOutcome signal

theorem StartAction.plain (hstep : StartAction self self') : Appends Plain self.env self'.env := by
  cases hstep with
  | next _ hnext => cases hnext <;> exact .append (by simp [Plain, NoAction, NoOutcome])
  | roundOver =>
    exact (Appends.append (by simp [Plain, NoAction, NoOutcome])).trans
      (.append (by simp [Plain, NoAction, NoOutcome]))

theorem StartActionOrder.plain (hstep : StartActionOrder self self') :
    Appends Plain self.env self'.env := by
  cases hstep with
  | settled _ _ haction =>
    exact (Appends.append (by simp [Plain, NoAction, NoOutcome])).trans haction.plain
  | contested => exact .append (by simp [Plain, NoAction, NoOutcome, actionOrderRequests])

theorem StartRpsForActionOrder.plain (hstep : StartRpsForActionOrder self self') :
    Appends Plain self.env self'.env := by
  cases hstep with
  | uncontested _ hstart => exact hstart.plain
  | contested => exact .append (by simp [Plain, NoAction, NoOutcome])

theorem RpsForAction.plain (hstep : RpsForAction self self') :
    Appends Plain self.env self'.env := by
  cases hstep with
  | waiting => exact .refl _
  | tie =>
    exact (Appends.append (by simp [Plain, NoAction, NoOutcome])).trans
      (.append (by simp [Plain, NoAction, NoOutcome]))
  | decided _ _ _ hstart =>
    exact (Appends.append (by simp [Plain, NoAction, NoOutcome])).trans hstart.plain

theorem RpsForActionOrder.plain (hstep : RpsForActionOrder self self') :
    Appends Plain self.env self'.env := by
  cases hstep with
  | waiting => exact .refl _
  | decided _ hstart =>
    exact (Appends.append (by simp [Plain, NoAction, NoOutcome])).trans hstart.plain

theorem UpgradeStep.noAction (hstep : UpgradeStep self self') :
    Appends NoAction self.env self'.env := by
  cases hstep with
  | waiting => exact .refl _
  | gameOver | result => exact .append (by simp [NoAction])

/-- One call reports at most one action, and that one first. -/
theorem CallStep.noAction {c : Call} {ret : Bool} (hstep : CallStep self c ret self') :
    Appends NoAction self.env self'.env ∨
      ∃ name action toPlayer toPlace accepted done, c = .actionReply name action toPlayer toPlace ∧
        self.d.state = .Action ∧
        self.d.actionFeasible name action toPlayer toPlace = .ok accepted ∧
        done = (if accepted then action else .DoNothing) ∧
        Appends NoAction (self.env ++ [.actionResult name done toPlayer toPlace]) self'.env := by
  cases hstep with
  | rejected | addPlayer | removePlayer | pick => exact .inl (.refl _)
  | roundStart => exact .inl (.append (by simp [NoAction]))
  | rpsForAction _ _ _ hstep => exact .inl (hstep.plain.mono fun _ h => h.1)
  | rpsForActionOrder _ _ _ hstep => exact .inl (hstep.plain.mono fun _ h => h.1)
  | lastPick _ _ _ _ _ _ hstep => exact .inl (hstep.plain.mono fun _ h => h.1)
  | action _ hstate hfeasible hdone _ hstep =>
    exact .inr ⟨_, _, _, _, _, _, rfl, hstate, hfeasible, hdone, hstep.plain.mono fun _ h => h.1⟩
  | upgrade _ _ _ _ _ hstep => exact .inl hstep.noAction

/-- Only a call that ends the upgrades reports how they have ended. -/
theorem CallStep.noOutcome {c : Call} {ret : Bool} (hstep : CallStep self c ret self') :
    Appends NoOutcome self.env self'.env ∨
      (self.d.state = .Upgrade ∧ self'.d.state ≠ .Upgrade) := by
  cases hstep with
  | rejected | addPlayer | removePlayer | pick => exact .inl (.refl _)
  | roundStart => exact .inl (.append (by simp [NoOutcome]))
  | rpsForAction _ _ _ hstep => exact .inl (hstep.plain.mono fun _ h => h.2)
  | rpsForActionOrder _ _ _ hstep => exact .inl (hstep.plain.mono fun _ h => h.2)
  | lastPick _ _ _ _ _ _ hstep => exact .inl (hstep.plain.mono fun _ h => h.2)
  | action _ _ _ _ _ hstep =>
    exact .inl ((Appends.append (by simp [NoOutcome])).trans (hstep.plain.mono fun _ h => h.2))
  | upgrade _ hstate _ _ _ hstep =>
    cases hstep with
    | waiting => exact .inl (.refl _)
    | gameOver | result =>
      refine .inr ⟨hstate, ?_⟩
      simp

/-- Signals are only ever added. -/
theorem CallStep.env {c : Call} {ret : Bool} (hstep : CallStep self c ret self') :
    ∃ signals, self'.env = self.env ++ signals := by
  rcases hstep.noAction with ⟨signals, henv, _⟩ | ⟨_, _, _, _, _, _, _, _, _, _, signals, henv, _⟩
  · exact ⟨signals, henv⟩
  · exact ⟨_, henv.trans (List.append_assoc _ _ _)⟩

end Logic

end QMdmmCore
