import QMdmm.Networking.Mirror
import QMdmm.Networking.Rooms

namespace QMdmmNetworking

open QMdmmCore Data Protocol Logic
open Mirror (agentNamed frail)

/-- What the handler of a signal notifies every agent of. Where somebody is offline,
`online` are the others. -/
def LogicRunnerP.notifications (online : Option (List String)) : Signal → List Notification
  | .rpsResult replies => [.rockPaperScissors replies]
  | .actionOrderResult result =>
    [.actionOrder ((List.range result.count).map fun i => result.value (i + 1) "")]
  | .actionResult playerName action toPlayer toPlace => [.action playerName action toPlayer toPlace]
  | .roundOver => [.roundOver]
  | .upgradeResult upgrades =>
    match online with
    | some winners => [.gameOver winners]
    | none => [.upgrade upgrades]
  | .gameOver winners => [.gameOver winners]
  | _ => []

/-- A room of the server, with the client of one of its players. The runner handles
the signals of a step once the logic has taken it, and what they are about reaches the
client then. -/
structure MirroredRoom where
  agents : List Agent
  logic : Logic (List Signal)
  mirror : Option Mirror
  /-- `roundStart` has been emitted for the logic, which has not taken it yet. -/
  starting : Bool
  ended : Bool

namespace MirroredRoom

inductive Event where
  | addAgent (agent : Agent)
  /-- The agent of the observed client joins; `others` is the order in which it is told
  of the agents that are there already. -/
  | enter (agent : Agent) (others : List Agent) (requestTimeout : Int) (socket : Socket)
  | agentDisconnected (playerName : String)
  | roundStart
  /-- An agent replies; what is said of who is online matters when a round is over. -/
  | reply (playerName : String) (reply : Reply) (online : Option (List String))

def new (logicConfiguration : LogicConfiguration) : MirroredRoom :=
  ⟨[], .start logicConfiguration, none, false, false⟩

def agentNames (self : MirroredRoom) : List String := self.agents.map Agent.objectName

def full (playerNumPerRoom : Int) (self : MirroredRoom) : Bool :=
  self.agents.length ≥ playerNumPerRoom

def notify (self : MirroredRoom) (n : Notification) : MirroredRoom :=
  { self with mirror := self.mirror.map fun mirror => mirror.notify n }

def notifyAll (self : MirroredRoom) (ns : List Notification) : MirroredRoom := ns.foldl notify self

/-- What a signal does besides what it is reported as. -/
def afterSignal (online : Option (List String)) (self : MirroredRoom) : Signal → MirroredRoom
  | .upgradeResult _ =>
    if online.isNone then { self with starting := true } else { self with ended := true }
  | .gameOver _ => { self with ended := true }
  | _ => self

def handleSignal (online : Option (List String)) (self : MirroredRoom) (signal : Signal) :
    MirroredRoom :=
  (self.notifyAll (LogicRunnerP.notifications online signal)).afterSignal online signal

/-- The logic takes a command, and the runner handles the signals of it; a fault ends
the run. -/
def call (online : Option (List String)) (self : MirroredRoom) (c : Call) : Option MirroredRoom :=
  (self.logic.call post c).toOption.map fun result =>
    (result.2.env.drop self.logic.env.length).foldl (handleSignal online)
      { self with logic := result.2 }

/-- The end of `addAgent`. -/
def startIfFull (playerNumPerRoom : Int) (self : MirroredRoom) : MirroredRoom :=
  if self.full playerNumPerRoom then { self.notify .gameStart with starting := true } else self

/-- The name is new, and a full room is no longer the one that agents are added to. -/
def mayAdd (playerNumPerRoom : Int) (self : MirroredRoom) (agent : Agent) : Bool :=
  !self.full playerNumPerRoom && !self.agentNames.contains agent.objectName

/-- `addAgent` with an agent that others are the clients of. -/
def addAgent (playerNumPerRoom : Int) (self : MirroredRoom) (agent : Agent) : Option MirroredRoom :=
  if self.mayAdd playerNumPerRoom agent then
    (call none { self with agents := self.agents ++ [agent] } (.addPlayer agent.objectName)).map
      fun room => (room.notify (Mirror.playerAdd agent)).startIfFull playerNumPerRoom
  else none

/-- `addAgent` with the agent of the observed client. -/
def enter (playerNumPerRoom : Int) (self : MirroredRoom) (agent : Agent) (others : List Agent)
    (requestTimeout : Int) (socket : Socket) : Option MirroredRoom :=
  if self.mayAdd playerNumPerRoom agent && self.mirror.isNone && others.isPerm self.agents then
    let mirror := Mirror.new agent self.logic.d.room.logicConfiguration requestTimeout socket
    (call none { self with agents := self.agents ++ [agent], mirror := mirror }
      (.addPlayer agent.objectName)).map fun room =>
        (room.notifyAll
          (.logicConfiguration :: Mirror.playerAdd agent :: others.map Mirror.playerAdd)).startIfFull
            playerNumPerRoom
  else none

/-- `agentDisconnected` before the room is full; the observed client stays connected. -/
def agentDisconnected (playerNumPerRoom : Int) (self : MirroredRoom) (playerName : String) :
    Option MirroredRoom :=
  if !self.full playerNumPerRoom && self.agentNames.contains playerName &&
      !self.mirror.any fun mirror => mirror.client.objectName = playerName then
    (call none
      { self with agents := self.agents.filter fun agent => agent.objectName ≠ playerName }
      (.removePlayer playerName)).map fun room => room.notify (.playerRemove playerName)
  else none

def handle (playerNumPerRoom : Int) (self : MirroredRoom) : Event → Option MirroredRoom
  | .addAgent agent => self.addAgent playerNumPerRoom agent
  | .enter agent others requestTimeout socket =>
    self.enter playerNumPerRoom agent others requestTimeout socket
  | .agentDisconnected playerName => self.agentDisconnected playerNumPerRoom playerName
  | .roundStart =>
    if self.starting then call none { self.notify .roundStart with starting := false } .roundStart
    else none
  | .reply playerName reply online => self.call online (LogicRunnerP.replied playerName reply)

/-- A room for this many players under some rules, and any sequence of events. -/
def system (playerNumPerRoom : Int) (logicConfiguration : LogicConfiguration) :
    TransitionSystem MirroredRoom Event where
  init self := self = new logicConfiguration
  step self event self' := self.handle playerNumPerRoom event = some self'

/-- An action that goes to a place goes to one of the room. -/
def NamesPlaces (self : MirroredRoom) : Event → Prop
  | .reply _ (.action action _ toPlace) _ => action.hasPlace = true →
    FitsInt toPlace ∧ 0 ≤ toPlace ∧ toPlace ≤ self.logic.d.room.playerNames.length
  | _ => True

instance (self : MirroredRoom) : (event : Event) → Decidable (self.NamesPlaces event)
  | .reply _ (.action action _ toPlace) _ => inferInstanceAs (Decidable (action.hasPlace = true →
    (-2147483648 ≤ toPlace ∧ toPlace ≤ 2147483647) ∧ 0 ≤ toPlace ∧
      toPlace ≤ self.logic.d.room.playerNames.length))
  | .reply _ (.rockPaperScissors _) _ | .reply _ (.actionOrder _) _ | .reply _ (.upgrade _) _
  | .addAgent _ | .enter _ _ _ _ | .agentDisconnected _ | .roundStart =>
    inferInstanceAs (Decidable True)

/-- While an action is due, nobody dead replies with one. -/
def LivingReplies (self : MirroredRoom) : Event → Prop
  | .reply playerName (.action _ _ _) _ => self.logic.d.state = .Action →
    ∀ p, self.logic.d.room.player playerName = some p →
      p.alive self.logic.d.room.logicConfiguration = true
  | _ => True

instance (self : MirroredRoom) : (event : Event) → Decidable (self.LivingReplies event)
  | .reply playerName (.action _ _ _) _ =>
    decidable_of_iff (self.logic.d.state = .Action →
      (self.logic.d.room.player playerName).all
        (Player.alive self.logic.d.room.logicConfiguration) = true)
      (by simp [LivingReplies, Option.all_eq_true])
  | .reply _ (.rockPaperScissors _) _ | .reply _ (.actionOrder _) _ | .reply _ (.upgrade _) _
  | .addAgent _ | .enter _ _ _ _ | .agentDisconnected _ | .roundStart =>
    inferInstanceAs (Decidable True)

/-- The client has followed everything the server has judged, and its room is that of
the server until the game is over. -/
def Mirrors (self : MirroredRoom) : Prop :=
  ∀ mirror ∈ self.mirror,
    mirror.refused = false ∧ (self.ended = false → mirror.client.room = self.logic.d.room)

variable {n : Int} {conf : LogicConfiguration} {room room' : MirroredRoom} {c : Call}
  {online : Option (List String)}

theorem notifyAll_eq (room : MirroredRoom) (ns : List Notification) :
    room.notifyAll ns =
      { room with mirror := room.mirror.map fun mirror => ns.foldl Mirror.notify mirror } := by
  induction ns generalizing room with
  | nil => cases room; simp [notifyAll]
  | cons n rest ih =>
    have hrest := ih (room.notify n)
    simp only [notifyAll, List.foldl_cons] at hrest ⊢
    rw [hrest]
    simp [notify, Option.map_map, Function.comp_def]

theorem call_cases (hcall : room.call online c = some room') :
    ∃ ret logic, room.logic.call post c = .ok (ret, logic) ∧
      room' = (logic.env.drop room.logic.env.length).foldl (handleSignal online)
        { room with logic := logic } := by
  obtain ⟨⟨ret, logic⟩, hresult, rfl⟩ := Option.map_eq_some_iff.mp hcall
  refine ⟨ret, logic, ?_, rfl⟩
  cases hlogic : room.logic.call post c with
  | error => simp [hlogic, Except.toOption] at hresult
  | ok result =>
    rw [hlogic] at hresult
    exact congrArg Except.ok (Option.some.inj hresult)

/-- A room in which nothing has changed but what is quiet about the mirror. -/
structure Keeps (room room' : MirroredRoom) : Prop where
  agents : room'.agents = room.agents
  logic : room'.logic = room.logic
  starting : room'.starting = room.starting
  ended : room'.ended = room.ended
  present : room'.mirror.isSome = room.mirror.isSome
  mirror : ∀ mirror' ∈ room'.mirror, ∃ mirror ∈ room.mirror, mirror.Stays mirror'

theorem Keeps.refl (room : MirroredRoom) : room.Keeps room :=
  ⟨rfl, rfl, rfl, rfl, rfl, fun mirror hmirror => ⟨mirror, hmirror, .refl mirror⟩⟩

theorem Keeps.trans {room'' : MirroredRoom} (h : room.Keeps room') (h' : room'.Keeps room'') :
    room.Keeps room'' where
  agents := h'.agents.trans h.agents
  logic := h'.logic.trans h.logic
  starting := h'.starting.trans h.starting
  ended := h'.ended.trans h.ended
  present := h'.present.trans h.present
  mirror mirror'' hmirror'' := by
    obtain ⟨mirror', hmirror', hstays'⟩ := h'.mirror mirror'' hmirror''
    obtain ⟨mirror, hmirror, hstays⟩ := h.mirror mirror' hmirror'
    exact ⟨mirror, hmirror, hstays.trans hstays'⟩

/-- What the client has turned down stays turned down. -/
theorem Keeps.not_mirrors (h : room.Keeps room') (hpresent : room.mirror.isSome = true)
    (hrefused : ∀ mirror ∈ room.mirror, mirror.refused = true) : ¬ room'.Mirrors := by
  intro hmirrors
  obtain ⟨mirror', hmirror'⟩ := Option.isSome_iff_exists.mp (h.present.trans hpresent)
  obtain ⟨mirror, hmirror, hstays⟩ := h.mirror mirror' hmirror'
  have hfollows := (hmirrors mirror' hmirror').1
  rw [hstays.refused, hrefused mirror hmirror] at hfollows
  cases hfollows

theorem keeps_notify {notification : Notification} (hquiet : notification.quiet = true) :
    room.Keeps (room.notify notification) := by
  refine ⟨rfl, rfl, rfl, rfl, Option.isSome_map, fun mirror' hmirror' => ?_⟩
  obtain ⟨mirror, hmirror, rfl⟩ := Option.map_eq_some_iff.mp hmirror'
  exact ⟨mirror, hmirror, Mirror.stays_of_quiet hquiet⟩

theorem keeps_handleSignal {signal : Signal} (hplain : Plain signal) :
    room.Keeps (room.handleSignal online signal) := by
  cases signal with
  | rpsResult | actionOrderResult | roundOver => exact keeps_notify rfl
  | actionResult => exact absurd rfl (hplain.1 _ _ _ _)
  | upgradeResult => exact absurd rfl (hplain.2.1 _)
  | gameOver => exact absurd rfl (hplain.2.2 _)
  | _ => exact .refl room

theorem keeps_handleSignals {signals : List Signal} (hplain : ∀ signal ∈ signals, Plain signal) :
    room.Keeps (signals.foldl (handleSignal online) room) := by
  induction signals generalizing room with
  | nil => exact .refl room
  | cons signal rest ih =>
    obtain ⟨hsignal, hrest⟩ := List.forall_mem_cons.mp hplain
    exact (keeps_handleSignal hsignal).trans (ih hrest)

/-- A room that is not full yet. -/
structure Gathering (conf : LogicConfiguration) (room : MirroredRoom) : Prop where
  state : room.logic.d.state = .BeforeRoundStart
  starting : room.starting = false
  ended : room.ended = false
  nodup : room.agentNames.Nodup
  unplayed : room.logic.d.room.Unplayed conf room.agentNames
  mirror : ∀ mirror ∈ room.mirror,
    mirror.Seated conf room.agentNames ∧ mirror.client.room = room.logic.d.room

/-- What every step keeps. -/
structure Inv (n : Int) (conf : LogicConfiguration) (room : MirroredRoom) : Prop where
  logicConfiguration : room.logic.d.room.logicConfiguration = conf
  nodup : room.agentNames.Nodup
  playerNames : ∀ name, name ∈ room.logic.d.room.playerNames ↔ name ∈ room.agentNames
  gathering : room.full n = false → room.Gathering conf
  starting : room.starting = true → room.logic.d.state = .BeforeRoundStart ∧ room.ended = false
  ended : room.ended = true → room.logic.d.state = .BeforeRoundStart
  mirror : ∀ mirror ∈ room.mirror, mirror.Seated conf room.agentNames ∧
    (room.ended = false → mirror.client.room = room.logic.d.room)

theorem Gathering.inv (h : room.Gathering conf) : room.Inv n conf where
  logicConfiguration := h.unplayed.logicConfiguration
  nodup := h.nodup
  playerNames := h.unplayed.playerNames
  gathering _ := h
  starting hstarting := by
    rw [h.starting] at hstarting
    cases hstarting
  ended hended := by
    rw [h.ended] at hended
    cases hended
  mirror mirror hmirror := ⟨(h.mirror mirror hmirror).1, fun _ => (h.mirror mirror hmirror).2⟩

theorem Gathering.startIfFull (h : room.Gathering conf) : (room.startIfFull n).Inv n conf := by
  unfold MirroredRoom.startIfFull
  split
  · next hfull =>
    refine ⟨h.unplayed.logicConfiguration, h.nodup, h.unplayed.playerNames, fun hnot => ?_,
      fun _ => ⟨h.state, h.ended⟩, fun _ => h.state, fun mirror' hmirror' => ?_⟩
    · exact absurd (hfull.symm.trans hnot) Bool.noConfusion
    · obtain ⟨mirror, hmirror, hstays⟩ :=
        (keeps_notify (show Notification.gameStart.quiet = true from rfl)).mirror mirror' hmirror'
      obtain ⟨hseated, hroom⟩ := h.mirror mirror hmirror
      exact ⟨hseated.stays hstays, fun _ => hstays.client.room.trans hroom⟩
  · exact h.inv

theorem Keeps.inv (h : room.Keeps room') (hinv : room.Inv n conf) : room'.Inv n conf := by
  have hnames : room'.agentNames = room.agentNames := congrArg (List.map Agent.objectName) h.agents
  have hfull : room'.full n = room.full n := by rw [full, full, h.agents]
  have hmirror : ∀ mirror' ∈ room'.mirror, mirror'.Seated conf room.agentNames ∧
      (room.ended = false → mirror'.client.room = room.logic.d.room) := by
    intro mirror' hmirror'
    obtain ⟨mirror, hmirror, hstays⟩ := h.mirror mirror' hmirror'
    obtain ⟨hseated, hroom⟩ := hinv.mirror mirror hmirror
    exact ⟨hseated.stays hstays, fun hended => hstays.client.room.trans (hroom hended)⟩
  constructor
  · rw [h.logic]
    exact hinv.logicConfiguration
  · rw [hnames]
    exact hinv.nodup
  · rw [hnames, h.logic]
    exact hinv.playerNames
  · intro hnot
    have hgathering := hinv.gathering (hfull.symm.trans hnot)
    constructor
    · rw [h.logic]
      exact hgathering.state
    · exact h.starting.trans hgathering.starting
    · exact h.ended.trans hgathering.ended
    · rw [hnames]
      exact hgathering.nodup
    · rw [hnames, h.logic]
      exact hgathering.unplayed
    · rw [hnames, h.logic]
      exact fun mirror' hmirror' =>
        ⟨(hmirror mirror' hmirror').1, (hmirror mirror' hmirror').2 hgathering.ended⟩
  · rw [h.starting, h.logic, h.ended]
    exact hinv.starting
  · rw [h.ended, h.logic]
    exact hinv.ended
  · rw [hnames, h.ended, h.logic]
    exact hmirror

theorem new_gathering (conf : LogicConfiguration) : (new conf).Gathering conf where
  state := rfl
  starting := rfl
  ended := rfl
  nodup := List.nodup_nil
  unplayed := .new conf
  mirror _ hmirror := nomatch hmirror

theorem call_addPlayer {names : List String} {name : String}
    (hcall : room.call online (.addPlayer name) = some room')
    (hstate : room.logic.d.state = .BeforeRoundStart)
    (hunplayed : room.logic.d.room.Unplayed conf names) (habsent : name ∉ names) :
    room' = { room with
      logic := ⟨{ room.logic.d with room := (room.logic.d.room.addPlayer name).2 },
        room.logic.env⟩ } := by
  obtain ⟨ret, logic, hlogic, rfl⟩ := call_cases hcall
  have habsent' : name ∉ room.logic.d.room.playerNames := fun hmember =>
    habsent ((hunplayed.playerNames name).mp hmember)
  cases Logic.call_cases hlogic with
  | rejected hreject => exact absurd ⟨hstate, habsent'⟩ hreject
  | addPlayer =>
    dsimp only
    rw [List.drop_length, (hunplayed.addPlayer habsent).2.resetUpgrades_eq]
    rfl

theorem call_removePlayer {names : List String} {name : String}
    (hcall : room.call online (.removePlayer name) = some room')
    (hstate : room.logic.d.state = .BeforeRoundStart)
    (hunplayed : room.logic.d.room.Unplayed conf names) (hmember : name ∈ names) :
    room' = { room with
      logic := ⟨{ room.logic.d with room := (room.logic.d.room.removePlayer name).2 },
        room.logic.env⟩ } := by
  obtain ⟨ret, logic, hlogic, rfl⟩ := call_cases hcall
  cases Logic.call_cases hlogic with
  | rejected hreject =>
    exact absurd ⟨hstate, (hunplayed.playerNames name).mpr hmember⟩ hreject
  | removePlayer =>
    dsimp only
    rw [List.drop_length, (hunplayed.removePlayer hmember).2.resetUpgrades_eq]
    rfl

theorem mayAdd_iff {agent : Agent} :
    room.mayAdd n agent = true ↔ room.full n = false ∧ agent.objectName ∉ room.agentNames := by
  simp [mayAdd]

theorem Inv.addAgent (hinv : room.Inv n conf) {agent : Agent}
    (hadd : room.addAgent n agent = some room') : room'.Inv n conf := by
  unfold MirroredRoom.addAgent at hadd
  split at hadd
  · next hmay =>
    obtain ⟨hfull, habsent⟩ := mayAdd_iff.mp hmay
    have h := hinv.gathering hfull
    obtain ⟨called, hcall, rfl⟩ := Option.map_eq_some_iff.mp hadd
    obtain rfl := call_addPlayer hcall h.state h.unplayed habsent
    have hperm : (agent.objectName :: room.agentNames).Perm
        ((room.agents ++ [agent]).map Agent.objectName) := by
      rw [List.map_append]
      exact (List.perm_append_singleton agent.objectName room.agentNames).symm
    obtain ⟨hadded, hunplayed⟩ := h.unplayed.addPlayer habsent
    refine Gathering.startIfFull ⟨h.state, h.starting, h.ended,
      hperm.nodup_iff.mp (List.nodup_cons.mpr ⟨habsent, h.nodup⟩), hunplayed.perm hperm,
      fun mirror' hmirror' => ?_⟩
    obtain ⟨mirror, hmirror, rfl⟩ := Option.map_eq_some_iff.mp hmirror'
    obtain ⟨hseated, hroom⟩ := h.mirror mirror hmirror
    rw [← hroom] at hadded
    obtain ⟨hseated', hroom'⟩ := hseated.playerAdd_other habsent hadded agent.screenName agent.state
    rw [hroom] at hroom'
    exact ⟨hseated'.perm hperm, hroom'⟩
  · cases hadd

theorem Inv.enter (hconf : conf.Accepted) (hinv : room.Inv n conf) {agent : Agent}
    {others : List Agent} {requestTimeout : Int} {socket : Socket}
    (henter : room.enter n agent others requestTimeout socket = some room') : room'.Inv n conf := by
  unfold MirroredRoom.enter at henter
  split at henter
  · next hmay =>
    simp only [Bool.and_eq_true, mayAdd_iff, List.isPerm_iff] at hmay
    obtain ⟨⟨⟨hfull, habsent⟩, -⟩, hothers⟩ := hmay
    have h := hinv.gathering hfull
    obtain ⟨called, hcall, rfl⟩ := Option.map_eq_some_iff.mp henter
    obtain rfl := call_addPlayer hcall h.state h.unplayed habsent
    have hperm : (agent.objectName :: room.agentNames).Perm
        ((room.agents ++ [agent]).map Agent.objectName) := by
      rw [List.map_append]
      exact (List.perm_append_singleton agent.objectName room.agentNames).symm
    have htold : (others.map Agent.objectName ++ [agent.objectName]).Perm
        ((room.agents ++ [agent]).map Agent.objectName) := by
      rw [List.map_append]
      exact (hothers.map _).append_right _
    obtain ⟨-, hunplayed⟩ := h.unplayed.addPlayer habsent
    have hnodup := hperm.nodup_iff.mp (List.nodup_cons.mpr ⟨habsent, h.nodup⟩)
    rw [notifyAll_eq]
    refine Gathering.startIfFull ⟨h.state, h.starting, h.ended, hnodup, hunplayed.perm hperm,
      fun mirror' hmirror' => ?_⟩
    cases hmirror'
    rw [h.unplayed.logicConfiguration]
    obtain ⟨hseated, hroom⟩ :=
      Mirror.new_introduced agent hconf (htold.nodup_iff.mpr hnodup) requestTimeout socket
    exact ⟨hseated.perm htold, (hroom.perm htold).eq (hunplayed.perm hperm)⟩
  · cases henter

theorem Inv.agentDisconnected (hinv : room.Inv n conf) {playerName : String}
    (hdrop : room.agentDisconnected n playerName = some room') : room'.Inv n conf := by
  unfold MirroredRoom.agentDisconnected at hdrop
  split at hdrop
  · next hmay =>
    simp only [Bool.and_eq_true, Bool.not_eq_true', List.contains_iff_mem] at hmay
    obtain ⟨⟨hfull, hmember⟩, hother⟩ := hmay
    have h := hinv.gathering hfull
    obtain ⟨called, hcall, rfl⟩ := Option.map_eq_some_iff.mp hdrop
    obtain rfl := call_removePlayer hcall h.state h.unplayed hmember
    have hnames : (room.agents.filter fun agent => agent.objectName ≠ playerName).map
        Agent.objectName = room.agentNames.filter (· ≠ playerName) := by
      rw [agentNames, List.filter_map]
      rfl
    obtain ⟨hremoved, hunplayed⟩ := h.unplayed.removePlayer hmember
    have hnodup := h.nodup.filter fun name => decide (name ≠ playerName)
    rw [← hnames] at hunplayed hnodup
    refine Gathering.inv ⟨h.state, h.starting, h.ended, hnodup, hunplayed,
      fun mirror' hmirror' => ?_⟩
    obtain ⟨mirror, hmirror, rfl⟩ := Option.map_eq_some_iff.mp hmirror'
    obtain ⟨hseated, hroom⟩ := h.mirror mirror hmirror
    rw [← hroom] at hremoved
    have hne : mirror.client.objectName ≠ playerName := by
      rw [Option.mem_def.mp hmirror] at hother
      simpa using hother
    obtain ⟨hseated', hroom'⟩ := hseated.playerRemove h.nodup hmember hne hremoved
    rw [← hnames] at hseated'
    rw [hroom] at hroom'
    exact ⟨hseated', hroom'⟩
  · cases hdrop

/-- A room in which a game has begun to be played is full. -/
theorem Inv.full_of_state (hinv : room.Inv n conf)
    (hstate : room.logic.d.state ≠ .BeforeRoundStart) : room.full n = true := by
  by_contra hnot
  exact hstate (hinv.gathering (Bool.eq_false_iff.mpr hnot)).state

/-- A full room goes on as what its logic and its client have become. -/
theorem Inv.played (hinv : room.Inv n conf) (hfull : room.full n = true)
    {logic : Logic (List Signal)} {mirror : Option Mirror} {starting ended : Bool}
    (hconf : logic.d.room.logicConfiguration = room.logic.d.room.logicConfiguration)
    (hnames : logic.d.room.playerNames = room.logic.d.room.playerNames)
    (hstarting : starting = true → logic.d.state = .BeforeRoundStart ∧ ended = false)
    (hended : ended = true → logic.d.state = .BeforeRoundStart)
    (hmirror : ∀ m ∈ mirror, m.Seated conf room.agentNames ∧
      (ended = false → m.client.room = logic.d.room)) :
    Inv n conf ⟨room.agents, logic, mirror, starting, ended⟩ where
  logicConfiguration := hconf.trans hinv.logicConfiguration
  nodup := hinv.nodup
  playerNames name := by
    rw [hnames]
    exact hinv.playerNames name
  gathering hnot := absurd (hfull.symm.trans hnot) Bool.noConfusion
  starting := hstarting
  ended := hended
  mirror := hmirror

theorem Inv.length_playerNames (hinv : room.Inv n conf) :
    room.logic.d.room.playerNames.length = room.agents.length := by
  have hperm := (List.perm_ext_iff_of_nodup room.logic.d.room.playerNames_nodup hinv.nodup).mpr
    hinv.playerNames
  exact hperm.length_eq.trans (List.length_map _)

theorem Inv.roundStart (hn : 2 ≤ n) (hinv : room.Inv n conf) (hstart : room.starting = true)
    (hcall : call none { room.notify .roundStart with starting := false } .roundStart = some room') :
    room'.Inv n conf := by
  obtain ⟨hstate, hended⟩ := hinv.starting hstart
  have hfull : room.full n = true := by
    by_contra hnot
    have hnone := (hinv.gathering (Bool.eq_false_iff.mpr hnot)).starting
    exact absurd (hnone.symm.trans hstart) Bool.noConfusion
  have hlength : 2 ≤ room.logic.d.room.playerNames.length := by
    have hle : n ≤ room.agents.length := of_decide_eq_true hfull
    rw [hinv.length_playerNames]
    omega
  obtain ⟨ret, logic, hlogic, rfl⟩ := call_cases hcall
  cases Logic.call_cases hlogic with
  | rejected hreject => exact absurd ⟨hstate, hlength⟩ hreject
  | roundStart =>
    dsimp only
    rw [show (room.notify .roundStart).logic = room.logic from rfl, List.drop_left]
    refine Keeps.inv (keeps_handleSignals (by simp [Plain, NoAction, NoOutcome])) ?_
    refine hinv.played hfull rfl (Room.prepareForRoundStart_playerNames _)
      (fun h => Bool.noConfusion h) (fun h => absurd (hended.symm.trans h) Bool.noConfusion)
      fun mirror' hmirror' => ?_
    obtain ⟨mirror, hmirror, rfl⟩ := Option.map_eq_some_iff.mp hmirror'
    obtain ⟨hseated, hroom⟩ := hinv.mirror mirror hmirror
    obtain ⟨hseated', hroom'⟩ := hseated.roundStart
    rw [hroom hended] at hroom'
    exact ⟨hseated', fun _ => hroom'⟩

/-- Between the rounds no reply is taken. -/
theorem not_accepts_replied {d : LogicP} (hstate : d.state = .BeforeRoundStart)
    (playerName : String) (reply : Reply) : ¬ d.Accepts (LogicRunnerP.replied playerName reply) := by
  cases reply <;> simp [LogicRunnerP.replied, LogicP.Accepts, hstate]

/-- A call that leaves the room of the logic alone and reports nothing about it. -/
theorem Inv.plain (hinv : room.Inv n conf) (hstate : room.logic.d.state ≠ .BeforeRoundStart)
    {logic : Logic (List Signal)} (hroom : logic.d.room = room.logic.d.room)
    (hplain : Appends Plain room.logic.env logic.env) :
    ((logic.env.drop room.logic.env.length).foldl (handleSignal online)
      { room with logic := logic }).Inv n conf := by
  obtain ⟨signals, henv, hsignals⟩ := hplain
  rw [henv, List.drop_left]
  refine Keeps.inv (keeps_handleSignals hsignals) ?_
  refine hinv.played (hinv.full_of_state hstate) (by rw [hroom]) (by rw [hroom])
    (fun h => absurd (hinv.starting h).1 hstate) (fun h => absurd (hinv.ended h) hstate)
    fun mirror hmirror => ?_
  rw [hroom]
  exact hinv.mirror mirror hmirror

/-- An action of somebody who lives reaches the client as it was carried out. -/
theorem Inv.action (hinv : room.Inv n conf) {playerName toPlayer : String} {action done : Action}
    {toPlace : Int} {accepted ok : Bool} {d' : LogicP} {logic : Logic (List Signal)}
    (hstate : room.logic.d.state = .Action)
    (hmember : playerName ∈ room.logic.d.room.playerNames)
    (hplaces : action.hasPlace = true →
      FitsInt toPlace ∧ 0 ≤ toPlace ∧ toPlace ≤ room.logic.d.room.playerNames.length)
    (hliving : ∀ p, room.logic.d.room.player playerName = some p →
      p.alive room.logic.d.room.logicConfiguration = true)
    (hfeasible : room.logic.d.actionFeasible playerName action toPlayer toPlace = .ok accepted)
    (hdone : done = if accepted then action else .DoNothing)
    (hperform : room.logic.d.performAction playerName done toPlayer toPlace = .ok (ok, d'))
    (hstep : StartAction
      ⟨d', room.logic.env ++ [.actionResult playerName done toPlayer toPlace]⟩ logic) :
    ((logic.env.drop room.logic.env.length).foldl (handleSignal online)
      { room with logic := logic }).Inv n conf := by
  have hstate' : room.logic.d.state ≠ .BeforeRoundStart := by simp [hstate]
  obtain ⟨source, hsource⟩ := Room.player_of_mem_playerNames hmember
  obtain ⟨rfl, htarget⟩ :=
    LogicP.performAction_of_living hsource (hliving source hsource) hfeasible hdone hperform
  have hdonePlaces : done.hasPlace = true →
      FitsInt toPlace ∧ 0 ≤ toPlace ∧ toPlace ≤ room.agentNames.length := by
    rw [agentNames, List.length_map, ← hinv.length_playerNames]
    cases accepted with
    | true => exact hdone ▸ hplaces
    | false =>
      rw [hdone]
      exact fun hhas => Bool.noConfusion hhas
  obtain ⟨-, hnames, hconf⟩ := (LogicP.performAction_cases hperform).frame
  obtain ⟨signals, henv, hsignals⟩ := hstep.plain
  rw [henv, List.append_assoc, List.drop_left, List.singleton_append, List.foldl_cons]
  refine Keeps.inv (keeps_handleSignals hsignals) ?_
  refine hinv.played (hinv.full_of_state hstate') (by rw [hstep.room, hconf])
    (by rw [hstep.room, hnames]) (fun h => absurd (hinv.starting h).1 hstate')
    (fun h => absurd (hinv.ended h) hstate') fun mirror' hmirror' => ?_
  obtain ⟨mirror, hmirror, rfl⟩ := Option.map_eq_some_iff.mp hmirror'
  obtain ⟨hseated, hroom⟩ := hinv.mirror mirror hmirror
  have hended : room.ended = false :=
    Bool.eq_false_iff.mpr fun h => hstate' (hinv.ended h)
  obtain ⟨hseated', hroom'⟩ := hseated.action (hroom hended)
    ((hinv.playerNames playerName).mp hmember)
    (fun hhas => (hinv.playerNames toPlayer).mp (Room.player_isSome.mp (by
      obtain ⟨target, hplayer⟩ := htarget hhas
      rw [hplayer]
      rfl))) hdonePlaces hperform
  rw [hstep.room]
  exact ⟨hseated', fun _ => hroom'⟩

/-- The end of the upgrades reaches the client as upgrades or as the end of the game. -/
theorem Inv.upgrade (hinv : room.Inv n conf) {logic : Logic (List Signal)}
    {upgrades : QHash String (List UpgradeItem)} (hstate : room.logic.d.state = .Upgrade)
    (hstep : UpgradeStep ⟨{ room.logic.d with upgrades := upgrades }, room.logic.env⟩ logic) :
    ((logic.env.drop room.logic.env.length).foldl (handleSignal online)
      { room with logic := logic }).Inv n conf := by
  have hstate' : room.logic.d.state ≠ .BeforeRoundStart := by simp [hstate]
  have hfull := hinv.full_of_state hstate'
  have hstarting : room.starting = false :=
    Bool.eq_false_iff.mpr fun h => hstate' (hinv.starting h).1
  have hended : room.ended = false := Bool.eq_false_iff.mpr fun h => hstate' (hinv.ended h)
  have hover {logic : Logic (List Signal)} {notification : Notification}
      (hconf : logic.d.room.logicConfiguration = room.logic.d.room.logicConfiguration)
      (hnames : logic.d.room.playerNames = room.logic.d.room.playerNames)
      (hlast : logic.d.state = .BeforeRoundStart) (hquiet : notification.quiet = true) :
      Inv n conf ⟨room.agents, logic, room.mirror.map fun mirror => mirror.notify notification,
        room.starting, true⟩ := by
    refine hinv.played hfull hconf hnames (fun h => absurd (hstarting.symm.trans h) Bool.noConfusion)
      (fun _ => hlast) fun mirror' hmirror' => ?_
    obtain ⟨mirror, hmirror, rfl⟩ := Option.map_eq_some_iff.mp hmirror'
    exact ⟨(hinv.mirror mirror hmirror).1.stays (Mirror.stays_of_quiet hquiet),
      fun h => Bool.noConfusion h⟩
  cases hstep with
  | waiting =>
    refine hinv.plain hstate' rfl ?_
    exact .refl _
  | gameOver _ _ hroom =>
    rw [List.drop_left]
    exact hover ((Room.resetUpgrades_logicConfiguration _).trans
        (LogicP.performUpgrades_logicConfiguration hroom))
      ((Room.resetUpgrades_playerNames _).trans (LogicP.performUpgrades_playerNames hroom)) rfl rfl
  | result _ _ hroom =>
    rw [List.drop_left]
    cases online with
    | some winners =>
      exact hover (LogicP.performUpgrades_logicConfiguration hroom)
        (LogicP.performUpgrades_playerNames hroom) rfl rfl
    | none =>
      refine hinv.played hfull (LogicP.performUpgrades_logicConfiguration hroom)
        (LogicP.performUpgrades_playerNames hroom) (fun _ => ⟨rfl, hended⟩)
        (fun h => absurd (hended.symm.trans h) Bool.noConfusion) fun mirror' hmirror' => ?_
      obtain ⟨mirror, hmirror, rfl⟩ := Option.map_eq_some_iff.mp hmirror'
      obtain ⟨hseated, hsame⟩ := hinv.mirror mirror hmirror
      have hplayers : ∀ name ∈ upgrades, name ∈ room.agentNames := by
        intro name hname
        obtain ⟨entry, hentry, rfl⟩ := List.mem_map.mp (AList.mem_keys.mpr hname)
        exact (hinv.playerNames _).mp (LogicP.performUpgrades_mem hroom entry hentry)
      obtain ⟨hseated', hroom'⟩ := hseated.upgrade (hsame hended) hplayers hroom
      exact ⟨hseated', fun _ => hroom'⟩

theorem Inv.reply (hinv : room.Inv n conf) {playerName : String} {reply : Reply}
    (hplaces : room.NamesPlaces (.reply playerName reply online))
    (hliving : room.LivingReplies (.reply playerName reply online))
    (hcall : room.call online (LogicRunnerP.replied playerName reply) = some room') :
    room'.Inv n conf := by
  obtain ⟨ret, logic, hlogic, rfl⟩ := call_cases hcall
  by_cases haccepts : room.logic.d.Accepts (LogicRunnerP.replied playerName reply)
  · have hstate : room.logic.d.state ≠ .BeforeRoundStart := fun hstate =>
      not_accepts_replied hstate playerName reply haccepts
    have hstep := Logic.call_cases hlogic
    cases reply with
    | rockPaperScissors rps =>
      cases hstep with
      | rejected hreject => exact absurd haccepts hreject
      | rpsForAction _ _ _ hstep => exact hinv.plain hstate hstep.room hstep.plain
      | rpsForActionOrder _ _ _ hstep => exact hinv.plain hstate hstep.room hstep.plain
    | actionOrder order =>
      cases hstep with
      | rejected hreject => exact absurd haccepts hreject
      | pick _ _ _ _ hrecord => exact hinv.plain hstate (by rw [hrecord]; rfl) (.refl _)
      | lastPick _ _ _ _ hrecord _ hstep =>
        exact hinv.plain hstate (hstep.room.trans (by rw [hrecord]; rfl)) hstep.plain
    | action action toPlayer toPlace =>
      cases hstep with
      | rejected hreject => exact absurd haccepts hreject
      | action hmember hstate hfeasible hdone hperform hstep =>
        exact hinv.action hstate hmember hplaces (hliving hstate) hfeasible hdone hperform hstep
    | upgrade items =>
      cases hstep with
      | rejected hreject => exact absurd haccepts hreject
      | upgrade _ hstate _ _ _ hstep => exact hinv.upgrade hstate hstep
  · rw [call_of_not_accepts haccepts] at hlogic
    cases hlogic
    rw [List.drop_length]
    exact hinv

theorem inv_invariant (hn : 2 ≤ n) (hconf : conf.Accepted) :
    ((system n conf).guarded fun room event =>
      room.NamesPlaces event ∧ room.LivingReplies event).Invariant (Inv n conf) := by
  refine .guarded (fun room hinit => ?_) fun room event room' hguard hinv hstep => ?_
  · rw [hinit]
    exact (new_gathering conf).inv
  · have hhandle : room.handle n event = some room' := hstep
    cases event with
    | addAgent agent => exact hinv.addAgent hhandle
    | enter agent others requestTimeout socket => exact hinv.enter hconf hhandle
    | agentDisconnected playerName => exact hinv.agentDisconnected hhandle
    | roundStart =>
      rw [handle] at hhandle
      split at hhandle
      · next hstart => exact hinv.roundStart hn hstart hhandle
      · cases hhandle
    | reply playerName reply online => exact hinv.reply hguard.1 hguard.2 hhandle

/-- A client that has followed so far turns down what a dead player has done. -/
theorem Inv.refused (hinv : room.Inv n conf) (hmirror : room.mirror.isSome = true)
    {playerName toPlayer : String} {action : Action} {toPlace : Int} {p : Player}
    (hstate : room.logic.d.state = .Action) (hplayer : room.logic.d.room.player playerName = some p)
    (hdead : p.alive room.logic.d.room.logicConfiguration = false)
    (hcall : room.call online (.actionReply playerName action toPlayer toPlace) = some room') :
    ¬ room'.Mirrors := by
  obtain ⟨ret, logic, hlogic, rfl⟩ := call_cases hcall
  have hmember : playerName ∈ room.logic.d.room.playerNames :=
    Room.player_isSome.mp (by rw [hplayer]; rfl)
  have hended : room.ended = false := Bool.eq_false_iff.mpr fun h => by
    have hnone := hinv.ended h
    rw [hstate] at hnone
    cases hnone
  obtain ⟨mirror, hmirror⟩ := Option.isSome_iff_exists.mp hmirror
  obtain ⟨hseated, hroom⟩ := hinv.mirror mirror hmirror
  cases Logic.call_cases hlogic with
  | rejected hreject => exact absurd ⟨hmember, hstate⟩ hreject
  | action _ _ hfeasible hdone hperform hstep =>
    obtain ⟨rfl, hfails⟩ := LogicP.performAction_of_dead hplayer hdead hfeasible
    obtain rfl : _ = Action.DoNothing := hdone
    have hrefused := hseated.refuses (hroom hended) ((hinv.playerNames playerName).mp hmember) hfails
    obtain ⟨signals, henv, hsignals⟩ := hstep.plain
    rw [henv, List.append_assoc, List.drop_left, List.singleton_append, List.foldl_cons]
    -- The refusal outlasts the signals that come after it.
    refine Keeps.not_mirrors (keeps_handleSignals hsignals) ?_ fun mirror' hmirror' => ?_
    · exact Option.isSome_map.trans (Option.isSome_iff_exists.mpr ⟨mirror, hmirror⟩)
    · obtain ⟨first, hfirst, rfl⟩ := Option.map_eq_some_iff.mp hmirror'
      cases hmirror.symm.trans hfirst
      exact hrefused

/-- In a run in which nobody dead replies with an action while one is due, the client
follows everything, and its room is the room of the server; and the first reply of that
kind is one that it turns down. -/
theorem mirrors_iff_living_replies (hn : 2 ≤ n) (hconf : conf.Accepted) :
    (∀ room, ((system n conf).guarded fun room event =>
      room.NamesPlaces event ∧ room.LivingReplies event).Reachable room → room.Mirrors) ∧
    ∀ room event room', ((system n conf).guarded fun room event =>
      room.NamesPlaces event ∧ room.LivingReplies event).Reachable room →
        room.mirror.isSome = true → room.NamesPlaces event →
        (system n conf).step room event room' → (room'.Mirrors ↔ room.LivingReplies event) := by
  have hmirrors {room : MirroredRoom} (hreach : ((system n conf).guarded fun room event =>
      room.NamesPlaces event ∧ room.LivingReplies event).Reachable room) : room.Mirrors := by
    intro mirror hmirror
    obtain ⟨hseated, hroom⟩ := ((inv_invariant hn hconf).of_reachable hreach).mirror mirror hmirror
    exact ⟨hseated.follows, hroom⟩
  refine ⟨fun room => hmirrors, fun room event room' hreach hmirror hplaces hstep =>
    ⟨fun hfollows => ?_, fun hliving => hmirrors (.step hreach ⟨⟨hplaces, hliving⟩, hstep⟩)⟩⟩
  have hinv := (inv_invariant hn hconf).of_reachable hreach
  cases event with
  | reply playerName reply online =>
    cases reply with
    | action action toPlayer toPlace =>
      intro hstate p hplayer
      by_contra hdead
      exact hinv.refused hmirror hstate hplayer (Bool.eq_false_iff.mpr hdead) hstep hfollows
    | _ => trivial
  | _ => trivial

/-- A wins every action of a round. -/
def throws : List Event := [
  .reply "A" (.rockPaperScissors .Rock) none,
  .reply "B" (.rockPaperScissors .Scissors) none,
  .reply "C" (.rockPaperScissors .Scissors) none]

/-- A kills B in the village, and has the next turn. -/
def killEvents : List Event :=
  [.enter (agentNamed "A") [] 20000 0, .addAgent (agentNamed "B"), .addAgent (agentNamed "C"),
    .roundStart] ++ throws ++
  [.reply "A" (.action .BuyKnife "" 0) none, .reply "A" (.action .Move "" 0) none] ++ throws ++
  [.reply "A" (.action .LetMove "B" 0) none, .reply "A" (.action .Slash "B" 0) none] ++ throws

/-- The reply of B, who is dead. -/
def deadReply : Event := .reply "B" (.action .DoNothing "" 0) none

/-- Until then the client of A follows, and with the reply it does not. -/
theorem mirrors_iff_living_replies_frail : ∃ room room', ((system 3 frail).guarded fun room event =>
      room.NamesPlaces event ∧ room.LivingReplies event).Reachable room ∧ room.Mirrors ∧
    (system 3 frail).step room deadReply room' ∧ ¬ room'.Mirrors := by
  have hrun : (killEvents.foldlM (fun room event =>
      if decide (NamesPlaces room event ∧ LivingReplies room event) then handle 3 room event
      else none) (new frail)).any (fun room => room.mirror.isSome &&
        decide (¬ room.LivingReplies deadReply) && (room.handle 3 deadReply).isSome) = true := by
    decide +kernel
  obtain ⟨room, hreach, hend⟩ := TransitionSystem.exists_reachable_foldlM
    (fun _ _ _ hstep => hstep) (show (system 3 frail).init (new frail) from rfl) hrun
  simp only [Bool.and_eq_true, decide_eq_true_eq] at hend
  obtain ⟨⟨hmirror, hdead⟩, hsome⟩ := hend
  obtain ⟨room', hstep⟩ := Option.isSome_iff_exists.mp hsome
  have hreach := hreach.guarded_mono fun _ _ => of_decide_eq_true
  have hplaces : room.NamesPlaces deadReply := fun hplace => absurd hplace (by decide)
  have hiff := mirrors_iff_living_replies (by decide : (2 : Int) ≤ 3) Mirror.accepted_frail
  exact ⟨room, room', hreach, hiff.1 room hreach, hstep, fun hmirrors =>
    hdead ((hiff.2 room deadReply room' hreach hmirror hplaces hstep).mp hmirrors)⟩

/-- The client of A turns down what the server reports of a player who is dead. -/
theorem dead_reply_not_mirrored : ∃ room, ((system 3 frail).guarded fun room event =>
    room.NamesPlaces event).Reachable room ∧ ¬ room.Mirrors := by
  have hrun : ((killEvents ++ [deadReply]).foldlM (fun room event =>
      if decide (NamesPlaces room event) then handle 3 room event else none) (new frail)).any
      (fun room => room.mirror.any Mirror.refused) = true := by
    decide +kernel
  obtain ⟨room, hreach, hrefused⟩ := TransitionSystem.exists_reachable_foldlM
    (fun _ _ _ hstep => hstep) (show (system 3 frail).init (new frail) from rfl) hrun
  refine ⟨room, hreach.guarded_mono fun _ _ => of_decide_eq_true, fun hmirrors => ?_⟩
  cases hmirror : room.mirror with
  | none => simp [hmirror] at hrefused
  | some mirror =>
    rw [hmirror] at hrefused
    exact absurd ((hmirrors mirror hmirror).1.symm.trans hrefused) Bool.noConfusion

end MirroredRoom

end QMdmmNetworking
