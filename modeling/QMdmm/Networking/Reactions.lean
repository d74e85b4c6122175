import QMdmm.Networking.Client

namespace QMdmmNetworking

open QMdmmCore Data Protocol

namespace ClientEffect

def packet : ClientEffect → Option Packet
  | .sendPacket packet => some packet
  | _ => none

/-- The report that there are no more attempts. -/
def givesUp : ClientEffect → Bool
  | .errorDisconnected => true
  | _ => false

/-- Neither sent nor about connecting. -/
def plain : ClientEffect → Bool
  | .setError | .letGo | .request _ | .notify _ => true
  | _ => false

theorem silent_of_plain {effects : List ClientEffect} (h : ∀ effect ∈ effects, effect.plain = true) :
    effects.filterMap packet = [] := by
  refine List.filterMap_eq_nil_iff.mpr fun effect heffect => ?_
  have hplain := h effect heffect
  cases effect with
  | sendPacket => cases hplain
  | _ => rfl

theorem quiet_of_plain {effects : List ClientEffect} (h : ∀ effect ∈ effects, effect.plain = true) :
    effects.any givesUp = false := by
  refine List.any_eq_false.mpr fun effect heffect hgivesUp => ?_
  have hplain := h effect heffect
  cases effect with
  | errorDisconnected => cases hplain
  | _ => cases hgivesUp

end ClientEffect

namespace ClientP

/-- A `NotifyVersion` of the protocol the client speaks. -/
def Greets (packet : Packet) : Prop :=
  packet.type = .TypeNotify ∧ packet.notifyId = .NotifyVersion ∧
    (packet.value.toObject.value "versionNumber").isString = true ∧
    (packet.value.toObject.value "protocolVersion").isDouble = true ∧
    (packet.value.toObject.value "protocolVersion").toInt 0 = protocolVersion

instance (packet : Packet) : Decidable (Greets packet) := by
  unfold Greets
  exact inferInstance

/-- What has no part in reconnecting: at most the client lets go of its socket. -/
structure Undisturbed (client : ClientP) (result : ClientP × List ClientEffect) : Prop where
  timer : result.1.reconnectTimer = client.reconnectTimer
  attempts : result.1.reconnectAttempts = client.reconnectAttempts
  progress : result.1.reconnectInProgress = client.reconnectInProgress
  socket : result.1.socket = client.socket
  attached : result.1.attached = true → client.attached = true
  quiet : result.2.any ClientEffect.givesUp = false

/-- What is common to the handlers of packets but that of the greeting. -/
structure Handles (client : ClientP) (result : ClientP × List ClientEffect) : Prop
    extends Undisturbed client result where
  objectName : result.1.objectName = client.objectName
  currentRequest : result.1.currentRequest = client.currentRequest
  declares : ∀ packet ∈ result.2.filterMap ClientEffect.packet,
    ∃ state, packet = stateChangePacket state

/-- The agents are left alone, and nothing is sent. -/
structure Leaves (client : ClientP) (result : ClientP × List ClientEffect) : Prop
    extends Handles client result where
  agents : result.1.agents = client.agents
  playerNames : result.1.room.playerNames = client.room.playerNames
  silent : result.2.filterMap ClientEffect.packet = []

variable {self self' : ClientP} {effects : List ClientEffect}

/-- A handler that has written the room, the agents and the count of the round events. -/
theorem Handles.of_plain (room : Room) (agents : QHash String Agent) (lastRoundEventSeq : Int)
    (h : ∀ effect ∈ effects, effect.plain = true) :
    Handles self ({ self with room, agents, lastRoundEventSeq }, effects) := by
  have hsilent := ClientEffect.silent_of_plain h
  refine ⟨⟨rfl, rfl, rfl, rfl, id, ClientEffect.quiet_of_plain h⟩, rfl, rfl, fun packet hpacket => ?_⟩
  rw [hsilent] at hpacket
  cases hpacket

theorem Leaves.of_plain {room : Room} (hnames : room.playerNames = self.room.playerNames)
    (lastRoundEventSeq : Int) (h : ∀ effect ∈ effects, effect.plain = true) :
    Leaves self ({ self with room, lastRoundEventSeq }, effects) :=
  ⟨.of_plain room self.agents lastRoundEventSeq h, rfl, hnames, ClientEffect.silent_of_plain h⟩

/-- A handler that has written no more than the count. -/
structure Keeps (client : ClientP) (result : ClientP × List ClientEffect) : Prop
    extends Leaves client result where
  room : result.1.room = client.room

theorem Keeps.of_plain (lastRoundEventSeq : Int) (h : ∀ effect ∈ effects, effect.plain = true) :
    Keeps self ({ self with lastRoundEventSeq }, effects) :=
  ⟨.of_plain rfl lastRoundEventSeq h, rfl⟩

theorem keeps_one {effect : ClientEffect} (h : effect.plain = true) : Keeps self (self, [effect]) :=
  .of_plain self.lastRoundEventSeq fun _ heffect => by rwa [List.mem_singleton.mp heffect]

theorem keeps_counted {effect : ClientEffect} (h : effect.plain = true) :
    Keeps self (self.countRoundEvent, [effect]) :=
  .of_plain _ fun _ heffect => by rwa [List.mem_singleton.mp heffect]

theorem keeps_none : Keeps self (self, []) :=
  .of_plain self.lastRoundEventSeq fun _ heffect => absurd heffect List.not_mem_nil

theorem keeps_failed (h : self.failed = .ok (self', effects)) : Keeps self (self', effects) := by
  cases h
  exact keeps_one rfl

/-- But for the request itself. -/
theorem keeps_requestReceived (requestId : RequestId) (value : QJsonValue) :
    Keeps { self with currentRequest := requestId } (self.requestReceived requestId value) := by
  unfold requestReceived
  dsimp only
  split <;> exact keeps_one rfl

theorem notifyPongServer_same (value : QJsonValue) : (self.notifyPongServer value).1 = self := by
  unfold notifyPongServer
  split <;> rfl

theorem keeps_notifyPongServer (value : QJsonValue) : Keeps self (self.notifyPongServer value) := by
  unfold notifyPongServer
  split
  · exact keeps_one rfl
  · exact keeps_none

theorem keeps_notifyRockPaperScissors (value : QJsonValue) :
    Keeps self (self.notifyRockPaperScissors value) := by
  unfold notifyRockPaperScissors
  split
  · split
    · exact keeps_one rfl
    · exact keeps_counted rfl
  · exact keeps_one rfl

theorem keeps_notifyActionOrder (value : QJsonValue) :
    Keeps self (self.notifyActionOrder value) := by
  unfold notifyActionOrder
  split
  · split
    · exact keeps_one rfl
    · split
      · exact keeps_counted rfl
      · exact keeps_one rfl
  · exact keeps_one rfl

theorem keeps_notifySpoken (value : QJsonValue) : Keeps self (self.notifySpoken value) := by
  unfold notifySpoken
  dsimp only
  split <;> exact keeps_one rfl

/-- The client hangs up, and does not try again. -/
theorem keeps_notifyGameOver (value : QJsonValue) : Keeps self (self.notifyGameOver value) := by
  have hkeeps {effect : ClientEffect} (h : effect.plain = true) :
      Keeps self ({ self with attached := false },
        (if self.socket.isSome then [ClientEffect.letGo] else []) ++ [effect]) := by
    have hplain : ∀ e ∈ (if self.socket.isSome then [ClientEffect.letGo] else []) ++ [effect],
        e.plain = true := by
      intro e he
      obtain hletGo | hlast := List.mem_append.mp he
      · split at hletGo
        · rw [List.mem_singleton.mp hletGo]
          rfl
        · cases hletGo
      · rwa [List.mem_singleton.mp hlast]
    have hsilent := ClientEffect.silent_of_plain hplain
    refine ⟨⟨⟨⟨rfl, rfl, rfl, rfl, fun h => absurd h Bool.false_ne_true,
      ClientEffect.quiet_of_plain hplain⟩, rfl, rfl, fun packet hpacket => ?_⟩, rfl, rfl, hsilent⟩, rfl⟩
    rw [hsilent] at hpacket
    cases hpacket
  unfold notifyGameOver
  dsimp only
  split
  · split <;> exact hkeeps rfl
  · exact hkeeps rfl

theorem leaves_notifyLogicConfiguration (value : QJsonValue) :
    Leaves self (self.notifyLogicConfiguration value) := by
  unfold notifyLogicConfiguration
  split
  · exact (keeps_one rfl).toLeaves
  · next conf _ =>
    have hplain : ∀ effect ∈ [ClientEffect.notify .logicConfiguration], effect.plain = true :=
      fun effect heffect => by rw [List.mem_singleton.mp heffect]; rfl
    have hnames : { self.room with logicConfiguration := conf }.playerNames =
        self.room.playerNames := rfl
    exact .of_plain hnames self.lastRoundEventSeq hplain

theorem leaves_notifyRoundStart : Leaves self self.notifyRoundStart :=
  .of_plain (Room.prepareForRoundStart_playerNames _) 0 fun _ h => by
    rw [List.mem_singleton.mp h]
    rfl

/-- An action is carried out on players that are there. -/
theorem applyAction_playerNames {room room' : Room} {playerName toPlayer : String} {action : Action}
    {toPlace : Int} {success : Bool}
    (h : applyAction room playerName action toPlayer toPlace = .ok (success, room')) :
    room'.playerNames = room.playerNames := by
  obtain ⟨source, -, h⟩ := Except.bind_eq_ok.mp h
  cases action with
  | Slash | Kick =>
    obtain ⟨target, -, h⟩ := Except.bind_eq_ok.mp h
    cases h
    simp
  | LetMove =>
    obtain ⟨target, -, h⟩ := Except.bind_eq_ok.mp h
    cases h
    simp
  | _ =>
    cases h
    simp

theorem applyUpgrade_playerNames {room room' : Room}
    {entries : List (Sigma fun _ : String => List UpgradeItem)} {success : Bool}
    (h : applyUpgrade room entries = .ok (success, room')) :
    room'.playerNames = room.playerNames := by
  induction entries generalizing room success with
  | nil =>
    cases h
    rfl
  | cons entry rest ih =>
    rw [applyUpgrade] at h
    split at h
    · split at h
      · exact ih h
      · cases h
    · obtain ⟨⟨ret, after⟩, hrest, h⟩ := Except.bind_eq_ok.mp h
      cases h
      exact (ih hrest).trans (Room.setPlayer_playerNames _ _)

/-- What the mirror has been made to follow is passed on, with an error where it could not. -/
theorem leaves_applied {room : Room} (hnames : room.playerNames = self.room.playerNames)
    (n : Notification) (success : Bool) :
    Leaves self ({ self.countRoundEvent with room := room },
      .notify n :: if success then [] else [.setError]) := by
  refine .of_plain hnames _ fun effect heffect => ?_
  obtain rfl | herror := List.mem_cons.mp heffect
  · rfl
  · cases success with
    | true => cases herror
    | false =>
      rw [List.mem_singleton.mp herror]
      rfl

theorem leaves_notifyAction {value : QJsonValue}
    (h : self.notifyAction value = .ok (self', effects)) : Leaves self (self', effects) := by
  unfold notifyAction at h
  split at h
  · exact (keeps_failed h).toLeaves
  · obtain ⟨⟨success, room⟩, happly, h⟩ := Except.bind_eq_ok.mp h
    cases h
    exact leaves_applied (applyAction_playerNames happly) _ success

theorem leaves_notifyUpgrade {value : QJsonValue}
    (h : self.notifyUpgrade value = .ok (self', effects)) : Leaves self (self', effects) := by
  unfold notifyUpgrade at h
  split at h
  · split at h
    · exact (keeps_failed h).toLeaves
    · obtain ⟨⟨success, room⟩, happly, h⟩ := Except.bind_eq_ok.mp h
      cases h
      exact leaves_applied (applyUpgrade_playerNames happly) _ success
  · exact (keeps_failed h).toLeaves

theorem handles_notify (room : Room) (agents : QHash String Agent) (n : Notification) :
    Handles self ({ self with room, agents }, [.notify n]) :=
  .of_plain room agents self.lastRoundEventSeq fun _ h => by
    rw [List.mem_singleton.mp h]
    rfl

theorem handles_notifyAgentStateChanged (value : QJsonValue) :
    Handles self (self.notifyAgentStateChanged value) := by
  unfold notifyAgentStateChanged
  dsimp only
  split
  · exact (keeps_one rfl).toHandles
  · split
    · exact (keeps_one rfl).toHandles
    · split
      · exact keeps_none.toHandles
      · exact handles_notify self.room _ _

theorem handles_notifyPlayerRemoved (value : QJsonValue) :
    Handles self (self.notifyPlayerRemoved value) := by
  unfold notifyPlayerRemoved
  dsimp only
  split
  · exact (keeps_one rfl).toHandles
  · exact handles_notify _ _ _

/-- The client declares a state that it has been told for itself. -/
theorem declare_declares (before after : AgentState) {packet : Packet}
    (h : packet ∈ (self.declare before after).filterMap ClientEffect.packet) :
    packet = stateChangePacket after := by
  unfold declare at h
  split at h
  · exact List.mem_singleton.mp h
  · cases h

theorem handles_setState (state : AgentState) : Handles self (self.setState state) := by
  unfold setState
  split
  · exact keeps_none.toHandles
  · refine ⟨⟨rfl, rfl, rfl, rfl, id, ?_⟩, rfl, rfl, fun packet hpacket => ?_⟩
    · unfold declare
      split <;> rfl
    · exact ⟨state, declare_declares _ _ hpacket⟩

theorem handles_notifyPlayerAdded (value : QJsonValue) :
    Handles self (self.notifyPlayerAdded value) := by
  unfold notifyPlayerAdded
  dsimp only
  split
  · exact (keeps_one rfl).toHandles
  · split
    · split
      · refine ⟨⟨rfl, rfl, rfl, rfl, id, ?_⟩, rfl, rfl, fun packet hpacket => ?_⟩
        · unfold declare
          split <;> rfl
        · rw [List.filterMap_append] at hpacket
          obtain hdeclared | hnotified := List.mem_append.mp hpacket
          · exact ⟨_, declare_declares _ _ hdeclared⟩
          · cases hnotified
      · exact keeps_none.toHandles
    · split
      · exact (keeps_one rfl).toHandles
      · exact handles_notify _ _ _

/-- What a packet that is no request has a client do. -/
inductive Reacts (client : ClientP) (packet : Packet) (result : ClientP × List ClientEffect) :
    Prop where
  | handles (h : Handles client result) : Reacts client packet result
  | hangsUp (hresult : result = client.disconnectFromHost) : Reacts client packet result
  | greeted (hgreets : Greets packet) (hprogress : client.reconnectInProgress = true)
      (hresult : result = ({ client with reconnectInProgress := false, reconnectTimer := false },
        [.sendPacket client.signInPacket, .reconnectSucceeded])) : Reacts client packet result
  | welcomed (hresult : result = (client, [.sendPacket client.signInPacket])) :
      Reacts client packet result

theorem reacts_notifyVersion {packet : Packet} (htype : packet.type = .TypeNotify)
    (hid : packet.notifyId = .NotifyVersion) :
    Reacts self packet (self.notifyVersion packet.value) := by
  unfold notifyVersion
  dsimp only
  split
  · exact .handles (keeps_one rfl).toHandles
  · next hfields =>
    split
    · exact .hangsUp rfl
    · next hversion =>
      split
      · next hprogress =>
        simp only [Bool.or_eq_true, Bool.not_eq_true', not_or, Bool.not_eq_false] at hfields
        exact .greeted ⟨htype, hid, hfields.1, hfields.2, not_not.mp hversion⟩ hprogress rfl
      · exact .welcomed rfl

/-- The notifications that are about the agents, or about the connection itself. -/
def AboutAgents (notifyId : NotifyId) : Prop :=
  notifyId ∈ [.NotifyVersion, .NotifyAgentStateChanged, .NotifyPlayerAdded, .NotifyPlayerRemoved]

instance (notifyId : NotifyId) : Decidable (AboutAgents notifyId) :=
  inferInstanceAs (Decidable (_ ∈ _))

theorem leaves_notifyReceived {value : QJsonValue} {notifyId : NotifyId}
    (h : self.notifyReceived value notifyId = .ok (self', effects)) (hid : ¬ AboutAgents notifyId) :
    Leaves self (self', effects) := by
  have hof {result : ClientP × List ClientEffect} (hleaves : Leaves self result)
      (h : Except.ok result = (Except.ok (self', effects) : Except Logic.Fault _)) :
      Leaves self (self', effects) := by
    rwa [← Except.ok.inj h]
  cases notifyId with
  | NotifyVersion | NotifyAgentStateChanged | NotifyPlayerAdded | NotifyPlayerRemoved =>
    exact absurd (by decide) hid
  | NotifyAction => exact leaves_notifyAction h
  | NotifyUpgrade => exact leaves_notifyUpgrade h
  | NotifyLogicConfiguration => exact hof (leaves_notifyLogicConfiguration _) h
  | NotifyRockPaperScissors => exact hof (keeps_notifyRockPaperScissors _).toLeaves h
  | NotifyActionOrder => exact hof (keeps_notifyActionOrder _).toLeaves h
  | NotifyGameOver => exact hof (keeps_notifyGameOver _).toLeaves h
  | NotifySpoken => exact hof (keeps_notifySpoken _).toLeaves h
  | NotifyPongServer => exact hof (keeps_notifyPongServer _).toLeaves h
  | NotifyRoundStart => exact hof leaves_notifyRoundStart h
  | NotifyOperated => exact hof keeps_none.toLeaves h
  | NotifyGameStart | NotifyRoundOver => exact hof (keeps_one rfl).toLeaves h
  | _ => exact (keeps_failed h).toLeaves

theorem reacts_notifyReceived {packet : Packet} (htype : packet.type = .TypeNotify)
    (h : self.notifyReceived packet.value packet.notifyId = .ok (self', effects)) :
    Reacts self packet (self', effects) := by
  have hof {result : ClientP × List ClientEffect} (hreacts : Reacts self packet result)
      (h : Except.ok result = (Except.ok (self', effects) : Except Logic.Fault _)) :
      Reacts self packet (self', effects) := by
    rwa [← Except.ok.inj h]
  cases hid : packet.notifyId with
  | NotifyVersion =>
    rw [hid] at h
    exact hof (reacts_notifyVersion htype hid) h
  | NotifyAgentStateChanged =>
    exact hof (.handles (handles_notifyAgentStateChanged _)) (hid ▸ h)
  | NotifyPlayerAdded => exact hof (.handles (handles_notifyPlayerAdded _)) (hid ▸ h)
  | NotifyPlayerRemoved => exact hof (.handles (handles_notifyPlayerRemoved _)) (hid ▸ h)
  | _ => exact .handles (leaves_notifyReceived h (by rw [hid]; decide)).toHandles

/-- A request is taken up; any other packet has its handler. -/
theorem socketPacketReceived_cases {packet : Packet}
    (h : self.socketPacketReceived packet = .ok (self', effects)) :
    Reacts self packet (self', effects) ∨ packet.type = .TypeRequest ∧ self.socket.isSome = true ∧
      Leaves { self with currentRequest := packet.requestId } (self', effects) := by
  unfold socketPacketReceived at h
  split at h
  · cases h
    exact .inl (.handles keeps_none.toHandles)
  · next hsocket =>
    split at h
    · next htype =>
      have hrequest := @keeps_requestReceived self packet.requestId packet.value
      rw [Except.ok.inj h] at hrequest
      exact .inr ⟨htype, by simpa [Option.isSome_iff_ne_none] using hsocket, hrequest.toLeaves⟩
    · next htype => exact .inl (reacts_notifyReceived htype h)
    · exact .inl (.handles (keeps_failed h).toHandles)

end ClientP

end QMdmmNetworking
