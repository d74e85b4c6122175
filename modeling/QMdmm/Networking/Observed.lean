import QMdmm.Networking.AgentStates
import QMdmm.Networking.Server

namespace QMdmmNetworking

open QMdmmCore Data Protocol

/-- Notifications of who is in the room, and in what state. -/
def Notification.ofAgents : Notification → Bool
  | .agentStateChange _ _ | .playerAdd _ _ _ | .playerRemove _ => true
  | _ => false

def Effect.packet : Effect → Option Packet
  | .sendPacket packet => some packet
  | _ => none

/-- The greeting of a socket that the server has accepted. -/
def versionPacket (versionNumber : String) : Packet :=
  .ofNotify .NotifyVersion (.object [
    ("versionNumber", .string versionNumber), ("protocolVersion", .ofInt ClientP.protocolVersion)])

/-- A full room, one of its players' client, and what travels between them. -/
structure Observed where
  /-- The agents of the other players. -/
  others : List Agent
  /-- The connection of the observed player, with its agent. -/
  conn : ServerConnectionP
  client : ClientP
  /-- What is on its way to the socket of the client. -/
  down : List Packet
  /-- What is on its way to the server, on any socket the client has had. -/
  up : List (Socket × Packet)
  /-- How many sockets there have been. -/
  made : Nat

namespace Observed

inductive Event where
  /-- Another player declares a state, or comes back. -/
  | changes (playerName : String) (state : AgentState)
  /-- The server notices that the socket of another player is gone. -/
  | drops (playerName : String)
  | notify (notification : Notification)
  | request (request : Request)
  /-- The server reads from a socket; `order` is that of the agents of the room. -/
  | serverReads (socket : Socket) (random : RockPaperScissors) (order : List Agent)
  | serverLost (socket : Socket) (random : RockPaperScissors)
  | clientReads
  | socketGone
  | socketDeleted
  | connectToHost (known : Bool) (initialState : AgentState)
  | reconnectTimeout (known : Bool)
  | disconnectFromHost
  | setState (state : AgentState)
  | answer (reply : Reply)
  | giveUp
  | speak (content : String)
  | operate

def everyone (self : Observed) : List Agent := self.conn.agent :: self.others

/-- What the connection sends arrives if it is bound to the socket the client has. -/
def fromServer (self : Observed) (result : ServerConnectionP × List Effect) : Observed :=
  { self with
    conn := result.1
    down := if result.1.socket = self.client.socket then
        self.down ++ result.2.filterMap Effect.packet
      else self.down }

def fromClient (self : Observed) (result : ClientP × List ClientEffect) : Observed :=
  { self with
    client := result.1
    up := self.up ++ match result.1.socket with
      | some socket => (result.2.filterMap ClientEffect.packet).map fun packet => (socket, packet)
      | none => [] }

def withState (playerName : String) (state : AgentState) (agent : Agent) : Agent :=
  if agent.objectName = playerName then { agent with state := state } else agent

/-- `agentStateChanged`, as far as the observed player is told. -/
def changes (self : Observed) (playerName : String) (state : AgentState) : Observed :=
  if self.others.any fun agent => agent.objectName = playerName ∧ agent.state ≠ state then
    { self with others := self.others.map (withState playerName state) }.fromServer
      (self.conn.notify (.agentStateChange playerName state))
  else self

def stateOf (self : Observed) (playerName : String) : Option AgentState :=
  (self.others.find? fun agent => agent.objectName = playerName).map (·.state)

/-- `agentDisconnected` ends a room in which nobody is online. -/
def allDisconnected (self : Observed) : Bool :=
  self.everyone.all fun agent => !agent.state.online

/-- What there is to observe after a drop, if the room goes on. -/
def goesOn (self : Observed) : Option Observed := if self.allDisconnected then none else some self

def drops (self : Observed) (playerName : String) : Option Observed := do
  let state ← self.stateOf playerName
  (self.changes playerName (state.setFlag StateMaskOnline false)).goesOn

/-- The state snapshot of `reconnectAgent`. -/
def snapshot (conn : ServerConnectionP) (order : List Agent) : List Effect :=
  (conn.notify .logicConfiguration).2 ++ order.flatMap fun agent =>
    (conn.notify (.playerAdd agent.objectName agent.screenName agent.state)).2

/-- The reconnect path of `signIn`, which replays the round events before the
snapshot. -/
def signIn (self : Observed) (socket : Socket) (lastRoundEventSeq : Int) (order : List Agent) :
    Option Observed := do
  let (conn, effects) ← (self.conn.reconnect socket lastRoundEventSeq).toOption
  let state := conn.agent.state.setFlag StateMaskOnline true
  let conn := { conn with agent := { conn.agent with state := state } }
  if order.Perm (conn.agent :: self.others) then
    return self.fromServer (conn, effects ++ snapshot conn order)
  else none

/-- A sign-in under the name of an agent that is online is no reconnect; this room has
nothing to do with its socket. -/
def serverReceives (self : Observed) (socket : Socket) (packet : Packet)
    (random : RockPaperScissors) (order : List Agent) : Option Observed :=
  match notifies packet with
  | .NotifySignIn =>
    match SignIn.ofValue packet.value with
    | none => some self
    | some ob =>
      if ob.playerName = self.conn.agent.objectName ∧ self.conn.agent.state.online = false then
        self.signIn socket ob.lastRoundEventSeq order
      else some self
  | .NotifyStateChange =>
    match declaredState packet with
    | none => some self
    | some state =>
      some (if self.conn.socket = some socket then
        { self with conn := { self.conn with agent := { self.conn.agent with state := state } } }
      else self)
  | _ =>
    some (if self.conn.socket = some socket then
      self.fromServer (self.conn.packetReceived packet random)
    else self)

/-- The client connects with a socket that has not been there before. -/
def connects (self : Observed) (versionNumber : String) (known : Bool)
    (result : ClientP × List ClientEffect) : Observed :=
  { self with
    down := if known then [versionPacket versionNumber] else []
    made := self.made + 1 }.fromClient result

/-- The client loses what has not been read. -/
def hangsUp (self : Observed) (result : ClientP × List ClientEffect) : Observed :=
  { self with down := [] }.fromClient result

def handle (versionNumber : String) (self : Observed) : Event → Option Observed
  | .changes playerName state => some (self.changes playerName state)
  | .drops playerName => self.drops playerName
  | .notify notification =>
    if notification.ofAgents then none else some (self.fromServer (self.conn.notify notification))
  | .request request => some (self.fromServer (self.conn.request request))
  | .serverReads socket random order =>
    match self.up.find? fun sent => sent.1 = socket with
    | none => none
    | some sent =>
      serverReceives { self with up := self.up.eraseP fun sent => sent.1 = socket } socket sent.2
        random order
  | .serverLost socket random =>
    let self := { self with up := self.up.filter fun sent => sent.1 ≠ socket }
    if socket ∈ self.conn.wired then
      (self.fromServer (self.conn.onSocketDisconnected random)).goesOn
    else some self
  | .clientReads =>
    match self.down with
    | [] => none
    | packet :: rest =>
      (self.client.handle (.packetReceived packet)).map { self with down := rest }.fromClient
  | .socketGone => (self.client.handle .socketGone).map self.hangsUp
  | .socketDeleted => (self.client.handle .socketDeleted).map self.hangsUp
  | .connectToHost known initialState =>
    (self.client.handle (.connectToHost self.made known initialState)).map
      (self.connects versionNumber known)
  | .reconnectTimeout known =>
    (self.client.handle (.reconnectTimeout self.made known)).map (self.connects versionNumber known)
  | .disconnectFromHost => (self.client.handle .disconnectFromHost).map self.hangsUp
  | .setState state => (self.client.handle (.setState state)).map self.fromClient
  | .answer reply => (self.client.handle (.answer reply)).map self.fromClient
  | .giveUp => (self.client.handle .giveUp).map self.fromClient
  | .speak content => (self.client.handle (.speak content)).map self.fromClient
  | .operate => (self.client.handle .operate).map self.fromClient

/-- A packet that is about the game, not about who plays it. -/
def OfGame (packet : Packet) : Prop :=
  notifies packet ≠ .NotifyAgentStateChanged ∧ notifies packet ≠ .NotifyPlayerAdded ∧
    notifies packet ≠ .NotifyPlayerRemoved ∧ notifies packet ≠ .NotifyVersion

def changedPacket (playerName : String) (state : AgentState) : Packet :=
  .ofNotify .NotifyAgentStateChanged (.object [
    ("playerName", .string playerName), ("agentState", state.wire)])

def addedPacket (agent : Agent) : Packet :=
  .ofNotify .NotifyPlayerAdded (.object [
    ("playerName", .string agent.objectName), ("screenName", .string agent.screenName),
    ("agentState", agent.state.wire)])

/-- The last player has just joined: the client is connected, and about each player it
either knows the state or is still to be told. -/
structure Filled (room : Observed) (pending : List Agent) : Prop where
  names : (room.everyone.map (·.objectName)).Nodup
  objectName : room.client.objectName = room.conn.agent.objectName
  own : room.client.objectName ∈ room.client.agents
  consistent : room.client.Consistent
  attached : room.client.attached = true
  socket : ∃ socket < room.made, room.client.socket = some socket ∧
    room.conn.socket = some socket ∧ room.conn.wired = [socket]
  sublist : pending.Sublist room.everyone
  unknown : ∀ agent ∈ pending, agent.objectName ≠ room.client.objectName →
    agent.objectName ∉ room.client.agents
  known : ∀ agent ∈ room.everyone, agent ∉ pending →
    room.client.held agent.objectName = some agent.state
  down : ∃ before after, (∀ packet ∈ before ++ after, OfGame packet) ∧
    room.down = before ++ pending.map addedPacket ++ after
  up : room.up = []
  roundEventLog : room.conn.roundEventLog = []

/-- Any full room, and any sequence of events. -/
def system (versionNumber : String) : TransitionSystem Observed Event where
  init self := ∃ pending, self.Filled pending
  step self event self' := self.handle versionNumber event = some self'

/-- What a socket is still to hand to the server. -/
def queueOf (up : List (Socket × Packet)) (socket : Socket) : List Packet :=
  up.filterMap fun sent => if sent.1 = socket then some sent.2 else none

theorem queueOf_append (up more : List (Socket × Packet)) (socket : Socket) :
    queueOf (up ++ more) socket = queueOf up socket ++ queueOf more socket :=
  List.filterMap_append

theorem queueOf_cons_self {sent : Socket × Packet} {socket : Socket} (h : sent.1 = socket)
    (up : List (Socket × Packet)) : queueOf (sent :: up) socket = sent.2 :: queueOf up socket :=
  List.filterMap_cons_some (if_pos h)

theorem queueOf_cons_ne {sent : Socket × Packet} {socket : Socket} (h : sent.1 ≠ socket)
    (up : List (Socket × Packet)) : queueOf (sent :: up) socket = queueOf up socket :=
  List.filterMap_cons_none (if_neg h)

theorem queueOf_map (packets : List Packet) (sender socket : Socket) :
    queueOf (packets.map fun packet => (sender, packet)) socket =
      if sender = socket then packets else [] := by
  induction packets with
  | nil => split <;> rfl
  | cons packet rest ih =>
    rw [List.map_cons]
    by_cases h : sender = socket
    · rw [queueOf_cons_self h, ih, if_pos h, if_pos h]
    · rw [queueOf_cons_ne h, ih, if_neg h, if_neg h]

theorem queueOf_filter (up : List (Socket × Packet)) (lost socket : Socket) :
    queueOf (up.filter fun sent => sent.1 ≠ lost) socket =
      if socket = lost then [] else queueOf up socket := by
  induction up with
  | nil => split <;> rfl
  | cons sent rest ih =>
    by_cases hlost : sent.1 = lost
    · rw [List.filter_cons_of_neg (by simpa using hlost), ih]
      split
      · rfl
      · next hne => rw [queueOf_cons_ne fun h => hne (h.symm.trans hlost)]
    · rw [List.filter_cons_of_pos (by simpa using hlost)]
      by_cases hsocket : sent.1 = socket
      · have hne : socket ≠ lost := fun h => hlost (hsocket.trans h)
        rw [queueOf_cons_self hsocket, queueOf_cons_self hsocket, ih, if_neg hne, if_neg hne]
      · rw [queueOf_cons_ne hsocket, queueOf_cons_ne hsocket, ih]

/-- Reading takes the first packet of its socket, and of no other one. -/
theorem queueOf_eraseP {up : List (Socket × Packet)} {socket : Socket} {sent : Socket × Packet}
    (hfind : up.find? (fun sent => sent.1 = socket) = some sent) :
    queueOf up socket = sent.2 :: queueOf (up.eraseP fun sent => sent.1 = socket) socket ∧
    ∀ other ≠ socket, queueOf (up.eraseP fun sent => sent.1 = socket) other = queueOf up other := by
  induction up with
  | nil => cases hfind
  | cons head rest ih =>
    by_cases hhead : head.1 = socket
    · rw [List.find?_cons_of_pos (by simpa using hhead)] at hfind
      cases hfind
      rw [List.eraseP_cons_of_pos (by simpa using hhead), queueOf_cons_self hhead]
      exact ⟨rfl, fun other hother => (queueOf_cons_ne (hhead.trans_ne hother.symm) rest).symm⟩
    · rw [List.find?_cons_of_neg (by simpa using hhead)] at hfind
      obtain ⟨hqueue, hothers⟩ := ih hfind
      rw [List.eraseP_cons_of_neg (by simpa using hhead), queueOf_cons_ne hhead,
        queueOf_cons_ne hhead]
      refine ⟨hqueue, fun other hother => ?_⟩
      by_cases hsame : head.1 = other
      · rw [queueOf_cons_self hsame, queueOf_cons_self hsame, hothers other hother]
      · rw [queueOf_cons_ne hsame, queueOf_cons_ne hsame, hothers other hother]

/-- The last state a client has declared on a socket and the server has not read, else
the one the agent has. -/
def finalState (self : Observed) (socket : Socket) : AgentState :=
  ((queueOf self.up socket).filterMap declaredState).getLast?.getD self.conn.agent.state

/-- What the client will hold for another player once everything has arrived. -/
def view (self : Observed) (playerName : String) : Option AgentState :=
  self.down.foldl (hear playerName) (self.client.held playerName)

structure Connected (room : Observed) (socket : Socket) : Prop where
  attached : room.client.attached = true
  client : room.client.socket = some socket
  conn : room.conn.socket = some socket

/-- The sockets and the sign-ins are what they should be, and the client's state is the
last one it has declared. -/
structure Sound (room : Observed) : Prop where
  names : (room.everyone.map (·.objectName)).Nodup
  objectName : room.client.objectName = room.conn.agent.objectName
  own : room.client.objectName ∈ room.client.agents
  consistent : room.client.Consistent
  attached : room.client.attached = true → room.client.socket.isSome = true
  bound : ∀ socket, room.conn.socket = some socket → socket ∈ room.conn.wired
  wired : ∀ socket ∈ room.conn.wired, socket < room.made
  socket : ∀ socket, room.client.socket = some socket → socket < room.made
  up : ∀ sent ∈ room.up, sent.1 < room.made
  kept : ∀ packet ∈ room.down, notifies packet ≠ .NotifyPlayerRemoved
  roundEventLog : ∀ packet ∈ room.conn.roundEventLog, OfGame packet
  greeted : ∀ socket, room.client.socket = some socket → socket ∈ room.conn.wired →
    (∀ packet ∈ room.down, notifies packet ≠ .NotifyVersion) ∧
      ((queueOf room.up socket).filter isSignIn).length = 0
  greeting : ∀ socket, room.client.socket = some socket → socket ∉ room.conn.wired →
    room.down = [] ∧ ((queueOf room.up socket).filter isSignIn).length ≤ 1 ∨
      room.down.length = 1 ∧ ((queueOf room.up socket).filter isSignIn).length = 0
  declared : ∀ socket, room.client.socket = some socket →
    ∀ state, ((queueOf room.up socket).filterMap declaredState).getLast? = some state →
      room.client.held room.client.objectName = some state

/-- What a connected client will hold when everything has arrived. -/
structure Follows (room : Observed) (stale : List String) (socket : Socket) : Prop where
  own : room.client.held room.client.objectName = some (room.finalState socket) ∨
    (room.down.filterMap (adopted room.client.objectName)).getLast? =
      some (room.finalState socket)
  fresh : ∀ agent ∈ room.others, agent.objectName ∉ stale →
    room.view agent.objectName = some agent.state
  stale : ∀ agent ∈ room.others, agent.objectName ∈ stale →
    ∃ state, room.view agent.objectName = some state ∧ state ≠ agent.state

/-- The players that the client holds in another state than they are in. -/
def misheld (self : Observed) : List String :=
  (self.others.filter fun agent =>
    (self.client.held agent.objectName).isSome ∧
      self.client.held agent.objectName ≠ some agent.state).map (·.objectName)

/-- A known player whose state has changed while the client was away is stale from the
client's return on, until its state changes again. -/
def noteStale (self : Observed) (_ : Event) (self' : Observed) (stale : List String) :
    List String :=
  if self'.conn.wired = self.conn.wired then
    stale.filter fun playerName => self'.stateOf playerName = self.stateOf playerName
  else self'.misheld

structure Inv (room : Observed) (stale : List String) : Prop where
  sound : room.Sound
  names : ∀ playerName ∈ stale, ∃ agent ∈ room.others, agent.objectName = playerName
  follows : ∀ socket, room.Connected socket → room.Follows stale socket

end Observed

end QMdmmNetworking
