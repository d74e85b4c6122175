import QMdmm.Networking.Converge
import QMdmm.Networking.OneAnswer

namespace QMdmmNetworking

open QMdmmCore Data Protocol

namespace Session

/-- `next`, with what the slot does outside of the connection. -/
def run (s : Session) (l : Step) : Option (Session × List Effect) :=
  if s.enabled l.event then
    match act s.conn l with
    | .ok (conn, effects) => some (s.record l.event conn effects, effects)
    | .error _ => none
  else none

theorem run_eq_some {s t : Session} {l : Step} {effects : List Effect}
    (h : s.run l = some (t, effects)) : s.enabled l.event = true ∧
      ∃ conn, act s.conn l = .ok (conn, effects) ∧ t = s.record l.event conn effects := by
  unfold run at h
  split at h
  · next henabled =>
    split at h
    · next conn _ hact =>
      cases h
      exact ⟨henabled, conn, hact, rfl⟩
    · cases h
  · cases h

theorem next_of_run {s t : Session} {l : Step} {effects : List Effect}
    (h : s.run l = some (t, effects)) : s.next l = some t := by
  obtain ⟨henabled, conn, hact, rfl⟩ := run_eq_some h
  rw [next, if_pos henabled, hact]

/-- The events that are no matter of the socket a connection is bound to, or to be. -/
def Event.own : Event → Bool
  | .packetReceived _ | .setSocket _ | .reconnect _ _ => false
  | _ => true

def setState (s : Session) (state : AgentState) : Session :=
  { s with conn := { s.conn with agent := { s.conn.agent with state := state } } }

end Session

/-- A connection of a client: what is on its way, and the seat its sign-in has led to.
Of its history: whether the client has answered over it a request that had come over
another one, and whether the server has answered in the client's stead a request that
was still out on it, and kept it. -/
structure Line where
  down : List Packet
  up : List Packet
  seat : Option Nat
  stale : Bool
  defaulted : Bool

/-- A client, its connections, and the seats the server has given to its player, in the
order they were made. -/
structure Exchange where
  versionNumber : String
  logicConfiguration : LogicConfiguration
  requestTimeout : Int
  client : ClientP
  seats : List Session
  lines : Socket → Line
  /-- How many connections there have been. -/
  made : Nat
  /-- The socket over which the last request came to the client. -/
  heldOver : Option Socket
  /-- A reply has arrived that names no request in flight on its connection. -/
  mismatched : Bool

namespace Exchange

/-- Where a sign-in leads: to a seat whose agent is offline, to a new one, or nowhere. -/
inductive SignedIn where
  | reconnected (seat : Nat)
  | added
  | refused

inductive Event where
  | connectToHost (known : Bool) (initialState : AgentState)
  | disconnectFromHost
  | clientReads
  | socketGone
  | socketDeleted
  | reconnectTimeout (known : Bool)
  | setState (state : AgentState)
  | answer (reply : Reply)
  | giveUp
  /-- The server reads from a socket. -/
  | serverReads (socket : Socket) (signedIn : SignedIn) (sync : Bool) (random : RockPaperScissors)
  | own (seat : Nat) (step : Session.Step)
  | notify (seat : Nat) (notification : Notification)
  | clearRoundEventLog (seat : Nat)

def new (versionNumber : String) (logicConfiguration : LogicConfiguration) (requestTimeout : Int)
    (objectName screenName : String) : Exchange where
  versionNumber := versionNumber
  logicConfiguration := logicConfiguration
  requestTimeout := requestTimeout
  client := .new objectName screenName
  seats := []
  lines _ := ⟨[], [], none, false, false⟩
  made := 0
  heldOver := none
  mismatched := false

def onLine (self : Exchange) (socket : Socket) (change : Line → Line) : Exchange :=
  { self with lines := Function.update self.lines socket (change (self.lines socket)) }

/-- The request of a connection that the client has yet to answer. -/
def inHand (self : Exchange) (socket : Socket) : List RequestId :=
  if self.client.socket = some socket ∧ self.heldOver = some socket ∧
      self.client.currentRequest ≠ .RequestInvalid then [self.client.currentRequest]
  else []

/-- What the packets of one type are requests of, or replies to. -/
def idsOf (type : PacketType) (packets : List Packet) : List RequestId :=
  (packets.filter fun packet => packet.type = type).map (·.requestId)

/-- The requests of a connection from when they are sent until their replies arrive. -/
def underWay (self : Exchange) (socket : Socket) : List RequestId :=
  idsOf .TypeRequest (self.lines socket).down ++ self.inHand socket ++
    idsOf .TypeReply (self.lines socket).up

/-- What the client sends goes to the socket it has. -/
def fromClient (self : Exchange) (result : ClientP × List ClientEffect) : Exchange :=
  let self := { self with client := result.1 }
  match result.1.socket with
  | none => self
  | some socket => self.onLine socket fun line =>
    { line with up := line.up ++ result.2.filterMap ClientEffect.packet }

/-- What a connection sends goes to the socket it is bound to. -/
def fromSeat (self : Exchange) (seat : Nat) (session : Session) (effects : List Effect) :
    Exchange :=
  let self := { self with seats := self.seats.set seat session }
  match session.conn.socket with
  | none => self
  | some socket => self.onLine socket fun line =>
    { line with down := line.down ++ effects.filterMap Effect.packet }

/-- A new connection: a server that is there greets it. -/
def connects (self : Exchange) (known : Bool) (result : ClientP × List ClientEffect) : Exchange :=
  { self with
    client := result.1
    lines := Function.update self.lines self.made
      ⟨if known then [versionPacket self.versionNumber] else [], [], none, false, false⟩
    made := self.made + 1 }

/-- A reply that the client sends for a request of another connection. -/
def answers (self : Exchange) (result : ClientP × List ClientEffect) : Exchange :=
  match result.1.socket with
  | none => self.fromClient result
  | some socket => (self.fromClient result).onLine socket fun line =>
    { line with
      stale := line.stale ||
        (!(result.2.filterMap ClientEffect.packet).isEmpty && self.heldOver != some socket) }

def reads (self : Exchange) (socket : Socket) (packet : Packet) (rest : List Packet) : Exchange :=
  { self.onLine socket fun line => { line with down := rest } with
    heldOver := if packet.type = .TypeRequest then some socket else self.heldOver }

def clientReads (self : Exchange) : Option Exchange :=
  match self.client.socket with
  | none => none
  | some socket =>
    match (self.lines socket).down with
    | [] => none
    | packet :: rest =>
      (self.client.handle (.packetReceived packet)).map
        (self.reads socket packet rest).fromClient

/-- The socket is bound to a seat; that of an agent that is offline, or a new one. -/
def binds (self : Exchange) (socket : Socket) (seat : Nat) (session : Session)
    (event : Session.Event) (state : AgentState) : Option Exchange :=
  (session.run ⟨event, false, .Rock⟩).map fun result =>
    (self.onLine socket fun line => { line with seat := some seat }).fromSeat seat
      (result.1.setState state) result.2

/-- `ServerP::signIn`. The snapshot that follows are notifications of their own. -/
def signIn (self : Exchange) (socket : Socket) (ob : SignIn) : SignedIn → Option Exchange
  | .refused => some self
  | .added =>
    let session := Session.new ⟨ob.playerName, ob.screenName, ob.agentState⟩
      self.logicConfiguration self.requestTimeout
    { self with seats := self.seats ++ [session] }.binds socket self.seats.length session
      (.setSocket socket) ob.agentState
  | .reconnected seat =>
    match self.seats[seat]? with
    | none => none
    | some session =>
      if session.conn.agent.state.online then none
      else
        self.binds socket seat session (.reconnect socket ob.lastRoundEventSeq)
          (session.conn.agent.state.setFlag StateMaskOnline true)

/-- Whether a packet is a reply to anything but the request in flight. -/
def mismatches (session : Option Session) (packet : Packet) : Bool :=
  packet.type = .TypeReply &&
    !(session.any fun session => session.conn.currentRequest = packet.requestId)

/-- A socket that no sign-in has bound is the server's own; what comes over one that has
been bound and is not any more is lost. -/
def serverReads (self : Exchange) (socket : Socket) (signedIn : SignedIn) (sync : Bool)
    (random : RockPaperScissors) : Option Exchange :=
  match (self.lines socket).up with
  | [] => none
  | packet :: rest =>
    let read := self.onLine socket fun line => { line with up := rest }
    match (self.lines socket).seat with
    | none =>
      match notifies packet with
      | .NotifySignIn => (SignIn.ofValue packet.value).bind fun ob => read.signIn socket ob signedIn
      | _ => some { read with mismatched := self.mismatched || mismatches none packet }
    | some seat =>
      (self.seats[seat]?.filter fun session => session.conn.socket = some socket).bind fun session =>
        (session.run ⟨.packetReceived packet, sync, random⟩).map fun result =>
          { read.fromSeat seat
              (result.1.setState ((declaredState packet).getD result.1.conn.agent.state)) result.2 with
            mismatched := self.mismatched || mismatches (some session) packet }

/-- A default reply to a request that is still out leaves the client to answer it. -/
def defaults (self : Exchange) (before after : Session) (socket : Socket) (line : Line) : Line :=
  { line with
    defaulted := line.defaulted ||
      (after.conn.socket = some socket && before.conn.currentRequest ≠ .RequestInvalid &&
        after.conn.currentRequest = .RequestInvalid && !(self.underWay socket).isEmpty) }

def own (self : Exchange) (seat : Nat) (l : Session.Step) : Option Exchange :=
  if l.event.own then
    self.seats[seat]?.bind fun session => (session.run l).map fun result =>
      let sent := self.fromSeat seat result.1 result.2
      { sent with
        lines := fun socket => self.defaults session result.1 socket (sent.lines socket) }
  else none

def handle (self : Exchange) : Event → Option Exchange
  | .connectToHost known initialState =>
    (self.client.handle (.connectToHost self.made known initialState)).map (self.connects known)
  | .disconnectFromHost => (self.client.handle .disconnectFromHost).map self.fromClient
  | .clientReads => self.clientReads
  | .socketGone => (self.client.handle .socketGone).map self.fromClient
  | .socketDeleted => (self.client.handle .socketDeleted).map self.fromClient
  | .reconnectTimeout known =>
    (self.client.handle (.reconnectTimeout self.made known)).map (self.connects known)
  | .setState state => some (self.fromClient (self.client.setState state))
  | .answer reply => (self.client.handle (.answer reply)).map self.answers
  | .giveUp => (self.client.handle .giveUp).map self.answers
  | .serverReads socket signedIn sync random => self.serverReads socket signedIn sync random
  | .own seat l => self.own seat l
  | .notify seat notification =>
    self.seats[seat]?.map fun session =>
      let result := session.conn.notify notification
      self.fromSeat seat { session with conn := result.1 } result.2
  | .clearRoundEventLog seat =>
    self.seats[seat]?.map fun session =>
      self.fromSeat seat { session with conn := session.conn.clearRoundEventLog } []

/-- Any server and any client, and any sequence of events. -/
def system : TransitionSystem Exchange Event where
  init self := ∃ versionNumber logicConfiguration requestTimeout objectName screenName,
    self = new versionNumber logicConfiguration requestTimeout objectName screenName
  step self event self' := self.handle event = some self'

/-- No reply arrives over a connection on which the client has answered a request of
another one, or the server has answered a request of its own that was still out. -/
def inOrder (self : Exchange) : Event → Bool
  | .serverReads socket _ _ _ =>
    match (self.lines socket).up with
    | [] => true
    | packet :: _ =>
      packet.type ≠ .TypeReply || !((self.lines socket).stale || (self.lines socket).defaulted)
  | _ => true

end Exchange

end QMdmmNetworking
