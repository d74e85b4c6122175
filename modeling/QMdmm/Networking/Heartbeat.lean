import QMdmm.Networking.Exchange

namespace QMdmmNetworking

open QMdmmCore Data Protocol

/-- How far a timer of Qt may be off, early or late, in a program that is never busy. -/
def timerSlack (interval : Nat) : Nat := interval / 20

/-- A single-shot timer that was started then may run out now. -/
def ranOut (interval started now : Nat) : Bool :=
  started + (interval - timerSlack interval) ≤ now

def isPing (packet : Packet) : Bool :=
  packet.type = .TypeNotify && packet.notifyId = .NotifyPingServer

def isPong (packet : Packet) : Bool :=
  packet.type = .TypeNotify && packet.notifyId = .NotifyPongServer

def pingPacket (sentAt : Nat) : Packet := .ofNotify .NotifyPingServer (.ofInt sentAt)

/-- `ServerP::pingServer`: the value goes back untouched. -/
def pongPacket (value : QJsonValue) : Packet := .ofNotify .NotifyPongServer value

/-- The events that neither connect a client nor come from the server. -/
def ClientEvent.own : ClientEvent → Bool
  | .connectToHost _ _ _ | .reconnectTimeout _ _ | .packetReceived _ => false
  | _ => true

/-- A `ClientP` with what it measures its connection by. The times are milliseconds since
the epoch. -/
structure PingingClient where
  client : ClientP
  /-- When `heartbeatTimer` runs out next. -/
  heartbeatTimer : Option Nat
  /-- When `pongDeadline` was started. -/
  pongDeadline : Option Nat
  roundTripTime : Int
  newestAnsweredPing : Int
  firstPingInDeadlineWindow : Int

namespace PingingClient

def heartbeatInterval : Nat := 30000

/-- `pongDeadline->interval()`. -/
def pongTimeout : Nat := 3 * heartbeatInterval

def new (client : ClientP) : PingingClient := ⟨client, none, none, -1, -1, -1⟩

def armPongDeadline (now : Nat) (self : PingingClient) : PingingClient :=
  { self with firstPingInDeadlineWindow := -1, pongDeadline := some now }

/-- The window opens with its first ping. -/
def notePing (now : Nat) (self : PingingClient) : PingingClient :=
  { self with
    firstPingInDeadlineWindow :=
      if self.firstPingInDeadlineWindow < 0 then now else self.firstPingInDeadlineWindow }

/-- The next ping is due at `next`. -/
def heartbeatTimeout (now next : Nat) (self : PingingClient) :
    PingingClient × List ClientEffect :=
  let self := { self with heartbeatTimer := some next }
  if self.client.socket.isNone then (self, [])
  else (self.notePing now, [.sendPacket (pingPacket now)])

/-- What every way of letting go of the connection gives up. -/
def stopMeasuring (self : PingingClient) : PingingClient :=
  { self with
    heartbeatTimer := none, pongDeadline := none, roundTripTime := -1, newestAnsweredPing := -1 }

def handleSocketGone (self : PingingClient) : PingingClient × List ClientEffect :=
  let result := self.client.handleSocketGone
  if self.client.socket.isNone then (self, result.2)
  else ({ self.stopMeasuring with client := result.1 }, result.2)

/-- Whether the window is judged: one of its pings has had an interval to be answered in. -/
def asked (now : Nat) (self : PingingClient) : Bool :=
  self.firstPingInDeadlineWindow ≥ 0 && now - self.firstPingInDeadlineWindow ≥ heartbeatInterval

def pongDeadlinePassed (now : Nat) (self : PingingClient) : PingingClient × List ClientEffect :=
  let self := { self with pongDeadline := none }
  if self.asked now then self.handleSocketGone else (self.armPongDeadline now, [])

def notifyPongServer (now : Nat) (self : PingingClient) (value : QJsonValue) :
    PingingClient × List ClientEffect :=
  match value.toLongLong with
  | none => (self, [.setError])
  | some pongTime =>
    let self :=
      if self.newestAnsweredPing < 0 ∨ pongTime ≥ self.newestAnsweredPing then
        { self with roundTripTime := now - pongTime, newestAnsweredPing := pongTime }
      else self
    (self.armPongDeadline now, [])

/-- A packet that makes the client hang up stops what measured the connection. -/
def socketPacketReceived (now : Nat) (self : PingingClient) (packet : Packet) :
    Option (PingingClient × List ClientEffect) :=
  (self.client.handle (.packetReceived packet)).map fun result =>
    let self := { self with client := result.1 }
    if isPong packet then self.notifyPongServer now packet.value
    else (if result.1.attached then self else self.stopMeasuring, result.2)

/-- `connectSocket`: a host that names no transport leaves the timers as they are. -/
def connected (now next : Nat) (known : Bool) (self : PingingClient) : PingingClient :=
  if known then { self with heartbeatTimer := some next }.armPongDeadline now else self

/-- The slots of the client other than those of the timers that measure its connection. -/
def handle (now next : Nat) (self : PingingClient) (event : ClientEvent) :
    Option (PingingClient × List ClientEffect) :=
  match event with
  | .packetReceived packet => self.socketPacketReceived now packet
  | .socketGone => if self.client.attached then some self.handleSocketGone else none
  | _ =>
    (self.client.handle event).map fun result =>
      let self := { self with client := result.1 }
      match event with
      | .connectToHost _ known _ | .reconnectTimeout _ known =>
        (self.connected now next known, result.2)
      | .disconnectFromHost => (self.stopMeasuring, result.2)
      | _ => (self, result.2)

end PingingClient

/-- A `ServerConnectionP`, and when its `heartbeatDeadline` was last started. -/
structure WatchedConnection where
  conn : ServerConnectionP
  heartbeatDeadline : Option Nat

namespace WatchedConnection

/-- In seconds. -/
def heartbeatSilenceTimeout : Nat := 90

/-- `heartbeatDeadline->interval()`. -/
def silenceTimeout : Nat := heartbeatSilenceTimeout * 1000

/-- What a slot does to the deadline: a binding and a packet start it over, and without a
socket it is stopped. -/
def deadlineAfter (now : Nat) (self : WatchedConnection) (conn : ServerConnectionP) :
    Session.Event → Option Nat
  | .packetReceived _ | .setSocket _ | .reconnect _ _ =>
    if conn.socket.isNone then none else some now
  | .peerWentSilent => none
  | _ => if conn.socket.isNone then none else self.heartbeatDeadline

def act (now : Nat) (self : WatchedConnection) (l : Session.Step) :
    Except Logic.Fault (WatchedConnection × List Effect) := do
  let (conn, effects) ← Session.act self.conn l
  return (⟨conn, self.deadlineAfter now conn l.event⟩, effects)

end WatchedConnection

/-- What travels over a connection, each packet with the time it was sent at. -/
structure Wire where
  up : List (Nat × Packet)
  down : List (Nat × Packet)
  /-- The server has not closed its end. -/
  isOpen : Bool

/-- A client, its connections, and the connection of the server for its player. -/
structure Heartbeat where
  versionNumber : String
  now : Nat
  client : PingingClient
  server : WatchedConnection
  wires : Socket → Wire
  /-- How many connections there have been. -/
  made : Nat

namespace Heartbeat

open PingingClient WatchedConnection

/-- What happens, each of it a slot that runs to its end. Any of them may be late. -/
inductive Event where
  /-- Nothing happens for so many milliseconds. -/
  | tick (elapsed : Nat)
  | heartbeatTimeout (next : Nat)
  | pongDeadlinePassed
  /-- The client reads from its socket. -/
  | clientReads
  | connectToHost (known : Bool) (initialState : AgentState) (next : Nat)
  | reconnectTimeout (known : Bool) (next : Nat)
  /-- Any other slot of the client. -/
  | client (event : ClientEvent)
  /-- The server reads from a socket. -/
  | serverReads (socket : Socket) (sync : Bool) (random : RockPaperScissors)
  /-- Any other slot of the connection. -/
  | server (l : Session.Step)
  | notify (notification : Notification)
  | clearRoundEventLog
  /-- The agent of the connection is in another state. -/
  | stateChange (state : AgentState)
  /-- The server closes a connection for a reason of its own, or learns that it is gone. -/
  | serverCloses (socket : Socket)

def new (versionNumber : String) (now : Nat) (client : ClientP) (conn : ServerConnectionP) :
    Heartbeat where
  versionNumber := versionNumber
  now := now
  client := .new client
  server := ⟨conn, none⟩
  wires _ := ⟨[], [], false⟩
  made := 0

def onWire (self : Heartbeat) (socket : Socket) (change : Wire → Wire) : Heartbeat :=
  { self with
    wires := fun other => if socket = other then change (self.wires other) else self.wires other }

/-- The connection of a socket, if there is one. -/
def onWireOf (self : Heartbeat) (socket : Option Socket) (change : Wire → Wire) : Heartbeat :=
  { self with
    wires := fun other =>
      if socket = some other then change (self.wires other) else self.wires other }

def sendUp (now : Nat) (packets : List Packet) (wire : Wire) : Wire :=
  { wire with up := wire.up ++ packets.map fun packet => (now, packet) }

def sendDown (now : Nat) (packets : List Packet) (wire : Wire) : Wire :=
  { wire with down := wire.down ++ packets.map fun packet => (now, packet) }

/-- What the client sends goes to the socket it has. -/
def fromClient (self : Heartbeat) (result : PingingClient × List ClientEffect) : Heartbeat :=
  { self with client := result.1 }.onWireOf result.1.client.socket
    (sendUp self.now (result.2.filterMap ClientEffect.packet))

/-- What the connection sends goes to the socket it is bound to. -/
def fromServer (self : Heartbeat) (result : WatchedConnection × List Effect) : Heartbeat :=
  { self with server := result.1 }.onWireOf result.1.conn.socket
    (sendDown self.now (result.2.filterMap Effect.packet))

/-- A new connection, which a server that is there greets. -/
def connects (self : Heartbeat) (known : Bool) (client : PingingClient) : Heartbeat :=
  { self with
    client := client
    wires := fun other =>
      if self.made = other then
        ⟨[], if known then [(self.now, versionPacket self.versionNumber)] else [], known⟩
      else self.wires other
    made := self.made + 1 }

/-- When the timer of the pings, which repeats, may run out next. -/
def isNext (now next : Nat) : Bool :=
  now < next && next ≤ now + (heartbeatInterval + timerSlack heartbeatInterval)

def clientReads (self : Heartbeat) : Option Heartbeat :=
  match self.client.client.socket with
  | none => none
  | some socket =>
    match (self.wires socket).down with
    | [] => none
    | (_, packet) :: rest =>
      (self.client.socketPacketReceived self.now packet).map
        (self.onWire socket fun wire => { wire with down := rest }).fromClient

/-- The slot of the server itself, which any socket it has accepted reaches. -/
def answer (now : Nat) (packet : Packet) (wire : Wire) : Wire :=
  if isPing packet then sendDown now [pongPacket packet.value] wire else wire

def serverReads (self : Heartbeat) (socket : Socket) (sync : Bool) (random : RockPaperScissors) :
    Option Heartbeat :=
  if (self.wires socket).isOpen then
    match (self.wires socket).up with
    | [] => none
    | (_, packet) :: rest =>
      let read := self.onWire socket fun wire => answer self.now packet { wire with up := rest }
      if socket ∈ self.server.conn.wired then
        (self.server.act self.now ⟨.packetReceived packet, sync, random⟩).toOption.map
          read.fromServer
      else some read
  else none

/-- When the slots of the connection can run that are no matter of what it reads. -/
def runs (self : Heartbeat) : Session.Event → Bool
  | .packetReceived _ => false
  | .setSocket socket | .reconnect socket _ =>
    (self.wires socket).isOpen && socket ∉ self.server.conn.wired
  | .requestTimeout => self.server.conn.requestTimer
  | .peerWentSilent =>
    self.server.heartbeatDeadline.any fun started => ranOut silenceTimeout started self.now
  | .executeDefaultReply => 0 < self.server.conn.singleShots
  | .addRequest _ | .socketDisconnected => true

def withConn (self : Heartbeat) (conn : ServerConnectionP) : Heartbeat :=
  { self with server := { self.server with conn := conn } }

def handle (self : Heartbeat) : Event → Option Heartbeat
  | .tick elapsed => some { self with now := self.now + elapsed }
  | .heartbeatTimeout next =>
    if self.client.heartbeatTimer.any (· ≤ self.now) && isNext self.now next then
      some (self.fromClient (self.client.heartbeatTimeout self.now next))
    else none
  | .pongDeadlinePassed =>
    if self.client.pongDeadline.any fun started => ranOut pongTimeout started self.now then
      some (self.fromClient (self.client.pongDeadlinePassed self.now))
    else none
  | .clientReads => self.clientReads
  | .connectToHost known initialState next =>
    if isNext self.now next then
      (self.client.handle self.now next (.connectToHost self.made known initialState)).map
        fun result => self.connects known result.1
    else none
  | .reconnectTimeout known next =>
    if isNext self.now next then
      (self.client.handle self.now next (.reconnectTimeout self.made known)).map fun result =>
        self.connects known result.1
    else none
  | .client event =>
    if event.own then (self.client.handle self.now 0 event).map self.fromClient else none
  | .serverReads socket sync random => self.serverReads socket sync random
  | .server l =>
    if self.runs l.event then (self.server.act self.now l).toOption.map self.fromServer else none
  | .notify notification =>
    let result := self.server.conn.notify notification
    some (self.fromServer (⟨result.1, self.server.heartbeatDeadline⟩, result.2))
  | .clearRoundEventLog => some (self.withConn self.server.conn.clearRoundEventLog)
  | .stateChange state =>
    some (self.withConn
      { self.server.conn with agent := { self.server.conn.agent with state := state } })
  | .serverCloses socket => some (self.onWire socket fun wire => { wire with isOpen := false })

/-- Any client, any agent it may become, and any sequence of events, from any time on. -/
def system : TransitionSystem Heartbeat Event where
  init self := ∃ versionNumber now objectName screenName agent logicConfiguration requestTimeout,
    self = new versionNumber now (.new objectName screenName)
      (.new agent logicConfiguration requestTimeout)
  step self event self' := self.handle event = some self'

end Heartbeat

end QMdmmNetworking
