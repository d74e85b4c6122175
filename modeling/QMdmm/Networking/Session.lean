import QMdmm.Networking.ReplyFormat
import QMdmm.Support.TransitionSystem

namespace QMdmmNetworking

open QMdmmCore Data Protocol

namespace Reply

def requestId : Reply → RequestId
  | .rockPaperScissors _ => .RequestRockPaperScissors
  | .actionOrder _ => .RequestActionOrder
  | .action _ _ _ => .RequestAction
  | .upgrade _ => .RequestUpgrade

end Reply

/-- The replies among what a slot does. -/
def repliesOf (effects : List Effect) : List Reply :=
  effects.filterMap fun
    | .reply reply => some reply
    | _ => none

@[simp] theorem repliesOf_nil : repliesOf [] = [] := rfl

@[simp] theorem repliesOf_append (effects effects' : List Effect) :
    repliesOf (effects ++ effects') = repliesOf effects ++ repliesOf effects' :=
  List.filterMap_append

@[simp] theorem repliesOf_reply (reply : Reply) (effects : List Effect) :
    repliesOf (.reply reply :: effects) = reply :: repliesOf effects := rfl

@[simp] theorem repliesOf_setError (effects : List Effect) :
    repliesOf (.setError :: effects) = repliesOf effects := rfl

@[simp] theorem repliesOf_sendPacket (packet : Packet) (effects : List Effect) :
    repliesOf (.sendPacket packet :: effects) = repliesOf effects := rfl

@[simp] theorem repliesOf_deleteLater (sockets : List Socket) :
    repliesOf (sockets.map .deleteLater) = [] := by
  induction sockets with
  | nil => rfl
  | cons socket rest ih => exact ih

namespace ServerConnectionP

variable (sync : Bool) (random : RockPaperScissors)

/-- `socket->setError`: a transport that disconnects at once runs
`onSocketDisconnected` before the call returns, any other one reports the drop
later. -/
def setError (self : ServerConnectionP) : ServerConnectionP × List Effect :=
  if sync then
    let (conn, effects) := self.onSocketDisconnected random
    (conn, .setError :: effects)
  else (self, [.setError])

/-- `abnormal` over either kind of transport. -/
def abnormalOver (self : ServerConnectionP) : ServerConnectionP × List Effect :=
  let (conn, effects) := self.setError sync random
  let (conn, rest) := conn.executeDefaultReply random
  (conn, effects ++ rest)

/-- `replyReceived` over either kind of transport. -/
def replyReceivedOver (self : ServerConnectionP) (requestId : RequestId) (value : QJsonValue) :
    ServerConnectionP × List Effect :=
  let conn := { self with requestTimer := false }
  if value.isNull then conn.executeDefaultReply random
  else
    let conn := { conn with currentRequest := .RequestInvalid }
    match conn.decodeReply value requestId with
    | none => conn.setError sync random
    | some none =>
      let (conn, effects) := conn.setError sync random
      (conn, effects ++ conn.defaultReply random requestId)
    | some (some reply) => (conn, [.reply reply])

/-- `packetReceived` over either kind of transport. -/
def packetReceivedOver (self : ServerConnectionP) (packet : Packet) :
    ServerConnectionP × List Effect :=
  if self.socket.isNone then (self, [])
  else
    let self := { self with heartbeatDeadline := true }
    match packet.type with
    | .TypeNotify =>
      match packet.notifyId with
      | .NotifySpeak => (self, [.speak packet.value.toQString])
      | .NotifyOperate => (self, [.operate packet.value])
      | .NotifyToAgentMask => self.setError sync random
      | notifyId => if notifyId.toServer then (self, []) else self.abnormalOver sync random
    | .TypeReply =>
      if self.currentRequest = packet.requestId then
        self.replyReceivedOver sync random packet.requestId packet.value
      else self.abnormalOver sync random
    | _ => self.abnormalOver sync random

/-- `requestTimeout` over either kind of transport. -/
def requestTimeoutOver (self : ServerConnectionP) : ServerConnectionP × List Effect :=
  let conn := { self with requestTimer := false }
  if conn.socket.isSome then conn.abnormalOver sync random else conn.executeDefaultReply random

/-- `peerWentSilent` over either kind of transport. -/
def peerWentSilentOver (self : ServerConnectionP) : ServerConnectionP × List Effect :=
  let conn := { self with heartbeatDeadline := false }
  if conn.socket.isSome then conn.abnormalOver sync random else conn.executeDefaultReply random

theorem abnormalOver_false (self : ServerConnectionP) :
    self.abnormalOver false random = self.abnormal random := rfl

theorem replyReceivedOver_false (self : ServerConnectionP) (requestId : RequestId)
    (value : QJsonValue) :
    self.replyReceivedOver false random requestId value =
      self.replyReceived requestId value random := by
  unfold replyReceivedOver replyReceived
  split
  · rfl
  · dsimp only
    generalize ServerConnectionP.decodeReply _ value requestId = decoded
    obtain _ | _ | reply := decoded <;> rfl

/-- Where every drop is reported later, these are the slots themselves. -/
theorem packetReceivedOver_false (self : ServerConnectionP) (packet : Packet) :
    self.packetReceivedOver false random packet = self.packetReceived packet random := by
  unfold packetReceivedOver packetReceived
  simp only [abnormalOver_false, replyReceivedOver_false]
  rfl

theorem requestTimeoutOver_false (self : ServerConnectionP) :
    self.requestTimeoutOver false random = self.requestTimeout random := by
  unfold requestTimeoutOver requestTimeout
  cases self.socket <;> rfl

theorem peerWentSilentOver_false (self : ServerConnectionP) :
    self.peerWentSilentOver false random = self.peerWentSilent random := by
  unfold peerWentSilentOver peerWentSilent
  cases self.socket <;> rfl

end ServerConnectionP

namespace Session

/-- What can happen to a connection, each of it a slot that runs to its end. -/
inductive Event where
  | addRequest (req : Request)
  | packetReceived (packet : Packet)
  | requestTimeout
  | peerWentSilent
  | socketDisconnected
  | setSocket (socket : Socket)
  | reconnect (socket : Socket) (lastRoundEventSeq : Int)
  /-- A zero-delay timer of a request that found no socket. -/
  | executeDefaultReply

/-- An event, the way the bound transport drops in it, and the throw that is drawn. -/
structure Step where
  event : Event
  sync : Bool
  random : RockPaperScissors

end Session

/-- A connection with its history: the requests it was given and the replies it
handed to the agent, in order; when its request timer was last started, as the
number of requests by then and the socket; and whether anything but the client's
answer has come between since. -/
structure Session where
  conn : ServerConnectionP
  asked : List RequestId
  replies : List Reply
  timerStart : Option (Nat × Socket)
  disturbed : Bool

namespace Session

def new (agent : Agent) (logicConfiguration : LogicConfiguration) (requestTimeout : Int) :
    Session where
  conn := .new agent logicConfiguration requestTimeout
  asked := []
  replies := []
  timerStart := none
  disturbed := false

/-- The next request comes only after the previous one was answered, a timer runs
out only while it runs, and no socket is bound twice. -/
def enabled (s : Session) : Event → Bool
  | .addRequest _ => s.asked.length = s.replies.length
  | .requestTimeout => s.conn.requestTimer
  | .peerWentSilent => s.conn.heartbeatDeadline
  | .executeDefaultReply => 0 < s.conn.singleShots
  | .setSocket socket | .reconnect socket _ => socket ∉ s.conn.wired
  | _ => true

/-- The slot an event runs. -/
def act (conn : ServerConnectionP) (l : Step) :
    Except Logic.Fault (ServerConnectionP × List Effect) :=
  match l.event with
  | .addRequest req => .ok (conn.request req)
  | .packetReceived packet => .ok (conn.packetReceivedOver l.sync l.random packet)
  | .requestTimeout => .ok (conn.requestTimeoutOver l.sync l.random)
  | .peerWentSilent => .ok (conn.peerWentSilentOver l.sync l.random)
  | .socketDisconnected => .ok (conn.onSocketDisconnected l.random)
  | .setSocket socket => .ok (conn.setSocket socket)
  | .reconnect socket lastRoundEventSeq => conn.reconnect socket lastRoundEventSeq
  | .executeDefaultReply =>
    .ok ({ conn with singleShots := conn.singleShots - 1 }.executeDefaultReply l.random)

/-- A packet the connection answers by dropping its socket. -/
def isAbnormal (conn : ServerConnectionP) (packet : Packet) : Bool :=
  match packet.type with
  | .TypeNotify =>
    !(packet.notifyId = .NotifySpeak || packet.notifyId = .NotifyOperate ||
      packet.notifyId = .NotifyToAgentMask || packet.notifyId.toServer)
  | .TypeReply => conn.currentRequest ≠ packet.requestId
  | _ => true

/-- The events that replace the socket, or answer the request in the client's
stead other than because its timer ran out. -/
def disturbs (conn : ServerConnectionP) : Event → Bool
  | .addRequest _ | .requestTimeout => false
  | .packetReceived packet => conn.socket.isSome && isAbnormal conn packet
  | .peerWentSilent | .socketDisconnected | .setSocket _ | .reconnect _ _
  | .executeDefaultReply => true

/-- The history after a slot. -/
def record (s : Session) (event : Event) (conn : ServerConnectionP) (effects : List Effect) :
    Session :=
  let asked := match event with
    | .addRequest req => s.asked ++ [req.requestId]
    | _ => s.asked
  let starts := match event with
    | .addRequest _ => if s.conn.requestTimeoutEnabled then s.conn.socket else none
    | _ => none
  { conn := conn
    asked := asked
    replies := s.replies ++ repliesOf effects
    timerStart := match starts with
      | some socket => some (asked.length, socket)
      | none => s.timerStart
    disturbed := starts.isNone && (s.disturbed || disturbs s.conn event) }

def next (s : Session) (l : Step) : Option Session :=
  if s.enabled l.event then
    match act s.conn l with
    | .ok (conn, effects) => some (s.record l.event conn effects)
    | .error _ => none
  else none

/-- Every interleaving of events on one connection. -/
def system : TransitionSystem Session Step where
  init s := ∃ agent logicConfiguration requestTimeout,
    s = new agent logicConfiguration requestTimeout
  step s l t := s.next l = some t

theorem next_eq_some {s t : Session} {l : Step} (h : s.next l = some t) :
    s.enabled l.event = true ∧ ∃ conn effects, act s.conn l = .ok (conn, effects) ∧
      t = s.record l.event conn effects := by
  unfold next at h
  split at h
  · next henabled =>
    split at h
    · next conn effects hact =>
      cases h
      exact ⟨henabled, conn, effects, hact, rfl⟩
    · cases h
  · cases h

end Session

end QMdmmNetworking
