import QMdmm.Core.LogicP
import QMdmm.Core.Protocol
import QMdmm.Support.ExceptBind

namespace QMdmmNetworking

open QMdmmCore Data Protocol

/-- A `Socket` object, by identity. -/
abbrev Socket := Nat

structure Agent where
  objectName : String
  screenName : String
  state : AgentState
  deriving DecidableEq

/-- What the logic side requests of an agent. -/
inductive Request where
  | rockPaperScissors (playerNames : List String) (strivedOrder : Int)
  | actionOrder (remainedOrders : List Int) (maximumOrder selectionNum : Int)
  | action (currentOrder : Int)
  | upgrade (remainingTimes : Int)

/-- What the logic side notifies an agent of. -/
inductive Notification where
  | logicConfiguration
  | agentStateChange (playerName : String) (agentState : AgentState)
  | playerAdd (playerName screenName : String) (agentState : AgentState)
  | playerRemove (playerName : String)
  | gameStart
  | roundStart
  | rockPaperScissors (replies : QHash String RockPaperScissors)
  | actionOrder (result : List String)
  | action (playerName : String) (action : Action) (toPlayer : String) (toPlace : Int)
  | roundOver
  | upgrade (upgrades : QHash String (List UpgradeItem))
  | gameOver (playerNames : List String)
  | speak (playerName content : String)

/-- What an agent hands to the logic side when a request is answered. -/
inductive Reply where
  | rockPaperScissors (rps : RockPaperScissors)
  | actionOrder (order : List Int)
  | action (act : Action) (toPlayer : String) (toPlace : Int)
  | upgrade (items : List UpgradeItem)

/-- What the slots of a connection do outside of it. -/
inductive Effect where
  /-- A packet goes to the bound socket. -/
  | sendPacket (packet : Packet)
  /-- A protocol error is recorded on the bound socket, which then disconnects. -/
  | setError
  /-- A socket object is deleted, once the event loop is reached again. -/
  | deleteLater (socket : Socket)
  | reply (reply : Reply)
  | speak (content : String)
  | operate (value : QJsonValue)

/-- `ServerConnectionP` with the agent it is a child of. A timer is the fact that
it runs. -/
structure ServerConnectionP where
  agent : Agent
  conf : LogicConfiguration
  socket : Option Socket
  /-- The sockets whose signals reach this connection: every one it was ever bound
  to that has not been deleted. -/
  wired : List Socket
  currentRequest : RequestId
  currentRequestValue : QJsonValue
  requestTimeoutEnabled : Bool
  requestTimer : Bool
  heartbeatDeadline : Bool
  /-- The default replies that wait for the event loop because a request found no
  socket. -/
  singleShots : Nat
  roundEventLog : List Packet

namespace ServerConnectionP

def new (agent : Agent) (logicConfiguration : LogicConfiguration) (requestTimeout : Int) :
    ServerConnectionP where
  agent := agent
  conf := logicConfiguration
  socket := none
  wired := []
  currentRequest := .RequestInvalid
  currentRequestValue := .undefined
  requestTimeoutEnabled := requestTimeout > 0
  requestTimer := false
  heartbeatDeadline := false
  singleShots := 0
  roundEventLog := []

def setSocket (self : ServerConnectionP) (socket : Socket) : ServerConnectionP × List Effect :=
  ({ self with
      socket := some socket
      wired := self.wired ++ [socket]
      heartbeatDeadline := true },
    self.socket.toList.map .deleteLater)

/-- `emit sendPacket(packet)`. -/
def send (self : ServerConnectionP) (packet : Packet) : List Effect :=
  if self.socket.isSome then [.sendPacket packet] else []

/-- `defaultReplyActionOrder`: an element taken from an exhausted array reads 0. -/
def defaultOrders (currentRequestValue : QJsonValue) : List Int :=
  let ob := currentRequestValue.toObject
  let arr := (ob.value "remainedOrders").toArray
  let num := (ob.value "selectionNum").toInt 0
  (List.range num.toNat).map fun i => (arr.getD i .undefined).toInt 0

/-- The default reply to a request; the throw is a random one. -/
def defaultReply (self : ServerConnectionP) (random : RockPaperScissors) : RequestId → List Effect
  | .RequestInvalid => []
  | .RequestRockPaperScissors => [.reply (.rockPaperScissors random)]
  | .RequestActionOrder => [.reply (.actionOrder (defaultOrders self.currentRequestValue))]
  | .RequestAction => [.reply (.action .DoNothing "" 0)]
  | .RequestUpgrade => [.reply (.upgrade [])]

def executeDefaultReply (self : ServerConnectionP) (random : RockPaperScissors) :
    ServerConnectionP × List Effect :=
  ({ self with currentRequest := .RequestInvalid }, self.defaultReply random self.currentRequest)

def onSocketDisconnected (self : ServerConnectionP) (random : RockPaperScissors) :
    ServerConnectionP × List Effect :=
  let state := (self.agent.state.setFlag StateMaskOnline false).setFlag StateMaskTrust false
  let (conn, effects) := executeDefaultReply
    { self with
      socket := none, heartbeatDeadline := false, agent := { self.agent with state := state } } random
  (conn, self.socket.toList.map .deleteLater ++ effects)

def addRequest (self : ServerConnectionP) (requestId : RequestId) (value : QJsonValue) :
    ServerConnectionP × List Effect :=
  let conn := { self with currentRequest := requestId, currentRequestValue := value }
  if conn.socket.isSome then
    ({ conn with requestTimer := conn.requestTimer || conn.requestTimeoutEnabled },
      [.sendPacket (.ofRequest .TypeRequest requestId value)])
  else ({ conn with singleShots := conn.singleShots + 1 }, [])

def decodeRockPaperScissorsReply (value : QJsonValue) : Option Reply :=
  if !value.isDouble then none
  else (RockPaperScissors.ofInt (toUInt8 value)).map .rockPaperScissors

def decodeActionOrderReply (currentRequestValue : QJsonValue) : QJsonValue → Option Reply
  | .array arr =>
    let selectionNum := (currentRequestValue.toObject.value "selectionNum").toInt 0
    if (arr.length : Int) > selectionNum then none
    else if !arr.all (·.isDouble) then none
    else some (.actionOrder (arr.map (·.toInt 0)))
  | _ => none

def decodeActionReply (value : QJsonValue) : Option Reply :=
  let arr := value.toObject
  -- What is no object has no members.
  if !(arr.value "action").isDouble then none
  else
    match Action.ofInt (toUInt8 (arr.value "action")) with
    | none => none
    | some act =>
      if act.hasTarget && !(arr.value "toPlayer").isString then none
      else if act.hasPlace && !(arr.value "toPlace").isDouble then none
      else some (.action act (if act.hasTarget then (arr.value "toPlayer").toQString else "")
        (if act.hasPlace then (arr.value "toPlace").toInt 0 else 0))

def decodeUpgradeReply (currentRequestValue : QJsonValue) : QJsonValue → Option Reply
  | .array arr =>
    if (arr.length : Int) > currentRequestValue.toInt 1 then none
    else if !arr.all (·.isDouble) then none
    else (arr.mapM fun item => UpgradeItem.ofInt (toUInt8 item)).map .upgrade
  | _ => none

/-- `replyCallbacks().value(requestId)`: what the decoder makes of a value, or no
decoder. -/
def decodeReply (self : ServerConnectionP) (value : QJsonValue) : RequestId → Option (Option Reply)
  | .RequestInvalid => none
  | .RequestRockPaperScissors => some (decodeRockPaperScissorsReply value)
  | .RequestActionOrder => some (decodeActionOrderReply self.currentRequestValue value)
  | .RequestAction => some (decodeActionReply value)
  | .RequestUpgrade => some (decodeUpgradeReply self.currentRequestValue value)

/-- A decoder that fails sets the error and answers with the default reply, since
`currentRequest` has already been cleared. -/
def replyReceived (self : ServerConnectionP) (requestId : RequestId) (value : QJsonValue)
    (random : RockPaperScissors) : ServerConnectionP × List Effect :=
  let conn := { self with requestTimer := false }
  if value.isNull then conn.executeDefaultReply random
  else
    let conn := { conn with currentRequest := .RequestInvalid }
    match conn.decodeReply value requestId with
    | none => (conn, [.setError])
    | some none => (conn, .setError :: conn.defaultReply random requestId)
    | some (some reply) => (conn, [.reply reply])

/-- Dropping the connection and answering what is in flight. -/
def abnormal (self : ServerConnectionP) (random : RockPaperScissors) :
    ServerConnectionP × List Effect :=
  let (conn, effects) := self.executeDefaultReply random
  (conn, .setError :: effects)

/-- Whatever the packet is, the deadline starts over first. -/
def packetReceived (self : ServerConnectionP) (packet : Packet) (random : RockPaperScissors) :
    ServerConnectionP × List Effect :=
  if self.socket.isNone then (self, [])
  else
    let self := { self with heartbeatDeadline := true }
    match packet.type with
    | .TypeNotify =>
      match packet.notifyId with
      | .NotifySpeak => (self, [.speak packet.value.toQString])
      | .NotifyOperate => (self, [.operate packet.value])
      | .NotifyToAgentMask => (self, [.setError])
      | notifyId => if notifyId.toServer then (self, []) else self.abnormal random
    | .TypeReply =>
      if self.currentRequest = packet.requestId then
        self.replyReceived packet.requestId packet.value random
      -- A reply that does not match the in-flight request is an ordering mismatch.
      else self.abnormal random
    | _ => self.abnormal random

/-- The request timer ran out. -/
def requestTimeout (self : ServerConnectionP) (random : RockPaperScissors) :
    ServerConnectionP × List Effect :=
  let (conn, effects) := executeDefaultReply { self with requestTimer := false } random
  (conn, if self.socket.isSome then .setError :: effects else effects)

def peerWentSilent (self : ServerConnectionP) (random : RockPaperScissors) :
    ServerConnectionP × List Effect :=
  let (conn, effects) := executeDefaultReply { self with heartbeatDeadline := false } random
  (conn, if self.socket.isSome then .setError :: effects else effects)

/-- A round event is logged and sent. -/
def sendRoundEvent (self : ServerConnectionP) (packet : Packet) : ServerConnectionP × List Effect :=
  ({ self with roundEventLog := self.roundEventLog ++ [packet] }, self.send packet)

def sendRockPaperScissorsRequested (self : ServerConnectionP) (playerNames : List String)
    (strivedOrder : Int) : ServerConnectionP × List Effect :=
  self.addRequest .RequestRockPaperScissors (.object [
    ("playerNames", .array (playerNames.map .string)),
    ("strivedOrder", .ofInt strivedOrder)])

def sendActionOrderRequested (self : ServerConnectionP) (remainedOrders : List Int)
    (maximumOrder selectionNum : Int) : ServerConnectionP × List Effect :=
  self.addRequest .RequestActionOrder (.object [
    ("remainedOrders", .array (remainedOrders.map .ofInt)),
    ("maximumOrder", .ofInt maximumOrder),
    ("selectionNum", .ofInt selectionNum)])

def sendActionRequested (self : ServerConnectionP) (currentOrder : Int) :
    ServerConnectionP × List Effect :=
  self.addRequest .RequestAction (.ofInt currentOrder)

def sendUpgradeRequested (self : ServerConnectionP) (remainingTimes : Int) :
    ServerConnectionP × List Effect :=
  self.addRequest .RequestUpgrade (.ofInt remainingTimes)

/-- `Agent::requestXxx`, as far as the connection. -/
def request (self : ServerConnectionP) : Request → ServerConnectionP × List Effect
  | .rockPaperScissors playerNames strivedOrder =>
    self.sendRockPaperScissorsRequested playerNames strivedOrder
  | .actionOrder remainedOrders maximumOrder selectionNum =>
    self.sendActionOrderRequested remainedOrders maximumOrder selectionNum
  | .action currentOrder => self.sendActionRequested currentOrder
  | .upgrade remainingTimes => self.sendUpgradeRequested remainingTimes

def sendLogicConfigurationNotified (self : ServerConnectionP) : List Effect :=
  self.send (.ofNotify .NotifyLogicConfiguration (.object self.conf.object))

def sendAgentStateChangeNotified (self : ServerConnectionP) (playerName : String)
    (agentState : AgentState) : List Effect :=
  self.send (.ofNotify .NotifyAgentStateChanged (.object [
    ("playerName", .string playerName),
    ("agentState", agentState.wire)]))

def sendPlayerAddNotified (self : ServerConnectionP) (playerName screenName : String)
    (agentState : AgentState) : List Effect :=
  self.send (.ofNotify .NotifyPlayerAdded (.object [
    ("playerName", .string playerName),
    ("screenName", .string screenName),
    ("agentState", agentState.wire)]))

def sendPlayerRemoveNotified (self : ServerConnectionP) (playerName : String) : List Effect :=
  self.send (.ofNotify .NotifyPlayerRemoved (.object [("playerName", .string playerName)]))

def sendGameStartNotified (self : ServerConnectionP) : List Effect :=
  self.send (.ofNotify .NotifyGameStart .null)

def sendRoundStartNotified (self : ServerConnectionP) : List Effect :=
  self.send (.ofNotify .NotifyRoundStart .null)

/-- An object with a member for each entry of a hash. -/
def ofHash {α : Type} (wire : α → QJsonValue) (hash : QHash String α) : QJsonObject :=
  hash.entries.foldl (fun ob entry => QJsonObject.insert ob entry.1 (wire entry.2)) []

def sendRockPaperScissorsNotified (self : ServerConnectionP)
    (replies : QHash String RockPaperScissors) : ServerConnectionP × List Effect :=
  self.sendRoundEvent (.ofNotify .NotifyRockPaperScissors
    (.object (ofHash RockPaperScissors.wire replies)))

def sendActionOrderNotified (self : ServerConnectionP) (result : List String) :
    ServerConnectionP × List Effect :=
  self.sendRoundEvent (.ofNotify .NotifyActionOrder (.array (result.map .string)))

def sendActionNotified (self : ServerConnectionP) (playerName : String) (action : Action)
    (toPlayer : String) (toPlace : Int) : ServerConnectionP × List Effect :=
  self.sendRoundEvent (.ofNotify .NotifyAction (.object (
    [("playerName", .string playerName), ("action", action.wire)] ++
    (if action.hasTarget then [("toPlayer", .string toPlayer)] else []) ++
    (if action.hasPlace then [("toPlace", .ofInt toPlace)] else []))))

def sendRoundOverNotified (self : ServerConnectionP) : List Effect :=
  self.send (.ofNotify .NotifyRoundOver .null)

def sendUpgradeNotified (self : ServerConnectionP) (upgrades : QHash String (List UpgradeItem)) :
    ServerConnectionP × List Effect :=
  self.sendRoundEvent (.ofNotify .NotifyUpgrade
    (.object (ofHash (fun items => .array (items.map UpgradeItem.wire)) upgrades)))

def sendGameOverNotified (self : ServerConnectionP) (playerNames : List String) : List Effect :=
  self.send (.ofNotify .NotifyGameOver (.array (playerNames.map .string)))

def sendSpeakNotified (self : ServerConnectionP) (playerName content : String) : List Effect :=
  self.send (.ofNotify .NotifySpoken (.object [
    ("playerName", .string playerName),
    ("content", .string content)]))

/-- `Agent::notifyXxx`, as far as the connection. -/
def notify (self : ServerConnectionP) : Notification → ServerConnectionP × List Effect
  | .logicConfiguration => (self, self.sendLogicConfigurationNotified)
  | .agentStateChange playerName agentState =>
    (self, self.sendAgentStateChangeNotified playerName agentState)
  | .playerAdd playerName screenName agentState =>
    (self, self.sendPlayerAddNotified playerName screenName agentState)
  | .playerRemove playerName => (self, self.sendPlayerRemoveNotified playerName)
  | .gameStart => (self, self.sendGameStartNotified)
  | .roundStart => (self, self.sendRoundStartNotified)
  | .rockPaperScissors replies => self.sendRockPaperScissorsNotified replies
  | .actionOrder result => self.sendActionOrderNotified result
  | .action playerName action toPlayer toPlace =>
    self.sendActionNotified playerName action toPlayer toPlace
  | .roundOver => (self, self.sendRoundOverNotified)
  | .upgrade upgrades => self.sendUpgradeNotified upgrades
  | .gameOver playerNames => (self, self.sendGameOverNotified playerNames)
  | .speak playerName content => (self, self.sendSpeakNotified playerName content)

def clearRoundEventLog (self : ServerConnectionP) : ServerConnectionP :=
  { self with roundEventLog := [] }

/-- The loop from `lastRoundEventSeq` on; `at` of a negative index ends the process. -/
def replayMissedRoundEvents (self : ServerConnectionP) (lastRoundEventSeq : Int) :
    Except Logic.Fault (List Effect) :=
  if lastRoundEventSeq < 0 then .error .indexOutOfRange
  else .ok ((self.roundEventLog.drop lastRoundEventSeq.toNat).flatMap self.send)

def reconnect (self : ServerConnectionP) (socket : Socket) (lastRoundEventSeq : Int) :
    Except Logic.Fault (ServerConnectionP × List Effect) := do
  let (conn, effects) := self.setSocket socket
  let replayed ← conn.replayMissedRoundEvents lastRoundEventSeq
  return (conn, effects ++ replayed)

end ServerConnectionP

end QMdmmNetworking
