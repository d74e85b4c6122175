import QMdmm.Networking.ServerConnection
import QMdmm.Support.Base64

namespace QMdmmNetworking

open QMdmmCore Data Protocol

/-- What the slots of a client do outside of it. -/
inductive ClientEffect where
  | sendPacket (packet : Packet)
  /-- A protocol error is recorded on the socket, which then disconnects. -/
  | setError
  /-- The client itself lets go of its socket. -/
  | letGo
  | request (request : Request)
  | notify (notification : Notification)
  | connectionLost
  | reconnectSucceeded
  | errorDisconnected

/-- `ClientP`. The pings and what they measure are left out: what they do to the
client is that its socket is gone. -/
structure ClientP where
  /-- The name of the client, which is also that of its own agent. -/
  objectName : String
  screenName : String
  initialState : AgentState
  socket : Option Socket
  /-- Whether the signals of the socket reach the client. -/
  attached : Bool
  room : Room
  agents : QHash String Agent
  reconnectTimer : Bool
  reconnectAttempts : Nat
  reconnectInProgress : Bool
  currentRequest : RequestId
  lastRoundEventSeq : Int

namespace ClientP

def MaxReconnectAttempts : Nat := 5

def new (objectName screenName : String) : ClientP where
  objectName := objectName
  screenName := screenName
  initialState := 0
  socket := none
  attached := false
  room := .new .defaults
  agents := AList.insert objectName ⟨objectName, screenName, 0⟩ ∅
  reconnectTimer := false
  reconnectAttempts := 0
  reconnectInProgress := false
  currentRequest := .RequestInvalid
  lastRoundEventSeq := 0

/-- A handler that ends early leaves the error to the scope guard. -/
def failed (self : ClientP) : Except Logic.Fault (ClientP × List ClientEffect) :=
  .ok (self, [.setError])

def decodeStrings (values : List QJsonValue) : Option (List String) :=
  values.mapM fun value => if value.isString then some value.toQString else none

def decodeInts (values : List QJsonValue) : Option (List Int) :=
  values.mapM fun value => if value.isDouble then some (value.toInt 0) else none

def decodeRockPaperScissorsRequest (value : QJsonValue) : Option Request :=
  let ob := value.toObject
  match ob.value "playerNames" with
  | .array vaplayerNames => do
    let playerNames ← decodeStrings vaplayerNames
    if !(ob.value "strivedOrder").isDouble then none
    else some (.rockPaperScissors playerNames ((ob.value "strivedOrder").toInt 0))
  | _ => none

def decodeActionOrderRequest (value : QJsonValue) : Option Request :=
  let ob := value.toObject
  match ob.value "remainedOrders" with
  | .array varemainedOrders => do
    let remainedOrders ← decodeInts varemainedOrders
    if !(ob.value "maximumOrder").isDouble || !(ob.value "selectionNum").isDouble then none
    else some (.actionOrder remainedOrders ((ob.value "maximumOrder").toInt 0)
      ((ob.value "selectionNum").toInt 0))
  | _ => none

/-- What the callback of a request makes of its value. -/
def decodeRequest (value : QJsonValue) : RequestId → Option Request
  | .RequestInvalid => none
  | .RequestRockPaperScissors => decodeRockPaperScissorsRequest value
  | .RequestActionOrder => decodeActionOrderRequest value
  | .RequestAction => if value.isDouble then some (.action (value.toInt 0)) else none
  | .RequestUpgrade => if value.isDouble then some (.upgrade (value.toInt 0)) else none

/-- The request is remembered whether or not its value makes sense. -/
def requestReceived (self : ClientP) (requestId : RequestId) (value : QJsonValue) :
    ClientP × List ClientEffect :=
  let self := { self with currentRequest := requestId }
  match decodeRequest value requestId with
  | none => (self, [.setError])
  | some request => (self, [.request request])

/-- `Protocol::version()`. -/
def protocolVersion : Int := 0

/-- `Client::disconnectFromHost`. -/
def disconnectFromHost (self : ClientP) : ClientP × List ClientEffect :=
  ({ self with
      reconnectTimer := false
      reconnectInProgress := false
      currentRequest := .RequestInvalid
      attached := false },
    if self.socket.isSome then [.letGo] else [])

def signInPacket (self : ClientP) : Packet :=
  .ofNotify .NotifySignIn (.object [
    ("playerName", .string self.objectName),
    ("screenName", .string self.screenName),
    ("agentState", self.initialState.wire),
    ("lastRoundEventSeq", .ofInt self.lastRoundEventSeq)])

/-- Another version of the program is only reported; another protocol is not spoken to. -/
def notifyVersion (self : ClientP) (value : QJsonValue) : ClientP × List ClientEffect :=
  let ob := value.toObject
  if !(ob.value "versionNumber").isString || !(ob.value "protocolVersion").isDouble then
    (self, [.setError])
  else if (ob.value "protocolVersion").toInt 0 ≠ protocolVersion then self.disconnectFromHost
  else if self.reconnectInProgress then
    ({ self with reconnectInProgress := false, reconnectTimer := false },
      [.sendPacket self.signInPacket, .reconnectSucceeded])
  else (self, [.sendPacket self.signInPacket])

def notifyLogicConfiguration (self : ClientP) (value : QJsonValue) : ClientP × List ClientEffect :=
  match LogicConfiguration.deserialize value with
  | none => (self, [.setError])
  | some conf =>
    ({ self with room := { self.room with logicConfiguration := conf } },
      [.notify .logicConfiguration])

/-- The own agent is not told its own state. -/
def notifyAgentStateChanged (self : ClientP) (value : QJsonValue) : ClientP × List ClientEffect :=
  let ob := value.toObject
  let playerName := (ob.value "playerName").toQString
  if !(ob.value "playerName").isString || !(ob.value "agentState").isDouble then
    (self, [.setError])
  else
    match self.agents.lookup playerName with
    | none => (self, [.setError])
    | some agent =>
      if playerName = self.objectName then (self, [])
      else
        let agentState := AgentState.ofInt ((ob.value "agentState").toInt 0)
        ({ self with agents := self.agents.insert playerName { agent with state := agentState } },
          [.notify (.agentStateChange playerName agentState)])

def stateChangePacket (state : AgentState) : Packet :=
  .ofNotify .NotifyStateChange (.object [("agentState", state.wire)])

/-- `sendAgentStateChanged`, where the state of the own agent changes. -/
def declare (self : ClientP) (before after : AgentState) : List ClientEffect :=
  if before ≠ after ∧ self.socket.isSome then [.sendPacket (stateChangePacket after)] else []

/-- The own player is added to the mirror when the server reports it; another one that
is known already is none the worse for it. -/
def notifyPlayerAdded (self : ClientP) (value : QJsonValue) : ClientP × List ClientEffect :=
  let ob := value.toObject
  let playerName := (ob.value "playerName").toQString
  let screenName := (ob.value "screenName").toQString
  let agentState := AgentState.ofInt ((ob.value "agentState").toInt 0)
  if !(ob.value "playerName").isString || !(ob.value "screenName").isString ||
      !(ob.value "agentState").isDouble then (self, [.setError])
  else
    let (added, room) := self.room.addPlayer playerName
    let agents := self.agents.insert playerName ⟨playerName, screenName, agentState⟩
    match self.agents.lookup playerName with
    | some agent =>
      if playerName = self.objectName then
        ({ self with room := room, agents := agents },
          self.declare agent.state agentState ++
            [.notify (.playerAdd playerName screenName agentState)])
      else (self, [])
    | none =>
      if !added then (self, [.setError])
      else
        ({ self with room := room, agents := agents },
          [.notify (.playerAdd playerName screenName agentState)])

def notifyPlayerRemoved (self : ClientP) (value : QJsonValue) : ClientP × List ClientEffect :=
  let ob := value.toObject
  let playerName := (ob.value "playerName").toQString
  let (removed, room) := self.room.removePlayer playerName
  if !(ob.value "playerName").isString || !self.agents.contains playerName || !removed then
    (self, [.setError])
  else
    ({ self with room := room, agents := self.agents.erase playerName },
      [.notify (.playerRemove playerName)])

def notifyRoundStart (self : ClientP) : ClientP × List ClientEffect :=
  ({ self with room := self.room.prepareForRoundStart, lastRoundEventSeq := 0 },
    [.notify .roundStart])

/-- `++lastRoundEventSeq`. -/
def countRoundEvent (self : ClientP) : ClientP :=
  { self with lastRoundEventSeq := self.lastRoundEventSeq + 1 }

/-- A member for each of some known players, in the order of the object. -/
def decodeHash {α : Type} (self : ClientP) (decode : QJsonValue → Option α) (ob : QJsonObject) :
    Option (QHash String α) :=
  ob.foldlM (fun hash member =>
    if self.agents.contains member.1 then
      (decode member.2).map fun v => AList.insert member.1 v hash
    else none) ∅

def decodeRockPaperScissors (value : QJsonValue) : Option RockPaperScissors :=
  if value.isDouble then RockPaperScissors.ofInt (toUInt8 value) else none

def notifyRockPaperScissors (self : ClientP) (value : QJsonValue) : ClientP × List ClientEffect :=
  match value with
  | .object ob =>
    match self.decodeHash decodeRockPaperScissors ob with
    | none => (self, [.setError])
    | some replies => (self.countRoundEvent, [.notify (.rockPaperScissors replies)])
  | _ => (self, [.setError])

def notifyActionOrder (self : ClientP) (value : QJsonValue) : ClientP × List ClientEffect :=
  match value with
  | .array arr =>
    match decodeStrings arr with
    | none => (self, [.setError])
    | some result =>
      if result.all self.agents.contains then
        (self.countRoundEvent, [.notify (.actionOrder result)])
      else (self, [.setError])
  | _ => (self, [.setError])

/-- `room->player(playerName)`, followed. -/
def deref (room : Room) (playerName : String) : Except Logic.Fault Player :=
  match room.player playerName with
  | some p => .ok p
  | none => .error .nullPlayer

def applyAction (room : Room) (playerName : String) (action : Action) (toPlayer : String)
    (toPlace : Int) : Except Logic.Fault (Bool × Room) := do
  let conf := room.logicConfiguration
  let source ← deref room playerName
  match action with
  | .DoNothing => return (source.doNothing conf, room)
  | .BuyKnife =>
    let result := source.buyKnife conf
    return (result.1, room.setPlayer result.2)
  | .BuyHorse =>
    let result := source.buyHorse conf
    return (result.1, room.setPlayer result.2)
  | .Slash =>
    let result := source.slash conf (← deref room toPlayer)
    return (result.1, (room.setPlayer result.2.1).setPlayer result.2.2)
  | .Kick =>
    let result := source.kick conf (← deref room toPlayer)
    return (result.1, (room.setPlayer result.2.1).setPlayer result.2.2)
  | .Move =>
    let result := source.move conf toPlace
    return (result.1, room.setPlayer result.2)
  | .LetMove =>
    let result := source.letMove conf (← deref room toPlayer) toPlace
    return (result.1, room.setPlayer result.2)

/-- A place has to be one of the players'. -/
def decodeAction (self : ClientP) (value : QJsonValue) :
    Option (String × Action × String × Int) :=
  let ob := value.toObject
  let playerName := (ob.value "playerName").toQString
  let toPlayer := (ob.value "toPlayer").toQString
  let toPlace := (ob.value "toPlace").toInt 0
  if !(ob.value "playerName").isString || !self.agents.contains playerName ||
      !(ob.value "action").isDouble then none
  else
    match Action.ofInt (toUInt8 (ob.value "action")) with
    | none => none
    | some action =>
      if action.hasTarget && (!(ob.value "toPlayer").isString || !self.agents.contains toPlayer) then
        none
      else if action.hasPlace && (!(ob.value "toPlace").isDouble || toPlace < 0 ||
          toPlace > self.agents.count) then none
      else some (playerName, action, if action.hasTarget then toPlayer else "",
        if action.hasPlace then toPlace else -1)

/-- The action has been judged by the server; where the mirror disagrees, the client
disconnects. -/
def notifyAction (self : ClientP) (value : QJsonValue) :
    Except Logic.Fault (ClientP × List ClientEffect) :=
  match self.decodeAction value with
  | none => self.failed
  | some (playerName, action, toPlayer, toPlace) => do
    let (success, room) ← applyAction self.room playerName action toPlayer toPlace
    return ({ self.countRoundEvent with room := room },
      .notify (.action playerName action toPlayer toPlace) :: if success then [] else [.setError])

/-- The items of one player, each of them tried. -/
def upgradeItems (conf : LogicConfiguration) (up : Player) : List UpgradeItem → Bool × Player
  | [] => (true, up)
  | item :: rest =>
    let (success, up) := up.upgrade conf item
    let (ret, up) := upgradeItems conf up rest
    (success && ret, up)

/-- The loop over the hash; a player is followed only where it has an item. -/
def applyUpgrade (room : Room) : List (Sigma fun _ : String => List UpgradeItem) →
    Except Logic.Fault (Bool × Room)
  | [] => .ok (true, room)
  | ⟨playerName, items⟩ :: rest =>
    match room.player playerName with
    | none => if items = [] then applyUpgrade room rest else .error .nullPlayer
    | some up => do
      let result := upgradeItems room.logicConfiguration up items
      let (ret, room) ← applyUpgrade (room.setPlayer result.2) rest
      return (result.1 && ret, room)

def decodeUpgradeItems : QJsonValue → Option (List UpgradeItem)
  | .array vaupgrades => vaupgrades.mapM fun vupgrade =>
    if vupgrade.isDouble then UpgradeItem.ofInt (toUInt8 vupgrade) else none
  | _ => none

def notifyUpgrade (self : ClientP) (value : QJsonValue) :
    Except Logic.Fault (ClientP × List ClientEffect) :=
  match value with
  | .object ob =>
    match self.decodeHash decodeUpgradeItems ob with
    | none => self.failed
    | some replies => do
      let (success, room) ← applyUpgrade self.room replies.entries
      return ({ self.countRoundEvent with room := room },
        .notify (.upgrade replies) :: if success then [] else [.setError])
  | _ => self.failed

/-- Winners that the client does not know are left out. -/
def notifyGameOver (self : ClientP) (value : QJsonValue) : ClientP × List ClientEffect :=
  let letGo := if self.socket.isSome then [ClientEffect.letGo] else []
  let self := { self with attached := false }
  match value with
  | .array arr =>
    match decodeStrings arr with
    | none => (self, letGo ++ [.setError])
    | some winners => (self, letGo ++ [.notify (.gameOver (winners.filter self.agents.contains))])
  | _ => (self, letGo ++ [.setError])

/-- A content travels as the Base64 of its UTF-8. -/
def encodeContent (content : String) : String :=
  QString.fromLatin1 (Base64.encode (QString.toUtf8 content))

def decodeContent (text : String) : String :=
  QString.fromUtf8 (Base64.decode (QString.toLatin1 text))

def notifySpoken (self : ClientP) (value : QJsonValue) : ClientP × List ClientEffect :=
  let ob := value.toObject
  let playerName := (ob.value "playerName").toQString
  if !(ob.value "playerName").isString || !self.agents.contains playerName ||
      !(ob.value "content").isString then (self, [.setError])
  else (self, [.notify (.speak playerName (decodeContent (ob.value "content").toQString))])

/-- What a pong measures is left out. -/
def notifyPongServer (self : ClientP) (value : QJsonValue) : ClientP × List ClientEffect :=
  if value.toLongLong.isNone then (self, [.setError]) else (self, [])

/-- `notifyCallbacks().value(notifyId)`, where a notify that has no callback is an error. -/
def notifyReceived (self : ClientP) (value : QJsonValue) :
    NotifyId → Except Logic.Fault (ClientP × List ClientEffect)
  | .NotifyPongServer => .ok (self.notifyPongServer value)
  | .NotifyOperated => .ok (self, [])
  | .NotifyVersion => .ok (self.notifyVersion value)
  | .NotifyLogicConfiguration => .ok (self.notifyLogicConfiguration value)
  | .NotifyAgentStateChanged => .ok (self.notifyAgentStateChanged value)
  | .NotifyPlayerAdded => .ok (self.notifyPlayerAdded value)
  | .NotifyPlayerRemoved => .ok (self.notifyPlayerRemoved value)
  | .NotifyGameStart => .ok (self, [.notify .gameStart])
  | .NotifyRoundStart => .ok self.notifyRoundStart
  | .NotifyRockPaperScissors => .ok (self.notifyRockPaperScissors value)
  | .NotifyActionOrder => .ok (self.notifyActionOrder value)
  | .NotifyAction => self.notifyAction value
  | .NotifyRoundOver => .ok (self, [.notify .roundOver])
  | .NotifyUpgrade => self.notifyUpgrade value
  | .NotifyGameOver => .ok (self.notifyGameOver value)
  | .NotifySpoken => .ok (self.notifySpoken value)
  | _ => self.failed

def socketPacketReceived (self : ClientP) (packet : Packet) :
    Except Logic.Fault (ClientP × List ClientEffect) :=
  if self.socket.isNone then .ok (self, [])
  else
    match packet.type with
    | .TypeRequest => .ok (self.requestReceived packet.requestId packet.value)
    | .TypeNotify => self.notifyReceived packet.value packet.notifyId
    | _ => self.failed

/-- A reply goes out only while its request is the current one. -/
def sendReply (self : ClientP) (requestId : RequestId) (value : QJsonValue) :
    ClientP × List ClientEffect :=
  if self.socket.isSome ∧ self.currentRequest = requestId then
    ({ self with currentRequest := .RequestInvalid },
      [.sendPacket (.ofRequest .TypeReply requestId value)])
  else (self, [])

def sendRockPaperScissorsReply (self : ClientP) (rps : RockPaperScissors) :
    ClientP × List ClientEffect :=
  self.sendReply .RequestRockPaperScissors rps.wire

def sendActionOrderReply (self : ClientP) (order : List Int) : ClientP × List ClientEffect :=
  self.sendReply .RequestActionOrder (.array (order.map .ofInt))

def sendActionReply (self : ClientP) (act : Action) (toPlayer : String) (toPlace : Int) :
    ClientP × List ClientEffect :=
  self.sendReply .RequestAction (.object [
    ("action", act.wire), ("toPlayer", .string toPlayer), ("toPlace", .ofInt toPlace)])

def sendUpgradeReply (self : ClientP) (items : List UpgradeItem) : ClientP × List ClientEffect :=
  self.sendReply .RequestUpgrade (.array (items.map UpgradeItem.wire))

/-- The bare verbs of the own agent. -/
def answer (self : ClientP) : Reply → ClientP × List ClientEffect
  | .rockPaperScissors rps => self.sendRockPaperScissorsReply rps
  | .actionOrder order => self.sendActionOrderReply order
  | .action act toPlayer toPlace => self.sendActionReply act toPlayer toPlace
  | .upgrade items => self.sendUpgradeReply items

def sendSpeak (self : ClientP) (content : String) : ClientP × List ClientEffect :=
  (self, if self.socket.isSome then
    [.sendPacket (.ofNotify .NotifySpeak (.string (encodeContent content)))] else [])

/-- What there is to do is not sent yet. -/
def sendOperate (self : ClientP) : ClientP × List ClientEffect :=
  (self, if self.socket.isSome then [.sendPacket (.ofNotify .NotifyOperate .null)] else [])

/-- The own agent is given another state by the operation side. -/
def setState (self : ClientP) (state : AgentState) : ClientP × List ClientEffect :=
  match self.agents.lookup self.objectName with
  | none => (self, [])
  | some agent =>
    ({ self with agents := self.agents.insert self.objectName { agent with state := state } },
      self.declare agent.state state)

/-- Null is no legal value of any reply. -/
def sendRequestGivenUp (self : ClientP) : ClientP × List ClientEffect :=
  if self.socket.isSome ∧ self.currentRequest ≠ .RequestInvalid then
    ({ self with currentRequest := .RequestInvalid },
      [.sendPacket (.ofRequest .TypeReply self.currentRequest .null)])
  else (self, [])

def scheduleReconnect (self : ClientP) : ClientP × List ClientEffect :=
  if self.reconnectAttempts ≥ MaxReconnectAttempts then
    ({ self with reconnectInProgress := false, reconnectTimer := false }, [.errorDisconnected])
  else ({ self with reconnectTimer := true }, [])

/-- `currentRequest` stays as it is. -/
def handleSocketGone (self : ClientP) : ClientP × List ClientEffect :=
  if self.socket.isNone then (self, [])
  else
    let self := { self with attached := false }
    if self.reconnectInProgress then
      let (self, effects) := self.scheduleReconnect
      (self, .letGo :: effects)
    else
      let (self, effects) :=
        scheduleReconnect { self with reconnectInProgress := true, reconnectAttempts := 0 }
      (self, .letGo :: .connectionLost :: effects)

/-- A new socket takes the place of the old one, if the host names a known transport. -/
def connectSocket (self : ClientP) (socket : Socket) (known : Bool) : Bool × ClientP :=
  (known, { self with socket := some socket, attached := known })

def reconnectTimeout (self : ClientP) (socket : Socket) (known : Bool) :
    ClientP × List ClientEffect :=
  let self := { self with reconnectTimer := false, reconnectAttempts := self.reconnectAttempts + 1 }
  match self.connectSocket socket known with
  | (true, self) => (self, [])
  | (false, self) =>
    ({ self with reconnectInProgress := false, reconnectTimer := false },
      [.letGo, .errorDisconnected])

/-- `Client::connectToHost`; what it lets go of is the old socket. -/
def connectToHost (self : ClientP) (socket : Socket) (known : Bool) (initialState : AgentState) :
    Bool × ClientP :=
  connectSocket { self with
    initialState := initialState
    reconnectAttempts := 0
    reconnectInProgress := false
    reconnectTimer := false } socket known

end ClientP

end QMdmmNetworking
