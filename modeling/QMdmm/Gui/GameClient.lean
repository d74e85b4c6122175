import QMdmm.Networking.Client
import QMdmm.Support.TransitionSystem

namespace QMdmmGui

open QMdmmCore Data QMdmmNetworking

/-- One entry of the action menu. -/
structure ActionOption where
  action : Action
  label : String
  target : String
  place : Int

/-- `QMdmmGameClient`, without the processes of a local game and what only the
view reads. The texts are those of the source, untranslated. -/
structure QMdmmGameClient where
  human : Option ClientP
  localName : String
  screenNames : QHash String String
  playerCount : Int
  playerCount_bounds : 1 ≤ playerCount ∧ playerCount ≤ 6

namespace QMdmmGameClient

def new : QMdmmGameClient := ⟨none, "", ∅, 3, by decide⟩

/-- The mirror room of the client, while there is one. -/
def room (self : QMdmmGameClient) : Option Room := self.human.map (·.room)

def setPlayerCount (self : QMdmmGameClient) (n : Int) : QMdmmGameClient :=
  { self with playerCount := max 1 (min n 6), playerCount_bounds := by omega }

def reset (self : QMdmmGameClient) : QMdmmGameClient :=
  { self with human := none, localName := "", screenNames := ∅ }

/-- A new client takes the place of the old one; its name is made up for it. -/
def connectOnline (self : QMdmmGameClient) (objectName playerName : String) (socket : Socket)
    (known : Bool) : QMdmmGameClient :=
  let client := ClientP.new objectName (if playerName = "" then "You" else playerName)
  { self.reset with
    human := some (client.connectToHost socket known StateMaskOnline).2
    localName := objectName }

/-- The room size the server process is started with, and the client that joins it. -/
def startLocalGame (self : QMdmmGameClient) (objectName playerName : String) (socket : Socket) :
    Int × QMdmmGameClient :=
  (self.playerCount, self.connectOnline objectName playerName socket true)

/-- What the notifications that are routed out do to the display names. -/
def noteNames (screenNames : QHash String String) : ClientEffect → QHash String String
  | .notify (.playerAdd playerName screenName _) => AList.insert playerName screenName screenNames
  | .notify (.playerRemove playerName) => AList.erase playerName screenNames
  | _ => screenNames

def packetReceived (self : QMdmmGameClient) (packet : Packet) : Except Logic.Fault QMdmmGameClient :=
  match self.human with
  | none => .ok self
  | some client => do
    let (client, effects) ← client.socketPacketReceived packet
    return { self with
      human := some client
      screenNames := effects.foldl noteNames self.screenNames }

/-- What happens to the bridge; a packet is one its client is sent. -/
inductive Event where
  | setPlayerCount (n : Int)
  | connectOnline (objectName playerName : String) (socket : Socket) (known : Bool)
  | startLocalGame (objectName playerName : String) (socket : Socket)
  | packetReceived (packet : Packet)
  | disconnectAll

def handle (self : QMdmmGameClient) : Event → Except Logic.Fault QMdmmGameClient
  | .setPlayerCount n => .ok (self.setPlayerCount n)
  | .connectOnline objectName playerName socket known =>
    .ok (self.connectOnline objectName playerName socket known)
  | .startLocalGame objectName playerName socket =>
    .ok (self.startLocalGame objectName playerName socket).2
  | .packetReceived packet => self.packetReceived packet
  | .disconnectAll => .ok self.reset

/-- The games the bridge can be in, whatever it is sent. -/
def system : TransitionSystem QMdmmGameClient Event where
  init game := game = new
  step game event game' := game.handle event = .ok game'

/-- A run from where the bridge starts. -/
def play (events : List Event) : Option QMdmmGameClient :=
  events.foldlM (fun game event => (game.handle event).toOption) new

theorem reachable_of_play {events : List Event} {game : QMdmmGameClient}
    (hplay : play events = some game) : system.Reachable game := by
  refine TransitionSystem.Reachable.foldlM (fun before event after hhandle => ?_) (.init rfl) hplay
  cases hresult : before.handle event with
  | error fault =>
    rw [hresult] at hhandle
    cases hhandle
  | ok next =>
    rw [hresult] at hhandle
    exact hresult.trans (congrArg Except.ok (Option.some.inj hhandle))

def localPlayer (self : QMdmmGameClient) : Option Player :=
  if self.localName = "" then none else self.room.bind (·.player self.localName)

def screenName (self : QMdmmGameClient) (playerName : String) : String :=
  self.screenNames.value playerName playerName

def placeName (place : Int) : String :=
  if place = Village then "Village" else "City " ++ toString place

/-- `for (int to = 0; to <= playerCount; ++to)`. -/
def places (playerCount : Int) : List Int :=
  (List.range (playerCount + 1).toNat).map fun n : Nat => (n : Int)

def moveOptions (self : QMdmmGameClient) (conf : LogicConfiguration) (source : Player) :
    List ActionOption :=
  ((places self.playerCount).filter fun toPlace =>
    toPlace ≠ source.place && (isPlaceAdjacent source.place toPlace && source.canMove conf toPlace)).map
    fun toPlace => ⟨.Move, "Move to " ++ placeName toPlace, "", toPlace⟩

/-- The entries about one of the other players. -/
def optionsOn (self : QMdmmGameClient) (conf : LogicConfiguration) (source other : Player) :
    List ActionOption :=
  let screen := self.screenName other.objectName
  (if source.canSlash conf other then [⟨.Slash, "Slash " ++ screen, other.objectName, -1⟩] else []) ++
    (if source.canKick conf other then [⟨.Kick, "Kick " ++ screen, other.objectName, -1⟩] else []) ++
    ((places self.playerCount).filter fun toPlace =>
      toPlace ≠ other.place &&
        (isPlaceAdjacent other.place toPlace && source.canLetMove conf other toPlace)).map
      fun toPlace =>
        ⟨.LetMove, "Move " ++ screen ++ " to " ++ placeName toPlace, other.objectName, toPlace⟩

def actionListFor (self : QMdmmGameClient) (source : Option Player) : List ActionOption :=
  match source, self.room with
  | some source, some room =>
    let conf := room.logicConfiguration
    (if source.alive conf then [⟨.DoNothing, "Do nothing / rest", "", -1⟩] else []) ++
      (if source.canBuyKnife conf then [⟨.BuyKnife, "Buy knife", "", -1⟩] else []) ++
      (if source.canBuyHorse conf then [⟨.BuyHorse, "Buy horse", "", -1⟩] else []) ++
      self.moveOptions conf source ++
      (room.players.toList.filter fun other =>
        other.objectName ≠ source.objectName && other.alive conf).flatMap (self.optionsOn conf source)
  | _, _ => []

def getActionOptions (self : QMdmmGameClient) : List ActionOption :=
  self.actionListFor self.localPlayer

end QMdmmGameClient

end QMdmmGui
