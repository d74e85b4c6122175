import Mathlib.Data.Finset.Card
import Mathlib.Logic.Function.Basic
import QMdmm.Networking.DefaultReply
import QMdmm.Networking.Seats

namespace QMdmmNetworking

open QMdmmCore Data Logic

namespace LogicRunner

/-- The names in `agents`. -/
def agentNames (children : List Seat) : Finset String := (children.flatMap Seat.names).toFinset

/-- What `addAgent` emits for the logic. -/
def addAgentEmits (playerNumPerRoom : Int) (self : LogicRunner) (conn : ServerConnectionP) :
    List Call :=
  if (self.agent conn.agent.objectName).isSome then []
  else
    .addPlayer conn.agent.objectName ::
      if (self.addAgent conn).full playerNumPerRoom then [.roundStart] else []

/-- What `agentDisconnected` emits for the logic, for each connection that
`dropSeats` comes to. -/
def dropSeatsEmits (playerNumPerRoom : Int) (socket : Socket) (random : RockPaperScissors) :
    List Seat → List Seat → List Call
  | _, [] => []
  | done, seat :: rest =>
    if socket ∈ seat.conn.wired then
      let dropped := { seat with conn := (seat.conn.onSocketDisconnected random).1 }
      if dropped.registered && agentsCount (done ++ dropped :: rest) < playerNumPerRoom then
        .removePlayer seat.playerName :: dropSeatsEmits playerNumPerRoom socket random done rest
      else dropSeatsEmits playerNumPerRoom socket random (done ++ [dropped]) rest
    else dropSeatsEmits playerNumPerRoom socket random (done ++ [seat]) rest

/-- The loop of a request handler: `agents.value(playerName)->requestXxx(…)`. A null
pointer that is followed is `none`. -/
def request (self : LogicRunner) : List (String × Request) → Option LogicRunner
  | [] => some self
  | (playerName, req) :: rest =>
    match self.agent playerName with
    | none => none
    | some _ =>
      request { self with
        children := self.children.map fun seat =>
          if seat.isAgent playerName then { seat with conn := (seat.conn.request req).1 }
          else seat } rest

/-- `foreach (Agent *agent, agents) agent->notifyXxx(…)`. -/
def notify (self : LogicRunner) (notification : Notification) : LogicRunner :=
  { self with
    children := self.children.map fun seat =>
      if seat.registered then { seat with conn := (seat.conn.notify notification).1 } else seat }

def clearRoundEventLogs (self : LogicRunner) : LogicRunner :=
  { self with
    children := self.children.map fun seat =>
      if seat.registered then { seat with conn := seat.conn.clearRoundEventLog } else seat }

/-- The agents that are online, as `upgradeResult` looks for them. -/
def onlineNames (self : LogicRunner) : List String :=
  (self.children.filter fun seat => seat.registered && seat.online).map Seat.playerName

/-- What becomes of a runner that handles a signal, what it emits for its logic, and
whether it emits `gameOver`. -/
structure Handled where
  runner : LogicRunner
  commands : List Call
  ended : Bool

/-- The slots that the signals of the logic are connected to. -/
def handle (self : LogicRunner) : Signal → Option Handled
  | .rpsResult replies => some ⟨self.notify (.rockPaperScissors replies), [], false⟩
  | .actionOrderResult result =>
    let order := (List.range result.count).map fun i => result.value (i + 1) ""
    some ⟨self.notify (.actionOrder order), [], false⟩
  | .actionResult playerName action toPlayer toPlace =>
    some ⟨self.notify (.action playerName action toPlayer toPlace), [], false⟩
  | .roundOver => some ⟨self.clearRoundEventLogs.notify .roundOver, [], false⟩
  | .upgradeResult upgrades =>
    -- Who is still offline when the round is over has abandoned the game.
    if self.children.any fun seat => seat.registered && !seat.online then
      some ⟨self.notify (.gameOver self.onlineNames), [], true⟩
    else
      some ⟨((self.notify (.upgrade upgrades)).notify .roundStart).clearRoundEventLogs,
        [.roundStart], false⟩
  | .gameOver winners => some ⟨self.notify (.gameOver winners), [], true⟩
  | signal => (self.request (LogicRunnerP.requests signal)).map fun runner => ⟨runner, [], false⟩

end LogicRunner

namespace ServerP

def addAgentEmits (self : ServerP) (socket : Socket) (ob : SignIn) (pointer : Nat) : List Call :=
  let conn := ((ServerConnectionP.new ⟨ob.playerName, ob.screenName, ob.agentState⟩
    self.logicConfiguration self.requestTimeout).setSocket socket).1
  match self.recruiting with
  | none => []
  | some runner =>
    if runner.pointer = pointer then runner.addAgentEmits self.playerNumPerRoom conn else []

def signInEmits (self : ServerP) (socket : Socket) (packetValue : QJsonValue) (pointer : Nat) :
    List Call :=
  match SignIn.ofValue packetValue with
  | none => []
  | some ob =>
    if (self.existing ob.playerName).isSome then []
    else if self.needsRoom then
      if self.atMaximumRooms then [] else self.openRoom.addAgentEmits socket ob pointer
    else self.addAgentEmits socket ob pointer

/-- What the runner of this pointer emits for its logic while an event is handled. -/
def emits (self : ServerP) (pointer : Nat) : Event → List Call
  | .signIn socket packetValue => self.signInEmits socket packetValue pointer
  | .socketDisconnected socket random =>
    match self.runners.find? fun runner => runner.pointer = pointer with
    | none => []
    | some runner =>
      LogicRunner.dropSeatsEmits self.playerNumPerRoom socket random [] runner.children
  | _ => []

end ServerP

/-- A logic in the thread of its runner, with what is queued between the two. -/
structure LogicThread where
  /-- What has been emitted for the logic, and it has not taken yet. -/
  commands : List Call
  taken : List Call
  /-- The signals the logic has emitted are those of its environment. -/
  logic : Logic (List Signal)
  /-- How many of them the runner has handled. -/
  handled : Nat
  /-- How many times `addAgent` has emitted `roundStart`. -/
  kickOffs : Nat

namespace LogicThread

def new (logicConfiguration : LogicConfiguration) : LogicThread :=
  ⟨[], [], .start logicConfiguration, 0, 0⟩

/-- The signals that are still queued. -/
def signals (self : LogicThread) : List Signal := self.logic.env.drop self.handled

def enqueue (self : LogicThread) (commands : List Call) : LogicThread :=
  { self with commands := self.commands ++ commands }

def isRoundStart : Call → Bool
  | .roundStart => true
  | _ => false

/-- What the handling of an event of the server has emitted. -/
def enqueueEmitted (self : LogicThread) (commands : List Call) : LogicThread :=
  { self.enqueue commands with kickOffs := self.kickOffs + commands.countP isRoundStart }

/-- The logic takes the next command; a fault ends the run. -/
def take (self : LogicThread) : Option LogicThread :=
  match self.commands with
  | [] => none
  | c :: rest =>
    (self.logic.call post c).toOption.map fun result =>
      { self with commands := rest, taken := self.taken ++ [c], logic := result.2 }

end LogicThread

/-- A server with the logics of its rooms. A thread that no runner has started is as
one would start it. -/
structure Rooms where
  server : ServerP
  threads : Nat → LogicThread

namespace Rooms

def new (logicConfiguration : LogicConfiguration)
    (playerNumPerRoom maximumRooms requestTimeout : Int) : Rooms :=
  ⟨.new logicConfiguration playerNumPerRoom maximumRooms requestTimeout,
    fun _ => .new logicConfiguration⟩

def runner (self : Rooms) (pointer : Nat) : Option LogicRunner :=
  self.server.runners.find? fun runner => runner.pointer = pointer

def setThread (self : Rooms) (pointer : Nat) (thread : LogicThread) : Rooms :=
  { self with threads := Function.update self.threads pointer thread }

/-- The event loop of the server, and those of the logics. That a game is over is no
event of its own here: a runner says so when it handles a signal. -/
inductive Event where
  | server (event : ServerP.Event)
  /-- The logic takes a command. -/
  | command (pointer : Nat)
  /-- The runner handles a signal. -/
  | signal (pointer : Nat)
  /-- An agent of the runner replies. -/
  | reply (pointer : Nat) (playerName : String) (reply : Reply)

def handleServer (self : Rooms) : ServerP.Event → Option Rooms
  | .gameOver _ => none
  | event =>
    (self.server.handle event).map fun server =>
      { server := server
        threads := fun pointer =>
          (self.threads pointer).enqueueEmitted (self.server.emits pointer event) }

/-- A signal that is handled, by a runner that still exists. -/
def handleSignal (self : Rooms) (pointer : Nat) : Option Rooms :=
  match self.runner pointer, (self.threads pointer).signals with
  | some runner, signal :: _ =>
    (runner.handle signal).map fun result =>
      let server := { self.server with
        runners := self.server.runners.map fun other =>
          if other.pointer = pointer then result.runner else other }
      { self with
        server := if result.ended then server.logicRunnerGameOver pointer else server
        threads := Function.update self.threads pointer
          { (self.threads pointer).enqueue result.commands with
            handled := (self.threads pointer).handled + 1 } }
  | _, _ => none

def handle (self : Rooms) : Event → Option Rooms
  | .server event => self.handleServer event
  | .command pointer => (self.threads pointer).take.map (self.setThread pointer)
  | .signal pointer => self.handleSignal pointer
  | .reply pointer playerName reply =>
    if (self.runner pointer).any fun runner => (runner.agent playerName).isSome then
      some (self.setThread pointer
        ((self.threads pointer).enqueue [LogicRunnerP.replied playerName reply]))
    else none

/-- A server for this many players in a room and this many rooms at most, with any
rules and any timeout, and any sequence of events. -/
def system (playerNumPerRoom maximumRooms : Int) : TransitionSystem Rooms Event where
  init self := ∃ logicConfiguration requestTimeout,
    self = new logicConfiguration playerNumPerRoom maximumRooms requestTimeout
  step self event self' := self.handle event = some self'

end Rooms

end QMdmmNetworking
