import Mathlib.Data.List.Basic
import QMdmm.Networking.ServerConnection
import QMdmm.Support.TransitionSystem

namespace QMdmmNetworking

open QMdmmCore Data Protocol

/-- An agent that a sign-in has made, as a child of its runner. One that `addAgent`
turned away stays a child, but is not registered. -/
structure Seat where
  conn : ServerConnectionP
  registered : Bool

namespace Seat

def playerName (self : Seat) : String := self.conn.agent.objectName

def online (self : Seat) : Bool := self.conn.agent.state.online

def isAgent (playerName : String) (self : Seat) : Bool :=
  self.registered && self.playerName == playerName

def setState (self : Seat) (state : AgentState) : Seat :=
  { self with conn := { self.conn with agent := { self.conn.agent with state := state } } }

end Seat

/-- A `LogicRunner` as the server sees it, with the identity of the object. -/
structure LogicRunner where
  pointer : Nat
  children : List Seat
  /-- `deleteLater` has been called. -/
  deleting : Bool

namespace LogicRunner

def agent (self : LogicRunner) (playerName : String) : Option Seat :=
  self.children.find? (·.isAgent playerName)

def agentsCount (children : List Seat) : Nat := (children.filter (·.registered)).length

def full (playerNumPerRoom : Int) (self : LogicRunner) : Bool :=
  agentsCount self.children ≥ playerNumPerRoom

/-- A null pointer for a name the room already has. -/
def addAgent (self : LogicRunner) (conn : ServerConnectionP) : LogicRunner :=
  { self with
    children := self.children ++ [⟨conn, (self.agent conn.agent.objectName).isNone⟩] }

/-- The agent of this name, if it is not online: it is bound and online again. -/
def reconnectAgent (playerName : String) (conn : ServerConnectionP) (self : LogicRunner) :
    Option LogicRunner :=
  match self.agent playerName with
  | none => none
  | some existing =>
    if existing.online then none
    else
      some { self with
        children := self.children.replaceF fun seat =>
          if seat.isAgent playerName then
            some (Seat.setState { seat with conn := conn }
              (conn.agent.state.setFlag StateMaskOnline true))
          else none }

/-- `onSocketDisconnected` of each connection that the socket reaches, and
`agentDisconnected`: before the game has started the agent is taken out. -/
def dropSeats (playerNumPerRoom : Int) (socket : Socket) (random : RockPaperScissors) :
    List Seat → List Seat → List Seat
  | done, [] => done
  | done, seat :: rest =>
    if socket ∈ seat.conn.wired then
      let dropped := { seat with conn := (seat.conn.onSocketDisconnected random).1 }
      if dropped.registered && agentsCount (done ++ dropped :: rest) < playerNumPerRoom then
        dropSeats playerNumPerRoom socket random done rest
      else dropSeats playerNumPerRoom socket random (done ++ [dropped]) rest
    else dropSeats playerNumPerRoom socket random (done ++ [seat]) rest

/-- Whether a disconnected socket ends the game: it was an agent's of a full room,
and nobody is online any more. -/
def abandoned (playerNumPerRoom : Int) (socket : Socket) (before after : LogicRunner) : Bool :=
  after.full playerNumPerRoom &&
    before.children.any (fun seat => seat.registered && socket ∈ seat.conn.wired) &&
    after.children.all fun seat => !(seat.registered && seat.online)

end LogicRunner

/-- `ServerP`. -/
structure ServerP where
  logicConfiguration : LogicConfiguration
  playerNumPerRoom : Int
  maximumRooms : Int
  requestTimeout : Int
  /-- The accepted sockets whose transport is up. -/
  sockets : List Socket
  /-- The socket objects that `deleteLater` has been called for. -/
  doomed : List Socket
  runners : List LogicRunner
  current : Option Nat
  /-- How many sockets and runners there have been. -/
  made : Nat

/-- What a sign-in carries. -/
structure SignIn where
  playerName : String
  screenName : String
  agentState : AgentState
  lastRoundEventSeq : Int

/-- The checks of `signIn`; only `lastRoundEventSeq` may be missing. -/
def SignIn.ofValue (packetValue : QJsonValue) : Option SignIn :=
  let ob := packetValue.toObject
  if !(ob.value "playerName").isString || !(ob.value "screenName").isString ||
      !(ob.value "agentState").isDouble then none
  else
    some {
      playerName := (ob.value "playerName").toQString
      screenName := (ob.value "screenName").toQString
      agentState := .ofInt ((ob.value "agentState").toInt 0)
      lastRoundEventSeq := (ob.value "lastRoundEventSeq").toInt 0 }

namespace ServerP

def new (logicConfiguration : LogicConfiguration)
    (playerNumPerRoom maximumRooms requestTimeout : Int) : ServerP where
  logicConfiguration := logicConfiguration
  playerNumPerRoom := playerNumPerRoom
  maximumRooms := maximumRooms
  requestTimeout := requestTimeout
  sockets := []
  doomed := []
  runners := []
  current := none
  made := 0

def introduceSocket (self : ServerP) : ServerP :=
  { self with sockets := self.sockets ++ [self.made], made := self.made + 1 }

/-- The agent a sign-in reconnects to: in any room, but not online. -/
def existing (self : ServerP) (playerName : String) : Option Seat :=
  self.runners.findSome? fun runner => (runner.agent playerName).filter fun seat => !seat.online

/-- `current`, if it is not null. -/
def recruiting (self : ServerP) : Option LogicRunner :=
  self.current.bind fun pointer => self.runners.find? fun runner => runner.pointer = pointer

/-- `current == nullptr || current->full()`. -/
def needsRoom (self : ServerP) : Bool :=
  match self.recruiting with
  | none => true
  | some runner => runner.full self.playerNumPerRoom

def atMaximumRooms (self : ServerP) : Bool :=
  self.maximumRooms > 0 && self.runners.length ≥ self.maximumRooms

def openRoom (self : ServerP) : ServerP :=
  { self with
    runners := self.runners ++ [⟨self.made, [], false⟩]
    current := some self.made
    made := self.made + 1 }

def deleteLater (self : ServerP) (effects : List Effect) : ServerP :=
  { self with
    doomed := self.doomed ++ effects.filterMap fun effect =>
      match effect with
      | .deleteLater socket => some socket
      | _ => none }

/-- A new agent with its connection, bound to the socket, in the recruiting room. -/
def addAgent (self : ServerP) (socket : Socket) (ob : SignIn) : ServerP :=
  let conn := ((ServerConnectionP.new ⟨ob.playerName, ob.screenName, ob.agentState⟩
    self.logicConfiguration self.requestTimeout).setSocket socket).1
  { self with
    runners := self.runners.replaceF fun runner =>
      if self.current = some runner.pointer then some (runner.addAgent conn) else none }

/-- Where a sign-in ends in `setError`, nothing else happens: that the socket
disconnects is an event of its own. -/
def signIn (self : ServerP) (socket : Socket) (packetValue : QJsonValue) :
    Except Logic.Fault ServerP :=
  match SignIn.ofValue packetValue with
  | none => .ok self
  | some ob =>
    match self.existing ob.playerName with
    | some existing => do
      let (conn, effects) ← existing.conn.reconnect socket ob.lastRoundEventSeq
      return { self with
        runners := self.runners.replaceF (·.reconnectAgent ob.playerName conn) }.deleteLater effects
    | none =>
      if self.needsRoom then
        if self.atMaximumRooms then .ok self else .ok (self.openRoom.addAgent socket ob)
      else .ok (self.addAgent socket ob)

/-- The first connection of the socket declares the state of its agent. -/
def stateChange (self : ServerP) (socket : Socket) (packetValue : QJsonValue) : ServerP :=
  let vmanaged := packetValue.toObject.value "agentState"
  if vmanaged.isDouble then
    { self with
      runners := self.runners.replaceF fun runner =>
        if runner.children.any fun seat => seat.conn.socket = some socket then
          some { runner with
            children := runner.children.replaceF fun seat =>
              if seat.conn.socket = some socket then
                some (seat.setState (.ofInt (vmanaged.toInt 0)))
              else none }
        else none }
  else self

/-- `gameOver` of a runner, by its own logic or because it was abandoned. -/
def logicRunnerGameOver (self : ServerP) (pointer : Nat) : ServerP :=
  { self with
    current := if self.current = some pointer then none else self.current
    runners := self.runners.map fun runner =>
      if runner.pointer = pointer then { runner with deleting := true } else runner }

def dropRunner (self : ServerP) (socket : Socket) (random : RockPaperScissors)
    (runner : LogicRunner) : LogicRunner :=
  { runner with
    children := LogicRunner.dropSeats self.playerNumPerRoom socket random [] runner.children }

/-- The transport of a socket is gone. -/
def socketDisconnected (self : ServerP) (socket : Socket) (random : RockPaperScissors) : ServerP :=
  let bound := (self.runners.flatMap (·.children)).filterMap fun seat =>
    if socket ∈ seat.conn.wired then seat.conn.socket else none
  let abandoned := (self.runners.filter fun runner =>
    runner.abandoned self.playerNumPerRoom socket (self.dropRunner socket random runner)).map
      (·.pointer)
  abandoned.foldl logicRunnerGameOver
    { self with
      sockets := self.sockets.filter (· ≠ socket)
      doomed := self.doomed ++ bound
      runners := self.runners.map (self.dropRunner socket random) }

/-- The deferred deletion of a runner, with its agents and connections. -/
def runnerDeleted (self : ServerP) (pointer : Nat) : ServerP :=
  { self with
    runners := self.runners.filter fun runner => !(runner.deleting && runner.pointer = pointer) }

/-- The deferred deletion of a socket: every pointer to it is null now. -/
def socketDeleted (self : ServerP) (socket : Socket) : ServerP :=
  { self with
    sockets := self.sockets.filter (· ≠ socket)
    doomed := self.doomed.filter (· ≠ socket)
    runners := self.runners.map fun runner =>
      { runner with
        children := runner.children.map fun seat =>
          { seat with
            conn := { seat.conn with
              socket := seat.conn.socket.filter (· ≠ socket)
              wired := seat.conn.wired.filter (· ≠ socket) } } } }

/-- What reaches the server, one after another. The other packets, the timers and
the replies move no seat; what they do to a socket is that it disconnects. -/
inductive Event where
  | newConnection
  | signIn (socket : Socket) (packetValue : QJsonValue)
  | stateChange (socket : Socket) (packetValue : QJsonValue)
  | socketDisconnected (socket : Socket) (random : RockPaperScissors)
  | gameOver (pointer : Nat)
  | runnerDeleted (pointer : Nat)
  | socketDeleted (socket : Socket)

/-- Only a socket whose transport is up delivers packets or disconnects, only a game
that has started ends, and only what was to be deleted is. -/
def handle (self : ServerP) : Event → Option ServerP
  | .newConnection => some self.introduceSocket
  | .signIn socket packetValue =>
    if socket ∈ self.sockets then (self.signIn socket packetValue).toOption else none
  | .stateChange socket packetValue =>
    if socket ∈ self.sockets then some (self.stateChange socket packetValue) else none
  | .socketDisconnected socket random =>
    if socket ∈ self.sockets then some (self.socketDisconnected socket random) else none
  | .gameOver pointer =>
    if self.runners.any fun runner =>
        runner.pointer = pointer && runner.full self.playerNumPerRoom then
      some (self.logicRunnerGameOver pointer)
    else none
  | .runnerDeleted pointer => some (self.runnerDeleted pointer)
  | .socketDeleted socket =>
    if socket ∈ self.doomed then some (self.socketDeleted socket) else none

/-- Any configuration, and any sequence of events. -/
def system : TransitionSystem ServerP Event where
  init self := ∃ logicConfiguration playerNumPerRoom maximumRooms requestTimeout,
    self = new logicConfiguration playerNumPerRoom maximumRooms requestTimeout
  step self event self' := self.handle event = some self'

/-- What handling an event can do. -/
inductive Handles (self : ServerP) : Event → ServerP → Prop where
  | newConnection : Handles self .newConnection self.introduceSocket
  | signIn {socket : Socket} {packetValue : QJsonValue} {self' : ServerP}
      (hsocket : socket ∈ self.sockets) (hsignIn : self.signIn socket packetValue = .ok self') :
      Handles self (.signIn socket packetValue) self'
  | stateChange {socket : Socket} {packetValue : QJsonValue} (hsocket : socket ∈ self.sockets) :
      Handles self (.stateChange socket packetValue) (self.stateChange socket packetValue)
  | socketDisconnected {socket : Socket} {random : RockPaperScissors}
      (hsocket : socket ∈ self.sockets) :
      Handles self (.socketDisconnected socket random) (self.socketDisconnected socket random)
  | gameOver {pointer : Nat} : Handles self (.gameOver pointer) (self.logicRunnerGameOver pointer)
  | runnerDeleted {pointer : Nat} :
      Handles self (.runnerDeleted pointer) (self.runnerDeleted pointer)
  | socketDeleted {socket : Socket} (hsocket : socket ∈ self.doomed) :
      Handles self (.socketDeleted socket) (self.socketDeleted socket)

theorem handle_cases {self self' : ServerP} {event : Event}
    (h : self.handle event = some self') : Handles self event self' := by
  cases event with
  | newConnection =>
    cases h
    exact .newConnection
  | signIn socket packetValue =>
    rw [handle] at h
    split at h
    · next hsocket =>
      cases hsignIn : self.signIn socket packetValue with
      | error fault =>
        rw [hsignIn] at h
        cases h
      | ok after =>
        rw [hsignIn] at h
        cases h
        exact .signIn hsocket hsignIn
    · cases h
  | stateChange socket packetValue =>
    obtain ⟨hsocket, hsome⟩ := Option.ite_none_right_eq_some.mp h
    cases hsome
    exact .stateChange hsocket
  | socketDisconnected socket random =>
    obtain ⟨hsocket, hsome⟩ := Option.ite_none_right_eq_some.mp h
    cases hsome
    exact .socketDisconnected hsocket
  | gameOver pointer =>
    obtain ⟨-, hsome⟩ := Option.ite_none_right_eq_some.mp h
    cases hsome
    exact .gameOver
  | runnerDeleted pointer =>
    cases h
    exact .runnerDeleted
  | socketDeleted socket =>
    obtain ⟨hsocket, hsome⟩ := Option.ite_none_right_eq_some.mp h
    cases hsome
    exact .socketDeleted hsocket

/-- What a client signs in with for the first time. -/
def signInValue (playerName : String) (agentState : Int) : QJsonValue :=
  .object [("playerName", .string playerName), ("screenName", .string playerName),
    ("agentState", .ofInt agentState)]

/-- A run from a new server, as computed. -/
theorem exists_run {G : ServerP → Event → Bool} (events : List Event) (P : ServerP → Bool)
    (logicConfiguration : LogicConfiguration) (playerNumPerRoom maximumRooms requestTimeout : Int)
    (hrun : (events.foldlM (fun self event => if G self event then self.handle event else none)
      (new logicConfiguration playerNumPerRoom maximumRooms requestTimeout)).any P = true) :
    ∃ self, (system.guarded fun self event => G self event = true).Reachable self ∧
      P self = true := by
  cases hlast : events.foldlM (fun self event => if G self event then self.handle event else none)
      (new logicConfiguration playerNumPerRoom maximumRooms requestTimeout) with
  | none => simp [hlast] at hrun
  | some last =>
    rw [hlast] at hrun
    refine ⟨last, .foldlM (fun self event self' hstep => ?_)
      (.init ⟨logicConfiguration, playerNumPerRoom, maximumRooms, requestTimeout, rfl⟩) hlast, hrun⟩
    split at hstep
    · next hguard => exact ⟨hguard, hstep⟩
    · cases hstep

end ServerP

end QMdmmNetworking
