import QMdmm.Core.Requests
import QMdmm.Networking.InStep
import QMdmm.Networking.OneAnswer

namespace QMdmmNetworking

open QMdmmCore Data Logic LogicThread

/-- The request in flight, if there is one. -/
def ServerConnectionP.inFlight (self : ServerConnectionP) : List Protocol.RequestId :=
  if self.currentRequest = .RequestInvalid then [] else [self.currentRequest]

namespace LogicRunner

/-- The connection of an agent has changed. -/
def setConn (self : LogicRunner) (playerName : String) (conn : ServerConnectionP) : LogicRunner :=
  { self with
    children := self.children.map fun seat =>
      if seat.isAgent playerName then { seat with conn := conn } else seat }

/-- `agents.take(playerName)`, and the agent is deleted. -/
def takeAgent (self : LogicRunner) (playerName : String) : LogicRunner :=
  { self with children := self.children.filter fun seat => !seat.isAgent playerName }

/-- `agent->setState(state)`. -/
def setAgentState (self : LogicRunner) (playerName : String) (state : AgentState) : LogicRunner :=
  { self with
    children := self.children.map fun seat =>
      if seat.isAgent playerName then seat.setState state else seat }

end LogicRunner

/-- One room from the sign-in of its first player on: the runner with the connections of
its agents, the logic in its thread, and whether the runner has emitted `gameOver`. -/
structure RunningRoom where
  runner : LogicRunner
  thread : LogicThread
  ended : Bool

namespace RunningRoom

/-- What a room is made with. -/
structure Rules where
  logicConfiguration : LogicConfiguration
  playerNumPerRoom : Int
  requestTimeout : Int

/-- What can happen to a room, each of it a slot that runs to its end. -/
inductive Event where
  /-- A sign-in brings an agent with its connection, bound to the socket. -/
  | addAgent (agent : Agent) (socket : Socket)
  /-- A sign-in binds an agent that is not online again. -/
  | reconnectAgent (playerName : String) (socket : Socket) (lastRoundEventSeq : Int)
  /-- A packet, a timer or the transport reaches the connection of an agent. -/
  | connection (playerName : String) (l : Session.Step)
  /-- A client declares the state of its agent. -/
  | stateChange (playerName : String) (state : AgentState)
  /-- A deferred deletion leaves null pointers to a socket. -/
  | socketDeleted (socket : Socket)
  /-- The logic takes a command. -/
  | command
  /-- The runner handles a signal. -/
  | signal

def new (rules : Rules) (pointer : Nat) : RunningRoom :=
  ⟨⟨pointer, [], false⟩, .new rules.logicConfiguration, false⟩

/-- The slots that reach a connection from outside of the room, and when. Every packet
starts the deadline of a bound connection over, so it may run out at any time. -/
def runs (conn : ServerConnectionP) : Session.Event → Bool
  | .packetReceived _ | .socketDisconnected => true
  | .requestTimeout => conn.requestTimer
  | .peerWentSilent => conn.socket.isSome || conn.heartbeatDeadline
  | .executeDefaultReply => 0 < conn.singleShots
  | _ => false

/-- Whether the transport has dropped within a slot, so that `agentDisconnected` is
emitted. -/
def drops (l : Session.Step) (effects : List Effect) : Bool :=
  match l.event with
  | .socketDisconnected => true
  | _ => l.sync && effects.any fun
    | .setError => true
    | _ => false

/-- The room of a game that has started keeps the seat, and is over if nobody is online;
before that the agent is taken out. -/
def agentDisconnected (n : Int) (self : RunningRoom) (playerName : String) : RunningRoom :=
  if self.runner.full n then
    { self with
      ended := self.ended ||
        self.runner.children.all fun seat => !(seat.registered && seat.online) }
  else
    { self with
      runner := self.runner.takeAgent playerName
      thread := self.thread.enqueueEmitted [.removePlayer playerName] }

/-- A slot of a connection, the replies it hands over, and what the room makes of a drop.
Where the agent is taken out nothing has been asked, so the replies come first. -/
def receive (n : Int) (self : RunningRoom) (playerName : String) (l : Session.Step) :
    Option RunningRoom :=
  match self.runner.agent playerName with
  | none => none
  | some seat =>
    if runs seat.conn l.event then
      match Session.act seat.conn l with
      | .error _ => none
      | .ok (conn, effects) =>
        let room := { self with
          runner := self.runner.setConn playerName conn
          thread := self.thread.enqueue
            ((repliesOf effects).map (LogicRunnerP.replied playerName)) }
        some (if drops l effects then room.agentDisconnected n playerName else room)
    else none

/-- A sign-in as `signIn` hands it to the recruiting room, which is not full. -/
def addAgent (rules : Rules) (self : RunningRoom) (agent : Agent) (socket : Socket) :
    RunningRoom :=
  let conn := ((ServerConnectionP.new agent rules.logicConfiguration
    rules.requestTimeout).setSocket socket).1
  { self with
    runner := self.runner.addAgent conn
    thread := self.thread.enqueueEmitted
      (self.runner.addAgentEmits rules.playerNumPerRoom conn) }

def reconnectAgent (self : RunningRoom) (playerName : String) (socket : Socket)
    (lastRoundEventSeq : Int) : Option RunningRoom :=
  match self.runner.agent playerName with
  | none => none
  | some seat =>
    match seat.conn.reconnect socket lastRoundEventSeq with
    | .error _ => none
    | .ok (conn, _) =>
      (self.runner.reconnectAgent playerName conn).map fun runner => { self with runner := runner }

def socketDeleted (self : RunningRoom) (socket : Socket) : RunningRoom :=
  { self with
    runner := { self.runner with
      children := self.runner.children.map fun seat =>
        { seat with
          conn := { seat.conn with
            socket := seat.conn.socket.filter (· ≠ socket)
            wired := seat.conn.wired.filter (· ≠ socket) } } } }

def handleSignal (self : RunningRoom) : Option RunningRoom :=
  match self.thread.signals with
  | [] => none
  | signal :: _ =>
    (self.runner.handle signal).map fun result =>
      { runner := result.runner
        thread := { self.thread.enqueue result.commands with handled := self.thread.handled + 1 }
        ended := self.ended || result.ended }

def handle (rules : Rules) (self : RunningRoom) : Event → Option RunningRoom
  | .addAgent agent socket =>
    if self.runner.full rules.playerNumPerRoom then none
    else some (self.addAgent rules agent socket)
  | .reconnectAgent playerName socket lastRoundEventSeq =>
    self.reconnectAgent playerName socket lastRoundEventSeq
  | .connection playerName l => self.receive rules.playerNumPerRoom playerName l
  | .stateChange playerName state =>
    some { self with runner := self.runner.setAgentState playerName state }
  | .socketDeleted socket => some (self.socketDeleted socket)
  | .command => self.thread.take.map fun thread => { self with thread := thread }
  | .signal => self.handleSignal

/-- A room with these rules, and any sequence of events. -/
def system (rules : Rules) : TransitionSystem RunningRoom Event where
  init self := ∃ pointer, self = new rules pointer
  step self event self' := self.handle rules event = some self'

/-- The request that is open at the connection of a player. -/
def openOf (runner : LogicRunner) (name : String) : List Protocol.RequestId :=
  (runner.agent name).elim [] fun seat => seat.conn.inFlight

/-- Where the requests to a player are: answered with a reply that is queued, open at its
connection, or in a signal that is queued. -/
def requestsOf (self : RunningRoom) (name : String) : List Protocol.RequestId :=
  self.thread.commands.flatMap (Call.answersOf name) ++ openOf self.runner name ++
    self.thread.signals.flatMap (Signal.requestsTo name)

end RunningRoom

end QMdmmNetworking
