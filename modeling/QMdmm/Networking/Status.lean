import QMdmm.Networking.InStep

namespace QMdmmNetworking

open QMdmmCore Data Logic

/-- A server with what its status tells of the rooms beyond what they hold: their
identifiers, from a counter of the process, and the rounds they have started. -/
structure Reporting where
  rooms : Rooms
  /-- `LogicRunnerP::lastId`. -/
  lastId : UInt32
  /-- Of the runner with this pointer. -/
  id : Nat → UInt32
  rounds : Nat → Nat

namespace Reporting

open LogicThread

inductive Event where
  | rooms (event : Rooms.Event)
  /-- Another server of the process builds a room. -/
  | elsewhere

def new (rooms : Rooms) (lastId : UInt32) : Reporting := ⟨rooms, lastId, fun _ => 0, fun _ => 0⟩

/-- The runner that an event has built. -/
def built (rooms rooms' : Rooms) : Option LogicRunner :=
  rooms'.server.runners.find? fun runner => (rooms.runner runner.pointer).isNone

/-- What has been emitted for a logic meanwhile. -/
def emitted (thread thread' : LogicThread) : List Call :=
  thread'.commands.drop thread.commands.length

def handle (self : Reporting) : Event → Option Reporting
  | .rooms event =>
    (self.rooms.handle event).map fun rooms =>
      let lastId := if (built self.rooms rooms).isSome then self.lastId + 1 else self.lastId
      { rooms := rooms
        lastId := lastId
        id := fun pointer =>
          if (built self.rooms rooms).any (·.pointer = pointer) then lastId else self.id pointer
        rounds := fun pointer =>
          self.rounds pointer +
            (emitted (self.rooms.threads pointer) (rooms.threads pointer)).countP isRoundStart }
  | .elsewhere => some { self with lastId := self.lastId + 1 }

def system (playerNumPerRoom maximumRooms : Int) : TransitionSystem Reporting Event where
  init self := ∃ rooms lastId,
    (Rooms.system playerNumPerRoom maximumRooms).init rooms ∧ self = new rooms lastId
  step self event self' := self.handle event = some self'

/-- The agents of a runner that are online, whether they are registered or not. -/
def roomPlayers (runner : LogicRunner) : Nat := runner.children.countP Seat.online

def entry (self : Reporting) (runner : LogicRunner) : QJsonObject :=
  ((QJsonObject.insert [] "id" (.ofInt (self.id runner.pointer).toNat)).insert "players"
    (.ofInt (roomPlayers runner))).insert "rounds" (.ofInt (self.rounds runner.pointer))

/-- The rooms in the order of the status. -/
def sorted (self : Reporting) : List LogicRunner :=
  self.rooms.server.runners.mergeSort fun left right => self.id left.pointer ≤ self.id right.pointer

def games (self : Reporting) : Nat :=
  self.sorted.countP (LogicRunner.full self.rooms.server.playerNumPerRoom)

def players (self : Reporting) : Nat := (self.sorted.map roomPlayers).sum

def status (self : Reporting) : QJsonObject :=
  (((QJsonObject.insert [] "rooms" (.ofInt self.sorted.length)).insert "games"
    (.ofInt self.games)).insert "players" (.ofInt self.players)).insert "roomList"
      (.array (self.sorted.map fun runner => .object (self.entry runner)))

end Reporting

end QMdmmNetworking
