import QMdmm.Core.Data
import QMdmm.Core.Json

namespace QMdmmCore

namespace Data

/-- `Data::AgentState`: flags in an `unsigned int`. -/
abbrev AgentState := BitVec 32

def StateMaskOnline : AgentState := 0x10
def StateMaskBot : AgentState := 0x01
def StateMaskTrust : AgentState := 0x08

namespace AgentState

/-- The flags an `int` of the wire stands for. -/
def ofInt (n : Int) : AgentState := BitVec.ofInt 32 n

def testFlag (state flag : AgentState) : Bool := state &&& flag == flag

def setFlag (state flag : AgentState) (on : Bool) : AgentState :=
  if on then state ||| flag else state &&& ~~~flag

def online (state : AgentState) : Bool := state.testFlag StateMaskOnline

/-- The `int` that stands for the flags on the wire. -/
def wire (state : AgentState) : QJsonValue := .ofInt state.toInt

/-- The flags survive the cast to `int` and back, the highest one included. -/
@[simp] theorem ofInt_wire (state : AgentState) : ofInt (state.wire.toInt 0) = state := by
  have hlo := state.le_toInt
  have hhi := state.toInt_lt
  have hfits : FitsInt state.toInt := ⟨by omega, by omega⟩
  rw [wire, QJsonValue.toInt_ofInt hfits, ofInt, BitVec.ofInt_toInt]

theorem online_eq_getLsbD (state : AgentState) : state.online = state.getLsbD 4 := by
  have hmask : StateMaskOnline = BitVec.twoPow 32 4 := rfl
  rw [online, testFlag, hmask, BitVec.and_twoPow]
  cases state.getLsbD 4 <;> rfl

@[simp] theorem online_setFlag_online (state : AgentState) (on : Bool) :
    (state.setFlag StateMaskOnline on).online = on := by
  cases on <;> simp [online_eq_getLsbD, setFlag, StateMaskOnline]

@[simp] theorem online_setFlag_trust (state : AgentState) (on : Bool) :
    (state.setFlag StateMaskTrust on).online = state.online := by
  cases on <;> simp [online_eq_getLsbD, setFlag, StateMaskTrust]

end AgentState

/-- A number cast to an enumeration of underlying type `uint8_t`. -/
def toUInt8 (value : QJsonValue) : Int := value.toInt 0 % 256

namespace RockPaperScissors

def ofInt : Int → Option RockPaperScissors
  | 0 => some .Rock
  | 1 => some .Scissors
  | 2 => some .Paper
  | _ => none

def wire : RockPaperScissors → QJsonValue
  | .Rock => .ofInt 0
  | .Scissors => .ofInt 1
  | .Paper => .ofInt 2

end RockPaperScissors

namespace Action

def ofInt : Int → Option Action
  | 0 => some .DoNothing
  | 1 => some .BuyKnife
  | 2 => some .BuyHorse
  | 3 => some .Slash
  | 4 => some .Kick
  | 5 => some .Move
  | 6 => some .LetMove
  | _ => none

def wire : Action → QJsonValue
  | .DoNothing => .ofInt 0
  | .BuyKnife => .ofInt 1
  | .BuyHorse => .ofInt 2
  | .Slash => .ofInt 3
  | .Kick => .ofInt 4
  | .Move => .ofInt 5
  | .LetMove => .ofInt 6

/-- The actions that name a target player. -/
def hasTarget : Action → Bool
  | .Slash | .Kick | .LetMove => true
  | _ => false

/-- The actions that name a place. -/
def hasPlace : Action → Bool
  | .Move | .LetMove => true
  | _ => false

end Action

namespace UpgradeItem

def ofInt : Int → Option UpgradeItem
  | 0 => some .UpgradeKnife
  | 1 => some .UpgradeHorse
  | 2 => some .UpgradeMaxHp
  | _ => none

def wire : UpgradeItem → QJsonValue
  | .UpgradeKnife => .ofInt 0
  | .UpgradeHorse => .ofInt 1
  | .UpgradeMaxHp => .ofInt 2

end UpgradeItem

end Data

namespace Protocol

inductive RequestId where
  | RequestInvalid
  | RequestRockPaperScissors
  | RequestActionOrder
  | RequestAction
  | RequestUpgrade
  deriving DecidableEq, Repr

inductive NotifyId where
  | NotifyInvalid
  | NotifyFromServerMask
  | NotifyPongServer
  | NotifyVersion
  | NotifyFromAgentMask
  | NotifyLogicConfiguration
  | NotifyAgentStateChanged
  | NotifyPlayerAdded
  | NotifyPlayerRemoved
  | NotifyGameStart
  | NotifyRoundStart
  | NotifyRockPaperScissors
  | NotifyActionOrder
  | NotifyAction
  | NotifyRoundOver
  | NotifyUpgrade
  | NotifyGameOver
  | NotifySpoken
  | NotifyOperated
  | NotifyToServerMask
  | NotifyPingServer
  | NotifySignIn
  | NotifyObserve
  | NotifyStateChange
  | NotifyToAgentMask
  | NotifySpeak
  | NotifyOperate
  deriving DecidableEq, Repr

inductive PacketType where
  | TypeInvalid
  | TypeRequest
  | TypeReply
  | TypeNotify
  deriving DecidableEq, Repr

namespace NotifyId

/-- `id & NotifyToServerMask`: the enumerators from the mask on count up from it. -/
def toServer : NotifyId → Bool
  | NotifyToServerMask | NotifyPingServer | NotifySignIn | NotifyObserve | NotifyStateChange => true
  | _ => false

def toAgent : NotifyId → Bool
  | NotifyToAgentMask | NotifySpeak | NotifyOperate => true
  | _ => false

/-- `id & NotifyFromServerMask`, or `id & NotifyFromAgentMask`. -/
def fromServer : NotifyId → Bool
  | NotifyInvalid => false
  | notifyId => !notifyId.toServer && !notifyId.toAgent

end NotifyId

end Protocol

open Protocol

/-- `Packet`, without its serialisation. -/
structure Packet where
  type : PacketType
  requestId : RequestId
  notifyId : NotifyId
  value : QJsonValue

namespace Packet

def ofRequest (type : PacketType) (requestId : RequestId) (value : QJsonValue) : Packet :=
  ⟨type, requestId, .NotifyInvalid, value⟩

def ofNotify (notifyId : NotifyId) (value : QJsonValue) : Packet :=
  ⟨.TypeNotify, .RequestInvalid, notifyId, value⟩

end Packet

end QMdmmCore
