import Mathlib.Data.List.Sort
import QMdmm.Core.NoFault
import QMdmm.Networking.Client

namespace QMdmmBot

open QMdmmCore Data QMdmmNetworking

/-- `Bot`, the client it is a child of, and its `targetScore`, which is kept open: nothing
is known of the scores but that they can be compared. -/
structure Bot (Score : Type) where
  client : ClientP
  targetScore : String → Score

/-- The verbs of the own agent that a handler calls, in the order it calls them. -/
inductive Verb where
  | reply (reply : Reply)
  | giveUpRequest

namespace Bot

variable {Score : Type} [Zero Score] [LT Score] [DecidableLT Score]

def room (bot : Bot Score) : Room := bot.client.room

def objectName (bot : Bot Score) : String := bot.client.objectName

def logicConfiguration (bot : Bot Score) : LogicConfiguration := bot.room.logicConfiguration

/-- Null before sign-in. -/
def selfPlayer (bot : Bot Score) : Option Player := bot.room.player bot.objectName

def opponents (bot : Bot Score) : List Player :=
  bot.room.alivePlayers.filter fun player => player.objectName ≠ bot.objectName

/-- The first peer of the highest score above zero; an empty name is nobody. -/
def selectTarget (bot : Bot Score) : String :=
  (bot.room.alivePlayers.foldl (fun (best : Score × String) player =>
    if player.objectName = bot.objectName then best
    else if best.1 < bot.targetScore player.objectName then
      (bot.targetScore player.objectName, player.objectName)
    else best) (0, "")).2

/-- What the loop of `attackTarget` keeps. -/
structure Candidates (Score : Type) where
  firstHere : Option Player
  bestScored : Option Player
  bestScore : Score

def consider (bot : Bot Score) (place : Int) (seen : Candidates Score) (peer : Player) :
    Candidates Score :=
  if peer.place ≠ place then seen
  else
    let seen := { seen with firstHere := seen.firstHere.or (some peer) }
    if seen.bestScore < bot.targetScore peer.objectName then
      { seen with bestScored := some peer, bestScore := bot.targetScore peer.objectName }
    else seen

/-- The score ranks the peers that stand here, but rules none of them out. -/
def attackTarget (bot : Bot Score) : Option Player :=
  match bot.selfPlayer with
  | none => none
  | some self =>
    let seen := bot.opponents.foldl (bot.consider self.place) ⟨none, none, 0⟩
    seen.bestScored.or seen.firstHere

def canSlashSafely (bot : Bot Score) (peer : Player) : Bool :=
  let conf := bot.logicConfiguration
  match bot.selfPlayer with
  | none => false
  | some self =>
    if !self.canSlash conf peer then false
    else !Player.deadAtHp conf (int32 (self.hp - self.slashPunishHp conf))

/-- The throw at the index that `QRandomGenerator` hands out. -/
def pickThrow : Fin 3 → RockPaperScissors
  | 0 => .Rock
  | 1 => .Paper
  | 2 => .Scissors

def blowWouldFinish (bot : Bot Score) (attacker victim : Player) : Bool :=
  let conf := bot.logicConfiguration
  let wouldFinish (damage : Int) : Bool := Player.deadAtHp conf (int32 (victim.hp - damage))
  if attacker.canSlash conf victim && wouldFinish attacker.knifeDamage then true
  else attacker.canKick conf victim && wouldFinish attacker.horseDamage

def aPeerCouldFinishSelf (bot : Bot Score) : Bool :=
  match bot.selfPlayer with
  | none => false
  | some self => bot.room.alivePlayers.any fun peer =>
    peer.objectName ≠ self.objectName && bot.blowWouldFinish peer self

def selfCouldFinishAPeer (bot : Bot Score) : Bool :=
  match bot.selfPlayer with
  | none => false
  | some self => bot.room.alivePlayers.any fun peer =>
    peer.objectName ≠ self.objectName && bot.blowWouldFinish self peer

/-- The pairs of an attacker and a victim. -/
def finishingBlowsOnTheTable (bot : Bot Score) : Nat :=
  (bot.room.alivePlayers.map fun attacker => bot.room.alivePlayers.countP fun victim =>
    attacker.objectName ≠ victim.objectName && bot.blowWouldFinish attacker victim).sum

def roundCouldEndEarly (bot : Bot Score) : Bool :=
  if bot.room.alivePlayersCount ≤ 1 then false
  else bot.finishingBlowsOnTheTable ≥ bot.room.alivePlayersCount - 1

/-- The latest orders, while nothing this round calls for an early one. -/
def holdBack (bot : Bot Score) : Bool :=
  let urgent := bot.aPeerCouldFinishSelf || bot.selfCouldFinishAPeer || bot.roundCouldEndEarly
  !urgent && bot.finishingBlowsOnTheTable == 0

def desiredActionOrders (bot : Bot Score) (remainedOrders : List Int) (selectionNum : Int) :
    List Int :=
  let offers := remainedOrders.insertionSort (· ≤ ·)
  let count := min selectionNum offers.length
  if count ≤ 0 then []
  else if bot.holdBack then offers.drop (offers.length - count.toNat)
  else offers.take count.toNat

/-- `take`: as many of an item as it can be upgraded, and as there are points left. -/
def take (conf : LogicConfiguration) (self : Player) (taken : List UpgradeItem × Int)
    (item : UpgradeItem) : List UpgradeItem × Int :=
  let n := min taken.2 (self.remainingTimes conf item)
  (taken.1 ++ List.replicate n.toNat item, int32 (taken.2 - n))

/-- What the upgrade handlers of the styles share; the sum is the same in any order. -/
def spendPoints (bot : Bot Score) (priorities : List UpgradeItem) (remainingTimes : Int) :
    List Verb :=
  let conf := bot.logicConfiguration
  match bot.selfPlayer with
  | none => [.giveUpRequest]
  | some self =>
    let knife := self.upgradeKnifeRemainingTimes conf
    let horse := self.upgradeHorseRemainingTimes conf
    let maxHp := self.upgradeMaxHpRemainingTimes conf
    if int32 (knife + horse + maxHp) < remainingTimes then [.giveUpRequest]
    else [.reply (.upgrade (priorities.foldl (take conf self) ([], remainingTimes)).1)]

end Bot

end QMdmmBot
