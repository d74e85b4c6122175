import Mathlib.Data.List.Dedup
import Mathlib.Data.List.Sort
import QMdmm.Core.Data
import QMdmm.Core.Room

namespace QMdmmCore

open Data

namespace Logic

/-- `Logic::State`. -/
inductive State where
  | BeforeRoundStart
  | RpsForAction
  | ActionOrder
  | RpsForActionOrder
  | Action
  | Upgrade
  deriving DecidableEq, Repr

/-- The signals of the class, with their arguments. -/
inductive Signal where
  | requestRpsForAction (playerNames : List String)
  | rpsResult (replies : QHash String RockPaperScissors)
  | requestActionOrder (playerName : String) (availableOrders : List Int)
      (maximumOrderNum selections : Int)
  | actionOrderResult (result : QHash Int String)
  | requestRpsForActionOrder (playerNames : List String) (strivedOrder : Int)
  | requestAction (playerName : String) (actionOrder : Int)
  | actionResult (playerName : String) (action : Action) (toPlayer : String) (toPlace : Int)
  | roundOver
  | requestUpgrade (playerName : String) (upgradePoint : Int)
  | upgradeResult (upgrades : QHash String (List UpgradeItem))
  | gameOver (playerNames : List String)
  deriving DecidableEq

/-- What ends the process instead of returning. -/
inductive Fault where
  | nullPlayer
  | indexOutOfRange
  | assertFailed
  | unreachable
  deriving DecidableEq, Repr

end Logic

open Logic

structure LogicP where
  room : Room
  state : State
  rpsForActionReplies : QHash String RockPaperScissors
  rpsForActionWinners : List String
  rpsForActionTieStreak : Nat
  desiredActionOrders : QMultiHash Int String
  confirmedActionOrders : QHash Int String
  actionOrderRemainingSelections : QHash String Int
  actionOrderYields : QHash String Int
  currentStrivingActionOrder : Int
  rpsForActionOrderReplies : QHash String RockPaperScissors
  currentActionOrder : Nat
  upgrades : QHash String (List UpgradeItem)

/-- A logic with whatever its signals are delivered to. -/
structure Logic (G : Type) where
  d : LogicP
  env : G

/-- How an `emit` is carried out: a queued connection appends the signal to a
queue, a direct one runs the connected slots, which may call back. -/
abbrev Emit (G : Type) := Signal → Logic G → Except Fault (Logic G)

namespace LogicP

def new (logicConfiguration : LogicConfiguration) : LogicP where
  room := .new logicConfiguration
  state := .BeforeRoundStart
  rpsForActionReplies := ∅
  rpsForActionWinners := []
  rpsForActionTieStreak := 0
  desiredActionOrders := []
  confirmedActionOrders := ∅
  actionOrderRemainingSelections := ∅
  actionOrderYields := ∅
  currentStrivingActionOrder := 0
  rpsForActionOrderReplies := ∅
  currentActionOrder := 0
  upgrades := ∅

/-- Following a pointer to a player. -/
def deref (d : LogicP) (playerName : String) : Except Fault Player :=
  match d.room.player playerName with
  | some p => .ok p
  | none => .error .nullPlayer

def actionFeasible (d : LogicP) (fromPlayer : String) (action : Action) (toPlayer : String)
    (toPlace : Int) : Except Fault Bool := do
  let conf := d.room.logicConfiguration
  let source ← d.deref fromPlayer
  match action with
  | .DoNothing => return source.alive conf
  | .BuyKnife => return source.canBuyKnife conf
  | .BuyHorse => return source.canBuyHorse conf
  | .Slash => return (d.room.player toPlayer).any fun target => source.canSlash conf target
  | .Kick => return (d.room.player toPlayer).any fun target => source.canKick conf target
  | .Move => return source.canMove conf toPlace
  | .LetMove =>
    return (d.room.player toPlayer).any fun target => source.canLetMove conf target toPlace

def setPlayer (d : LogicP) (p : Player) : LogicP := { d with room := d.room.setPlayer p }

/-- The effect of `applyAction` on the room, after the signal. -/
def performAction (d : LogicP) (fromPlayer : String) (action : Action) (toPlayer : String)
    (toPlace : Int) : Except Fault (Bool × LogicP) := do
  let conf := d.room.logicConfiguration
  let source ← d.deref fromPlayer
  match action with
  | .DoNothing => return (source.doNothing conf, d)
  | .BuyKnife =>
    let result := source.buyKnife conf
    return (result.1, d.setPlayer result.2)
  | .BuyHorse =>
    let result := source.buyHorse conf
    return (result.1, d.setPlayer result.2)
  | .Slash =>
    let result := source.slash conf (← d.deref toPlayer)
    return (result.1, (d.setPlayer result.2.1).setPlayer result.2.2)
  | .Kick =>
    let result := source.kick conf (← d.deref toPlayer)
    return (result.1, (d.setPlayer result.2.1).setPlayer result.2.2)
  | .Move =>
    let result := source.move conf toPlace
    return (result.1, d.setPlayer result.2)
  | .LetMove =>
    let result := source.letMove conf (← d.deref toPlayer) toPlace
    return (result.1, d.setPlayer result.2)

def upgradeFeasible (d : LogicP) (playerName : String) (items : List UpgradeItem) :
    Except Fault Bool := do
  let conf := d.room.logicConfiguration
  let p ← d.deref playerName
  return (items.count .UpgradeKnife : Int) ≤ p.upgradeKnifeRemainingTimes conf
    && (items.count .UpgradeHorse : Int) ≤ p.upgradeHorseRemainingTimes conf
    && (items.count .UpgradeMaxHp : Int) ≤ p.upgradeMaxHpRemainingTimes conf
    && (items.length : Int) == p.upgradePoint

def setState (d : LogicP) (state : State) : LogicP := { d with state := state }

/-- `++currentActionOrder`. -/
def nextOrder (d : LogicP) : LogicP := { d with currentActionOrder := d.currentActionOrder + 1 }

/-- `confirmedActionOrders.value(order)`. -/
def confirmedPlayer (d : LogicP) (order : Int) : String := d.confirmedActionOrders.value order ""

/-- A fresh run starts the streak of ties over; the retry of a tie does not. -/
def enterRpsForAction (d : LogicP) : LogicP :=
  { d with
    rpsForActionTieStreak := if d.state ≠ .RpsForAction then 0 else d.rpsForActionTieStreak
    rpsForActionReplies := ∅
    rpsForActionWinners := []
    state := .RpsForAction }

/-- The selections of each winner that no confirmed order has taken. -/
def remainingActionCount (d : LogicP) : QHash String Int :=
  let counts := (QHash.addEach ∅ 1 d.rpsForActionWinners).addEach (-1)
    (d.confirmedActionOrders.entries.map fun entry => entry.2)
  counts.filterMap fun _ count => if count = 0 then none else some count

/-- `1..rpsForActionWinners.length()`. -/
def allOrders (d : LogicP) : List Int :=
  (List.range' 1 d.rpsForActionWinners.length).map Int.ofNat

def remainingActionOrders (d : LogicP) : List Int :=
  d.confirmedActionOrders.entries.foldl (fun orders entry => orders.filter (· ≠ entry.1))
    d.allOrders

/-- A player's remaining selections minus its yields is what still needs a pick. -/
def strivingActionCount (d : LogicP) : QHash String Int :=
  d.remainingActionCount.filterMap fun player count =>
    let striving := count - d.actionOrderYields.value player 0
    if striving > 0 then some striving else none

/-- `remainingActionOrders.at(orderIndex++)` goes to each of `players` in turn. -/
def handOut (orders : List Int) : Nat → List String → QHash Int String →
    Except Fault (QHash Int String)
  | _, [], confirmed => .ok confirmed
  | orderIndex, player :: rest, confirmed =>
    match orders[orderIndex]? with
    | none => .error .indexOutOfRange
    | some order => handOut orders (orderIndex + 1) rest (AList.insert order player confirmed)

/-- `remainingPlayers`, each as often as it has selections left. -/
def leftoverPlayers (d : LogicP) : List String :=
  (d.remainingActionCount.keys.insertionSort (· ≤ ·)).flatMap fun player =>
    List.replicate (d.remainingActionCount.value player 0).toNat player

/-- `singleWinner`, or every remaining pick has been yielded. -/
def nothingLeftToFightFor (d : LogicP) : Bool :=
  d.rpsForActionWinners.dedup.length = 1 || d.strivingActionCount.count = 0

/-- The players that still have to pick, in name order. -/
def strivingNames (d : LogicP) : List String := d.strivingActionCount.keys.insertionSort (· ≤ ·)

def enterActionOrder (d : LogicP) : LogicP :=
  { d with
    desiredActionOrders := []
    actionOrderRemainingSelections :=
      d.strivingNames.foldl
        (fun hash name => AList.insert name (d.strivingActionCount.value name 0) hash) ∅
    state := .ActionOrder }

/-- An order one player alone desires is confirmed. -/
def confirmOrder (d : LogicP) (order : Int) : LogicP :=
  if d.desiredActionOrders.count order = 1 then
    { d with
      confirmedActionOrders :=
        AList.insert order (d.desiredActionOrders.value order "") d.confirmedActionOrders
      desiredActionOrders := d.desiredActionOrders.removeKey order }
  else d

def confirmUncontested (d : LogicP) : LogicP :=
  d.desiredActionOrders.uniqueKeys.foldl confirmOrder d

/-- The lowest order that is still contested, or 0. -/
def lowestContestedOrder (d : LogicP) : Int :=
  (d.allOrders.find? fun order => d.desiredActionOrders.contains order).getD 0

def enterRpsForActionOrder (d : LogicP) (order : Int) : LogicP :=
  { d with
    currentStrivingActionOrder := order
    rpsForActionOrderReplies := ∅
    state := .RpsForActionOrder }

/-- Without a winner everybody keeps striving. -/
def dropLosers (d : LogicP) (striving winners : List String) : LogicP :=
  let losers := if winners = [] then [] else striving.filter fun name => name ∉ winners
  { d with
    desiredActionOrders :=
      losers.foldl (fun hash loser => hash.removeEntry d.currentStrivingActionOrder loser)
        d.desiredActionOrders }

/-- The upgrades of one player, item by item; each has to succeed. -/
def upgradePlayer (conf : LogicConfiguration) (p : Player) : List UpgradeItem → Except Fault Player
  | [] => .ok p
  | item :: rest =>
    match p.upgrade conf item with
    | (true, p) => upgradePlayer conf p rest
    | (false, _) => .error .assertFailed

/-- The loop over `upgrades`. -/
def performUpgrades (room : Room) : List (Sigma fun _ : String => List UpgradeItem) →
    Except Fault Room
  | [] => .ok room
  | ⟨playerName, items⟩ :: rest =>
    match room.player playerName with
    | none => .error .nullPlayer
    | some up => do
      let up ← upgradePlayer room.logicConfiguration up items
      performUpgrades (room.setPlayer up) rest

end LogicP

namespace Logic

variable {G : Type} (emit : Emit G)

/-- Changing the private data alone. -/
def modify (self : Logic G) (f : LogicP → LogicP) : Logic G := { self with d := f self.d }

@[simp] theorem modify_d (self : Logic G) (f : LogicP → LogicP) :
    (self.modify f).d = f self.d := rfl

@[simp] theorem modify_env (self : Logic G) (f : LogicP → LogicP) :
    (self.modify f).env = self.env := rfl

def applyAction (self : Logic G) (fromPlayer : String) (action : Action) (toPlayer : String)
    (toPlace : Int) : Except Fault (Bool × Logic G) := do
  let self ← emit (.actionResult fromPlayer action toPlayer toPlace) self
  let (ok, d) ← self.d.performAction fromPlayer action toPlayer toPlace
  return (ok, { self with d := d })

def startRpsForAction (self : Logic G) : Except Fault (Logic G) :=
  let self := self.modify LogicP.enterRpsForAction
  emit (.requestRpsForAction self.d.room.alivePlayerNames) self

/-- The loop of `startUpgrade` over `room->players()`: each player's points are
read when its turn comes, after the handlers of the requests before it. -/
def requestUpgrades : List String → Logic G → Except Fault (Logic G)
  | [], self => .ok self
  | playerName :: rest, self => do
    let p ← self.d.deref playerName
    if p.upgradePoint > 0 then
      let self ← emit (.requestUpgrade p.objectName p.upgradePoint)
        (self.modify (·.setState .Upgrade))
      requestUpgrades rest self
    else requestUpgrades rest self

def startUpgrade (self : Logic G) : Except Fault (Logic G) :=
  if self.d.room.isRoundOver then
    let self := self.modify fun d => { d with upgrades := ∅ }
    requestUpgrades emit self.d.room.playerNames self
  else .error .unreachable

/-- The `while` loop of `startAction`, with the orders it has yet to try. -/
def nextAction : Nat → Logic G → Except Fault (Logic G)
  | 0, self => startRpsForAction emit (self.modify LogicP.nextOrder)
  | left + 1, self => do
    let self := self.modify LogicP.nextOrder
    let currentPlayer := self.d.confirmedPlayer self.d.currentActionOrder
    let p ← self.d.deref currentPlayer
    if p.alive self.d.room.logicConfiguration then
      emit (.requestAction currentPlayer self.d.currentActionOrder)
        (self.modify (·.setState .Action))
    else nextAction left self

def startAction (self : Logic G) : Except Fault (Logic G) :=
  if !self.d.room.isRoundOver then
    nextAction emit (self.d.rpsForActionWinners.length - self.d.currentActionOrder) self
  else do
    let self ← emit .roundOver self
    startUpgrade emit self

/-- The loop over the striving players, in name order. -/
def requestActionOrders (orders : List Int) (strivingActionCount : QHash String Int) :
    List String → Logic G → Except Fault (Logic G)
  | [], self => .ok self
  | name :: rest, self => do
    let self ← emit (.requestActionOrder name orders self.d.rpsForActionWinners.length
      (strivingActionCount.value name 0)) self
    requestActionOrders orders strivingActionCount rest self

def startActionOrder (self : Logic G) : Except Fault (Logic G) :=
  if self.d.nothingLeftToFightFor then do
    let confirmed ← LogicP.handOut self.d.remainingActionOrders 0 self.d.leftoverPlayers
      self.d.confirmedActionOrders
    let self ← emit (.actionOrderResult confirmed)
      (self.modify fun d => { d with confirmedActionOrders := confirmed })
    startAction emit (self.modify fun d => { d with currentActionOrder := 0 })
  else
    requestActionOrders emit self.d.remainingActionOrders self.d.strivingActionCount
      self.d.strivingNames (self.modify LogicP.enterActionOrder)

def rpsForAction (self : Logic G) : Except Fault (Logic G) :=
  if self.d.rpsForActionReplies.count = self.d.room.alivePlayersCount then do
    let self ← emit (.rpsResult self.d.rpsForActionReplies) self
    let winners := rockPaperScissorsWinners self.d.rpsForActionReplies
    let self := self.modify fun d => { d with rpsForActionWinners := winners }
    if winners = [] then
      startRpsForAction emit
        (self.modify fun d => { d with rpsForActionTieStreak := d.rpsForActionTieStreak + 1 })
    else
      startActionOrder emit
        (self.modify fun d => { d with confirmedActionOrders := ∅, actionOrderYields := ∅ })
  else .ok self

def startRpsForActionOrder (self : Logic G) : Except Fault (Logic G) :=
  let self := self.modify LogicP.confirmUncontested
  if self.d.desiredActionOrders = [] then startActionOrder emit self
  else
    let order := self.d.lowestContestedOrder
    if order = 0 then .error .assertFailed
    else
      emit (.requestRpsForActionOrder (self.d.desiredActionOrders.values order) order)
        (self.modify (·.enterRpsForActionOrder order))

def actionOrder (self : Logic G) : Except Fault (Logic G) :=
  if self.d.actionOrderRemainingSelections.count = 0 then startRpsForActionOrder emit self
  else .ok self

def rpsForActionOrder (self : Logic G) : Except Fault (Logic G) :=
  let striving := self.d.desiredActionOrders.values self.d.currentStrivingActionOrder
  if self.d.rpsForActionOrderReplies.count = striving.length then do
    let self ← emit (.rpsResult self.d.rpsForActionOrderReplies) self
    let winners := rockPaperScissorsWinners self.d.rpsForActionOrderReplies
    startRpsForActionOrder emit (self.modify (·.dropLosers striving winners))
  else .ok self

def upgrade (self : Logic G) : Except Fault (Logic G) :=
  if self.d.room.isRoundOver then
    if self.d.upgrades.count =
        (self.d.room.players.toList.filter fun p => p.upgradePoint > 0).length then do
      let room ← LogicP.performUpgrades self.d.room self.d.upgrades.entries
      let self := self.modify fun d => { d with room := room, state := .BeforeRoundStart }
      if self.d.room.isGameOver then
        let winners := self.d.room.winnerPlayerNames
        emit (.gameOver winners) (self.modify fun d => { d with room := d.room.resetUpgrades })
      else emit (.upgradeResult self.d.upgrades) self
    else .ok self
  else .ok self

end Logic

end QMdmmCore
