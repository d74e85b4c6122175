import QMdmm.Core.Queued
import QMdmm.Core.Slots
import QMdmm.Support.HashOrder

namespace QMdmmCore

open Data

namespace Logic

/-- The loops over hashes. -/
inductive Loop where
  /-- `rockPaperScissorsWinners` over the throws -/
  | judgers
  /-- `startActionOrder` over `confirmedActionOrders` -/
  | confirmedActionOrders
  /-- `startActionOrder`, where the entries that have come to zero are erased -/
  | remainingActionCount
  /-- `startActionOrder`, where `strivingActionCount` is filled -/
  | strivingActionCount
  /-- `remainingActionCount.keys()` -/
  | remainingPlayers
  /-- `strivingActionCount.keys()` -/
  | strivingNames
  /-- `desiredActionOrders.uniqueKeys()` -/
  | uniqueKeys
  /-- `upgrade` over the lists of upgrades -/
  | upgrades
  deriving DecidableEq

end Logic

open Logic

namespace LogicP

variable (o : IterationOrder Loop)

def remainingActionCountBy (d : LogicP) : QHash String Int :=
  let counts := (QHash.addEach ∅ 1 d.rpsForActionWinners).addEach (-1)
    ((o.hash .confirmedActionOrders d.confirmedActionOrders).entries.map fun entry => entry.2)
  (o.hash .remainingActionCount counts).filterMap fun _ count =>
    if count = 0 then none else some count

def remainingActionOrdersBy (d : LogicP) : List Int :=
  (o.hash .confirmedActionOrders d.confirmedActionOrders).entries.foldl
    (fun orders entry => orders.filter (· ≠ entry.1)) d.allOrders

def strivingActionCountBy (d : LogicP) : QHash String Int :=
  (o.hash .strivingActionCount (d.remainingActionCountBy o)).filterMap fun player count =>
    let striving := count - d.actionOrderYields.value player 0
    if striving > 0 then some striving else none

def leftoverPlayersBy (d : LogicP) : List String :=
  ((o.hash .remainingPlayers (d.remainingActionCountBy o)).keys.insertionSort (· ≤ ·)).flatMap
    fun player => List.replicate ((d.remainingActionCountBy o).value player 0).toNat player

def nothingLeftToFightForBy (d : LogicP) : Bool :=
  d.rpsForActionWinners.dedup.length = 1 || (d.strivingActionCountBy o).count = 0

def strivingNamesBy (d : LogicP) : List String :=
  (o.hash .strivingNames (d.strivingActionCountBy o)).keys.insertionSort (· ≤ ·)

def enterActionOrderBy (d : LogicP) : LogicP :=
  { d with
    desiredActionOrders := []
    actionOrderRemainingSelections :=
      (d.strivingNamesBy o).foldl
        (fun hash name => AList.insert name ((d.strivingActionCountBy o).value name 0) hash) ∅
    state := .ActionOrder }

def confirmUncontestedBy (d : LogicP) : LogicP :=
  (o.order .uniqueKeys d.desiredActionOrders.uniqueKeys).foldl confirmOrder d

end LogicP

namespace Logic

variable {G : Type} (o : IterationOrder Loop) (emit : Emit G)

def startActionOrderBy (self : Logic G) : Except Fault (Logic G) :=
  if self.d.nothingLeftToFightForBy o then do
    let confirmed ← LogicP.handOut (self.d.remainingActionOrdersBy o) 0
      (self.d.leftoverPlayersBy o) self.d.confirmedActionOrders
    let self ← emit (.actionOrderResult confirmed)
      (self.modify fun d => { d with confirmedActionOrders := confirmed })
    startAction emit (self.modify fun d => { d with currentActionOrder := 0 })
  else
    requestActionOrders emit (self.d.remainingActionOrdersBy o) (self.d.strivingActionCountBy o)
      (self.d.strivingNamesBy o) (self.modify (·.enterActionOrderBy o))

def rpsForActionBy (self : Logic G) : Except Fault (Logic G) :=
  if self.d.rpsForActionReplies.count = self.d.room.alivePlayersCount then do
    let self ← emit (.rpsResult self.d.rpsForActionReplies) self
    let winners := rockPaperScissorsWinners (o.hash .judgers self.d.rpsForActionReplies)
    let self := self.modify fun d => { d with rpsForActionWinners := winners }
    if winners = [] then
      startRpsForAction emit
        (self.modify fun d => { d with rpsForActionTieStreak := d.rpsForActionTieStreak + 1 })
    else
      startActionOrderBy o emit
        (self.modify fun d => { d with confirmedActionOrders := ∅, actionOrderYields := ∅ })
  else .ok self

def startRpsForActionOrderBy (self : Logic G) : Except Fault (Logic G) :=
  let self := self.modify (·.confirmUncontestedBy o)
  if self.d.desiredActionOrders = [] then startActionOrderBy o emit self
  else
    let order := self.d.lowestContestedOrder
    if order = 0 then .error .assertFailed
    else
      emit (.requestRpsForActionOrder (self.d.desiredActionOrders.values order) order)
        (self.modify (·.enterRpsForActionOrder order))

def actionOrderBy (self : Logic G) : Except Fault (Logic G) :=
  if self.d.actionOrderRemainingSelections.count = 0 then startRpsForActionOrderBy o emit self
  else .ok self

def rpsForActionOrderBy (self : Logic G) : Except Fault (Logic G) :=
  let striving := self.d.desiredActionOrders.values self.d.currentStrivingActionOrder
  if self.d.rpsForActionOrderReplies.count = striving.length then do
    let self ← emit (.rpsResult self.d.rpsForActionOrderReplies) self
    let winners := rockPaperScissorsWinners (o.hash .judgers self.d.rpsForActionOrderReplies)
    startRpsForActionOrderBy o emit (self.modify (·.dropLosers striving winners))
  else .ok self

def upgradeBy (self : Logic G) : Except Fault (Logic G) :=
  if self.d.room.isRoundOver then
    if self.d.upgrades.count =
        (self.d.room.players.toList.filter fun p => p.upgradePoint > 0).length then do
      let room ← LogicP.performUpgrades self.d.room (o.hash .upgrades self.d.upgrades).entries
      let self := self.modify fun d => { d with room := room, state := .BeforeRoundStart }
      if self.d.room.isGameOver then
        let winners := self.d.room.winnerPlayerNames
        emit (.gameOver winners) (self.modify fun d => { d with room := d.room.resetUpgrades })
      else emit (.upgradeResult self.d.upgrades) self
    else .ok self
  else .ok self

def rpsReplyBy (self : Logic G) (playerName : String) (rps : RockPaperScissors) :
    Except Fault (Bool × Logic G) :=
  if (self.d.room.player playerName).isSome then
    if self.d.state = .RpsForAction ∧ !self.d.rpsForActionReplies.contains playerName then do
      let self ← rpsForActionBy o emit (self.modify fun d =>
        { d with rpsForActionReplies := AList.insert playerName rps d.rpsForActionReplies })
      return (true, self)
    else if self.d.state = .RpsForActionOrder ∧
        !self.d.rpsForActionOrderReplies.contains playerName then do
      let self ← rpsForActionOrderBy o emit (self.modify fun d =>
        { d with
          rpsForActionOrderReplies := AList.insert playerName rps d.rpsForActionOrderReplies })
      return (true, self)
    else .ok (false, self)
  else .ok (false, self)

def actionOrderReplyBy (self : Logic G) (playerName : String) (desiredOrder : List Int) :
    Except Fault (Bool × Logic G) :=
  if (self.d.room.player playerName).isSome ∧ self.d.state = .ActionOrder then
    let selections := self.d.actionOrderRemainingSelections.value playerName (-1)
    if selections ≥ 0 then
      let (accepted, chosen, yields) := self.d.chosenOrders selections desiredOrder
      do
        let self ← actionOrderBy o emit
          (self.modify fun d => d.recordActionOrder playerName chosen yields)
        return (accepted, self)
    else .ok (false, self)
  else .ok (false, self)

def upgradeReplyBy (self : Logic G) (playerName : String) (items : List UpgradeItem) :
    Except Fault (Bool × Logic G) :=
  match self.d.room.player playerName with
  | none => .ok (false, self)
  | some p =>
    if self.d.state = .Upgrade ∧ !self.d.upgrades.contains playerName then do
      let accepted ← self.d.upgradeFeasible playerName items
      let items := if accepted then items
        else LogicP.feasibleItems self.d.room.logicConfiguration p
      let self ← upgradeBy o emit (self.modify fun d =>
        { d with upgrades := AList.insert playerName items d.upgrades })
      return (accepted, self)
    else .ok (false, self)

/-- A slot call whose loops over hashes go in the given orders. The calls that
are not here loop over no hash. -/
def callBy (self : Logic G) : Call → Except Fault (Bool × Logic G)
  | .addPlayer playerName => self.addPlayer playerName
  | .removePlayer playerName => self.removePlayer playerName
  | .roundStart => self.roundStart emit
  | .rpsReply playerName rps => self.rpsReplyBy o emit playerName rps
  | .actionOrderReply playerName desiredOrder =>
    self.actionOrderReplyBy o emit playerName desiredOrder
  | .actionReply playerName action toPlayer toPlace =>
    self.actionReply emit playerName action toPlayer toPlace
  | .upgradeReply playerName items => self.upgradeReplyBy o emit playerName items

theorem startRpsForActionOrderBy_asListed (self : Logic G) :
    self.startRpsForActionOrderBy .asListed emit = self.startRpsForActionOrder emit := rfl

theorem rpsForActionBy_asListed (self : Logic G) :
    self.rpsForActionBy .asListed emit = self.rpsForAction emit := rfl

theorem rpsForActionOrderBy_asListed (self : Logic G) :
    self.rpsForActionOrderBy .asListed emit = self.rpsForActionOrder emit := by
  unfold rpsForActionOrderBy rpsForActionOrder
  simp only [startRpsForActionOrderBy_asListed, IterationOrder.asListed_hash]

theorem actionOrderBy_asListed (self : Logic G) :
    self.actionOrderBy .asListed emit = self.actionOrder emit := by
  unfold actionOrderBy actionOrder
  rw [startRpsForActionOrderBy_asListed]

theorem rpsReplyBy_asListed (self : Logic G) (playerName : String) (rps : RockPaperScissors) :
    self.rpsReplyBy .asListed emit playerName rps = self.rpsReply emit playerName rps := by
  unfold rpsReplyBy rpsReply
  simp only [rpsForActionBy_asListed, rpsForActionOrderBy_asListed]

theorem actionOrderReplyBy_asListed (self : Logic G) (playerName : String)
    (desiredOrder : List Int) :
    self.actionOrderReplyBy .asListed emit playerName desiredOrder =
      self.actionOrderReply emit playerName desiredOrder := by
  unfold actionOrderReplyBy actionOrderReply
  simp only [actionOrderBy_asListed]

/-- The logic of the other modules goes through every hash as it is listed. -/
theorem callBy_asListed (self : Logic G) (c : Call) :
    self.callBy .asListed emit c = self.call emit c := by
  cases c with
  | rpsReply playerName rps => exact self.rpsReplyBy_asListed emit playerName rps
  | actionOrderReply playerName desiredOrder =>
    exact self.actionOrderReplyBy_asListed emit playerName desiredOrder
  | _ => rfl

end Logic

end QMdmmCore
