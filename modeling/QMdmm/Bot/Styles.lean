import QMdmm.Bot.Bot

/-! The blocks of the two action handlers, each either the reply with which the handler
returns or nothing when it goes on to the next block. -/

namespace QMdmmBot

open QMdmmCore Data QMdmmNetworking

variable {Score : Type} [Zero Score] [LT Score] [DecidableLT Score]

namespace KnifePreferredBot

/-- Without a peer left there is nothing to finish off. -/
def twoSlashesFinishEveryone (bot : Bot Score) : Bool :=
  match bot.selfPlayer with
  | none => false
  | some self => !bot.room.alivePlayers.any fun peer =>
    peer.objectName ≠ self.objectName && int32 (self.knifeDamage * 2) < peer.maxHp

/-- What a peer takes with its better weapon. -/
def peerBlow (peer : Player) : Int :=
  let blow := if peer.knife then peer.knifeDamage else 0
  if peer.horse && peer.place ≠ Village then max blow peer.horseDamage else blow

def slashIsWorthItsPunish (bot : Bot Score) (peer : Player) : Bool :=
  match bot.selfPlayer with
  | none => false
  | some self =>
    if !self.canSlash bot.logicConfiguration peer then false
    else if !twoSlashesFinishEveryone bot then false
    else if peer.hp > self.knifeDamage then false
    else if peerBlow peer ≥ self.maxHp then false
    else bot.room.alivePlayersCount ≤ 2

/-- A knife, or a step to the first city that can be reached. -/
def buyKnifeFirst (bot : Bot Score) (self : Player) : Option Reply :=
  let conf := bot.logicConfiguration
  if self.knife then none
  else if self.canBuyKnife conf then some (.action .BuyKnife "" 0)
  else
    let seats := (List.range' 1 bot.room.playerNames.length).map Int.ofNat
    (seats.find? (self.canMove conf ·)).map fun place => .action .Move "" place

def strike (bot : Bot Score) (self : Player) : Option Reply :=
  match bot.attackTarget with
  | none => none
  | some peer =>
    if bot.canSlashSafely peer || slashIsWorthItsPunish bot peer then
      some (.action .Slash peer.objectName 0)
    else if self.canKick bot.logicConfiguration peer then
      some (.action .Kick peer.objectName 0)
    else none

def buyHorseForReach (bot : Bot Score) (self : Player) : Option Reply :=
  if !twoSlashesFinishEveryone bot && self.canBuyHorse bot.logicConfiguration then
    some (.action .BuyHorse "" 0)
  else none

/-- Towards the peer the score picks, or the first opponent, through the Village. -/
def walk (bot : Bot Score) (self : Player) : Option Reply :=
  let rated := if bot.selectTarget = "" then none else bot.room.player bot.selectTarget
  match rated.or bot.opponents.head? with
  | none => none
  | some marchOn =>
    let dest := if self.place = Village then marchOn.place else Village
    if self.canMove bot.logicConfiguration dest then some (.action .Move "" dest) else none

def handleActionRequest (bot : Bot Score) : List Verb :=
  match bot.selfPlayer with
  | none => [.giveUpRequest]
  | some self =>
    match (buyKnifeFirst bot self).or <| (strike bot self).or <|
      (buyHorseForReach bot self).or <| walk bot self with
    | some reply => [.reply reply]
    | none => [.reply (.action .DoNothing "" 0)]

def handleRockPaperScissorsRequest (index : Fin 3) : List Verb :=
  [.reply (.rockPaperScissors (Bot.pickThrow index))]

def handleActionOrderRequest (bot : Bot Score) (remainedOrders : List Int) (selectionNum : Int) :
    List Verb :=
  [.reply (.actionOrder (bot.desiredActionOrders remainedOrders selectionNum))]

def handleUpgradeRequest (bot : Bot Score) (remainingTimes : Int) : List Verb :=
  bot.spendPoints [.UpgradeKnife, .UpgradeMaxHp, .UpgradeHorse] remainingTimes

end KnifePreferredBot

namespace HorsePreferredBot

/-- The first half of the loop; an empty name is nobody. -/
def pullTarget (bot : Bot Score) : String :=
  match bot.selfPlayer with
  | none => ""
  | some self =>
    if self.place = Village then ""
    else if bot.selectTarget = "" then ""
    else
      match bot.room.player bot.selectTarget with
      | none => ""
      | some victim =>
        if !self.canLetMove bot.logicConfiguration victim self.place then ""
        else bot.selectTarget

/-- The place to walk to, or -1. -/
def wantedPlace (bot : Bot Score) : Int :=
  let conf := bot.logicConfiguration
  match bot.selfPlayer with
  | none => -1
  | some self =>
    let rated := if bot.selectTarget = "" then none else bot.room.player bot.selectTarget
    let shortOfHorse := !self.horse && !self.canBuyHorse conf
    let shortOfKnife := !self.knife && !self.canBuyKnife conf
    let shopping := shortOfHorse || shortOfKnife
    match rated.filter fun peer => self.canMove conf peer.place with
    | some peer => peer.place
    | none =>
      if shopping then self.initialPlace
      else
        match rated.or bot.opponents.head? with
        | some peer => peer.place
        | none => -1

def strike (bot : Bot Score) (self : Player) : Option Reply :=
  match bot.attackTarget with
  | none => none
  | some peer =>
    if self.canKick bot.logicConfiguration peer then some (.action .Kick peer.objectName 0)
    else if bot.canSlashSafely peer then some (.action .Slash peer.objectName 0)
    else none

def buyHorseFirst (bot : Bot Score) (self : Player) : Option Reply :=
  if !self.horse && self.canBuyHorse bot.logicConfiguration then some (.action .BuyHorse "" 0)
  else none

def pull (bot : Bot Score) (self : Player) : Option Reply :=
  let victimName := pullTarget bot
  if victimName = "" then none else some (.action .LetMove victimName self.place)

def buyKnife (bot : Bot Score) (self : Player) : Option Reply :=
  if !self.knife && self.canBuyKnife bot.logicConfiguration then some (.action .BuyKnife "" 0)
  else none

def walk (bot : Bot Score) (self : Player) : Option Reply :=
  let conf := bot.logicConfiguration
  let wanted := wantedPlace bot
  if wanted ≥ 0 then
    let dest := if self.canMove conf wanted then wanted else Village
    if self.canMove conf dest then some (.action .Move "" dest) else none
  else none

def handleActionRequest (bot : Bot Score) : List Verb :=
  match bot.selfPlayer with
  | none => [.giveUpRequest]
  | some self =>
    match (strike bot self).or <| (buyHorseFirst bot self).or <| (pull bot self).or <|
      (buyKnife bot self).or <| walk bot self with
    | some reply => [.reply reply]
    | none => [.reply (.action .DoNothing "" 0)]

def handleRockPaperScissorsRequest (index : Fin 3) : List Verb :=
  [.reply (.rockPaperScissors (Bot.pickThrow index))]

def handleActionOrderRequest (bot : Bot Score) (remainedOrders : List Int) (selectionNum : Int) :
    List Verb :=
  [.reply (.actionOrder (bot.desiredActionOrders remainedOrders selectionNum))]

def handleUpgradeRequest (bot : Bot Score) (remainingTimes : Int) : List Verb :=
  bot.spendPoints [.UpgradeHorse, .UpgradeKnife, .UpgradeMaxHp] remainingTimes

end HorsePreferredBot

/-- The styles that play. -/
inductive Style where
  | knifePreferred
  | horsePreferred
  deriving DecidableEq, Repr

/-- The handler of each request; `index` is what is drawn for a throw. -/
def Bot.handle (bot : Bot Score) (index : Fin 3) : Style → Request → List Verb
  | .knifePreferred, .rockPaperScissors _ _ =>
    KnifePreferredBot.handleRockPaperScissorsRequest index
  | .knifePreferred, .actionOrder remainedOrders _ selectionNum =>
    KnifePreferredBot.handleActionOrderRequest bot remainedOrders selectionNum
  | .knifePreferred, .action _ => KnifePreferredBot.handleActionRequest bot
  | .knifePreferred, .upgrade remainingTimes =>
    KnifePreferredBot.handleUpgradeRequest bot remainingTimes
  | .horsePreferred, .rockPaperScissors _ _ =>
    HorsePreferredBot.handleRockPaperScissorsRequest index
  | .horsePreferred, .actionOrder remainedOrders _ selectionNum =>
    HorsePreferredBot.handleActionOrderRequest bot remainedOrders selectionNum
  | .horsePreferred, .action _ => HorsePreferredBot.handleActionRequest bot
  | .horsePreferred, .upgrade remainingTimes =>
    HorsePreferredBot.handleUpgradeRequest bot remainingTimes

end QMdmmBot
