import QMdmm.Support.Hash

namespace QMdmmCore.Data

/-- `Data::Village`; every other place is the city of that number. -/
def Village : Int := 0

inductive RockPaperScissors where
  | Rock
  | Scissors
  | Paper
  deriving DecidableEq, Repr

inductive Action where
  | DoNothing
  | BuyKnife
  | BuyHorse
  | Slash
  | Kick
  | Move
  | LetMove
  deriving DecidableEq, Repr

inductive UpgradeItem where
  | UpgradeKnife
  | UpgradeHorse
  | UpgradeMaxHp
  deriving DecidableEq, Repr

def isPlaceAdjacent (p1 p2 : Int) : Bool :=
  (p1 == Village) != (p2 == Village)

def rpsGreater : RockPaperScissors → RockPaperScissors → Bool
  | .Rock, .Scissors => true
  | .Scissors, .Paper => true
  | .Paper, .Rock => true
  | _, _ => false

/-- The players that threw `rps`, in the order the hash is iterated. -/
def throwers (judgers : QHash String RockPaperScissors) (rps : RockPaperScissors) : List String :=
  (judgers.entries.filter fun entry => entry.2 = rps).map fun entry => entry.1

/-- `judgersMap`: the throws that occur, in the order of the enumeration's wire
values (rock 0, scissors 1, paper 2), each with its players. -/
def judgersMap (judgers : QHash String RockPaperScissors) :
    List (RockPaperScissors × List String) :=
  ([.Rock, .Scissors, .Paper].map fun rps => (rps, throwers judgers rps)).filter
    fun group => group.2 ≠ []

/-- Every winner is repeated once for each loser: nobody wins unless exactly
two different throws occur. -/
def rockPaperScissorsWinners (judgers : QHash String RockPaperScissors) : List String :=
  match judgersMap judgers with
  | [first, second] =>
    let (winner, loser) := if rpsGreater first.1 second.1 then (first, second) else (second, first)
    (List.replicate loser.2.length winner.2).flatten
  | _ => []

end QMdmmCore.Data
