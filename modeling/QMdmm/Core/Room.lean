import Mathlib.Data.String.Basic
import QMdmm.Core.Player
import QMdmm.Support.OrderedMap

namespace QMdmmCore

/-- `RoomP`: the players by name, and the rules they all ask for. -/
structure Room where
  players : OrderedMap Player.objectName
  logicConfiguration : LogicConfiguration

namespace Room

def new (logicConfiguration : LogicConfiguration) : Room := ⟨.empty, logicConfiguration⟩

/-- A null pointer is `none`. -/
def player (self : Room) (playerName : String) : Option Player := self.players.find? playerName

def addPlayer (self : Room) (playerName : String) : Bool × Room :=
  if (self.player playerName).isSome then (false, self)
  else
    let ret := Player.new self.logicConfiguration playerName
    (true, { self with players := self.players.insert ret })

def removePlayer (self : Room) (playerName : String) : Bool × Room :=
  if (self.player playerName).isSome then
    (true, { self with players := self.players.erase playerName })
  else (false, self)

def playerNames (self : Room) : List String := self.players.keys

def alivePlayers (self : Room) : List Player :=
  self.players.toList.filter fun p => p.alive self.logicConfiguration

def alivePlayerNames (self : Room) : List String := self.alivePlayers.map (·.objectName)

def alivePlayersCount (self : Room) : Nat := self.alivePlayers.length

def isRoundOver (self : Room) : Bool := self.alivePlayersCount ≤ 1

/-- `*winnerPlayerNames`: the players with nothing left to upgrade. -/
def winnerPlayerNames (self : Room) : List String :=
  let conf := self.logicConfiguration
  (self.players.toList.filter fun p =>
    !p.canUpgradeHorse conf && !p.canUpgradeKnife conf && !p.canUpgradeMaxHp conf).map
      (·.objectName)

def isGameOver (self : Room) : Bool := self.winnerPlayerNames ≠ []

/-- The players are seated in the order of their names, from city 1 on. -/
def prepareForRoundStart (self : Room) : Room :=
  { self with
    players := self.players.mapCounting (fun i p => p.prepareForRoundStart i) 1 fun _ _ => rfl }

def resetUpgrades (self : Room) : Room :=
  { self with
    players := self.players.map (fun p => p.resetUpgrades self.logicConfiguration) fun _ => rfl }

/-- Writing back a player that one of its methods has changed. -/
def setPlayer (self : Room) (p : Player) : Room := { self with players := self.players.replace p }

@[simp] theorem setPlayer_logicConfiguration (self : Room) (p : Player) :
    (self.setPlayer p).logicConfiguration = self.logicConfiguration := rfl

@[simp] theorem resetUpgrades_logicConfiguration (self : Room) :
    self.resetUpgrades.logicConfiguration = self.logicConfiguration := rfl

@[simp] theorem prepareForRoundStart_logicConfiguration (self : Room) :
    self.prepareForRoundStart.logicConfiguration = self.logicConfiguration := rfl

@[simp] theorem setPlayer_playerNames (self : Room) (p : Player) :
    (self.setPlayer p).playerNames = self.playerNames :=
  self.players.keys_replace p

@[simp] theorem resetUpgrades_playerNames (self : Room) :
    self.resetUpgrades.playerNames = self.playerNames :=
  self.players.keys_map (fun p => p.resetUpgrades self.logicConfiguration) fun _ => rfl

@[simp] theorem prepareForRoundStart_playerNames (self : Room) :
    self.prepareForRoundStart.playerNames = self.playerNames :=
  self.players.keys_mapCounting (fun i p => p.prepareForRoundStart i) 1 fun _ _ => rfl

theorem player_eq_some {self : Room} {name : String} {p : Player} :
    self.player name = some p ↔ p ∈ self.players.toList ∧ p.objectName = name :=
  OrderedMap.find?_eq_some

theorem player_isSome {self : Room} {name : String} :
    (self.player name).isSome ↔ name ∈ self.playerNames :=
  OrderedMap.find?_isSome

theorem player_of_mem_playerNames {self : Room} {name : String} (hname : name ∈ self.playerNames) :
    ∃ p, self.player name = some p :=
  Option.isSome_iff_exists.mp (player_isSome.mpr hname)

theorem player_eq_none {self : Room} {name : String} :
    self.player name = none ↔ name ∉ self.playerNames :=
  OrderedMap.find?_eq_none

theorem addPlayer_of_mem {self : Room} {name : String} (hname : name ∈ self.playerNames) :
    self.addPlayer name = (false, self) := by
  rw [addPlayer, if_pos (player_isSome.mpr hname)]

theorem addPlayer_of_notMem {self : Room} {name : String} (hname : name ∉ self.playerNames) :
    self.addPlayer name =
      (true, { self with players := self.players.insert (.new self.logicConfiguration name) }) := by
  rw [addPlayer, if_neg (by rwa [player_isSome])]

theorem removePlayer_of_mem {self : Room} {name : String} (hname : name ∈ self.playerNames) :
    self.removePlayer name = (true, { self with players := self.players.erase name }) := by
  rw [removePlayer, if_pos (player_isSome.mpr hname)]

theorem removePlayer_of_notMem {self : Room} {name : String} (hname : name ∉ self.playerNames) :
    self.removePlayer name = (false, self) := by
  rw [removePlayer, if_neg (by rwa [player_isSome])]

theorem player_setPlayer (self : Room) (p : Player) (name : String) :
    (self.setPlayer p).player name =
      if p.objectName = name then (self.player name).map fun _ => p else self.player name :=
  self.players.find?_replace p name

theorem playerNames_nodup (self : Room) : self.playerNames.Nodup := self.players.nodup_keys

theorem alivePlayerNames_nodup (self : Room) : self.alivePlayerNames.Nodup :=
  self.playerNames_nodup.sublist (List.filter_sublist.map _)

@[simp] theorem length_alivePlayerNames (self : Room) :
    self.alivePlayerNames.length = self.alivePlayersCount :=
  List.length_map _

theorem alivePlayerNames_subset {self : Room} {name : String}
    (hname : name ∈ self.alivePlayerNames) : name ∈ self.playerNames := by
  obtain ⟨p, hp, rfl⟩ := List.mem_map.mp hname
  exact List.mem_map_of_mem (List.mem_filter.mp hp).1

theorem mem_alivePlayerNames {self : Room} {name : String} :
    name ∈ self.alivePlayerNames ↔
      ∃ p, self.player name = some p ∧ p.alive self.logicConfiguration = true := by
  simp only [alivePlayerNames, alivePlayers, List.mem_map, List.mem_filter, player_eq_some]
  constructor
  · rintro ⟨p, ⟨hp, halive⟩, hname⟩
    exact ⟨p, ⟨hp, hname⟩, halive⟩
  · rintro ⟨p, ⟨hp, hname⟩, halive⟩
    exact ⟨p, ⟨hp, halive⟩, hname⟩

/-- Every player's new place is a city of the room. -/
theorem mem_prepareForRoundStart {self : Room} {p : Player}
    (hp : p ∈ self.prepareForRoundStart.players.toList) :
    ∃ (seat : Nat) (old : Player), 1 ≤ seat ∧ seat ≤ self.playerNames.length ∧
      old ∈ self.players.toList ∧ p = old.prepareForRoundStart seat := by
  obtain ⟨seat, old, hlo, hhi, hold, rfl⟩ := OrderedMap.mem_countingList hp
  refine ⟨seat, old, hlo, ?_, hold, rfl⟩
  simp only [playerNames, OrderedMap.keys, List.length_map]
  omega

end Room

end QMdmmCore
