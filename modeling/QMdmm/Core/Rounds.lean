import Mathlib.Algebra.Order.BigOperators.Group.List
import QMdmm.Core.GameOver
import QMdmm.Core.Asked

namespace QMdmmCore

open Data Logic

namespace Player

variable {conf : LogicConfiguration}

theorem StatsInBounds.upgradesLeft_nonneg {p : Player} (h : p.StatsInBounds conf) :
    0 ≤ p.upgradesLeft conf := by
  have hknife := h.knifeDamage
  have hhorse := h.horseDamage
  have hmaxHp := h.maxHp
  unfold upgradesLeft
  omega

theorem upgradesLeft_upgradedBy (p : Player) (items : List UpgradeItem) :
    (p.upgradedBy items).upgradesLeft conf = p.upgradesLeft conf - items.length := by
  have hsum := p.statsSum_upgradedBy items
  simp only [statsSum] at hsum
  simp only [upgradesLeft]
  omega

end Player

namespace Room

variable {room room' : Room}

/-- What is left to upgrade in a room. -/
def upgradesLeft (self : Room) : Int :=
  (self.players.toList.map (·.upgradesLeft self.logicConfiguration)).sum

theorem upgradesLeft_eq (self : Room) :
    self.upgradesLeft = (self.playerNames.map fun name =>
      (self.player name).elim 0 (·.upgradesLeft self.logicConfiguration)).sum := by
  rw [upgradesLeft, playerNames, OrderedMap.keys, List.map_map]
  congr 1
  refine List.map_congr_left fun p hp => ?_
  have hplayer : self.player p.objectName = some p := player_eq_some.mpr ⟨hp, rfl⟩
  rw [Function.comp_apply, hplayer, Option.elim_some]

/-- Where every player has the stats it had, as much is left to upgrade. -/
theorem upgradesLeft_of_sameStats
    (hconf : room'.logicConfiguration = room.logicConfiguration)
    (hnames : room'.playerNames = room.playerNames)
    (hstats : ∀ q ∈ room'.players.toList, ∃ p ∈ room.players.toList,
      q.objectName = p.objectName ∧ Player.SameStats p q) :
    room'.upgradesLeft = room.upgradesLeft := by
  rw [upgradesLeft_eq, upgradesLeft_eq, hnames, hconf]
  congr 1
  refine List.map_congr_left fun name hname => ?_
  obtain ⟨q, hq⟩ := player_of_mem_playerNames (hnames ▸ hname)
  obtain ⟨hmember, hkey⟩ := player_eq_some.mp hq
  obtain ⟨p, hp, hsame, hpq⟩ := hstats q hmember
  have hplayer : room.player name = some p := player_eq_some.mpr ⟨hp, hsame.symm.trans hkey⟩
  rw [hq, hplayer, Option.elim_some, Option.elim_some, hpq.upgradesLeft]

/-- Within bounds, every player has as much to upgrade as there is at most. -/
theorem upgradesLeft_le
    (h : ∀ p ∈ room.players.toList, p.StatsInBounds room.logicConfiguration) :
    room.upgradesLeft ≤ room.playerNames.length * room.logicConfiguration.upgradeTotal := by
  have hsum := List.sum_le_card_nsmul
    (room.players.toList.map (·.upgradesLeft room.logicConfiguration))
    room.logicConfiguration.upgradeTotal (List.forall_mem_map.mpr fun p hp =>
      (h p hp).upgradesLeft_le)
  rwa [List.length_map, nsmul_eq_mul, ← room.players.toList.length_map (f := Player.objectName)]
    at hsum

theorem upgradesLeft_nonneg
    (h : ∀ p ∈ room.players.toList, p.StatsInBounds room.logicConfiguration) :
    0 ≤ room.upgradesLeft :=
  List.sum_nonneg (List.forall_mem_map.mpr fun p hp => (h p hp).upgradesLeft_nonneg)

/-- Where nobody has finished, everybody has something to upgrade. -/
theorem le_upgradesLeft {conf : LogicConfiguration} (h : room.Unfinished conf) :
    (room.playerNames.length : Int) ≤ room.upgradesLeft := by
  obtain ⟨rfl, hplayers⟩ := h
  have hsum := List.card_nsmul_le_sum
    (room.players.toList.map (·.upgradesLeft room.logicConfiguration)) 1
    (List.forall_mem_map.mpr fun p hp => (hplayers p hp).upgradesLeft)
  rwa [List.length_map, nsmul_eq_mul, mul_one,
    ← room.players.toList.length_map (f := Player.objectName)] at hsum

end Room

namespace LogicP

variable {d d' : LogicP} {conf : LogicConfiguration}

theorem PerformAction.sameStats {name toPlayer : String} {action : Action} {toPlace : Int}
    {ok : Bool} (hperform : PerformAction d name action toPlayer toPlace ok d') :
    ∀ q ∈ d'.room.players.toList, ∃ p ∈ d.room.players.toList,
      q.objectName = p.objectName ∧ Player.SameStats p q := by
  refine hperform.forall_players (fun p hp => ⟨p, hp, rfl, .refl p⟩) (fun p hp => ?_)
    (fun p hp => ?_) (fun p _ hp => ?_) (fun p q hp hq => ?_) (fun p q hp hq => ?_)
  · obtain ⟨old, hold, hname, hstats⟩ := hp
    exact ⟨old, hold, hname, hstats.trans ⟨rfl, rfl, rfl⟩⟩
  · obtain ⟨old, hold, hname, hstats⟩ := hp
    exact ⟨old, hold, hname, hstats.trans ⟨rfl, rfl, rfl⟩⟩
  · obtain ⟨old, hold, hname, hstats⟩ := hp
    exact ⟨old, hold, hname, hstats.trans ⟨rfl, rfl, rfl⟩⟩
  · obtain ⟨old, hold, hname, hstats⟩ := hp
    obtain ⟨other, hother, hname', hstats'⟩ := hq
    obtain ⟨hsource, htarget⟩ := p.slash_sameSeat d.room.logicConfiguration q
    exact ⟨⟨old, hold, hsource.objectName.trans hname, hstats.trans Player.slash_sameStats.1⟩,
      ⟨other, hother, htarget.objectName.trans hname', hstats'.trans Player.slash_sameStats.2⟩⟩
  · obtain ⟨old, hold, hname, hstats⟩ := hp
    obtain ⟨other, hother, hname', hstats'⟩ := hq
    obtain ⟨hsource, htarget⟩ := p.kick_sameSeat d.room.logicConfiguration q
    have hkicked : (p.kick d.room.logicConfiguration q).2.2.objectName = q.objectName := by
      obtain htarget | ⟨htarget, -⟩ := htarget
      · exact htarget.objectName
      · exact htarget
    exact ⟨⟨old, hold, hsource.objectName.trans hname, hstats.trans Player.kick_sameStats.1⟩,
      ⟨other, hother, hkicked.trans hname', hstats'.trans Player.kick_sameStats.2⟩⟩

/-- Upgrades that are not empty leave less to upgrade. -/
theorem upgradesLeft_performUpgrades {room room' : Room}
    {upgrades : QHash String (List UpgradeItem)}
    (hroom : performUpgrades room upgrades.entries = .ok room') {name : String}
    (hname : name ∈ room.playerNames) (hsome : upgrades.value name [] ≠ []) :
    room'.upgradesLeft < room.upgradesLeft := by
  have hleft (other : String) (hother : other ∈ room.playerNames) :
      (room'.player other).elim 0 (·.upgradesLeft room.logicConfiguration) =
        (room.player other).elim 0 (·.upgradesLeft room.logicConfiguration) -
          (upgrades.value other []).length := by
    obtain ⟨p, hp⟩ := Room.player_of_mem_playerNames hother
    rw [player_performUpgrades upgrades.nodupKeys hroom hp, hp, Option.elim_some, Option.elim_some,
      Player.upgradesLeft_upgradedBy]
    rfl
  rw [Room.upgradesLeft_eq, Room.upgradesLeft_eq, performUpgrades_playerNames hroom,
    performUpgrades_logicConfiguration hroom]
  apply List.sum_lt_sum
  · intro other hother
    rw [hleft other hother]
    omega
  · refine ⟨name, hname, ?_⟩
    have hpos := List.length_pos_of_ne_nil hsome
    rw [hleft name hname]
    omega

end LogicP

namespace Logic

open LogicP

namespace Signal

def isUpgradeResult : Signal → Bool
  | .upgradeResult _ => true
  | _ => false

def isGameOver : Signal → Bool
  | .gameOver _ => true
  | _ => false

theorem isUpgradeResult_eq_false {signal : Signal} (h : NoOutcome signal) :
    signal.isUpgradeResult = false := by
  cases signal with
  | upgradeResult upgrades => exact absurd rfl (h.1 upgrades)
  | _ => rfl

theorem isGameOver_eq_false {signal : Signal} (h : NoOutcome signal) :
    signal.isGameOver = false := by
  cases signal with
  | gameOver winners => exact absurd rfl (h.2 winners)
  | _ => rfl

end Signal

variable {self self' : Logic (List Signal)}

/-- What a call that changes no names does to a game: it goes on with as much to upgrade,
a round ends with less to upgrade, or the game is over. -/
inductive Plays (self self' : Logic (List Signal)) : Prop where
  | goes (henv : Appends NoOutcome self.env self'.env)
      (hleft : self'.d.room.upgradesLeft = self.d.room.upgradesLeft)
  | result {upgrades : QHash String (List UpgradeItem)} (hstate : self.d.state = .Upgrade)
      (hstate' : self'.d.state = .BeforeRoundStart)
      (henv : self'.env = self.env ++ [.upgradeResult upgrades])
      (hleft : self'.d.room.upgradesLeft < self.d.room.upgradesLeft)
  | isOver {winners : List String} (hstate : self.d.state = .Upgrade)
      (hstate' : self'.d.state = .BeforeRoundStart)
      (henv : self'.env = self.env ++ [.gameOver winners])

/-- Only the upgrades change what is left to upgrade. -/
theorem CallStep.upgradesLeft {c : Call} {ret : Bool} (hkeeps : c.changesNames = false)
    (hgoing : ¬ (self.d.state = .Upgrade ∧ self'.d.state ≠ .Upgrade))
    (hstep : CallStep self c ret self') :
    self'.d.room.upgradesLeft = self.d.room.upgradesLeft := by
  cases hstep with
  | rejected => rfl
  | addPlayer | removePlayer => cases hkeeps
  | roundStart =>
    refine Room.upgradesLeft_of_sameStats rfl (Room.prepareForRoundStart_playerNames _) fun q hq => ?_
    obtain ⟨seat, old, _, _, hold, rfl⟩ := Room.mem_prepareForRoundStart hq
    exact ⟨old, hold, rfl, rfl, rfl, rfl⟩
  | rpsForAction _ _ _ hstep => rw [hstep.room]
  | rpsForActionOrder _ _ _ hstep => rw [hstep.room]
  | pick _ _ _ _ hrecord =>
    rw [hrecord]
    rfl
  | lastPick _ _ _ _ hrecord _ hstep =>
    rw [hstep.room, hrecord]
    rfl
  | action _ _ _ _ hperform hstep =>
    have hperformed := performAction_cases hperform
    rw [hstep.room]
    exact Room.upgradesLeft_of_sameStats hperformed.frame.2.2 hperformed.frame.2.1
      hperformed.sameStats
  | upgrade _ hstate _ _ _ hstep =>
    cases hstep with
    | waiting => rfl
    | gameOver | result => exact absurd ⟨hstate, nofun⟩ hgoing

/-- The reply of a player with points that ends a round spends them. -/
theorem CallStep.plays {c : Call} {ret : Bool} (hreach : system.Reachable self)
    (hsound : self.d.room.logicConfiguration.Sound) (hholders : HoldersReply self c)
    (hkeeps : c.changesNames = false) (hstep : CallStep self c ret self') : Plays self self' := by
  by_cases hends : self.d.state = .Upgrade ∧ self'.d.state ≠ .Upgrade
  · obtain ⟨hbefore, hafter⟩ := hends
    have hother {state : State} (hstate : self.d.state = state) (hne : state ≠ .Upgrade) : False :=
      hne (hstate.symm.trans hbefore)
    cases hstep with
    | rejected => exact absurd hbefore hafter
    | addPlayer | removePlayer => cases hkeeps
    | roundStart hstate => exact (hother hstate (by decide)).elim
    | rpsForAction _ hstate | rpsForActionOrder _ hstate | pick _ hstate | lastPick _ hstate
    | action _ hstate => exact (hother hstate (by decide)).elim
    | @upgrade name p items done accepted _ hplayer hstate hnew hfeasible hdone hstep =>
      cases hstep with
      | waiting => exact absurd hbefore hafter
      | gameOver => exact .isOver hstate rfl rfl
      | result _ _ hroom =>
        have hmember : name ∈ self.d.room.playerNames := Room.player_isSome.mp (by rw [hplayer]; rfl)
        obtain ⟨q, hq, hname⟩ := List.mem_map.mp (hholders name items rfl ⟨hmember, hstate, hnew⟩)
        obtain ⟨hqmember, hpoint⟩ := List.mem_filter.mp hq
        have hsame := hplayer.symm.trans (Room.player_eq_some.mpr ⟨hqmember, hname⟩)
        obtain rfl := Option.some.inj hsame
        have hlength := length_done hsound hplayer
          (affords_of_upgrade hreach hsound hstate hplayer) hfeasible
        rw [← hdone] at hlength
        have hpos := of_decide_eq_true hpoint
        refine .result hstate rfl rfl (upgradesLeft_performUpgrades hroom hmember ?_)
        have hvalue : QHash.value (AList.insert name done self.d.upgrades) name [] = done := by
          simp [QHash.value]
        rw [hvalue]
        rintro rfl
        simp only [List.length_nil] at hlength
        omega
  · exact .goes (hstep.noOutcome.resolve_right hends) (hstep.upgradesLeft hkeeps hends)

/-- Where only replies that were asked for count, a player without points sends no
upgrades. -/
theorem OnlyAsked.holdersReply {c : Call} (honly : OnlyAsked self c) : HoldersReply self c := by
  rintro name items rfl ⟨hmember, hstate, hnew⟩
  obtain ⟨-, hasked⟩ | hunheeded := honly name rfl hmember
  · rw [AskedPlayer, hstate] at hasked
    exact hasked.1
  · exact absurd (hunheeded hstate) hnew

end Logic

end QMdmmCore
