import QMdmm.Core.Protocol
import QMdmm.Core.Wedge

namespace QMdmmCore

open Data Logic

namespace Player

variable {conf : LogicConfiguration}

/-- A player after the upgrades of a list. -/
def upgradedBy (p : Player) (items : List UpgradeItem) : Player :=
  { p with
    knifeDamage := p.knifeDamage + items.count .UpgradeKnife
    horseDamage := p.horseDamage + items.count .UpgradeHorse
    maxHp := p.maxHp + items.count .UpgradeMaxHp }

def statsSum (p : Player) : Int := p.knifeDamage + p.horseDamage + p.maxHp

/-- What `upgradeFeasible` asks of a list of known items. -/
def Feasible (conf : LogicConfiguration) (p : Player) (items : List UpgradeItem) : Prop :=
  (∀ item, (items.count item : Int) ≤ p.remainingTimes conf item) ∧
    (items.length : Int) = p.upgradePoint

@[simp] theorem upgradedBy_nil (p : Player) : p.upgradedBy [] = p := by
  simp [upgradedBy]

@[simp] theorem upgradedBy_objectName (p : Player) (items : List UpgradeItem) :
    (p.upgradedBy items).objectName = p.objectName := rfl

theorem length_eq_counts (items : List UpgradeItem) :
    items.length = items.count .UpgradeKnife + items.count .UpgradeHorse +
      items.count .UpgradeMaxHp := by
  induction items with
  | nil => rfl
  | cons item rest ih => cases item <;> simp [ih] <;> omega

/-- Every item is one more of some stat. -/
theorem statsSum_upgradedBy (p : Player) (items : List UpgradeItem) :
    (p.upgradedBy items).statsSum = p.statsSum + items.length := by
  have hcounts := length_eq_counts items
  simp only [statsSum, upgradedBy]
  omega

theorem upgradedBy_cons (p : Player) (item : UpgradeItem) (rest : List UpgradeItem) :
    p.upgradedBy (item :: rest) = (p.upgradedBy [item]).upgradedBy rest := by
  cases item <;> simp [upgradedBy] <;> omega

theorem eq_upgradedBy_of_upgrade {p q : Player} {item : UpgradeItem}
    (hupgrade : p.upgrade conf item = (true, q)) : q = p.upgradedBy [item] := by
  cases item <;>
    simp only [upgrade, upgradeKnife, upgradeHorse, upgradeMaxHp] at hupgrade <;>
    split at hupgrade <;> cases hupgrade <;> simp [upgradedBy]

end Player

namespace LogicP

variable {conf : LogicConfiguration}

theorem eq_upgradedBy_of_upgradePlayer {p q : Player} {items : List UpgradeItem}
    (hupgrade : upgradePlayer conf p items = .ok q) : q = p.upgradedBy items := by
  induction items generalizing p with
  | nil =>
    cases hupgrade
    exact (Player.upgradedBy_nil _).symm
  | cons item rest ih =>
    rcases hitem : p.upgrade conf item with ⟨ok, upgraded⟩
    rw [upgradePlayer, hitem] at hupgrade
    cases ok with
    | true => rw [ih hupgrade, Player.eq_upgradedBy_of_upgrade hitem, ← Player.upgradedBy_cons]
    | false => cases hupgrade

/-- Every player is upgraded by its own list, and by nobody else's. -/
theorem player_performUpgrades {room room' : Room}
    {entries : List (Sigma fun _ : String => List UpgradeItem)} (hnodup : entries.NodupKeys)
    (hroom : performUpgrades room entries = .ok room') {name : String} {p : Player}
    (hp : room.player name = some p) :
    room'.player name = some (p.upgradedBy ((entries.dlookup name).getD [])) := by
  induction entries generalizing room p with
  | nil =>
    cases hroom
    rwa [List.dlookup_nil, Option.getD_none, Player.upgradedBy_nil]
  | cons entry rest ih =>
    obtain ⟨key, items⟩ := entry
    obtain ⟨hkey, hrest⟩ := List.nodupKeys_cons.mp hnodup
    rw [performUpgrades] at hroom
    split at hroom
    · cases hroom
    next up hup =>
    obtain ⟨upgraded, hupgraded, hroom⟩ := Except.bind_eq_ok.mp hroom
    have hname : upgraded.objectName = key :=
      (upgradePlayer_sameSeat hupgraded).objectName.trans (Room.player_eq_some.mp hup).2
    have hfirst := room.player_setPlayer upgraded name
    rw [hname] at hfirst
    by_cases hsame : key = name
    · subst hsame
      obtain rfl : up = p := Option.some.inj (hup.symm.trans hp)
      rw [if_pos rfl, hp] at hfirst
      have hlast := ih hrest hroom hfirst
      rw [List.dlookup_eq_none.mpr hkey, Option.getD_none, Player.upgradedBy_nil] at hlast
      rw [List.dlookup_cons_eq, Option.getD_some, hlast, eq_upgradedBy_of_upgradePlayer hupgraded]
    · rw [if_neg hsame, hp] at hfirst
      rw [List.dlookup_cons_ne _ _ (Ne.symm hsame)]
      exact ih hrest hroom hfirst

theorem upgradeFeasible_iff {d : LogicP} {name : String} {p : Player} {items : List UpgradeItem}
    (hplayer : d.room.player name = some p) {accepted : Bool}
    (hfeasible : d.upgradeFeasible name items = .ok accepted) :
    accepted = true ↔ p.Feasible d.room.logicConfiguration items := by
  obtain ⟨q, hq, hfeasible⟩ := Except.bind_eq_ok.mp hfeasible
  obtain rfl : p = q := Option.some.inj (hplayer.symm.trans (deref_eq_ok.mp hq))
  rw [← Except.ok.inj hfeasible]
  simp only [Bool.and_eq_true, decide_eq_true_eq, beq_iff_eq, Player.Feasible]
  constructor
  · rintro ⟨⟨⟨hknife, hhorse⟩, hmaxHp⟩, hlength⟩
    exact ⟨fun item => by cases item <;> assumption, hlength⟩
  · rintro ⟨hcounts, hlength⟩
    exact ⟨⟨⟨hcounts .UpgradeKnife, hcounts .UpgradeHorse⟩, hcounts .UpgradeMaxHp⟩, hlength⟩

theorem upgradeFeasible_eq_ok {d : LogicP} {name : String} {p : Player} {items : List UpgradeItem}
    (hplayer : d.room.player name = some p) {accepted : Bool}
    (haccepted : accepted = true ↔ p.Feasible d.room.logicConfiguration items) :
    d.upgradeFeasible name items = .ok accepted := by
  obtain ⟨feasible, hfeasible⟩ :=
    upgradeFeasible_ok (Room.player_isSome.mp (by rw [hplayer]; rfl)) items
  rw [hfeasible, Bool.eq_iff_iff.mpr (haccepted.trans (upgradeFeasible_iff hplayer hfeasible).symm)]

/-- The fallback spends whatever points there are. -/
theorem length_feasibleItems (hsound : conf.Sound) {p : Player} (h : p.Affords conf) :
    ((feasibleItems conf p).length : Int) = max 0 p.upgradePoint := by
  obtain ⟨hknife, hhorse, hmaxHp⟩ := h.toStatsInBounds.remainingTimes_eq hsound
  obtain ⟨hknife', hhorse', hmaxHp'⟩ := h.toStatsInBounds
  have hpoint := h.upgradePoint_le
  unfold Player.upgradesLeft at hpoint
  simp only [feasibleItems, List.length_append, List.length_replicate, hknife, hhorse, hmaxHp]
  omega

theorem count_feasibleItems_le (hsound : conf.Sound) {p : Player} (h : p.StatsInBounds conf)
    (item : UpgradeItem) :
    ((feasibleItems conf p).count item : Int) ≤ p.remainingTimes conf item := by
  by_cases hitem : item ∈ feasibleItems conf p
  · exact feasibleItems_fits conf p item hitem
  · obtain ⟨hknife, hhorse, hmaxHp⟩ := h.remainingTimes_eq hsound
    obtain ⟨hknife', hhorse', hmaxHp'⟩ := h
    rw [List.count_eq_zero_of_not_mem hitem]
    cases item <;> simp only [Player.remainingTimes, hknife, hhorse, hmaxHp] <;> omega

/-- `upgradeFeasible` of a list of any values of the underlying type: one that is no
item makes the list infeasible. -/
def upgradeFeasibleOf (d : LogicP) (playerName : String) (items : List Int) :
    Except Fault Bool :=
  match items.mapM UpgradeItem.ofInt with
  | some items => d.upgradeFeasible playerName items
  | none => do
    let _ ← d.deref playerName
    return false

/-- A list that the logic takes in the same way: as it is, if it holds items only, or
one item too long. -/
def standIn (p : Player) (items : List Int) : List UpgradeItem :=
  (items.mapM UpgradeItem.ofInt).getD (.replicate (p.upgradePoint.toNat + 1) .UpgradeKnife)

theorem not_feasible_replicate (p : Player) :
    ¬ p.Feasible conf (.replicate (p.upgradePoint.toNat + 1) .UpgradeKnife) := by
  rintro ⟨-, hlength⟩
  rw [List.length_replicate] at hlength
  omega

theorem upgradeFeasibleOf_eq {d : LogicP} {name : String} {p : Player}
    (hplayer : d.room.player name = some p) (items : List Int) :
    d.upgradeFeasibleOf name items = d.upgradeFeasible name (standIn p items) := by
  unfold upgradeFeasibleOf standIn
  cases items.mapM UpgradeItem.ofInt with
  | some known => rfl
  | none =>
    have hderef : d.deref name = .ok p := deref_eq_ok.mpr hplayer
    have hfalse := @upgradeFeasible_eq_ok d name p _ hplayer false
      (iff_of_false (by decide) (not_feasible_replicate p))
    rw [Option.getD_none, hderef, hfalse]
    rfl

end LogicP

namespace Logic

variable {G : Type} (emit : Emit G)

/-- `upgradeReply` with a list of any values of the underlying type. -/
def upgradeReplyOf (self : Logic G) (playerName : String) (items : List Int) :
    Except Fault (Bool × Logic G) :=
  match self.d.room.player playerName with
  | none => .ok (false, self)
  | some p =>
    if self.d.state = .Upgrade ∧ !self.d.upgrades.contains playerName then do
      let accepted ← self.d.upgradeFeasibleOf playerName items
      -- A feasible list holds items only.
      let items := if accepted then LogicP.standIn p items
        else LogicP.feasibleItems self.d.room.logicConfiguration p
      let self ← upgrade emit (self.modify fun d =>
        { d with upgrades := AList.insert playerName items d.upgrades })
      return (accepted, self)
    else .ok (false, self)

/-- Such a reply does what one of items does, so it is a call of the system as well. -/
theorem upgradeReplyOf_eq {emit : Emit G} {self : Logic G} {name : String} {p : Player}
    (hplayer : self.d.room.player name = some p) (items : List Int) :
    self.upgradeReplyOf emit name items =
      self.call emit (.upgradeReply name (LogicP.standIn p items)) := by
  simp only [upgradeReplyOf, Logic.call, upgradeReply, hplayer, LogicP.upgradeFeasibleOf_eq hplayer]

/-- What the logic makes of the list that a player with points sends. -/
structure Spends (conf : LogicConfiguration) (p : Player) (items : List Int) (accepted : Bool)
    (applied : List UpgradeItem) : Prop where
  accepted_iff : accepted = true ↔
    ∃ known, items.mapM UpgradeItem.ofInt = some known ∧ p.Feasible conf known
  sent : accepted = true → items.mapM UpgradeItem.ofInt = some applied
  greedy : accepted = false → applied = LogicP.feasibleItems conf p
  length : (applied.length : Int) = p.upgradePoint
  count_le : ∀ item, (applied.count item : Int) ≤ p.remainingTimes conf item

/-- A room before and after the upgrades of a phase: whoever has points and has replied
has spent them all, and nobody else has changed. -/
structure Upgraded (before : Room) (upgrades : QHash String (List UpgradeItem)) (after : Room) :
    Prop where
  playerNames : after.playerNames = before.playerNames
  spent : ∀ q ∈ before.players.toList, 0 < q.upgradePoint → q.objectName ∈ upgrades →
    q.upgradedBy (upgrades.value q.objectName []) ∈ after.players.toList ∧
      (q.upgradedBy (upgrades.value q.objectName [])).statsSum = q.statsSum + q.upgradePoint
  others : ∀ q ∈ before.players.toList, ¬ (0 < q.upgradePoint ∧ q.objectName ∈ upgrades) →
    q ∈ after.players.toList

/-- In the upgrades, a reply comes from a player with points. -/
def HoldersReply (logic : Logic (List Signal)) (c : Call) : Prop :=
  ∀ name items, c = .upgradeReply name items → logic.d.Accepts c →
    name ∈ logic.d.upgraders.map (·.objectName)

end Logic

namespace LogicP

variable {conf : LogicConfiguration} {d : LogicP}

theorem feasible_of_standIn {p : Player} {items : List Int} (h : p.Feasible conf (standIn p items)) :
    items.mapM UpgradeItem.ofInt = some (standIn p items) := by
  unfold standIn at h ⊢
  cases hknown : items.mapM UpgradeItem.ofInt with
  | some known => rfl
  | none =>
    rw [hknown, Option.getD_none] at h
    exact absurd h (not_feasible_replicate p)

theorem spends_of_feasible (hsound : conf.Sound) {p : Player} (haffords : p.Affords conf)
    (hpoint : 0 < p.upgradePoint) {items : List Int} {accepted : Bool}
    (hfeasible : accepted = true ↔ p.Feasible conf (standIn p items)) :
    Spends conf p items accepted (if accepted then standIn p items else feasibleItems conf p) := by
  have hknown : (∃ known, items.mapM UpgradeItem.ofInt = some known ∧ p.Feasible conf known) ↔
      p.Feasible conf (standIn p items) := by
    constructor
    · rintro ⟨known, hknown, h⟩
      rwa [standIn, hknown]
    · exact fun h => ⟨_, feasible_of_standIn h, h⟩
  cases accepted with
  | true =>
    have h := hfeasible.mp rfl
    exact ⟨hfeasible.trans hknown.symm, fun _ => feasible_of_standIn h, fun hno => (by cases hno),
      h.2, h.1⟩
  | false =>
    refine ⟨hfeasible.trans hknown.symm, fun hno => (by cases hno), fun _ => rfl, ?_,
      count_feasibleItems_le hsound haffords.toStatsInBounds⟩
    have hlength := length_feasibleItems hsound haffords
    change ((feasibleItems conf p).length : Int) = p.upgradePoint
    omega

/-- Of a reply of any player, as many items are recorded as it has points to spend. -/
theorem length_done (hsound : d.room.logicConfiguration.Sound) {name : String} {p : Player}
    (hplayer : d.room.player name = some p) (haffords : p.Affords d.room.logicConfiguration)
    {items : List UpgradeItem} {accepted : Bool}
    (hfeasible : d.upgradeFeasible name items = .ok accepted) :
    ((if accepted then items else feasibleItems d.room.logicConfiguration p).length : Int) =
      max 0 p.upgradePoint := by
  cases accepted with
  | true =>
    have hlength := ((upgradeFeasible_iff hplayer hfeasible).mp rfl).2
    change (items.length : Int) = _
    omega
  | false => exact length_feasibleItems hsound haffords

theorem upgraded_of_performUpgrades {room room' : Room} {upgrades : QHash String (List UpgradeItem)}
    (hlengths : ∀ entry ∈ upgrades.entries, ∃ p, room.player entry.1 = some p ∧
      (entry.2.length : Int) = max 0 p.upgradePoint)
    (hroom : performUpgrades room upgrades.entries = .ok room') : Upgraded room upgrades room' := by
  have hplayer {q : Player} (hq : q ∈ room.players.toList) :
      q.upgradedBy (upgrades.value q.objectName []) ∈ room'.players.toList :=
    (Room.player_eq_some.mp (player_performUpgrades upgrades.nodupKeys hroom
      (Room.player_eq_some.mpr ⟨hq, rfl⟩))).1
  have hrecorded {q : Player} (hq : q ∈ room.players.toList) (hmem : q.objectName ∈ upgrades) :
      ((upgrades.value q.objectName []).length : Int) = max 0 q.upgradePoint := by
    obtain ⟨items, hitems⟩ := Option.isSome_iff_exists.mp (AList.lookup_isSome.mpr hmem)
    obtain ⟨p, hp, hlength⟩ := hlengths _ (QHash.lookup_eq_some.mp hitems)
    obtain rfl : q = p := Option.some.inj ((Room.player_eq_some.mpr ⟨hq, rfl⟩).symm.trans hp)
    rwa [QHash.value, hitems, Option.getD_some]
  refine ⟨performUpgrades_playerNames hroom, fun q hq hpoint hmem => ⟨hplayer hq, ?_⟩,
    fun q hq hother => ?_⟩
  · rw [Player.statsSum_upgradedBy, hrecorded hq hmem]
    omega
  · have hnone : upgrades.value q.objectName [] = [] := by
      by_cases hmem : q.objectName ∈ upgrades
      · have hpoint : ¬ 0 < q.upgradePoint := fun hpoint => hother ⟨hpoint, hmem⟩
        have hlength := hrecorded hq hmem
        apply List.eq_nil_of_length_eq_zero
        omega
      · rw [QHash.value, AList.lookup_eq_none.mpr hmem, Option.getD_none]
    have hsame := hplayer hq
    rwa [hnone, Player.upgradedBy_nil] at hsame

end LogicP

namespace Logic

open LogicP

variable {self self' : Logic (List Signal)}

theorem affords_of_upgrade (hreach : system.Reachable self)
    (hsound : self.d.room.logicConfiguration.Sound) (hstate : self.d.state = .Upgrade)
    {name : String} {p : Player} (hplayer : self.d.room.player name = some p) :
    p.Affords self.d.room.logicConfiguration :=
  ((solvent_invariant _ hsound).of_reachable hreach rfl).affords (by rw [hstate]; decide) p
    (Room.player_eq_some.mp hplayer).1

theorem lengths_of_reachable (hreach : system.Reachable self)
    (hconf : self.d.room.logicConfiguration.Accepted) (hstate : self.d.state = .Upgrade) :
    ∀ entry ∈ self.d.upgrades.entries, ∃ p, self.d.room.player entry.1 = some p ∧
      (entry.2.length : Int) = max 0 p.upgradePoint := by
  have hrecord {self self' : Logic (List Signal)} {c ret name p items done}
      (hreach : system.Reachable self) (_ : True)
      (hrecords : RecordsUpgrade self c ret self' name p items done) :
      self.d.room.logicConfiguration.Accepted → ∃ p, self.d.room.player name = some p ∧
        (done.length : Int) = max 0 p.upgradePoint := by
    intro hconf
    have haffords := affords_of_upgrade hreach hconf.sound hrecords.hstate hrecords.hplayer
    refine ⟨p, hrecords.hplayer, ?_⟩
    rw [hrecords.hdone]
    exact length_done hconf.sound hrecords.hplayer haffords hrecords.hfeasible
  intro entry hentry
  exact forall_upgrades (P := fun room name items => room.logicConfiguration.Accepted →
    ∃ p, room.player name = some p ∧ (items.length : Int) = max 0 p.upgradePoint) hrecord
    (hreach.guarded_of_forall fun _ _ => trivial) hstate entry hentry hconf

/-- If only players with points reply, all of them have exactly when their number is reached. -/
theorem all_holders_replied_iff (hreach : (system.guarded HoldersReply).Reachable self)
    (hstate : self.d.state = .Upgrade) {name : String} {done : List UpgradeItem}
    (hholder : name ∈ self.d.upgraders.map (·.objectName)) :
    QHash.count (AList.insert name done self.d.upgrades) = self.d.upgraders.length ↔
      ∀ q ∈ self.d.upgraders, q.objectName ∈ AList.insert name done self.d.upgrades := by
  have hholders : ∀ entry ∈ self.d.upgrades.entries,
      entry.1 ∈ self.d.upgraders.map (·.objectName) := by
    have hrecord {self self' : Logic (List Signal)} {c ret name p items done}
        (_ : system.Reachable self) (hguard : HoldersReply self c)
        (hrecords : RecordsUpgrade self c ret self' name p items done) :
        name ∈ (self.d.room.players.toList.filter fun p => p.upgradePoint > 0).map
          (·.objectName) := by
      refine hguard name items hrecords.hcall ?_
      rw [hrecords.hcall]
      exact ⟨Room.player_isSome.mp (by rw [hrecords.hplayer]; rfl), hrecords.hstate, hrecords.hnew⟩
    exact forall_upgrades (P := fun room name _ => name ∈
      (room.players.toList.filter fun p => p.upgradePoint > 0).map (·.objectName)) hrecord hreach hstate
  have hsub : ∀ other ∈ AList.insert name done self.d.upgrades,
      other ∈ self.d.upgraders.map (·.objectName) := by
    intro other hother
    rcases (AList.mem_insert _).mp hother with rfl | hother
    · exact hholder
    · obtain ⟨entry, hentry, rfl⟩ := List.mem_map.mp (AList.mem_keys.mp hother)
      exact hholders entry hentry
  have hnodup : (self.d.upgraders.map (·.objectName)).Nodup :=
    self.d.room.playerNames_nodup.sublist (List.filter_sublist.map _)
  have hall := QHash.count_eq_length_iff hnodup hsub
  rw [List.length_map] at hall
  rw [hall, List.forall_mem_map]

/-- How the phase goes on once these are the recorded lists. The reply that makes them as
many as there are players with points applies them all, and each reply before it only
records. If none but players with points reply, that is the reply of the last of them. -/
structure RecordedUpgrade (logic : Logic (List Signal))
    (upgrades : QHash String (List UpgradeItem)) (logic' : Logic (List Signal)) : Prop where
  applies : upgrades.count = logic.d.upgraders.length → logic'.d.state = .BeforeRoundStart ∧
    ∃ room, Upgraded logic.d.room upgrades room ∧
      logic'.d.room = if room.isGameOver then room.resetUpgrades else room
  waits : upgrades.count ≠ logic.d.upgraders.length → logic'.d.state = .Upgrade ∧
    logic'.d.room = logic.d.room ∧ logic'.d.upgrades = upgrades
  last : (system.guarded HoldersReply).Reachable logic →
    (upgrades.count = logic.d.upgraders.length ↔ ∀ q ∈ logic.d.upgraders, q.objectName ∈ upgrades)

theorem recorded_of_upgradeStep (hreach : system.Reachable self)
    (hconf : self.d.room.logicConfiguration.Accepted) (hstate : self.d.state = .Upgrade)
    {name : String} {p : Player} (hplayer : self.d.room.player name = some p)
    (hpoint : 0 < p.upgradePoint) (hnew : name ∉ self.d.upgrades) {done : List UpgradeItem}
    (hlength : (done.length : Int) = p.upgradePoint)
    (hstep : UpgradeStep
      ⟨{ self.d with upgrades := AList.insert name done self.d.upgrades }, self.env⟩ self') :
    RecordedUpgrade self (AList.insert name done self.d.upgrades) self' := by
  have hlengths : ∀ entry ∈ (AList.insert name done self.d.upgrades).entries,
      ∃ p, self.d.room.player entry.1 = some p ∧ (entry.2.length : Int) = max 0 p.upgradePoint := by
    intro entry hentry
    rw [AList.entries_insert_of_notMem hnew] at hentry
    rcases List.mem_cons.mp hentry with rfl | hentry
    · exact ⟨p, hplayer, by dsimp only; omega⟩
    · exact lengths_of_reachable hreach hconf hstate entry hentry
  have hholder : name ∈ self.d.upgraders.map (·.objectName) := by
    obtain ⟨hp, rfl⟩ := Room.player_eq_some.mp hplayer
    exact List.mem_map_of_mem (List.mem_filter.mpr ⟨hp, decide_eq_true hpoint⟩)
  have hover := isRoundOver_of_upgrade hreach hstate
  refine ⟨fun hcount => ?_, fun hcount => ?_,
    fun hheld => all_holders_replied_iff hheld hstate hholder⟩
  · cases hstep with
    | waiting hwaits =>
      rcases hwaits with hgoing | hwaits
      · rw [hover] at hgoing
        cases hgoing
      · exact absurd hcount hwaits
    | gameOver _ _ hroom hgame =>
      exact ⟨rfl, _, upgraded_of_performUpgrades hlengths hroom, (if_pos hgame).symm⟩
    | result _ _ hroom hgame =>
      refine ⟨rfl, _, upgraded_of_performUpgrades hlengths hroom, ?_⟩
      rw [hgame]
      rfl
  · cases hstep with
    | waiting => exact ⟨hstate, rfl, rfl⟩
    | gameOver _ hreached | result _ hreached => exact absurd hreached hcount

/-- Whatever list a player with points sends in the upgrades, the logic records one that
spends its points, which is the list itself if it is feasible; no assertion fails when
the lists are applied, each to its own player; and a second reply is rejected. -/
theorem upgrade_spends (hreach : system.Reachable self)
    (hconf : self.d.room.logicConfiguration.Accepted) (hstate : self.d.state = .Upgrade)
    {name : String} {p : Player} (hplayer : self.d.room.player name = some p)
    (hpoint : 0 < p.upgradePoint) (items : List Int) :
    (name ∈ self.d.upgrades → self.upgradeReplyOf post name items = .ok (false, self)) ∧
      (name ∉ self.d.upgrades → ∃ accepted applied self',
        self.upgradeReplyOf post name items = .ok (accepted, self') ∧
        Spends self.d.room.logicConfiguration p items accepted applied ∧
        RecordedUpgrade self (AList.insert name applied self.d.upgrades) self') := by
  rw [upgradeReplyOf_eq hplayer]
  constructor
  · intro hreplied
    exact call_of_not_accepts fun haccepts => haccepts.2.2 hreplied
  · intro hnew
    obtain ⟨accepted, self', hcall⟩ := call_ok hreach (.upgradeReply name (standIn p items))
    have haffords := affords_of_upgrade hreach hconf.sound hstate hplayer
    cases call_cases hcall with
    | rejected hreject =>
      refine absurd ?_ hreject
      exact ⟨Room.player_isSome.mp (by rw [hplayer]; rfl), hstate, hnew⟩
    | @upgrade _ q _ done _ _ hq _ _ hfeasible hdone hstep =>
      obtain rfl : p = q := Option.some.inj (hplayer.symm.trans hq)
      have hspends := spends_of_feasible hconf.sound haffords hpoint
        (upgradeFeasible_iff hplayer hfeasible)
      rw [← hdone] at hspends
      exact ⟨accepted, done, self', hcall, hspends,
        recorded_of_upgradeStep hreach hconf hstate hplayer hpoint hnew hspends.length hstep⟩

/-- A has slashed B to death, and answers with something that is no item: its point is
spent all the same. -/
theorem upgrade_spends_slash :
    ∃ (self self' : Logic (List Signal)) (p q : Player) (accepted : Bool)
      (applied : List UpgradeItem), self.d.room.player "A" = some p ∧
      self.upgradeReplyOf post "A" [7] = .ok (accepted, self') ∧
      Spends self.d.room.logicConfiguration p [7] accepted applied ∧
      self'.d.state = .BeforeRoundStart ∧ q = p.upgradedBy applied ∧
      q.statsSum = p.statsSum + 1 := by
  obtain ⟨self, hreach, hconf, hslash⟩ := exists_accepted_run
    (sets [("initialMaxHp", 1), ("punishHpModifier", 0)]) slashCalls
    (fun self => decide (self.d.state = .Upgrade ∧ "A" ∉ self.d.upgrades ∧
        self.d.upgrades.count + 1 = self.d.upgraders.length) &&
      (self.d.room.player "A").any fun p : Player => decide (p.upgradePoint = 1)) (by decide)
  obtain ⟨hready, hpoints⟩ := Bool.and_eq_true_iff.mp hslash
  obtain ⟨hstate, hnew, hcount⟩ := of_decide_eq_true hready
  obtain ⟨p, hplayer, hpoint⟩ := (Option.any_eq_true _ _).mp hpoints
  have hone : p.upgradePoint = 1 := of_decide_eq_true hpoint
  obtain ⟨accepted, applied, self', hcall, hspends, hrecorded⟩ :=
    (upgrade_spends (.of_guarded hreach) hconf hstate hplayer (by omega) [7]).2 hnew
  have hlast : QHash.count (AList.insert "A" applied self.d.upgrades) =
      self.d.upgraders.length := by
    rw [QHash.count, AList.entries_insert_of_notMem hnew]
    exact hcount
  obtain ⟨hover, room, hupgraded, -⟩ := hrecorded.applies hlast
  obtain ⟨hp, hname⟩ := Room.player_eq_some.mp hplayer
  obtain ⟨-, hsum⟩ := hupgraded.spent p hp (by omega) (by rw [hname]; simp)
  have hvalue : QHash.value (AList.insert "A" applied self.d.upgrades) p.objectName [] =
      applied := by
    rw [hname, QHash.value, AList.lookup_insert, Option.getD_some]
  rw [hvalue, hone] at hsum
  exact ⟨self, self', p, _, accepted, applied, hplayer, hcall, hspends, hover, rfl, hsum⟩

/-- Rules with knives at more than their maximum, which `deserialize` refuses. -/
def bluntest : LogicConfiguration where
  object := [("initialKnifeDamage", .ofInt 4), ("initialMaxHp", .ofInt 1),
    ("maximumHorseDamage", .ofInt 9), ("maximumKnifeDamage", .ofInt 1),
    ("maximumMaxHp", .ofInt 1), ("punishHpModifier", .ofInt 0)]

/-- The knives that are too many are made up for in horses: one point buys four of them. -/
theorem upgrade_spends_fails :
    ∃ (self self' : Logic (List Signal)) (p q : Player),
      (system.guarded fun logic c => askedOnly logic c = true).Reachable self ∧
      self.d.state = .Upgrade ∧ "A" ∉ self.d.upgrades ∧
      self.d.room.player "A" = some p ∧ p.upgradePoint = 1 ∧
      self.upgradeReplyOf post "A" [1] = .ok (false, self') ∧
      (self'.d.upgrades.value "A" []).length = 4 ∧
      self'.d.room.player "A" = some q ∧ q.statsSum = p.statsSum + 4 := by
  obtain ⟨self, hreach, hrun⟩ := exists_guarded_reachable bluntest askedOnly slashCalls
    (fun self => decide (self.d.state = .Upgrade ∧ "A" ∉ self.d.upgrades) &&
      (self.upgradeReplyOf post "A" [1]).toOption.any fun result : Bool × Logic (List Signal) =>
        !result.1 && decide ((result.2.d.upgrades.value "A" []).length = 4) &&
        (self.d.room.player "A").any fun p : Player => decide (p.upgradePoint = 1) &&
          (result.2.d.room.player "A").any fun q : Player =>
            decide (q.statsSum = p.statsSum + 4)) (by decide)
  obtain ⟨hready, hrun⟩ := Bool.and_eq_true_iff.mp hrun
  obtain ⟨hstate, hnew⟩ := of_decide_eq_true hready
  obtain ⟨⟨accepted, self'⟩, hcall, hrun⟩ := Except.toOption_any.mp hrun
  simp only [Bool.and_eq_true, Bool.not_eq_true'] at hrun
  obtain ⟨⟨rfl, hlength⟩, hstats⟩ := hrun
  obtain ⟨p, hp, hstats⟩ := (Option.any_eq_true _ _).mp hstats
  obtain ⟨hpoint, hstats⟩ := Bool.and_eq_true_iff.mp hstats
  obtain ⟨q, hq, hsum⟩ := (Option.any_eq_true _ _).mp hstats
  exact ⟨self, self', p, q, hreach, hstate, hnew, hp, of_decide_eq_true hpoint, hcall,
    of_decide_eq_true hlength, hq, of_decide_eq_true hsum⟩

end Logic

end QMdmmCore
