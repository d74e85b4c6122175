import QMdmm.Core.PerfectPartition

namespace QMdmmCore

open Data Logic

namespace Player

variable {conf : LogicConfiguration}

/-- How often an item may still be taken. -/
def remainingTimes (conf : LogicConfiguration) (self : Player) : UpgradeItem → Int
  | .UpgradeKnife => self.upgradeKnifeRemainingTimes conf
  | .UpgradeHorse => self.upgradeHorseRemainingTimes conf
  | .UpgradeMaxHp => self.upgradeMaxHpRemainingTimes conf

/-- An item that is left can be taken, and is left once less then. -/
theorem upgrade_spec (self : Player) {item : UpgradeItem}
    (hleft : 0 < self.remainingTimes conf item) :
    ∃ q, self.upgrade conf item = (true, q) ∧ ∀ other, q.remainingTimes conf other =
      self.remainingTimes conf other - if other = item then 1 else 0 := by
  cases item with
  | UpgradeKnife =>
    have hcan : self.canUpgradeKnife conf = true := decide_eq_true hleft
    refine ⟨_, by simp only [upgrade, upgradeKnife, hcan, Bool.not_true]; rfl, fun other => ?_⟩
    cases other <;>
      simp only [remainingTimes, upgradeKnifeRemainingTimes, upgradeHorseRemainingTimes,
        upgradeMaxHpRemainingTimes, reduceCtorEq, if_true, if_false, Int.sub_zero]
    rw [← Int.sub_sub]
    exact int32_sub_one hleft
  | UpgradeHorse =>
    have hcan : self.canUpgradeHorse conf = true := decide_eq_true hleft
    refine ⟨_, by simp only [upgrade, upgradeHorse, hcan, Bool.not_true]; rfl, fun other => ?_⟩
    cases other <;>
      simp only [remainingTimes, upgradeKnifeRemainingTimes, upgradeHorseRemainingTimes,
        upgradeMaxHpRemainingTimes, reduceCtorEq, if_true, if_false, Int.sub_zero]
    rw [← Int.sub_sub]
    exact int32_sub_one hleft
  | UpgradeMaxHp =>
    have hcan : self.canUpgradeMaxHp conf = true := decide_eq_true hleft
    refine ⟨_, by simp only [upgrade, upgradeMaxHp, hcan, Bool.not_true]; rfl, fun other => ?_⟩
    cases other <;>
      simp only [remainingTimes, upgradeKnifeRemainingTimes, upgradeHorseRemainingTimes,
        upgradeMaxHpRemainingTimes, reduceCtorEq, if_true, if_false, Int.sub_zero]
    rw [← Int.sub_sub]
    exact int32_sub_one hleft

end Player

namespace LogicP

/-- No item comes more often than it is left. -/
def Fits (conf : LogicConfiguration) (p : Player) (items : List UpgradeItem) : Prop :=
  ∀ item, item ∈ items → (items.count item : Int) ≤ p.remainingTimes conf item

theorem upgradePlayer_ok {conf : LogicConfiguration} {p : Player} {items : List UpgradeItem}
    (hfits : Fits conf p items) : ∃ q, upgradePlayer conf p items = .ok q := by
  induction items generalizing p with
  | nil => exact ⟨p, rfl⟩
  | cons item rest ih =>
    have hleft := hfits item List.mem_cons_self
    rw [List.count_cons_self] at hleft
    have hpos : 0 < p.remainingTimes conf item := by omega
    obtain ⟨q, hq, hremaining⟩ := p.upgrade_spec hpos
    rw [upgradePlayer, hq]
    refine ih fun other hother => ?_
    have hcount := hfits other (List.mem_cons_of_mem _ hother)
    rw [hremaining]
    by_cases hsame : other = item
    · subst hsame
      rw [List.count_cons_self] at hcount
      rw [if_pos rfl]
      omega
    · rw [List.count_cons_of_ne (Ne.symm hsame)] at hcount
      rw [if_neg hsame]
      omega

/-- Every recorded reply is one of a player of the room, and fits it. -/
def EntriesFit (room : Room) (entries : List (Sigma fun _ : String => List UpgradeItem)) : Prop :=
  ∀ entry ∈ entries, ∃ p, room.player entry.1 = some p ∧ Fits room.logicConfiguration p entry.2

theorem performUpgrades_ok {room : Room} {entries : List (Sigma fun _ : String => List UpgradeItem)}
    (hnodup : entries.NodupKeys) (hfit : EntriesFit room entries) :
    ∃ room', performUpgrades room entries = .ok room' := by
  induction entries generalizing room with
  | nil => exact ⟨room, rfl⟩
  | cons entry rest ih =>
    obtain ⟨hkey, hrest⟩ := List.nodupKeys_cons.mp hnodup
    obtain ⟨p, hp, hfits⟩ := hfit entry List.mem_cons_self
    obtain ⟨q, hq⟩ := upgradePlayer_ok hfits
    rw [performUpgrades, hp]
    simp only [hq, Except.ok_bind]
    refine ih hrest fun other hother => ?_
    -- The players still to come are others, so this upgrade has not touched them.
    obtain ⟨r, hr, hrfits⟩ := hfit other (List.mem_cons_of_mem _ hother)
    refine ⟨r, ?_, hrfits⟩
    have hname : q.objectName ≠ other.1 := by
      rw [(upgradePlayer_sameSeat hq).objectName, (Room.player_eq_some.mp hp).2]
      intro heq
      exact hkey (heq ▸ List.mem_map_of_mem hother)
    rw [Room.player_setPlayer, if_neg hname]
    exact hr

/-- The fallback of `upgradeReply` fits. -/
theorem feasibleItems_fits (conf : LogicConfiguration) (p : Player) :
    Fits conf p (feasibleItems conf p) := by
  have hreplicate (n : Int) (item other : UpgradeItem) :
      (List.replicate n.toNat item).count other = if item = other then n.toNat else 0 := by
    rw [List.count_replicate]
    simp
  intro item hitem
  have hpos := List.count_pos_iff.mpr hitem
  unfold feasibleItems at hpos ⊢
  simp only [List.count_append, hreplicate] at hpos ⊢
  cases item <;> simp only [reduceCtorEq, if_true, if_false, Player.remainingTimes] at hpos ⊢ <;>
    omega

theorem upgradeFeasible_fits {d : LogicP} {name : String} {p : Player} {items : List UpgradeItem}
    (hplayer : d.room.player name = some p) (hfeasible : d.upgradeFeasible name items = .ok true) :
    Fits d.room.logicConfiguration p items := by
  obtain ⟨q, hq, hfeasible⟩ := Except.bind_eq_ok.mp hfeasible
  obtain rfl : p = q := Option.some.inj (hplayer.symm.trans (deref_eq_ok.mp hq))
  have hcounts := Except.ok.inj hfeasible
  simp only [Bool.and_eq_true, decide_eq_true_eq] at hcounts
  intro item _
  cases item with
  | UpgradeKnife => exact hcounts.1.1.1
  | UpgradeHorse => exact hcounts.1.1.2
  | UpgradeMaxHp => exact hcounts.1.2

/-- The replies that wait for the upgrades to be performed. -/
def UpgradesFit (d : LogicP) : Prop :=
  d.state = .Upgrade → EntriesFit d.room d.upgrades.entries

end LogicP

namespace Logic

open LogicP

variable {self self' : Logic (List Signal)}

/-- Nobody has replied yet when the upgrades begin, and the round is over. -/
def FreshUpgrades (d : LogicP) : Prop :=
  d.state = .Upgrade → d.upgrades = ∅ ∧ d.room.isRoundOver = true

theorem NextAction.freshUpgrades (hstep : NextAction self self') : FreshUpgrades self'.d := by
  cases hstep with
  | turn | again => exact fun hstate => by cases hstate

theorem StartAction.freshUpgrades (hstep : StartAction self self') : FreshUpgrades self'.d := by
  cases hstep with
  | next _ hnext => exact hnext.freshUpgrades
  | roundOver hover => exact fun _ => ⟨rfl, hover⟩

theorem StartActionOrder.freshUpgrades (hstep : StartActionOrder self self') :
    FreshUpgrades self'.d := by
  cases hstep with
  | settled _ _ haction => exact haction.freshUpgrades
  | contested => exact fun hstate => by cases hstate

theorem StartRpsForActionOrder.freshUpgrades (hstep : StartRpsForActionOrder self self') :
    FreshUpgrades self'.d := by
  cases hstep with
  | uncontested _ hstart => exact hstart.freshUpgrades
  | contested => exact fun hstate => by cases hstate

/-- A call that records the upgrades of a player, while others are still to reply. -/
structure RecordsUpgrade (logic : Logic (List Signal)) (c : Call) (ret : Bool)
    (logic' : Logic (List Signal)) (name : String) (p : Player) (items done : List UpgradeItem) :
    Prop where
  hcall : c = .upgradeReply name items
  hstate : logic.d.state = .Upgrade
  hplayer : logic.d.room.player name = some p
  hnew : name ∉ logic.d.upgrades
  hfeasible : logic.d.upgradeFeasible name items = .ok ret
  hdone : done = if ret then items else feasibleItems logic.d.room.logicConfiguration p
  hafter : logic' =
    ⟨{ logic.d with upgrades := AList.insert name done logic.d.upgrades }, logic.env⟩

/-- Before a call that ends among the upgrades: nothing has changed, or they begin, or
one more player has replied. -/
theorem CallStep.upgrading {c : Call} {ret : Bool} (hstep : CallStep self c ret self')
    (hupgrade : self'.d.state = .Upgrade) :
    self' = self ∨ (self'.d.upgrades = ∅ ∧ self'.d.room.isRoundOver = true) ∨
      ∃ name p items done, RecordsUpgrade self c ret self' name p items done := by
  have hother {state : State} (hstate : self'.d.state = state) (hne : state ≠ .Upgrade) : False :=
    hne (hstate.symm.trans hupgrade)
  cases hstep with
  | rejected => exact .inl rfl
  | addPlayer hstate | removePlayer hstate => exact (hother hstate (by decide)).elim
  | roundStart => cases hupgrade
  | rpsForAction _ hstate _ hstep =>
    cases hstep with
    | waiting => exact (hother hstate (by decide)).elim
    | tie => cases hupgrade
    | decided _ _ _ hstart => exact .inr (.inl (hstart.freshUpgrades hupgrade))
  | rpsForActionOrder _ hstate _ hstep =>
    cases hstep with
    | waiting => exact (hother hstate (by decide)).elim
    | decided _ hstart => exact .inr (.inl (hstart.freshUpgrades hupgrade))
  | pick _ hstate _ _ hrecord =>
    subst hrecord
    exact (hother hstate (by decide)).elim
  | lastPick _ _ _ _ _ _ hstep => exact .inr (.inl (hstep.freshUpgrades hupgrade))
  | action _ _ _ _ _ hstep => exact .inr (.inl (hstep.freshUpgrades hupgrade))
  | upgrade hplayer hstate hnew hfeasible hdone hstep =>
    cases hstep with
    | waiting => exact .inr (.inr ⟨_, _, _, _, rfl, hstate, hplayer, hnew, hfeasible, hdone, rfl⟩)
    | gameOver | result => cases hupgrade

theorem RecordsUpgrade.mem {c : Call} {ret : Bool} {name : String} {p : Player}
    {items done : List UpgradeItem} (h : RecordsUpgrade self c ret self' name p items done)
    {entry : Sigma fun _ : String => List UpgradeItem} (hentry : entry ∈ self'.d.upgrades.entries) :
    entry = ⟨name, done⟩ ∨ entry ∈ self.d.upgrades.entries := by
  rw [h.hafter, AList.entries_insert_of_notMem h.hnew] at hentry
  exact List.mem_cons.mp hentry

theorem RecordsUpgrade.room {c : Call} {ret : Bool} {name : String} {p : Player}
    {items done : List UpgradeItem} (h : RecordsUpgrade self c ret self' name p items done) :
    self'.d.room = self.d.room := by rw [h.hafter]

/-- The upgrades begin when the round is over, and no reply to come changes the room. -/
theorem isRoundOver_of_upgrade (hreach : system.Reachable self) (hstate : self.d.state = .Upgrade) :
    self.d.room.isRoundOver = true := by
  induction hreach with
  | init hinit =>
    obtain ⟨conf, rfl⟩ := hinit
    cases hstate
  | @step self self' c hself hstep ih =>
    obtain ⟨ret, hcall⟩ := hstep
    rcases (call_cases hcall).upgrading hstate with rfl | ⟨-, hover⟩ | ⟨_, _, _, _, hrecords⟩
    · exact ih hstate
    · exact hover
    · rw [hrecords.room]
      exact ih hrecords.hstate

/-- What holds of each upgrade when it is recorded holds of all of them. -/
theorem forall_upgrades {P : Room → String → List UpgradeItem → Prop}
    {G : Logic (List Signal) → Call → Prop}
    (hrecord : ∀ {self self' : Logic (List Signal)} {c ret name p items done},
      system.Reachable self → G self c → RecordsUpgrade self c ret self' name p items done →
        P self.d.room name done)
    (hreach : (system.guarded G).Reachable self) (hstate : self.d.state = .Upgrade) :
    ∀ entry ∈ self.d.upgrades.entries, P self.d.room entry.1 entry.2 := by
  induction hreach with
  | init hinit =>
    obtain ⟨conf, rfl⟩ := hinit
    cases hstate
  | @step self self' c hself hstep ih =>
    obtain ⟨hguard, ret, hcall⟩ := hstep
    intro entry hentry
    rcases (call_cases hcall).upgrading hstate with rfl | ⟨hnone, -⟩ | ⟨name, p, items, done, hrecords⟩
    · exact ih hstate entry hentry
    · rw [hnone] at hentry
      cases hentry
    · rw [hrecords.room]
      rcases hrecords.mem hentry with rfl | hentry
      · exact hrecord hself.of_guarded hguard hrecords
      · exact ih hrecords.hstate entry hentry

theorem RecordsUpgrade.fits {c : Call} {ret : Bool} {name : String} {p : Player}
    {items done : List UpgradeItem} (h : RecordsUpgrade self c ret self' name p items done) :
    Fits self.d.room.logicConfiguration p done := by
  rw [h.hdone]
  cases ret with
  | true => exact upgradeFeasible_fits h.hplayer h.hfeasible
  | false => exact feasibleItems_fits _ _

theorem upgradesFit_of_reachable (hreach : system.Reachable self) : self.d.UpgradesFit := by
  have hfits {self self' : Logic (List Signal)} {c ret name p items done} :
      system.Reachable self → True → RecordsUpgrade self c ret self' name p items done →
        ∃ p, self.d.room.player name = some p ∧ Fits self.d.room.logicConfiguration p done :=
    fun _ _ hrecords => ⟨p, hrecords.hplayer, hrecords.fits⟩
  exact fun hstate => forall_upgrades (P := fun room name items =>
    ∃ p, room.player name = some p ∧ Fits room.logicConfiguration p items) hfits
    (hreach.guarded_of_forall fun _ _ => trivial) hstate

theorem upgrade_ok (self : Logic (List Signal))
    (hfit : EntriesFit self.d.room self.d.upgrades.entries) :
    ∃ self', Logic.upgrade post self = .ok self' := by
  rw [Logic.upgrade]
  split
  · split
    · obtain ⟨room, hroom⟩ := performUpgrades_ok self.d.upgrades.nodupKeys hfit
      rw [hroom, Except.ok_bind]
      dsimp only
      split
      · exact ⟨_, rfl⟩
      · exact ⟨_, rfl⟩
    · exact ⟨_, rfl⟩
  · exact ⟨_, rfl⟩

theorem upgradeFeasible_ok {d : LogicP} {name : String} (hmember : name ∈ d.room.playerNames)
    (items : List UpgradeItem) : ∃ accepted, d.upgradeFeasible name items = .ok accepted := by
  obtain ⟨p, hp⟩ := deref_of_mem hmember
  rw [upgradeFeasible, hp]
  exact ⟨_, rfl⟩

theorem upgradeReply_ok (hfit : self.d.UpgradesFit) (name : String) (items : List UpgradeItem) :
    ∃ result, self.upgradeReply post name items = .ok result := by
  rw [Logic.upgradeReply]
  split
  · exact ⟨_, rfl⟩
  · next p hplayer =>
    split
    · next hready =>
      have hnew : name ∉ self.d.upgrades := by simpa [QHash.contains] using hready.2
      have hmember : name ∈ self.d.room.playerNames := by
        rw [← Room.player_isSome, hplayer]
        rfl
      obtain ⟨accepted, hfeasible⟩ := upgradeFeasible_ok hmember items
      rw [hfeasible, Except.ok_bind]
      have hdone : Fits self.d.room.logicConfiguration p
          (if accepted then items else feasibleItems self.d.room.logicConfiguration p) := by
        cases accepted with
        | true => exact upgradeFeasible_fits hplayer hfeasible
        | false => exact feasibleItems_fits _ _
      generalize hitems : (if accepted then items
        else feasibleItems self.d.room.logicConfiguration p) = done at hdone
      have hentries : EntriesFit self.d.room (AList.insert name done self.d.upgrades).entries := by
        intro entry hentry
        rw [AList.entries_insert_of_notMem hnew] at hentry
        rcases List.mem_cons.mp hentry with rfl | hentry
        · exact ⟨p, hplayer, hdone⟩
        · exact hfit hready.1 entry hentry
      obtain ⟨next, hnext⟩ := upgrade_ok (self.modify fun d =>
        { d with upgrades := AList.insert name done d.upgrades }) hentries
      dsimp only
      rw [hnext]
      exact ⟨_, rfl⟩
    · exact ⟨_, rfl⟩

/-- No slot call ever faults, whoever makes it and whenever. -/
theorem call_ok (hreach : system.Reachable self) (c : Call) :
    ∃ ret self', self.call post c = .ok (ret, self') := by
  have hneg := negotiationInv_invariant.of_reachable hreach
  by_cases hstate : self.d.state = .Upgrade
  · cases c with
    | upgradeReply name items =>
      obtain ⟨⟨ret, self'⟩, hcall⟩ :=
        upgradeReply_ok (upgradesFit_of_reachable hreach) name items
      exact ⟨ret, self', hcall⟩
    | _ =>
      refine ⟨false, self, call_of_not_accepts ?_⟩
      simp [Accepts, hstate]
  · obtain ⟨⟨ret, self'⟩, hcall⟩ := hneg.call_ok hstate c
    exact ⟨ret, self', hcall⟩

end Logic

end QMdmmCore
