import QMdmm.Core.Bounds
import QMdmm.Core.Protocol

namespace QMdmmCore

open Data

namespace Player

variable {conf : LogicConfiguration} {source target : Player}

/-- The health points damage leaves. -/
def hpAfter (self : Player) (damagePoint : Int) : Int := int32 (self.hp - damagePoint)

/-- Whether damage kills: the player lives before it and is dead after it. -/
def killedBy (conf : LogicConfiguration) (self : Player) (damagePoint : Int) : Bool :=
  self.alive conf && deadAtHp conf (self.hpAfter damagePoint)

/-- The upgrade points of a player that has killed or not: a kill is worth one
point, as far as something is left to upgrade. -/
def pointsAfter (conf : LogicConfiguration) (self : Player) (kills : Bool) : Int :=
  if kills then min (self.upgradePoint + 1) (self.upgradeRemainingTimes conf) else self.upgradePoint

/-- Whether a slash from where the player is costs it health points. -/
def isPunished (conf : LogicConfiguration) (self : Player) : Bool := self.slashPunishHp conf > 0

/-- What becomes of a player of the room when `source` carries out an action on
`target`: everything a field is not given a value for stays. -/
def after (conf : LogicConfiguration) (source target : Player) (toPlace : Int) (p : Player) :
    Action → Player
  | .DoNothing => p
  | .BuyKnife => if p.objectName = source.objectName then { p with knife := true } else p
  | .BuyHorse => if p.objectName = source.objectName then { p with horse := true } else p
  | .Move => if p.objectName = source.objectName then { p with place := toPlace } else p
  | .LetMove => if p.objectName = target.objectName then { p with place := toPlace } else p
  | .Kick =>
    let kills := target.killedBy conf source.horseDamage
    if p.objectName = source.objectName then { p with upgradePoint := source.pointsAfter conf kills }
    else if p.objectName = target.objectName then
      { p with
        hp := target.hpAfter source.horseDamage, place := if kills then target.place else Village }
    else p
  | .Slash =>
    if p.objectName = source.objectName then
      { p with
        hp := if source.isPunished conf then source.hpAfter (source.slashPunishHp conf) else source.hp
        upgradePoint := source.pointsAfter conf (target.killedBy conf source.knifeDamage) }
    else if p.objectName = target.objectName then
      { p with
        hp := target.hpAfter source.knifeDamage
        upgradePoint := target.pointsAfter conf
          (source.isPunished conf && source.killedBy conf (source.slashPunishHp conf)) }
    else p

/-- The guard of an action, as `LogicP::actionFeasible` asks for it. -/
def can (conf : LogicConfiguration) (source target : Player) (toPlace : Int) : Action → Bool
  | .DoNothing => source.alive conf
  | .BuyKnife => source.canBuyKnife conf
  | .BuyHorse => source.canBuyHorse conf
  | .Slash => source.canSlash conf target
  | .Kick => source.canKick conf target
  | .Move => source.canMove conf toPlace
  | .LetMove => source.canLetMove conf target toPlace

theorem applyDamage_eq (conf : LogicConfiguration) (source target : Player) (n : Int) :
    applyDamage conf source target n =
      ({ source with upgradePoint := source.pointsAfter conf (target.killedBy conf n) },
        { target with hp := target.hpAfter n }) := by
  apply Prod.ext
  · rw [applyDamage_fst, pointsAfter, killedBy, hpAfter]
    split <;> rfl
  · exact applyDamage_snd source target n

theorem canSlash_iff : source.canSlash conf target = true ↔
    source.alive conf = true ∧ target.alive conf = true ∧ source.knife = true ∧
      source.objectName ≠ target.objectName ∧ source.place = target.place := by
  unfold canSlash alive
  grind

theorem canKick_iff : source.canKick conf target = true ↔
    source.alive conf = true ∧ target.alive conf = true ∧ source.horse = true ∧
      source.objectName ≠ target.objectName ∧ source.place = target.place ∧
      source.place ≠ Village := by
  unfold canKick alive
  grind

/-- Nobody dead may do anything. -/
theorem alive_of_can {toPlace : Int} {action : Action}
    (hcan : can conf source target toPlace action = true) : source.alive conf = true := by
  cases action with
  | DoNothing => exact hcan
  | BuyKnife | BuyHorse | Move =>
    simp only [can, canBuyKnife, canBuyHorse, canMove, Bool.and_eq_true] at hcan
    tauto
  | Slash => exact (canSlash_iff.mp hcan).1
  | Kick => exact (canKick_iff.mp hcan).1
  | LetMove =>
    simp only [can, canLetMove, canMove] at hcan
    unfold alive at hcan ⊢
    grind

/-- Who is damaged first may already be dead when the punishment kills. -/
theorem slash_of_can (hcan : source.canSlash conf target = true) :
    source.slash conf target =
      (true, after conf source target 0 source .Slash, after conf source target 0 target .Slash) := by
  obtain ⟨-, -, -, hne, -⟩ := canSlash_iff.mp hcan
  have hpunish (points : Int) :
      ({ source with upgradePoint := points } : Player).slashPunishHp conf =
        source.slashPunishHp conf := rfl
  simp only [slash, hcan, Bool.not_true, Bool.false_eq_true, if_false, applyDamage_eq, hpunish]
  by_cases hpos : source.slashPunishHp conf > 0
  · simp only [hpos, if_true, after, isPunished, decide_true, Bool.true_and, hne.symm, if_false]
    rfl
  · simp only [hpos, if_false, after, isPunished, decide_false, Bool.false_and, hne.symm, if_true,
      Bool.false_eq_true]
    rfl

/-- A slash in a city between two players of one health point kills both of them,
and both get a point. -/
example :
    let a : Player := { Player.new .defaults "A" with knife := true, hp := 1, place := 1 }
    let b : Player := { Player.new .defaults "B" with hp := 1, place := 1 }
    a.slash .defaults b =
      (true, { a with hp := -4, upgradePoint := 1 }, { b with hp := 0, upgradePoint := 1 }) := by
  decide +kernel

theorem kick_of_can (hcan : source.canKick conf target = true) :
    source.kick conf target =
      (true, after conf source target 0 source .Kick, after conf source target 0 target .Kick) := by
  obtain ⟨-, halive, -, hne, -⟩ := canKick_iff.mp hcan
  have hdead : ({ target with hp := target.hpAfter source.horseDamage } : Player).dead conf =
      target.killedBy conf source.horseDamage := by
    rw [killedBy, halive, Bool.true_and, dead]
  simp only [kick, hcan, Bool.not_true, Bool.false_eq_true, if_false, applyDamage_eq, hdead, after,
    hne.symm, if_true]
  cases target.killedBy conf source.horseDamage <;> rfl

theorem after_objectName (p : Player) (toPlace : Int) (action : Action) :
    (after conf source target toPlace p action).objectName = p.objectName := by
  cases action <;> simp only [after] <;> repeat' split
  all_goals rfl

end Player

namespace Room

variable {room : Room} {conf : LogicConfiguration} {source target : Player}

/-- Writing one player back changes what is found under its name alone. -/
theorem player_setPlayer_of_name {f : Player → Player} (hsource : room.player source.objectName = some source)
    (hname : (f source).objectName = source.objectName)
    (hother : ∀ p, p.objectName ≠ source.objectName → f p = p) (name : String) :
    (room.setPlayer (f source)).player name = (room.player name).map f := by
  rw [player_setPlayer, hname]
  split
  · next heq =>
    subst heq
    rw [hsource]
    rfl
  · next hne =>
    cases hplayer : room.player name with
    | none => rfl
    | some p =>
      have hp := (player_eq_some.mp hplayer).2
      rw [Option.map_some, hother p (by rw [hp]; exact fun heq => hne heq.symm)]

/-- The same for the two players of a blow. -/
theorem player_setPlayer_two {f : Player → Player}
    (hsource : room.player source.objectName = some source)
    (htarget : room.player target.objectName = some target)
    (hne : source.objectName ≠ target.objectName) (hname : ∀ p, (f p).objectName = p.objectName)
    (hother : ∀ p, p.objectName ≠ source.objectName → p.objectName ≠ target.objectName → f p = p)
    (name : String) :
    ((room.setPlayer (f source)).setPlayer (f target)).player name = (room.player name).map f := by
  rw [player_setPlayer, player_setPlayer, hname, hname]
  by_cases htargetName : target.objectName = name
  · subst htargetName
    rw [if_pos rfl, if_neg hne, htarget]
    rfl
  · rw [if_neg htargetName]
    by_cases hsourceName : source.objectName = name
    · subst hsourceName
      rw [if_pos rfl, hsource]
      rfl
    · rw [if_neg hsourceName]
      cases hplayer : room.player name with
      | none => rfl
      | some p =>
        have hp := (player_eq_some.mp hplayer).2
        rw [Option.map_some, hother p]
        · rw [hp]
          exact fun heq => hsourceName heq.symm
        · rw [hp]
          exact fun heq => htargetName heq.symm

end Room

namespace LogicP

open Player

variable {d : LogicP} {fromPlayer toPlayer : String} {source target : Player} {action : Action}
  {toPlace : Int}

/-- The switch of `actionFeasible` asks the guard the player's method asks. -/
theorem actionFeasible_eq (toPlace : Int) (hsource : d.room.player fromPlayer = some source)
    (htarget : action.hasTarget = true → d.room.player toPlayer = some target) :
    d.actionFeasible fromPlayer action toPlayer toPlace =
      .ok (can d.room.logicConfiguration source target toPlace action) := by
  simp only [actionFeasible, deref_eq_ok.mpr hsource]
  cases action with
  | DoNothing | BuyKnife | BuyHorse | Move => rfl
  | Slash | Kick | LetMove =>
    rw [htarget rfl]
    rfl

/-- Under a guard that refuses, the player's method returns first. -/
theorem performAction_of_cannot (hsource : d.room.player fromPlayer = some source)
    (htarget : action.hasTarget = true → d.room.player toPlayer = some target)
    (hcannot : can d.room.logicConfiguration source target toPlace action = false) :
    d.performAction fromPlayer action toPlayer toPlace = .ok (false, d) := by
  have hkeep {p : Player} {name : String} (hp : d.room.player name = some p) : d.setPlayer p = d := by
    rw [setPlayer, Room.setPlayer_of_mem (Room.player_eq_some.mp hp).1]
  have hsame := hkeep hsource
  cases action with
  | DoNothing | BuyKnife | BuyHorse | Move =>
    simp only [can] at hcannot
    simp [performAction, deref_eq_ok.mpr hsource, doNothing, buyKnife, buyHorse, move, hcannot, hsame]
  | Slash | Kick | LetMove =>
    have hplayer := htarget rfl
    simp only [can] at hcannot
    simp [performAction, deref_eq_ok.mpr hsource, deref_eq_ok.mpr hplayer, slash, kick, letMove,
      hcannot, hsame, hkeep hplayer]

/-- The room after an action whose guard holds, player by player. -/
theorem performAction_of_can (hsource : d.room.player fromPlayer = some source)
    (htarget : action.hasTarget = true → d.room.player toPlayer = some target)
    (hcan : can d.room.logicConfiguration source target toPlace action = true) :
    ∃ d', d.performAction fromPlayer action toPlayer toPlace = .ok (true, d') ∧
      ∀ name, d'.room.player name = (d.room.player name).map fun p =>
        after d.room.logicConfiguration source target toPlace p action := by
  have hsourceName := (Room.player_eq_some.mp hsource).2
  subst hsourceName
  let becomes (p : Player) : Player :=
    after d.room.logicConfiguration source target toPlace p action
  have hname (p : Player) : (becomes p).objectName = p.objectName := after_objectName p toPlace action
  cases action with
  | DoNothing =>
    refine ⟨d, ?_, fun name => by simp [after]⟩
    simp only [can] at hcan
    simp [performAction, deref_eq_ok.mpr hsource, doNothing, hcan]
  | BuyKnife | BuyHorse | Move =>
    simp only [can] at hcan
    refine ⟨d.setPlayer (becomes source), ?_,
      Room.player_setPlayer_of_name hsource (hname source) fun p hne => ?_⟩
    · simp [performAction, deref_eq_ok.mpr hsource, buyKnife, buyHorse, move, hcan, becomes, after]
    · simp [becomes, after, hne]
  | LetMove =>
    have hplayer := htarget rfl
    have htargetName := (Room.player_eq_some.mp hplayer).2
    subst htargetName
    simp only [can] at hcan
    refine ⟨d.setPlayer (becomes target), ?_,
      Room.player_setPlayer_of_name hplayer (hname target) fun p hne => ?_⟩
    · simp [performAction, deref_eq_ok.mpr hsource, deref_eq_ok.mpr hplayer, letMove, hcan, becomes,
        after]
    · simp [becomes, after, hne]
  | Slash =>
    have hplayer := htarget rfl
    have htargetName := (Room.player_eq_some.mp hplayer).2
    subst htargetName
    obtain ⟨-, -, -, hne, -⟩ := canSlash_iff.mp hcan
    refine ⟨(d.setPlayer (becomes source)).setPlayer (becomes target), ?_,
      Room.player_setPlayer_two hsource hplayer hne hname fun p hp hp' => ?_⟩
    · have hslash := slash_of_can hcan
      simp only [performAction, deref_eq_ok.mpr hsource, deref_eq_ok.mpr hplayer, Except.ok_bind, hslash]
      rfl
    · simp [becomes, after, hp, hp']
  | Kick =>
    have hplayer := htarget rfl
    have htargetName := (Room.player_eq_some.mp hplayer).2
    subst htargetName
    obtain ⟨-, -, -, hne, -⟩ := canKick_iff.mp hcan
    refine ⟨(d.setPlayer (becomes source)).setPlayer (becomes target), ?_,
      Room.player_setPlayer_two hsource hplayer hne hname fun p hp hp' => ?_⟩
    · have hkick := kick_of_can hcan
      simp only [performAction, deref_eq_ok.mpr hsource, deref_eq_ok.mpr hplayer, Except.ok_bind, hkick]
      rfl
    · simp [becomes, after, hp, hp']

/-- Feasibility and execution agree, and an action changes what its rule says
and nothing else of the room. -/
theorem actionFeasible_exact (d : LogicP) (action : Action) (toPlace : Int)
    (hsource : d.room.player fromPlayer = some source)
    (htarget : action.hasTarget = true → d.room.player toPlayer = some target) :
    ∃ feasible d', d.actionFeasible fromPlayer action toPlayer toPlace = .ok feasible ∧
      d.performAction fromPlayer action toPlayer toPlace = .ok (feasible, d') ∧
      (feasible = false → d' = d) ∧
      (feasible = true → d' = { d with room := d'.room } ∧
        d'.room.logicConfiguration = d.room.logicConfiguration ∧
        d'.room.playerNames = d.room.playerNames ∧
        ∀ name, d'.room.player name = (d.room.player name).map fun p =>
          after d.room.logicConfiguration source target toPlace p action) := by
  have hfeasible := actionFeasible_eq toPlace hsource htarget
  cases hcan : can d.room.logicConfiguration source target toPlace action with
  | false =>
    rw [hcan] at hfeasible
    exact ⟨false, d, hfeasible, performAction_of_cannot hsource htarget hcan, fun _ => rfl,
      fun h => absurd h (by decide)⟩
  | true =>
    rw [hcan] at hfeasible
    obtain ⟨d', hperform, hplayers⟩ := performAction_of_can hsource htarget hcan
    obtain ⟨hframe, hnames, hconf⟩ := (performAction_cases hperform).frame
    exact ⟨true, d', hfeasible, hperform, fun h => absurd h (by decide),
      fun _ => ⟨hframe, hconf, hnames, hplayers⟩⟩

/-- The target of a feasible action is in the room. -/
theorem target_of_actionFeasible
    (hfeasible : d.actionFeasible fromPlayer action toPlayer toPlace = .ok true)
    (hhas : action.hasTarget = true) : ∃ target, d.room.player toPlayer = some target := by
  obtain ⟨source, -, hfeasible⟩ := Except.bind_eq_ok.mp hfeasible
  cases htarget : d.room.player toPlayer with
  | some target => exact ⟨target, rfl⟩
  | none => cases action <;> simp [htarget, Action.hasTarget] at hfeasible hhas

/-- A reply of somebody who lives is carried out, as it is or as doing nothing. -/
theorem performAction_of_living {d' : LogicP} {done : Action} {accepted ok : Bool}
    (hsource : d.room.player fromPlayer = some source)
    (halive : source.alive d.room.logicConfiguration = true)
    (hfeasible : d.actionFeasible fromPlayer action toPlayer toPlace = .ok accepted)
    (hdone : done = if accepted then action else .DoNothing)
    (hperform : d.performAction fromPlayer done toPlayer toPlace = .ok (ok, d')) :
    ok = true ∧ (done.hasTarget = true → ∃ target, d.room.player toPlayer = some target) := by
  cases accepted with
  | true =>
    obtain rfl : done = action := hdone
    have htarget := target_of_actionFeasible hfeasible
    refine ⟨?_, htarget⟩
    obtain ⟨target, hplayer⟩ : ∃ target, done.hasTarget = true →
        d.room.player toPlayer = some target := by
      by_cases hhas : done.hasTarget = true
      · obtain ⟨target, hplayer⟩ := htarget hhas
        exact ⟨target, fun _ => hplayer⟩
      · exact ⟨source, fun h => absurd h hhas⟩
    obtain ⟨feasible, d'', hfeasible', hperform', -⟩ :=
      actionFeasible_exact d done toPlace hsource hplayer
    cases hfeasible'.symm.trans hfeasible
    cases hperform.symm.trans hperform'
    rfl
  | false =>
    obtain rfl : done = .DoNothing := hdone
    simp only [performAction, deref_eq_ok.mpr hsource, Except.ok_bind] at hperform
    cases hperform
    exact ⟨halive, fun hhas => Bool.noConfusion hhas⟩

/-- A reply of somebody dead is turned into doing nothing, and that fails. -/
theorem performAction_of_dead {accepted : Bool} (hsource : d.room.player fromPlayer = some source)
    (hdead : source.alive d.room.logicConfiguration = false)
    (hfeasible : d.actionFeasible fromPlayer action toPlayer toPlace = .ok accepted) :
    accepted = false ∧
      d.performAction fromPlayer .DoNothing toPlayer toPlace = .ok (false, d) := by
  constructor
  · cases accepted with
    | false => rfl
    | true =>
      have hcan : ∃ target,
          can d.room.logicConfiguration source target toPlace action = true := by
        by_cases hhas : action.hasTarget = true
        · obtain ⟨target, hplayer⟩ := target_of_actionFeasible hfeasible hhas
          have heq := (actionFeasible_eq toPlace hsource fun _ => hplayer).symm.trans hfeasible
          exact ⟨target, Except.ok.inj heq⟩
        · have heq : d.actionFeasible fromPlayer action toPlayer toPlace =
              .ok (can d.room.logicConfiguration source source toPlace action) :=
            actionFeasible_eq toPlace hsource fun h => absurd h hhas
          exact ⟨source, Except.ok.inj (heq.symm.trans hfeasible)⟩
      obtain ⟨target, hcan⟩ := hcan
      exact absurd (hdead.symm.trans (alive_of_can hcan)) Bool.noConfusion
  · simp only [performAction, deref_eq_ok.mpr hsource, Except.ok_bind, doNothing, hdead]
    rfl

/-- A room where a round of two players has been prepared. -/
def twoSeated : LogicP :=
  { LogicP.new .defaults with
    room := (((Room.new .defaults).addPlayer "A").2.addPlayer "B").2.prepareForRoundStart }

/-- A player of `twoSeated`. -/
def seated (name : String) (seat : Int) : Player := (Player.new .defaults name).prepareForRoundStart seat

theorem actionFeasible_exact_oneself :
    ∃ feasible d', twoSeated.actionFeasible "A" .LetMove "A" 0 = .ok feasible ∧
      twoSeated.performAction "A" .LetMove "A" 0 = .ok (feasible, d') ∧
      (feasible = false → d' = twoSeated) ∧
      (feasible = true → d' = { twoSeated with room := d'.room } ∧
        d'.room.logicConfiguration = twoSeated.room.logicConfiguration ∧
        d'.room.playerNames = twoSeated.room.playerNames ∧
        ∀ name, d'.room.player name = (twoSeated.room.player name).map fun p =>
          after twoSeated.room.logicConfiguration (seated "A" 1) (seated "A" 1) 0 p .LetMove) :=
  actionFeasible_exact twoSeated .LetMove 0 (by decide +kernel) (by decide +kernel)

end LogicP

end QMdmmCore
