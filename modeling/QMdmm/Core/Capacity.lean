import QMdmm.Core.Bounds

namespace QMdmmCore

open Data Logic

namespace Player

variable {conf : LogicConfiguration}

/-- A player with points has no more of them than `upgradeRemainingTimes` tells it can
spend, whether or not that sum has overflowed. -/
def WithinCapacity (conf : LogicConfiguration) (p : Player) : Prop :=
  0 < p.upgradePoint → p.upgradePoint ≤ p.upgradeRemainingTimes conf

theorem SameStats.upgradeRemainingTimes {p q : Player} (hstats : SameStats p q) :
    q.upgradeRemainingTimes conf = p.upgradeRemainingTimes conf := by
  simp only [Player.upgradeRemainingTimes, upgradeKnifeRemainingTimes, upgradeHorseRemainingTimes,
    upgradeMaxHpRemainingTimes, hstats.knifeDamage, hstats.horseDamage, hstats.maxHp]

theorem WithinCapacity.congr {p q : Player} (h : p.WithinCapacity conf) (hstats : SameStats p q)
    (hpoint : q.upgradePoint = p.upgradePoint) : q.WithinCapacity conf := by
  intro hpos
  rw [hstats.upgradeRemainingTimes, hpoint]
  rw [hpoint] at hpos
  exact h hpos

/-- A kill caps the points to the very sum, and moves nothing that it is made of. -/
theorem WithinCapacity.applyDamage {source target : Player} (hsource : source.WithinCapacity conf)
    (htarget : target.WithinCapacity conf) (n : Int) :
    (applyDamage conf source target n).1.WithinCapacity conf ∧
      (applyDamage conf source target n).2.WithinCapacity conf := by
  rw [applyDamage_fst, applyDamage_snd]
  constructor
  · split
    · intro _
      exact min_le_right _ _
    · exact hsource
  · exact htarget.congr ⟨rfl, rfl, rfl⟩ rfl

theorem WithinCapacity.slash {source target : Player} (hself : source.WithinCapacity conf)
    (htarget : target.WithinCapacity conf) : (source.slash conf target).2.1.WithinCapacity conf ∧
      (source.slash conf target).2.2.WithinCapacity conf := by
  have hdamage := hself.applyDamage htarget source.knifeDamage
  simp only [Player.slash]
  split
  · exact ⟨hself, htarget⟩
  · split
    · exact (hdamage.2.applyDamage hdamage.1 _).symm
    · exact hdamage

theorem WithinCapacity.kick {source target : Player} (hself : source.WithinCapacity conf)
    (htarget : target.WithinCapacity conf) : (source.kick conf target).2.1.WithinCapacity conf ∧
      (source.kick conf target).2.2.WithinCapacity conf := by
  have hdamage := hself.applyDamage htarget source.horseDamage
  simp only [Player.kick]
  split
  · exact ⟨hself, htarget⟩
  · refine ⟨hdamage.1, ?_⟩
    split
    · exact hdamage.2.congr ⟨rfl, rfl, rfl⟩ rfl
    · exact hdamage.2

/-- A round starts without points. -/
theorem withinCapacity_prepareForRoundStart (p : Player) (seat : Int) :
    (p.prepareForRoundStart seat).WithinCapacity conf :=
  fun hpos => absurd hpos (lt_irrefl 0)

end Player

namespace LogicP

theorem PerformAction.withinCapacity {d d' : LogicP} {name toPlayer : String} {action : Action}
    {toPlace : Int} {ok : Bool}
    (h : ∀ p ∈ d.room.players.toList, p.WithinCapacity d.room.logicConfiguration)
    (hperform : PerformAction d name action toPlayer toPlace ok d') :
    ∀ p ∈ d'.room.players.toList, p.WithinCapacity d.room.logicConfiguration := by
  refine hperform.forall_players h (fun p hp => ?_) (fun p hp => ?_) (fun p _ hp => ?_)
    (fun p q hp hq => hp.slash hq) (fun p q hp hq => hp.kick hq) <;>
  exact hp.congr ⟨rfl, rfl, rfl⟩ rfl

end LogicP

namespace Logic

open Player

/-- In a round nobody is ever owed more upgrades than the sum tells. -/
theorem withinCapacity_invariant : system.Invariant fun logic =>
    logic.d.state ≠ .BeforeRoundStart →
      ∀ p ∈ logic.d.room.players.toList, p.WithinCapacity logic.d.room.logicConfiguration where
  init logic hinit := by
    obtain ⟨conf, rfl⟩ := hinit
    exact fun hround => absurd rfl hround
  step logic c logic' h hnext hround := by
    obtain ⟨ret, hcall⟩ := hnext
    have hstep := call_cases hcall
    rw [hstep.room.logicConfiguration]
    rcases hstep.started hround with ⟨hbefore, hroom⟩ | ⟨hbefore, haction⟩ | hroom
    · rw [hroom]
      exact h hbefore
    · obtain ⟨_, _, _, _, _, _, hperform, hroom⟩ := haction
      rw [hroom]
      exact hperform.withinCapacity (h hbefore)
    · rw [hroom]
      intro p hp
      obtain ⟨seat, old, _, _, _, rfl⟩ := Room.mem_prepareForRoundStart hp
      exact withinCapacity_prepareForRoundStart old seat

end Logic

end QMdmmCore
