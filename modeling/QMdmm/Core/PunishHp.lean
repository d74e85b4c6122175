import Mathlib.Data.Rat.Floor
import QMdmm.Core.Deserialize
import QMdmm.Core.Player
import QMdmm.Support.Rounding

namespace QMdmmCore

open Data

namespace LogicConfiguration.PunishHpRoundStrategy

/-- What a strategy is to make of an exact number. -/
def round : PunishHpRoundStrategy → ℚ → ℤ
  | .RoundDown, x => ⌊x⌋
  | .RoundToNearest45, x => ⌊x + 1 / 2⌋
  | .RoundUp, x => ⌈x⌉
  | .PlusOne, x => ⌊x⌋ + 1

theorem round_mono (strategy : PunishHpRoundStrategy) {x y : ℚ} (h : x ≤ y) :
    strategy.round x ≤ strategy.round y := by
  cases strategy with
  | RoundDown => exact Int.floor_mono h
  | RoundToNearest45 => exact Int.floor_mono (add_le_add_left h _)
  | RoundUp => exact Int.ceil_mono h
  | PlusOne => exact Int.add_le_add_right (Int.floor_mono h) 1

/-- The strategies are enumerated from the mildest to the harshest. -/
theorem round_le_round {strategy harsher : PunishHpRoundStrategy}
    (h : strategy.toInt ≤ harsher.toInt) (x : ℚ) : strategy.round x ≤ harsher.round x := by
  have hdown : ⌊x⌋ ≤ ⌊x + 1 / 2⌋ := Int.floor_mono (by linarith)
  have hnearest := floor_add_half_le_ceil x
  have hup := Int.ceil_le_floor_add_one x
  cases strategy <;> cases harsher <;> simp only [toInt, round] at h ⊢ <;> omega

/-- A whole number needs no rounding. -/
theorem round_intCast {strategy : PunishHpRoundStrategy} (h : strategy ≠ .PlusOne) (n : ℤ) :
    strategy.round n = n := by
  cases strategy with
  | RoundDown => exact Int.floor_intCast n
  | RoundToNearest45 =>
    have hhalf : ⌊(1 / 2 : ℚ)⌋ = 0 := by norm_num
    rw [round, Int.floor_intCast_add, hhalf, add_zero]
  | RoundUp => exact Int.ceil_intCast n
  | PlusOne => exact absurd rfl h

end LogicConfiguration.PunishHpRoundStrategy

namespace Player

variable {conf : LogicConfiguration} {p : Player}

/-- A city, and numbers that are none too large to be rounded. -/
structure Punishable (conf : LogicConfiguration) (p : Player) : Prop where
  place : p.place ≠ Village
  maxHp : 0 ≤ p.maxHp
  modifier : 0 < conf.punishHpModifier
  twice : FitsInt (2 * p.maxHp)
  sum : FitsInt (p.maxHp + conf.punishHpModifier - 1)

/-- The integer divisions add up to one rounding of the exact quotient. -/
theorem Punishable.slashPunishHp_eq (h : p.Punishable conf) :
    p.slashPunishHp conf =
      conf.punishHpRoundStrategy.round (p.maxHp / conf.punishHpModifier : ℚ) := by
  obtain ⟨hplace, hmaxHp, hmodifier, htwice, hsum⟩ := h
  unfold FitsInt at htwice hsum
  rw [slashPunishHp, if_neg hplace, if_neg (by omega)]
  cases conf.punishHpRoundStrategy with
  | RoundDown =>
    dsimp only [LogicConfiguration.PunishHpRoundStrategy.round]
    rw [Int.tdiv_eq_ediv_of_nonneg hmaxHp, floor_intCast_div ℚ _ hmodifier]
  | RoundToNearest45 =>
    have hwraps : int32 (p.maxHp * 2) = p.maxHp * 2 :=
      int32_eq_self (by unfold intMax; omega) (by unfold intMax; omega)
    have hquotient : 0 ≤ p.maxHp * 2 / conf.punishHpModifier :=
      Int.ediv_nonneg (by omega) hmodifier.le
    dsimp only [LogicConfiguration.PunishHpRoundStrategy.round]
    rw [hwraps, Int.tdiv_eq_ediv_of_nonneg (show 0 ≤ p.maxHp * 2 by omega),
      Int.tdiv_eq_ediv_of_nonneg (by omega), floor_intCast_div_add_half ℚ _ hmodifier]
  | RoundUp =>
    have hwraps : int32 (p.maxHp + conf.punishHpModifier - 1) =
        p.maxHp + conf.punishHpModifier - 1 :=
      int32_eq_self (by unfold intMax; omega) (by unfold intMax; omega)
    dsimp only [LogicConfiguration.PunishHpRoundStrategy.round]
    rw [hwraps, Int.tdiv_eq_ediv_of_nonneg (by omega), ceil_intCast_div ℚ _ hmodifier]
  | PlusOne =>
    have hle := Int.ediv_le_self conf.punishHpModifier hmaxHp
    have hquotient := Int.ediv_nonneg hmaxHp hmodifier.le
    have hwraps : int32 (p.maxHp / conf.punishHpModifier + 1) =
        p.maxHp / conf.punishHpModifier + 1 :=
      int32_eq_self (by unfold intMax; omega) (by unfold intMax; omega)
    dsimp only [LogicConfiguration.PunishHpRoundStrategy.round]
    rw [Int.tdiv_eq_ediv_of_nonneg hmaxHp, hwraps, floor_intCast_div ℚ _ hmodifier]

/-- The punish HP is the exact quotient, rounded as the strategy says. So a harsher strategy
punishes no less, nor does a larger `maxHp`; and no more than `maxHp` is lost, unless one
is added to every quotient. -/
theorem slashPunishHp_exact (h : p.Punishable conf) :
    p.slashPunishHp conf =
        conf.punishHpRoundStrategy.round (p.maxHp / conf.punishHpModifier : ℚ) ∧
      (∀ conf' : LogicConfiguration, conf'.punishHpModifier = conf.punishHpModifier →
        conf.punishHpRoundStrategy.toInt ≤ conf'.punishHpRoundStrategy.toInt →
          p.slashPunishHp conf ≤ p.slashPunishHp conf') ∧
      (∀ q : Player, q.place ≠ Village → 0 ≤ q.maxHp → q.maxHp ≤ p.maxHp →
        q.slashPunishHp conf ≤ p.slashPunishHp conf) ∧
      (conf.punishHpRoundStrategy ≠ .PlusOne → p.slashPunishHp conf ≤ p.maxHp) := by
  have hpos : (0 : ℚ) < conf.punishHpModifier := Int.cast_pos.mpr h.modifier
  refine ⟨h.slashPunishHp_eq, fun conf' hmodifier hharsher => ?_,
    fun q hplace hmaxHp hle => ?_, fun hstrategy => ?_⟩
  · have h' : p.Punishable conf' :=
      ⟨h.place, h.maxHp, hmodifier ▸ h.modifier, h.twice, hmodifier ▸ h.sum⟩
    rw [h.slashPunishHp_eq, h'.slashPunishHp_eq, hmodifier]
    exact LogicConfiguration.PunishHpRoundStrategy.round_le_round hharsher _
  · have hq : q.Punishable conf := by
      obtain ⟨-, -, hmodifier, htwice, hsum⟩ := h
      unfold FitsInt at htwice hsum
      refine ⟨hplace, hmaxHp, hmodifier, ?_, ?_⟩ <;> unfold FitsInt <;> omega
    rw [hq.slashPunishHp_eq, h.slashPunishHp_eq]
    apply LogicConfiguration.PunishHpRoundStrategy.round_mono
    rw [div_le_div_iff_of_pos_right hpos]
    exact Int.cast_le.mpr hle
  · have hwhole : (1 : ℚ) ≤ conf.punishHpModifier := by
      have hone : 1 ≤ conf.punishHpModifier := h.modifier
      exact_mod_cast hone
    have hquotient : (p.maxHp / conf.punishHpModifier : ℚ) ≤ p.maxHp :=
      div_le_self (Int.cast_nonneg h.maxHp) hwhole
    calc p.slashPunishHp conf
        = conf.punishHpRoundStrategy.round (p.maxHp / conf.punishHpModifier : ℚ) := h.slashPunishHp_eq
      _ ≤ conf.punishHpRoundStrategy.round p.maxHp :=
        LogicConfiguration.PunishHpRoundStrategy.round_mono _ hquotient
      _ = p.maxHp := LogicConfiguration.PunishHpRoundStrategy.round_intCast hstrategy _

/-- Of seven points, the default rules take four: half of them, and what lies half-way
goes up. -/
theorem slashPunishHp_exact_seven :
    slashPunishHp .defaults { Player.new .defaults "A" with place := 1, maxHp := 7 } =
        LogicConfiguration.PunishHpRoundStrategy.RoundToNearest45.round (7 / 2) ∧
      slashPunishHp .defaults { Player.new .defaults "A" with place := 1, maxHp := 7 } ≤ 7 := by
  have hexact := @slashPunishHp_exact .defaults
    { Player.new .defaults "A" with place := 1, maxHp := 7 }
    ⟨by decide, by decide, by decide, by decide, by decide⟩
  exact ⟨hexact.1, hexact.2.2.2 (by decide)⟩

end Player

end QMdmmCore
