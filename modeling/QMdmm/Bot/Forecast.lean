import QMdmm.Bot.Bot
import QMdmm.Core.ActionFrame

namespace QMdmmCore.Player

variable {conf : LogicConfiguration} {source target : Player}

/-- The two fields a punished slash computes with hold an `int`, as their type says. -/
structure HpInts (p : Player) : Prop where
  hp : FitsInt p.hp
  maxHp : FitsInt p.maxHp

/-- A division by a positive number stays in the range. -/
theorem tdiv_ge {x k : Int} (hx : -2147483648 ≤ x) (hk : 0 < k) : -2147483648 ≤ x.tdiv k := by
  have hle := Int.natAbs_tdiv_le_natAbs x k
  rcases le_total 0 x with hpos | hneg
  · have := Int.tdiv_nonneg hpos hk.le
    omega
  · omega

theorem slashPunishHp_ge (h : HpInts source) : -2147483648 ≤ source.slashPunishHp conf := by
  have hwrap (x : Int) : -2147483648 ≤ int32 x := Int.le_bmod (by omega)
  unfold slashPunishHp
  split
  · omega
  · split
    · omega
    · next hmodifier =>
      have hpos : 0 < conf.punishHpModifier := not_le.mp hmodifier
      cases conf.punishHpRoundStrategy with
      | RoundDown => exact tdiv_ge h.maxHp.1 hpos
      | RoundToNearest45 =>
        have hquotient := tdiv_ge (hwrap (source.maxHp * 2)) hpos
        exact tdiv_ge (by omega) (by decide)
      | RoundUp => exact tdiv_ge (hwrap _) hpos
      | PlusOne => exact hwrap _

theorem slash_of_cannot (hcannot : source.canSlash conf target = false) :
    source.slash conf target = (false, source, target) := by
  simp [slash, hcannot]

theorem kick_of_cannot (hcannot : source.canKick conf target = false) :
    source.kick conf target = (false, source, target) := by
  simp [kick, hcannot]

/-- The slash succeeds and leaves the slashing player alive. -/
def slashSpares (conf : LogicConfiguration) (source target : Player) : Bool :=
  (source.slash conf target).1 && (source.slash conf target).2.1.alive conf

/-- The slash succeeds and leaves the slashed player dead. -/
def slashFinishes (conf : LogicConfiguration) (source target : Player) : Bool :=
  (source.slash conf target).1 && (source.slash conf target).2.2.dead conf

def kickFinishes (conf : LogicConfiguration) (source target : Player) : Bool :=
  (source.kick conf target).1 && (source.kick conf target).2.2.dead conf

theorem slashSpares_eq (conf : LogicConfiguration) (source target : Player) :
    slashSpares conf source target = (source.canSlash conf target &&
      !(source.isPunished conf && deadAtHp conf (source.hpAfter (source.slashPunishHp conf)))) := by
  unfold slashSpares
  cases hcan : source.canSlash conf target with
  | false =>
    rw [slash_of_cannot hcan]
    rfl
  | true =>
    obtain ⟨halive, -⟩ := canSlash_iff.mp hcan
    have hlives : deadAtHp conf source.hp = false := by simpa [alive, dead] using halive
    rw [slash_of_can hcan]
    simp only [after, if_true, Bool.true_and, alive, dead]
    cases source.isPunished conf <;> simp [hlives]

theorem slashFinishes_eq (conf : LogicConfiguration) (source target : Player) :
    slashFinishes conf source target =
      (source.canSlash conf target && deadAtHp conf (target.hpAfter source.knifeDamage)) := by
  unfold slashFinishes
  cases hcan : source.canSlash conf target with
  | false =>
    rw [slash_of_cannot hcan]
    rfl
  | true =>
    obtain ⟨-, -, -, hne, -⟩ := canSlash_iff.mp hcan
    rw [slash_of_can hcan]
    simp only [after, hne.symm, if_false, if_true, Bool.true_and, dead]

theorem kickFinishes_eq (conf : LogicConfiguration) (source target : Player) :
    kickFinishes conf source target =
      (source.canKick conf target && deadAtHp conf (target.hpAfter source.horseDamage)) := by
  unfold kickFinishes
  cases hcan : source.canKick conf target with
  | false =>
    rw [kick_of_cannot hcan]
    rfl
  | true =>
    obtain ⟨-, -, -, hne, -⟩ := canKick_iff.mp hcan
    rw [kick_of_can hcan]
    simp only [after, hne.symm, if_false, if_true, Bool.true_and, dead]

end QMdmmCore.Player

namespace QMdmmBot.Bot

open QMdmmCore Data QMdmmNetworking Player

variable {Score : Type}

/-- The forecasts of a bot come true: what it holds for a safe slash at a peer
is one that succeeds and that it survives, and a blow it holds for a fatal one
is a slash or a kick that succeeds and leaves its victim dead. -/
structure ForecastsTrue (bot : Bot Score) (p peer : Player) : Prop where
  canSlashSafely : bot.canSlashSafely peer = true ↔
    slashSpares bot.logicConfiguration p peer = true
  blowWouldFinish : ∀ attacker victim, attacker ∈ bot.room.players.toList →
    victim ∈ bot.room.players.toList → attacker.objectName ≠ victim.objectName →
    (bot.blowWouldFinish attacker victim = true ↔
      slashFinishes bot.logicConfiguration attacker victim = true ∨
        kickFinishes bot.logicConfiguration attacker victim = true)

variable {bot : Bot Score} {self peer : Player}

theorem blowWouldFinish_iff (bot : Bot Score) (attacker victim : Player) :
    bot.blowWouldFinish attacker victim = true ↔
      slashFinishes bot.logicConfiguration attacker victim = true ∨
        kickFinishes bot.logicConfiguration attacker victim = true := by
  rw [slashFinishes_eq, kickFinishes_eq]
  unfold blowWouldFinish hpAfter
  dsimp only
  split
  · next hslash => exact iff_of_true rfl (.inl hslash)
  · next hslash => simp [hslash]

/-- A subtracted punishment that is negative brings a living player nowhere near
its death, unless the difference leaves the range and comes back as a negative number. -/
theorem deadAtHp_punished {conf : LogicConfiguration} (hints : HpInts self)
    (halive : self.alive conf = true) (hneg : self.slashPunishHp conf < 0) :
    deadAtHp conf (self.hpAfter (self.slashPunishHp conf)) = true ↔
      intMax < self.hp - self.slashPunishHp conf := by
  have hge : -2147483648 ≤ self.slashPunishHp conf := slashPunishHp_ge hints
  have hhp : 0 ≤ self.hp := by
    simp only [alive, dead, deadAtHp, Bool.not_eq_true'] at halive
    split at halive <;> simp at halive <;> omega
  have hmax := hints.hp.2
  unfold hpAfter
  constructor
  · intro hdead
    by_contra hfits
    rw [int32_eq_self (by unfold intMax; omega) (by omega)] at hdead
    unfold deadAtHp at hdead
    split at hdead <;> simp at hdead <;> omega
  · intro hover
    have hwrapped : int32 (self.hp - self.slashPunishHp conf) < 0 := by
      unfold int32 Int.bmod
      unfold intMax at hover
      dsimp only
      split <;> omega
    unfold deadAtHp
    split <;> simp <;> omega

/-- The forecast of a safe slash comes true exactly if it is no slash whose
negative punishment the subtraction carries out of the range. -/
theorem canSlashSafely_iff (hself : bot.selfPlayer = some self) (hints : HpInts self) :
    (bot.canSlashSafely peer = true ↔ slashSpares bot.logicConfiguration self peer = true) ↔
      (self.canSlash bot.logicConfiguration peer = true →
        self.hp - self.slashPunishHp bot.logicConfiguration ≤ intMax) := by
  have hforecast : bot.canSlashSafely peer = (self.canSlash bot.logicConfiguration peer &&
      !deadAtHp bot.logicConfiguration
        (self.hpAfter (self.slashPunishHp bot.logicConfiguration))) := by
    simp only [Bot.canSlashSafely, hself, hpAfter]
    cases self.canSlash bot.logicConfiguration peer <;> rfl
  rw [hforecast, slashSpares_eq]
  generalize bot.logicConfiguration = conf
  cases hcan : self.canSlash conf peer with
  | false => simp
  | true =>
    obtain ⟨halive, -⟩ := canSlash_iff.mp hcan
    have hmax := hints.hp.2
    rcases lt_trichotomy (self.slashPunishHp conf) 0 with hneg | hzero | hpos
    · have hunpunished : self.isPunished conf = false := decide_eq_false (by omega)
      have hdead := deadAtHp_punished hints halive hneg
      simp only [hunpunished, Bool.true_and, Bool.false_and, Bool.not_false, iff_true, true_implies,
        Bool.not_eq_true', ← not_lt, ← hdead, Bool.not_eq_true]
    · have hlives : deadAtHp conf (self.hpAfter (self.slashPunishHp conf)) = false := by
        have hhp : self.hpAfter 0 = self.hp := by
          unfold hpAfter int32
          obtain ⟨hlo, hhi⟩ := hints.hp
          rw [Int.sub_zero, Int.bmod_eq_of_le (by omega) (by omega)]
        rw [hzero, hhp]
        simpa [alive, dead] using halive
      rw [hlives]
      refine iff_of_true (by simp) fun _ => ?_
      unfold intMax
      omega
    · have hpunished : self.isPunished conf = true := decide_eq_true hpos
      rw [hpunished]
      refine iff_of_true (by simp) fun _ => ?_
      unfold intMax
      omega

theorem forecastsTrue_iff (hself : bot.selfPlayer = some self) (hints : HpInts self) :
    bot.ForecastsTrue self peer ↔ (self.canSlash bot.logicConfiguration peer = true →
      self.hp - self.slashPunishHp bot.logicConfiguration ≤ intMax) := by
  rw [← canSlashSafely_iff hself hints]
  constructor
  · exact fun h => h.canSlashSafely
  · exact fun h => ⟨h, fun attacker victim _ _ _ => bot.blowWouldFinish_iff attacker victim⟩

/-- Hit points up to the largest `int`, half of which a slash costs, rounded up. -/
def immenseRules : QJsonValue := .object [
  ("initialMaxHp", .ofInt 2147483647), ("maximumMaxHp", .ofInt 2147483647),
  ("punishHpModifier", .ofInt 2), ("punishHpRoundStrategy", .ofInt 2)]

def immense : LogicConfiguration := (LogicConfiguration.deserialize immenseRules).getD .defaults

/-- A player in a city, with a knife. -/
def armed (conf : LogicConfiguration) (name : String) : Player :=
  { (Player.new conf name).prepareForRoundStart 1 with knife := true }

/-- A bot of that name and one peer, both in the same city. -/
def botBeside (conf : LogicConfiguration) : Bot Int where
  client := { ClientP.new "A" "A" with
    room := ((((Room.new conf).addPlayer "A").2.addPlayer "B").2.setPlayer (armed conf "A")).setPlayer
      (armed conf "B") }
  targetScore := fun _ => 0

theorem forecastsTrue_iff_defaults :
    (botBeside .defaults).ForecastsTrue (armed .defaults "A") (armed .defaults "B") ↔
      ((armed .defaults "A").canSlash (botBeside .defaults).logicConfiguration (armed .defaults "B") =
          true → (armed .defaults "A").hp -
            (armed .defaults "A").slashPunishHp (botBeside .defaults).logicConfiguration ≤ intMax) :=
  forecastsTrue_iff (by decide +kernel) ⟨by decide +kernel, by decide +kernel⟩

/-- The punishment itself leaves the range, so that the slash goes unpunished,
and the bot takes it for its death. -/
theorem not_forecastsTrue : immense.Accepted ∧
    ¬ (botBeside immense).ForecastsTrue (armed immense "A") (armed immense "B") := by
  refine ⟨⟨immenseRules, rfl⟩, fun h => ?_⟩
  have hforecast : (botBeside immense).canSlashSafely (armed immense "B") = false := by decide +kernel
  have hspares : slashSpares immense (armed immense "A") (armed immense "B") = true := by decide +kernel
  have hsafe := h.canSlashSafely.mpr hspares
  rw [hforecast] at hsafe
  cases hsafe

end QMdmmBot.Bot
