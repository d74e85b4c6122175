import QMdmm.Core.LogicConfiguration
import QMdmm.Support.OptionFold

namespace QMdmmCore

namespace LogicConfiguration

/-- The value of an enumerator. -/
def PunishHpRoundStrategy.toInt : PunishHpRoundStrategy → Int
  | .RoundDown => 0
  | .RoundToNearest45 => 1
  | .RoundUp => 2
  | .PlusOne => 3

/-- The local variables of `LogicConfiguration::deserialize`: the number read
for each numeric key, to begin with the default one, and the members taken over. -/
structure Locals where
  parsed : String → Int
  result : QJsonObject

namespace Locals

def start : Locals := ⟨defaults.intMember, []⟩

/-- `CONF_INT`: nothing is left of a member that does not parse. -/
def confInt (ob : QJsonObject) (locals : Locals) (key : String) : Option Locals :=
  if ob.contains key then
    (parseNonNegativeInt (ob.value key)).map fun d =>
      ⟨Function.update locals.parsed key d, locals.result.insert key (ob.value key)⟩
  else some locals

/-- `CONF_BOOL`. -/
def confBool (ob : QJsonObject) (locals : Locals) (key : String) : Option Locals :=
  if ob.contains key then
    if !(ob.value key).isBool then none
    else some { locals with result := locals.result.insert key (ob.value key) }
  else some locals

/-- All the members, in the order of the source. -/
def read (ob : QJsonObject) : Option Locals := do
  let locals ← intKeys.foldlM (confInt ob) start
  boolKeys.foldlM (confBool ob) locals

end Locals

/-- `LogicConfiguration::deserialize` on an object `self`: what it returns, and
the object afterwards. -/
def deserializeOnto (self : LogicConfiguration) : QJsonValue → Bool × LogicConfiguration
  | .object ob =>
    match Locals.read ob with
    | none => (false, self)
    | some locals =>
      if locals.parsed "punishHpRoundStrategy" > PunishHpRoundStrategy.PlusOne.toInt then (false, self)
      else if locals.parsed "initialKnifeDamage" > locals.parsed "maximumKnifeDamage" then (false, self)
      else if locals.parsed "initialHorseDamage" > locals.parsed "maximumHorseDamage" then (false, self)
      else if locals.parsed "initialMaxHp" > locals.parsed "maximumMaxHp" then (false, self)
      else (true, ⟨locals.result⟩)
  | _ => (false, self)

/-- The value an object gives for a key: its own, else the default one. -/
def given (ob : QJsonObject) (key : String) : QJsonValue :=
  if ob.contains key then ob.value key else defaults.object.value key

/-- What a value for a numeric key has to be. -/
def IsNonNegativeInt (v : QJsonValue) : Prop := ∃ n, 0 ≤ n ∧ n ≤ intMax ∧ v = .ofInt n

/-- An initial value is not above its maximum. -/
def InOrder (initial maximum : QJsonValue) : Prop :=
  ∃ i m, initial = .ofInt i ∧ maximum = .ofInt m ∧ i ≤ m

/-- The objects rules may be read from. -/
structure Legal (ob : QJsonObject) : Prop where
  ints : ∀ key ∈ intKeys, ob.contains key = true → IsNonNegativeInt (ob.value key)
  bools : ∀ key ∈ boolKeys, ob.contains key = true → ∃ b, ob.value key = .bool b
  strategy : ∃ strategy : PunishHpRoundStrategy,
    given ob "punishHpRoundStrategy" = .ofInt strategy.toInt
  knifeDamage : InOrder (given ob "initialKnifeDamage") (given ob "maximumKnifeDamage")
  horseDamage : InOrder (given ob "initialHorseDamage") (given ob "maximumHorseDamage")
  maxHp : InOrder (given ob "initialMaxHp") (given ob "maximumMaxHp")

/-- Every getter of a configuration returns what an object gives for its key,
and the configuration holds no key of another name. -/
structure Answers (ob : QJsonObject) (conf : LogicConfiguration) : Prop where
  initialKnifeDamage : given ob "initialKnifeDamage" = .ofInt conf.initialKnifeDamage
  maximumKnifeDamage : given ob "maximumKnifeDamage" = .ofInt conf.maximumKnifeDamage
  initialHorseDamage : given ob "initialHorseDamage" = .ofInt conf.initialHorseDamage
  maximumHorseDamage : given ob "maximumHorseDamage" = .ofInt conf.maximumHorseDamage
  initialMaxHp : given ob "initialMaxHp" = .ofInt conf.initialMaxHp
  maximumMaxHp : given ob "maximumMaxHp" = .ofInt conf.maximumMaxHp
  punishHpModifier : given ob "punishHpModifier" = .ofInt conf.punishHpModifier
  punishHpRoundStrategy :
    given ob "punishHpRoundStrategy" = .ofInt conf.punishHpRoundStrategy.toInt
  zeroHpAsDead : given ob "zeroHpAsDead" = .bool conf.zeroHpAsDead
  enableLetMove : given ob "enableLetMove" = .bool conf.enableLetMove
  canBuyOnlyInInitialCity : given ob "canBuyOnlyInInitialCity" = .bool conf.canBuyOnlyInInitialCity
  known : ∀ key, conf.object.contains key = true → key ∈ intKeys ++ boolKeys

variable {ob : QJsonObject} {key : String}

theorem parseNonNegativeInt_eq_some {v : QJsonValue} {n : Int} :
    parseNonNegativeInt v = some n ↔ 0 ≤ n ∧ n ≤ intMax ∧ v = .ofInt n := by
  constructor
  · intro hparse
    obtain ⟨hlo, hhi, -⟩ := parseNonNegativeInt_bounds hparse
    refine ⟨hlo, hhi, ?_⟩
    unfold parseNonNegativeInt at hparse
    split at hparse
    · next d =>
      split at hparse
      · cases hparse
      · next hd =>
        simp only [not_or, ne_eq, not_not] at hd
        rw [← Option.some.inj hparse, QJsonValue.ofInt, (Rat.den_eq_one_iff d).mp hd.1]
    · cases hparse
  · rintro ⟨hlo, hhi, rfl⟩
    exact parseNonNegativeInt_ofInt hlo hhi

theorem confInt_iff : confInt ob key = true ↔
    (ob.contains key = true → IsNonNegativeInt (ob.value key)) := by
  simp only [confInt, Bool.or_eq_true, Bool.not_eq_true', Option.isSome_iff_exists,
    parseNonNegativeInt_eq_some, IsNonNegativeInt]
  cases ob.contains key <;> simp

theorem confBool_iff : confBool ob key = true ↔
    (ob.contains key = true → ∃ b, ob.value key = .bool b) := by
  have hbool : (ob.value key).isBool = true ↔ ∃ b, ob.value key = .bool b := by
    cases ob.value key <;> simp [QJsonValue.isBool]
  simp only [confBool, Bool.or_eq_true, Bool.not_eq_true', hbool]
  cases ob.contains key <;> simp

/-- Of the members of some keys, the present ones have been taken over. -/
structure TakenOver (ob : QJsonObject) (keys : List String) (before after : QJsonObject) : Prop where
  contains : ∀ key, after.contains key = (decide (key ∈ keys) && ob.contains key || before.contains key)
  value : ∀ key, after.value key =
    if key ∈ keys ∧ ob.contains key = true then ob.value key else before.value key

theorem TakenOver.nil (ob result : QJsonObject) : TakenOver ob [] result result :=
  ⟨fun key => by simp, fun key => by simp⟩

theorem TakenOver.cons {keys : List String} {before next after : QJsonObject}
    (hnext : next = if ob.contains key then before.insert key (ob.value key) else before)
    (hrest : TakenOver ob keys next after) : TakenOver ob (key :: keys) before after := by
  subst hnext
  constructor
  · intro other
    rw [hrest.contains]
    by_cases hkey : key = other
    · subst hkey
      cases hpresent : ob.contains key <;> simp
    · cases ob.contains key <;> simp [hkey, Ne.symm hkey]
  · intro other
    rw [hrest.value]
    by_cases hkey : key = other
    · subst hkey
      cases hpresent : ob.contains key <;> simp
    · cases ob.contains key <;> simp [hkey, Ne.symm hkey]

theorem TakenOver.append {keys keys' : List String} {before next after : QJsonObject}
    (h : TakenOver ob keys before next) (h' : TakenOver ob keys' next after) :
    TakenOver ob (keys ++ keys') before after := by
  constructor
  · intro key
    rw [h'.contains, h.contains, ← Bool.or_assoc, ← Bool.and_or_distrib_right,
      Bool.or_comm (decide (key ∈ keys'))]
    simp
  · intro key
    rw [h'.value, h.value]
    by_cases hkey : key ∈ keys <;> by_cases hkey' : key ∈ keys' <;>
      cases ob.contains key <;> simp [hkey, hkey']

namespace Locals

/-- A run of `CONF_INT` blocks over members that all parse. -/
theorem foldlM_confInt {keys : List String}
    (hall : ∀ key ∈ keys, LogicConfiguration.confInt ob key = true) (locals : Locals) :
    ∃ next, keys.foldlM (confInt ob) locals = some next ∧
      (∀ key, next.parsed key = if key ∈ keys ∧ ob.contains key = true then
        (parseNonNegativeInt (ob.value key)).getD 0 else locals.parsed key) ∧
      TakenOver ob keys locals.result next.result := by
  induction keys generalizing locals with
  | nil => exact ⟨locals, rfl, fun key => by simp, .nil ob _⟩
  | cons head rest ih =>
    obtain ⟨hhead, hrest⟩ := List.forall_mem_cons.mp hall
    cases hpresent : ob.contains head with
    | false =>
      obtain ⟨next, hnext, hparsed, htaken⟩ := ih hrest locals
      refine ⟨next, ?_, fun key => ?_, .cons (by rw [hpresent]; rfl) htaken⟩
      · rw [List.foldlM_cons, confInt, hpresent]
        exact hnext
      · rw [hparsed key]
        by_cases hkey : key = head
        · subst hkey
          simp [hpresent]
        · simp [hkey]
    | true =>
      simp only [LogicConfiguration.confInt, hpresent, Bool.not_true, Bool.false_or,
        Option.isSome_iff_exists] at hhead
      obtain ⟨d, hd⟩ := hhead
      obtain ⟨next, hnext, hparsed, htaken⟩ := ih hrest
        ⟨Function.update locals.parsed head d, locals.result.insert head (ob.value head)⟩
      refine ⟨next, ?_, fun key => ?_, .cons (by rw [hpresent]; rfl) htaken⟩
      · rw [List.foldlM_cons, confInt, hpresent, if_pos rfl, hd]
        exact hnext
      · rw [hparsed key]
        by_cases hkey : key = head
        · subst hkey
          simp [hpresent, hd]
        · simp [hkey]

theorem foldlM_confBool {keys : List String}
    (hall : ∀ key ∈ keys, LogicConfiguration.confBool ob key = true) (locals : Locals) :
    ∃ next, keys.foldlM (confBool ob) locals = some next ∧ next.parsed = locals.parsed ∧
      TakenOver ob keys locals.result next.result := by
  induction keys generalizing locals with
  | nil => exact ⟨locals, rfl, rfl, .nil ob _⟩
  | cons head rest ih =>
    obtain ⟨hhead, hrest⟩ := List.forall_mem_cons.mp hall
    cases hpresent : ob.contains head with
    | false =>
      obtain ⟨next, hnext, hparsed, htaken⟩ := ih hrest locals
      refine ⟨next, ?_, hparsed, .cons (by rw [hpresent]; rfl) htaken⟩
      rw [List.foldlM_cons, confBool, hpresent]
      exact hnext
    | true =>
      simp only [LogicConfiguration.confBool, hpresent, Bool.not_true, Bool.false_or] at hhead
      obtain ⟨next, hnext, hparsed, htaken⟩ := ih hrest
        { locals with result := locals.result.insert head (ob.value head) }
      refine ⟨next, ?_, hparsed, .cons (by rw [hpresent]; rfl) htaken⟩
      rw [List.foldlM_cons, confBool, hpresent, hhead]
      exact hnext

/-- What is left of members that all have their types. -/
theorem read_of_typed (hints : ∀ key ∈ intKeys, LogicConfiguration.confInt ob key = true)
    (hbools : ∀ key ∈ boolKeys, LogicConfiguration.confBool ob key = true) :
    ∃ locals, read ob = some locals ∧ (∀ key ∈ intKeys, locals.parsed key = parsedInt ob key) ∧
      TakenOver ob (intKeys ++ boolKeys) [] locals.result := by
  obtain ⟨locals, hlocals, hparsed, htaken⟩ := foldlM_confInt hints start
  obtain ⟨locals', hlocals', hparsed', htaken'⟩ := foldlM_confBool hbools locals
  refine ⟨locals', ?_, fun key hkey => ?_, htaken.append htaken'⟩
  · rw [read, hlocals]
    exact hlocals'
  · rw [hparsed', hparsed, parsedInt]
    simp only [hkey, true_and]
    rfl

/-- One member of the wrong type is enough. -/
theorem read_eq_none_of_int (hkey : key ∈ intKeys)
    (hwrong : LogicConfiguration.confInt ob key = false) : read ob = none := by
  simp only [LogicConfiguration.confInt, Bool.or_eq_false_iff, Bool.not_eq_false',
    Option.isSome_eq_false_iff, Option.isNone_iff_eq_none] at hwrong
  rw [read, List.foldlM_eq_none hkey fun locals => by rw [confInt, hwrong.1, hwrong.2]; rfl]
  rfl

theorem read_eq_none_of_bool (hkey : key ∈ boolKeys)
    (hwrong : LogicConfiguration.confBool ob key = false) : read ob = none := by
  simp only [LogicConfiguration.confBool, Bool.or_eq_false_iff, Bool.not_eq_false'] at hwrong
  rw [read]
  cases intKeys.foldlM (confInt ob) start with
  | none => rfl
  | some locals =>
    exact List.foldlM_eq_none hkey (fun locals => by rw [confBool, hwrong.1, hwrong.2]; rfl) locals

end Locals

theorem parsedInt_given (hkey : key ∈ intKeys) (hconf : confInt ob key = true) :
    given ob key = .ofInt (parsedInt ob key) := by
  unfold given parsedInt
  split
  · next hpresent =>
    obtain ⟨n, hlo, hhi, hn⟩ := confInt_iff.mp hconf hpresent
    rw [hn, parseNonNegativeInt_ofInt hlo hhi]
    rfl
  · simp only [intKeys, List.mem_cons, List.not_mem_nil, or_false] at hkey
    rcases hkey with rfl | rfl | rfl | rfl | rfl | rfl | rfl | rfl <;> rfl

theorem given_bool (hkey : key ∈ boolKeys) (hconf : confBool ob key = true) :
    ∃ b, given ob key = .bool b := by
  unfold given
  split
  · next hpresent => exact confBool_iff.mp hconf hpresent
  · simp only [boolKeys, List.mem_cons, List.not_mem_nil, or_false] at hkey
    rcases hkey with rfl | rfl | rfl <;> exact ⟨_, rfl⟩

theorem PunishHpRoundStrategy.toInt_ofInt {n : Int} (hlo : 0 ≤ n) (hhi : n ≤ 3) :
    (ofInt n).toInt = n := by
  obtain rfl | rfl | rfl | rfl : n = 0 ∨ n = 1 ∨ n = 2 ∨ n = 3 := by omega
  all_goals rfl

theorem PunishHpRoundStrategy.toInt_le (strategy : PunishHpRoundStrategy) : strategy.toInt ≤ 3 := by
  cases strategy <;> decide

/-- The comparisons `deserialize` makes, of the numbers it has read. -/
theorem legal_iff : Legal ob ↔
    (∀ key ∈ intKeys, confInt ob key = true) ∧ (∀ key ∈ boolKeys, confBool ob key = true) ∧
      parsedInt ob "punishHpRoundStrategy" ≤ 3 ∧
      parsedInt ob "initialKnifeDamage" ≤ parsedInt ob "maximumKnifeDamage" ∧
      parsedInt ob "initialHorseDamage" ≤ parsedInt ob "maximumHorseDamage" ∧
      parsedInt ob "initialMaxHp" ≤ parsedInt ob "maximumMaxHp" := by
  have hinOrder {initial maximum : String} (hall : ∀ key ∈ intKeys, confInt ob key = true)
      (hinitial : initial ∈ intKeys) (hmaximum : maximum ∈ intKeys) :
      InOrder (given ob initial) (given ob maximum) ↔ parsedInt ob initial ≤ parsedInt ob maximum := by
    rw [parsedInt_given hinitial (hall _ hinitial), parsedInt_given hmaximum (hall _ hmaximum)]
    constructor
    · rintro ⟨i, m, hi, hm, hle⟩
      rwa [QJsonValue.ofInt_inj.mp hi, QJsonValue.ofInt_inj.mp hm]
    · exact fun hle => ⟨_, _, rfl, rfl, hle⟩
  constructor
  · intro h
    have hints : ∀ key ∈ intKeys, confInt ob key = true := fun key hkey =>
      confInt_iff.mpr (h.ints key hkey)
    refine ⟨hints, fun key hkey => confBool_iff.mpr (h.bools key hkey), ?_,
      (hinOrder hints (by decide) (by decide)).mp h.knifeDamage,
      (hinOrder hints (by decide) (by decide)).mp h.horseDamage,
      (hinOrder hints (by decide) (by decide)).mp h.maxHp⟩
    obtain ⟨strategy, hstrategy⟩ := h.strategy
    rw [parsedInt_given (by decide) (hints _ (by decide)), QJsonValue.ofInt_inj] at hstrategy
    rw [hstrategy]
    exact strategy.toInt_le
  · rintro ⟨hints, hbools, hstrategy, hknife, hhorse, hmaxHp⟩
    refine ⟨fun key hkey => confInt_iff.mp (hints key hkey),
      fun key hkey => confBool_iff.mp (hbools key hkey), ?_,
      (hinOrder hints (by decide) (by decide)).mpr hknife,
      (hinOrder hints (by decide) (by decide)).mpr hhorse,
      (hinOrder hints (by decide) (by decide)).mpr hmaxHp⟩
    refine ⟨.ofInt (parsedInt ob "punishHpRoundStrategy"), ?_⟩
    have hbounds := parsedInt_bounds (by decide) (hints "punishHpRoundStrategy" (by decide))
    rw [parsedInt_given (by decide) (hints _ (by decide)),
      PunishHpRoundStrategy.toInt_ofInt hbounds.1 hstrategy]

/-- What is left to decide once all members have their types. -/
theorem deserializeOnto_of_typed (self : LogicConfiguration)
    (hints : ∀ key ∈ intKeys, confInt ob key = true)
    (hbools : ∀ key ∈ boolKeys, confBool ob key = true) :
    ∃ conf : LogicConfiguration, TakenOver ob (intKeys ++ boolKeys) [] conf.object ∧
      self.deserializeOnto (.object ob) =
        if parsedInt ob "punishHpRoundStrategy" > 3 then (false, self)
        else if parsedInt ob "initialKnifeDamage" > parsedInt ob "maximumKnifeDamage" then (false, self)
        else if parsedInt ob "initialHorseDamage" > parsedInt ob "maximumHorseDamage" then (false, self)
        else if parsedInt ob "initialMaxHp" > parsedInt ob "maximumMaxHp" then (false, self)
        else (true, conf) := by
  obtain ⟨locals, hread, hparsed, htaken⟩ := Locals.read_of_typed hints hbools
  refine ⟨⟨locals.result⟩, htaken, ?_⟩
  rw [deserializeOnto, hread]
  dsimp only
  rw [hparsed _ (by decide), hparsed _ (by decide), hparsed _ (by decide), hparsed _ (by decide),
    hparsed _ (by decide), hparsed _ (by decide), hparsed _ (by decide)]
  rfl

theorem deserializeOnto_of_legal (self : LogicConfiguration) (hlegal : Legal ob) :
    ∃ conf : LogicConfiguration, self.deserializeOnto (.object ob) = (true, conf) ∧
      TakenOver ob (intKeys ++ boolKeys) [] conf.object := by
  obtain ⟨hints, hbools, hstrategy, hknife, hhorse, hmaxHp⟩ := legal_iff.mp hlegal
  obtain ⟨conf, htaken, hconf⟩ := self.deserializeOnto_of_typed hints hbools
  refine ⟨conf, ?_, htaken⟩
  rw [hconf, if_neg (not_lt.mpr hstrategy), if_neg (not_lt.mpr hknife),
    if_neg (not_lt.mpr hhorse), if_neg (not_lt.mpr hmaxHp)]

theorem deserializeOnto_of_illegal (self : LogicConfiguration) (hillegal : ¬ Legal ob) :
    self.deserializeOnto (.object ob) = (false, self) := by
  by_cases hints : ∀ key ∈ intKeys, confInt ob key = true
  · by_cases hbools : ∀ key ∈ boolKeys, confBool ob key = true
    · obtain ⟨conf, -, hconf⟩ := self.deserializeOnto_of_typed hints hbools
      rw [legal_iff] at hillegal
      rw [hconf]
      split
      · rfl
      · next hstrategy =>
        split
        · rfl
        · next hknife =>
          split
          · rfl
          · next hhorse =>
            split
            · rfl
            · next hmaxHp =>
              exact absurd ⟨hints, hbools, not_lt.mp hstrategy, not_lt.mp hknife,
                not_lt.mp hhorse, not_lt.mp hmaxHp⟩ hillegal
    · push Not at hbools
      obtain ⟨key, hkey, hwrong⟩ := hbools
      rw [deserializeOnto, Locals.read_eq_none_of_bool hkey (by simpa using hwrong)]
  · push Not at hints
    obtain ⟨key, hkey, hwrong⟩ := hints
    rw [deserializeOnto, Locals.read_eq_none_of_int hkey (by simpa using hwrong)]

theorem deserializeOnto_fst (self : LogicConfiguration) :
    (self.deserializeOnto (.object ob)).1 = true ↔ Legal ob := by
  constructor
  · intro haccepted
    by_contra hillegal
    rw [self.deserializeOnto_of_illegal hillegal] at haccepted
    cases haccepted
  · intro hlegal
    obtain ⟨conf, hconf, -⟩ := self.deserializeOnto_of_legal hlegal
    rw [hconf]

/-- Taking the known members over loses nothing a key is looked up for. -/
theorem TakenOver.given {conf : LogicConfiguration}
    (htaken : TakenOver ob (intKeys ++ boolKeys) [] conf.object) (hkey : key ∈ intKeys ++ boolKeys) :
    given conf.object key = given ob key := by
  have hcontains : conf.object.contains key = ob.contains key := by
    rw [htaken.contains, decide_eq_true hkey, Bool.true_and]
    exact Bool.or_false _
  unfold LogicConfiguration.given
  rw [hcontains]
  split
  · next hpresent => rw [htaken.value, if_pos ⟨hkey, hpresent⟩]
  · rfl

/-- A configuration that looks up what the object gives answers for it. -/
theorem Answers.of_given {conf : LogicConfiguration} (hlegal : Legal ob)
    (hsame : ∀ key ∈ intKeys ++ boolKeys,
      LogicConfiguration.given conf.object key = LogicConfiguration.given ob key)
    (hknown : ∀ key, conf.object.contains key = true → key ∈ intKeys ++ boolKeys) :
    Answers ob conf := by
  obtain ⟨hints, hbools, hstrategy, -⟩ := legal_iff.mp hlegal
  have hint (key : String) (hkey : key ∈ intKeys) :
      LogicConfiguration.given ob key = .ofInt (conf.intMember key) := by
    have hgiven := hsame key (List.mem_append_left boolKeys hkey)
    have hparsed := parsedInt_given hkey (hints key hkey)
    have hbounds := parsedInt_bounds hkey (hints key hkey)
    have hmember : conf.intMember key = parsedInt ob key := by
      change (LogicConfiguration.given conf.object key).toInt 0 = _
      rw [hgiven, hparsed]
      exact QJsonValue.toInt_ofInt ⟨by have := hbounds.1; omega, hbounds.2⟩ 0
    rw [hmember, hparsed]
  have hbool (key : String) (hkey : key ∈ boolKeys) :
      LogicConfiguration.given ob key = .bool (conf.boolMember key) := by
    have hgiven := hsame key (List.mem_append_right intKeys hkey)
    obtain ⟨b, hb⟩ := given_bool hkey (hbools key hkey)
    change _ = QJsonValue.bool (LogicConfiguration.given conf.object key).toBool
    rw [hgiven, hb]
    rfl
  refine ⟨hint _ (by decide), hint _ (by decide), hint _ (by decide), hint _ (by decide),
    hint _ (by decide), hint _ (by decide), hint _ (by decide), ?_, hbool _ (by decide),
    hbool _ (by decide), hbool _ (by decide), hknown⟩
  have hgiven := hint "punishHpRoundStrategy" (by decide)
  rw [hgiven, QJsonValue.ofInt_inj]
  have hparsed := parsedInt_given (by decide) (hints "punishHpRoundStrategy" (by decide))
  have hbounds := parsedInt_bounds (by decide) (hints "punishHpRoundStrategy" (by decide))
  rw [hgiven, QJsonValue.ofInt_inj] at hparsed
  exact (PunishHpRoundStrategy.toInt_ofInt (hparsed ▸ hbounds.1) (hparsed ▸ hstrategy)).symm

theorem Answers.of_takenOver {conf : LogicConfiguration} (hlegal : Legal ob)
    (htaken : TakenOver ob (intKeys ++ boolKeys) [] conf.object) : Answers ob conf := by
  refine .of_given hlegal (fun key hkey => htaken.given hkey) fun key hkey => ?_
  by_contra hunknown
  rw [htaken.contains, decide_eq_false hunknown, Bool.false_and, Bool.false_or] at hkey
  cases hkey

/-- What was read can be read again. -/
theorem Legal.of_takenOver {conf : LogicConfiguration} (hlegal : Legal ob)
    (htaken : TakenOver ob (intKeys ++ boolKeys) [] conf.object) : Legal conf.object := by
  have hpresent {key : String} (hcontains : conf.object.contains key = true) :
      ob.contains key = true ∧ conf.object.value key = ob.value key := by
    have hboth : key ∈ intKeys ++ boolKeys ∧ ob.contains key = true := by
      rw [htaken.contains] at hcontains
      simpa only [QJsonObject.contains, List.any_nil, Bool.or_false, Bool.and_eq_true,
        decide_eq_true_eq] using hcontains
    exact ⟨hboth.2, by rw [htaken.value, if_pos hboth]⟩
  refine ⟨fun key hkey hcontains => ?_, fun key hkey hcontains => ?_, ?_, ?_, ?_, ?_⟩
  · obtain ⟨hob, hvalue⟩ := hpresent hcontains
    rw [hvalue]
    exact hlegal.ints key hkey hob
  · obtain ⟨hob, hvalue⟩ := hpresent hcontains
    rw [hvalue]
    exact hlegal.bools key hkey hob
  · rw [htaken.given (by decide)]
    exact hlegal.strategy
  · rw [htaken.given (by decide), htaken.given (by decide)]
    exact hlegal.knifeDamage
  · rw [htaken.given (by decide), htaken.given (by decide)]
    exact hlegal.horseDamage
  · rw [htaken.given (by decide), htaken.given (by decide)]
    exact hlegal.maxHp

/-- Filtering the object and collecting its members come to the same rules. -/
theorem deserialize_isSome : (deserialize (.object ob)).isSome = true ↔ Legal ob := by
  rw [legal_iff, deserialize]
  split_ifs with hints hbools hstrategy hknife hhorse hmaxHp <;>
    simp_all [not_lt]

theorem answers_of_deserialize {conf : LogicConfiguration}
    (hconf : deserialize (.object ob) = some conf) : Answers ob conf := by
  have hlegal : Legal ob := deserialize_isSome.mp (by rw [hconf]; rfl)
  refine .of_given hlegal (fun key hkey => sameMembers_of_deserialize hconf key hkey)
    fun key hkey => ?_
  simp only [deserialize] at hconf
  split_ifs at hconf
  cases hconf
  simp only [QJsonObject.contains, List.any_eq_true, List.mem_filter, decide_eq_true_eq] at hkey
  obtain ⟨entry, ⟨-, hentry⟩, rfl⟩ := hkey
  exact hentry

/-- `deserialize` accepts the legal objects and no other value; an accepted one
is answered by every getter and may be read again, and a refused one changes
nothing. -/
theorem deserializeOnto_exact (self : LogicConfiguration) (value : QJsonValue) :
    ((self.deserializeOnto value).1 = true ↔ ∃ ob, value = .object ob ∧ Legal ob) ∧
      ((self.deserializeOnto value).1 = false → (self.deserializeOnto value).2 = self) ∧
      ∀ ob, value = .object ob → (self.deserializeOnto value).1 = true →
        Answers ob (self.deserializeOnto value).2 ∧
        ∀ other : LogicConfiguration,
          (other.deserializeOnto (.object (self.deserializeOnto value).2.object)).1 = true ∧
          (other.deserializeOnto (.object (self.deserializeOnto value).2.object)).2.values =
            (self.deserializeOnto value).2.values := by
  refine ⟨?_, ?_, ?_⟩
  · cases value with
    | object ob =>
      rw [deserializeOnto_fst]
      exact ⟨fun hlegal => ⟨ob, rfl, hlegal⟩, fun ⟨_, heq, hlegal⟩ => by cases heq; exact hlegal⟩
    | _ => simp [deserializeOnto]
  · cases value with
    | object ob =>
      intro hrefused
      have hillegal : ¬ Legal ob := fun hlegal => by
        rw [(self.deserializeOnto_fst).mpr hlegal] at hrefused
        cases hrefused
      rw [self.deserializeOnto_of_illegal hillegal]
    | _ => exact fun _ => rfl
  · rintro ob rfl haccepted
    have hlegal := self.deserializeOnto_fst.mp haccepted
    obtain ⟨conf, hconf, htaken⟩ := self.deserializeOnto_of_legal hlegal
    rw [hconf]
    refine ⟨.of_takenOver hlegal htaken, fun other => ?_⟩
    obtain ⟨again, hagain, htakenAgain⟩ :=
      other.deserializeOnto_of_legal (hlegal.of_takenOver htaken)
    rw [hagain]
    exact ⟨rfl, SameMembers.values_eq fun key hkey => htakenAgain.given hkey⟩

end LogicConfiguration

end QMdmmCore
