import Mathlib.Data.List.Dedup
import Mathlib.Data.List.Perm.Basic
import QMdmm.Core.Data

namespace QMdmmCore.Data

variable {judgers : QHash String RockPaperScissors} {p : String}

/-- `rps` wins: somebody threw what it beats, and nobody what beats it. -/
def Wins (judgers : QHash String RockPaperScissors) (rps : RockPaperScissors) : Prop :=
  (∃ entry ∈ judgers.entries, rpsGreater rps entry.2 = true) ∧
    ∀ entry ∈ judgers.entries, rpsGreater entry.2 rps = false

instance (judgers : QHash String RockPaperScissors) (rps : RockPaperScissors) :
    Decidable (Wins judgers rps) := by
  unfold Wins
  exact inferInstance

/-- The players whose throw wins. -/
def rpsWinners (judgers : QHash String RockPaperScissors) : List String :=
  (judgers.entries.filter fun entry => Wins judgers entry.2).map fun entry => entry.1

/-- Everybody else that threw. -/
def rpsLosers (judgers : QHash String RockPaperScissors) : List String :=
  (judgers.entries.filter fun entry => ¬ Wins judgers entry.2).map fun entry => entry.1

/-- The throw that `rps` beats. -/
def prey : RockPaperScissors → RockPaperScissors
  | .Rock => .Scissors
  | .Scissors => .Paper
  | .Paper => .Rock

theorem rpsGreater_iff {rps other : RockPaperScissors} :
    rpsGreater rps other = true ↔ other = prey rps := by
  cases rps <;> cases other <;> decide

theorem eq_or_prey (rps other : RockPaperScissors) :
    other = rps ∨ other = prey rps ∨ other = prey (prey rps) := by
  cases rps <;> cases other <;> decide

@[simp] theorem prey_prey_prey (rps : RockPaperScissors) : prey (prey (prey rps)) = rps := by
  cases rps <;> rfl

theorem mem_throwers_iff {rps : RockPaperScissors} :
    p ∈ throwers judgers rps ↔ ⟨p, rps⟩ ∈ judgers.entries := by
  simp only [throwers, List.mem_map, List.mem_filter, decide_eq_true_eq]
  constructor
  · rintro ⟨⟨name, other⟩, ⟨hmem, hrps⟩, hname⟩
    exact hname ▸ hrps ▸ hmem
  · intro hmem
    exact ⟨_, ⟨hmem, rfl⟩, rfl⟩

theorem throwers_ne_nil_iff {rps : RockPaperScissors} :
    throwers judgers rps ≠ [] ↔ ∃ entry ∈ judgers.entries, entry.2 = rps := by
  constructor
  · intro hsome
    obtain ⟨name, hname⟩ := List.exists_mem_of_ne_nil _ hsome
    exact ⟨_, mem_throwers_iff.mp hname, rfl⟩
  · rintro ⟨⟨name, other⟩, hmem, rfl⟩
    exact List.ne_nil_of_mem (mem_throwers_iff.mpr hmem)

theorem wins_iff {rps : RockPaperScissors} :
    Wins judgers rps ↔ throwers judgers (prey rps) ≠ [] ∧ throwers judgers (prey (prey rps)) = [] := by
  unfold Wins
  refine and_congr ?_ ?_
  · simp only [rpsGreater_iff, throwers_ne_nil_iff]
  · rw [← not_iff_not, ← ne_eq, throwers_ne_nil_iff]
    push Not
    simp only [ne_eq, Bool.not_eq_false, rpsGreater_iff]
    refine exists_congr fun entry => and_congr_right fun _ => ?_
    constructor
    · intro h
      rw [h, prey_prey_prey]
    · intro h
      rw [h, prey_prey_prey]

/-- With a winning throw, everybody who threw it comes once for each player
who threw what it beats. -/
theorem rockPaperScissorsWinners_of_wins {rps : RockPaperScissors}
    (hsome : throwers judgers rps ≠ []) (hwins : Wins judgers rps) :
    rockPaperScissorsWinners judgers =
      (List.replicate (throwers judgers (prey rps)).length (throwers judgers rps)).flatten := by
  obtain ⟨hprey, hnone⟩ := wins_iff.mp hwins
  cases rps <;> simp only [prey] at hprey hnone ⊢ <;>
    simp [rockPaperScissorsWinners, judgersMap, hsome, hprey, hnone, rpsGreater]

/-- Without one nobody wins. -/
theorem rockPaperScissorsWinners_eq_nil
    (hnone : ∀ rps, throwers judgers rps ≠ [] → ¬ Wins judgers rps) :
    rockPaperScissorsWinners judgers = [] := by
  have hrock := hnone .Rock
  have hscissors := hnone .Scissors
  have hpaper := hnone .Paper
  simp only [wins_iff, prey] at hrock hscissors hpaper
  unfold rockPaperScissorsWinners judgersMap
  by_cases hr : throwers judgers .Rock = [] <;> by_cases hs : throwers judgers .Scissors = [] <;>
    by_cases hp : throwers judgers .Paper = [] <;> simp_all

/-- An entry won exactly if its throw is the winning one. -/
private theorem wins_entry_iff {rps : RockPaperScissors} (hsome : throwers judgers rps ≠ [])
    (hwins : Wins judgers rps) {entry : Sigma fun _ : String => RockPaperScissors}
    (hentry : entry ∈ judgers.entries) : Wins judgers entry.2 ↔ entry.2 = rps := by
  constructor
  · intro hother
    have hthrown : throwers judgers entry.2 ≠ [] := throwers_ne_nil_iff.mpr ⟨entry, hentry, rfl⟩
    rcases eq_or_prey rps entry.2 with heq | heq | heq
    · exact heq
    · rw [heq, wins_iff, prey_prey_prey] at hother
      exact absurd hother.2 hsome
    · rw [heq] at hthrown
      exact absurd (wins_iff.mp hwins).2 hthrown
  · intro heq
    rwa [heq]

theorem rpsWinners_eq {rps : RockPaperScissors} (hsome : throwers judgers rps ≠ [])
    (hwins : Wins judgers rps) : rpsWinners judgers = throwers judgers rps := by
  unfold rpsWinners throwers
  congr 1
  refine List.filter_congr fun entry hentry => ?_
  simp only [wins_entry_iff hsome hwins hentry]

theorem rpsLosers_eq {rps : RockPaperScissors} (hsome : throwers judgers rps ≠ [])
    (hwins : Wins judgers rps) : rpsLosers judgers = throwers judgers (prey rps) := by
  unfold rpsLosers throwers
  congr 1
  refine List.filter_congr fun entry hentry => ?_
  simp only [wins_entry_iff hsome hwins hentry, decide_eq_decide]
  have hthrown : throwers judgers entry.2 ≠ [] := throwers_ne_nil_iff.mpr ⟨entry, hentry, rfl⟩
  constructor
  · intro hne
    rcases eq_or_prey rps entry.2 with heq | heq | heq
    · exact absurd heq hne
    · exact heq
    · rw [heq] at hthrown
      exact absurd (wins_iff.mp hwins).2 hthrown
  · intro heq hrps
    exact absurd (heq.symm.trans hrps) (by cases rps <;> decide)

theorem rpsWinners_eq_nil (hnone : ∀ rps, throwers judgers rps ≠ [] → ¬ Wins judgers rps) :
    rpsWinners judgers = [] := by
  unfold rpsWinners
  rw [List.map_eq_nil_iff, List.filter_eq_nil_iff]
  intro entry hentry
  simpa using hnone entry.2 (throwers_ne_nil_iff.mpr ⟨entry, hentry, rfl⟩)

theorem rpsWinners_nodup (judgers : QHash String RockPaperScissors) : (rpsWinners judgers).Nodup := by
  have hkeys : (judgers.entries.map fun entry => entry.1).Nodup := judgers.nodupKeys
  exact hkeys.sublist (List.filter_sublist.map _)

/-- Each winner is worth one action for each loser, and nobody else any. -/
theorem count_rockPaperScissorsWinners (judgers : QHash String RockPaperScissors) (p : String) :
    (rockPaperScissorsWinners judgers).count p =
      if p ∈ rpsWinners judgers then (rpsLosers judgers).length else 0 := by
  by_cases hnone : ∀ rps, throwers judgers rps ≠ [] → ¬ Wins judgers rps
  · simp [rockPaperScissorsWinners_eq_nil hnone, rpsWinners_eq_nil hnone]
  · push Not at hnone
    obtain ⟨rps, hsome, hwins⟩ := hnone
    have hnodup := rpsWinners_nodup judgers
    rw [rpsWinners_eq hsome hwins] at hnodup ⊢
    rw [rockPaperScissorsWinners_of_wins hsome hwins, rpsLosers_eq hsome hwins,
      List.count_flatten, List.map_replicate, List.sum_replicate_nat, hnodup.count]
    split <;> simp

theorem length_rockPaperScissorsWinners (judgers : QHash String RockPaperScissors) :
    (rockPaperScissorsWinners judgers).length =
      (rpsWinners judgers).length * (rpsLosers judgers).length := by
  by_cases hnone : ∀ rps, throwers judgers rps ≠ [] → ¬ Wins judgers rps
  · simp [rockPaperScissorsWinners_eq_nil hnone, rpsWinners_eq_nil hnone]
  · push Not at hnone
    obtain ⟨rps, hsome, hwins⟩ := hnone
    rw [rockPaperScissorsWinners_of_wins hsome hwins, rpsLosers_eq hsome hwins,
      rpsWinners_eq hsome hwins, List.length_flatten, List.map_replicate, List.sum_replicate_nat,
      Nat.mul_comm]

theorem mem_of_mem_rpsWinners (hp : p ∈ rpsWinners judgers) : p ∈ judgers := by
  obtain ⟨entry, hentry, rfl⟩ := List.mem_map.mp hp
  exact List.mem_map_of_mem (List.mem_filter.mp hentry).1

theorem mem_rpsWinners_of_mem (hp : p ∈ rockPaperScissorsWinners judgers) :
    p ∈ rpsWinners judgers := by
  by_contra hnot
  have hcount := count_rockPaperScissorsWinners judgers p
  rw [if_neg hnot] at hcount
  exact absurd (List.count_pos_iff.mpr hp) (by omega)

/-- A decided Rock-Paper-Scissors has a loser. -/
theorem exists_loser (hsome : rockPaperScissorsWinners judgers ≠ []) :
    ∃ p ∈ judgers, p ∉ rockPaperScissorsWinners judgers := by
  have hlength := length_rockPaperScissorsWinners judgers
  have hpos := List.length_pos_iff.mpr hsome
  have hlosers : rpsLosers judgers ≠ [] := by
    intro hnil
    rw [hnil, List.length_nil, Nat.mul_zero] at hlength
    omega
  obtain ⟨p, hp⟩ := List.exists_mem_of_ne_nil _ hlosers
  obtain ⟨entry, hentry, rfl⟩ := List.mem_map.mp hp
  obtain ⟨hthrown, hlost⟩ := List.mem_filter.mp hentry
  refine ⟨entry.1, List.mem_map_of_mem hthrown, fun hwinner => ?_⟩
  obtain ⟨other, hother, hname⟩ := List.mem_map.mp (mem_rpsWinners_of_mem hwinner)
  obtain ⟨hthrown', hwon⟩ := List.mem_filter.mp hother
  have heq : other = entry := judgers.nodupKeys.eq_of_fst_eq hthrown' hthrown hname
  rw [heq, decide_eq_true_eq] at hwon
  exact (of_decide_eq_true hlost) hwon

/-- A decided Rock-Paper-Scissors took at least two throws. -/
theorem two_le_count_of_winners (hsome : rockPaperScissorsWinners judgers ≠ []) :
    2 ≤ judgers.count := by
  by_cases hnone : ∀ rps, throwers judgers rps ≠ [] → ¬ Wins judgers rps
  · exact absurd (rockPaperScissorsWinners_eq_nil hnone) hsome
  · push Not at hnone
    obtain ⟨rps, hthrown, hwins⟩ := hnone
    obtain ⟨winner, hwinner, hrps⟩ := throwers_ne_nil_iff.mp hthrown
    obtain ⟨loser, hloser, hprey⟩ := throwers_ne_nil_iff.mp (wins_iff.mp hwins).1
    have hne : winner ≠ loser := by
      rintro rfl
      rw [hrps] at hprey
      revert hprey
      cases rps <;> decide
    unfold QHash.count
    match hentries : judgers.entries with
    | [] => simp [hentries] at hwinner
    | [only] =>
      rw [hentries, List.mem_singleton] at hwinner hloser
      exact absurd (hwinner.trans hloser.symm) hne
    | _ :: _ :: _ => simp

end QMdmmCore.Data
