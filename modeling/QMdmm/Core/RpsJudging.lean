import QMdmm.Core.SameOutcome

namespace QMdmmCore.Data

variable {judgers judgers' : QHash String RockPaperScissors} {rps beating beaten : RockPaperScissors}

/-- The throws that occur, each once. -/
def throws (judgers : QHash String RockPaperScissors) : List RockPaperScissors :=
  (judgers.entries.map fun entry => entry.2).dedup

/-- The loop of `rpsForActionOrder` that strikes every winner from the list of
the striving players. -/
def removeWinners (striving winners : List String) : List String :=
  winners.foldl (fun striving winner => striving.filter (· ≠ winner)) striving

theorem removeWinners_eq (striving winners : List String) :
    removeWinners striving winners = striving.filter (· ∉ winners) := by
  unfold removeWinners
  induction winners generalizing striving with
  | nil => simp
  | cons winner rest ih =>
    rw [List.foldl_cons, ih, List.filter_filter]
    refine List.filter_congr fun name _ => ?_
    simp [Bool.and_comm]

theorem mem_throws : rps ∈ throws judgers ↔ throwers judgers rps ≠ [] := by
  rw [throwers_ne_nil_iff, throws, List.mem_dedup, List.mem_map]

/-- Two throws that occur and a third that does not decide the game. -/
theorem wins_of_throws (hgreater : rpsGreater beating beaten = true)
    (hthrows : ∀ rps, rps ∈ throws judgers ↔ rps = beating ∨ rps = beaten) :
    throwers judgers beating ≠ [] ∧ Wins judgers beating := by
  obtain rfl := rpsGreater_iff.mp hgreater
  refine ⟨mem_throws.mp ((hthrows beating).mpr (.inl rfl)), wins_iff.mpr ⟨?_, ?_⟩⟩
  · exact mem_throws.mp ((hthrows _).mpr (.inr rfl))
  · by_contra hthird
    rcases (hthrows _).mp (mem_throws.mpr hthird) with h | h <;> cases beating <;> cases h

theorem throws_of_wins (hsome : throwers judgers beating ≠ []) (hwins : Wins judgers beating) :
    ∀ rps, rps ∈ throws judgers ↔ rps = beating ∨ rps = prey beating := by
  obtain ⟨hprey, hnone⟩ := wins_iff.mp hwins
  intro rps
  rw [mem_throws]
  constructor
  · intro hthrown
    rcases eq_or_prey beating rps with h | h | h
    · exact .inl h
    · exact .inr h
    · exact absurd hnone (h ▸ hthrown)
  · rintro (rfl | rfl)
    · exact hsome
    · exact hprey

/-- There is a winner exactly if two different throws occur. -/
theorem exists_wins_iff : (∃ rps, throwers judgers rps ≠ [] ∧ Wins judgers rps) ↔
    (throws judgers).length = 2 := by
  have hnodup : (throws judgers).Nodup := List.nodup_dedup _
  constructor
  · rintro ⟨rps, hsome, hwins⟩
    have hpair : [rps, prey rps].Nodup := by cases rps <;> decide
    have hperm : (throws judgers).Perm [rps, prey rps] :=
      (List.perm_ext_iff_of_nodup hnodup hpair).mpr fun other => by
        rw [throws_of_wins hsome hwins other]
        simp
    exact hperm.length_eq
  · intro hlength
    obtain ⟨first, second, hthrows⟩ := List.length_eq_two.mp hlength
    rw [hthrows] at hnodup
    have hne : first ≠ second := by simpa using hnodup
    have hmem (rps : RockPaperScissors) : rps ∈ throws judgers ↔ rps = first ∨ rps = second := by
      simp [hthrows]
    -- Of two different throws one beats the other.
    rcases eq_or_prey first second with h | h | h
    · exact absurd h.symm hne
    · exact ⟨first, wins_of_throws (rpsGreater_iff.mpr h) hmem⟩
    · have hgreater : rpsGreater second first = true := by
        rw [rpsGreater_iff, h, prey_prey_prey]
      refine ⟨second, wins_of_throws hgreater fun rps => ?_⟩
      rw [hmem rps, or_comm]

theorem rockPaperScissorsWinners_ne_nil :
    rockPaperScissorsWinners judgers ≠ [] ↔ ∃ rps, throwers judgers rps ≠ [] ∧ Wins judgers rps := by
  constructor
  · intro hdecided
    by_contra hnone
    push Not at hnone
    exact hdecided (rockPaperScissorsWinners_eq_nil hnone)
  · rintro ⟨rps, hsome, hwins⟩ hnil
    have hlength := length_rockPaperScissorsWinners judgers
    rw [hnil, rpsWinners_eq hsome hwins, rpsLosers_eq hsome hwins, List.length_nil] at hlength
    have hwinners := List.length_pos_iff.mpr hsome
    have hlosers := List.length_pos_iff.mpr (wins_iff.mp hwins).1
    have := Nat.mul_pos hwinners hlosers
    omega

theorem mem_throwers_iff_lookup {p : String} :
    p ∈ throwers judgers rps ↔ judgers.lookup p = some rps := by
  rw [mem_throwers_iff, QHash.lookup_eq_some]

/-- Who is struck from a contested set of those who threw leaves the others. -/
theorem removeWinners_perm {striving : List String} (hsome : throwers judgers rps ≠ [])
    (hwins : Wins judgers rps) (hstriving : striving.Perm judgers.keys) :
    (removeWinners striving (rockPaperScissorsWinners judgers)).Perm (throwers judgers (prey rps)) := by
  have hlosers := List.length_pos_iff.mpr (wins_iff.mp hwins).1
  have hwinner (name : String) : name ∈ rockPaperScissorsWinners judgers ↔
      name ∈ throwers judgers rps := by
    rw [← List.count_pos_iff, count_rockPaperScissorsWinners, rpsWinners_eq hsome hwins,
      rpsLosers_eq hsome hwins]
    split
    · next hmem => exact iff_of_true hlosers hmem
    · next hmem => exact iff_of_false (by omega) hmem
  have hkeys : (judgers.entries.map fun entry => entry.1).Nodup := judgers.nodupKeys
  have hthrowers : (throwers judgers (prey rps)).Nodup :=
    hkeys.sublist (List.filter_sublist.map _)
  have hnodup : striving.Nodup := hstriving.nodup_iff.mpr hkeys
  rw [removeWinners_eq]
  refine (List.perm_ext_iff_of_nodup (hnodup.filter _) hthrowers).mpr fun name => ?_
  rw [List.mem_filter, hstriving.mem_iff, decide_eq_true_eq, hwinner, mem_throwers_iff_lookup,
    mem_throwers_iff_lookup]
  constructor
  · rintro ⟨hmember, hlost⟩
    obtain ⟨other, hother⟩ := Option.isSome_iff_exists.mp (AList.lookup_isSome.mpr hmember)
    have hthrown : throwers judgers other ≠ [] :=
      List.ne_nil_of_mem (mem_throwers_iff_lookup.mpr hother)
    rcases (throws_of_wins hsome hwins other).mp (mem_throws.mpr hthrown) with rfl | rfl
    · exact absurd hother hlost
    · exact hother
  · intro hlookup
    refine ⟨AList.lookup_isSome.mp (by rw [hlookup]; rfl), fun hwon => ?_⟩
    rw [hlookup] at hwon
    cases rps <;> cases hwon

/-- What `rockPaperScissorsWinners` makes of any throws. -/
theorem rockPaperScissorsWinners_exact (judgers : QHash String RockPaperScissors) :
    (rockPaperScissorsWinners judgers ≠ [] ↔ (throws judgers).length = 2) ∧
      ((throws judgers).length = 2 → ∃ beating beaten, rpsGreater beating beaten = true ∧
        (∀ rps, rps ∈ throws judgers ↔ rps = beating ∨ rps = beaten) ∧
        (∀ p, (rockPaperScissorsWinners judgers).count p =
          if judgers.lookup p = some beating then (throwers judgers beaten).length else 0) ∧
        (rockPaperScissorsWinners judgers).length =
          (throwers judgers beating).length * (throwers judgers beaten).length ∧
        ∀ striving : List String, striving.Perm judgers.keys →
          (removeWinners striving (rockPaperScissorsWinners judgers)).Perm (throwers judgers beaten)) ∧
      ∀ judgers' : QHash String RockPaperScissors, judgers.Same judgers' →
        (rockPaperScissorsWinners judgers).Perm (rockPaperScissorsWinners judgers') := by
  refine ⟨rockPaperScissorsWinners_ne_nil.trans exists_wins_iff, fun htwo => ?_,
    fun judgers' => rockPaperScissorsWinners_perm⟩
  obtain ⟨rps, hsome, hwins⟩ := exists_wins_iff.mpr htwo
  refine ⟨rps, prey rps, rpsGreater_iff.mpr rfl, throws_of_wins hsome hwins, fun p => ?_, ?_,
    fun striving => removeWinners_perm hsome hwins⟩
  · rw [count_rockPaperScissorsWinners, rpsWinners_eq hsome hwins, rpsLosers_eq hsome hwins]
    simp only [mem_throwers_iff_lookup]
  · rw [length_rockPaperScissorsWinners, rpsWinners_eq hsome hwins, rpsLosers_eq hsome hwins]

end QMdmmCore.Data
