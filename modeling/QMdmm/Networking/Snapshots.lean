import QMdmm.Networking.Status

namespace QMdmmNetworking

open QMdmmCore Data Logic

namespace Rooms

open LogicRunner LogicThread ServerP

variable {n m : Int} {self self' : Rooms} {event : Event}

def pointers (self : Rooms) : List Nat := self.server.runners.map (·.pointer)

theorem runner_isNone {pointer : Nat} :
    (self.runner pointer).isNone = true ↔ pointer ∉ self.pointers := by
  simp [runner, pointers, List.find?_eq_none]

/-- Rooms go, and one may be built after all others. -/
inductive Turnover (self self' : Rooms) : Prop where
  | goes (hmade : self.server.made ≤ self'.server.made)
      (hpointers : self'.pointers.Sublist self.pointers)
  | builds (runner : LogicRunner) (hmade : self.server.made < self'.server.made)
      (hrunners : self'.server.runners = self.server.runners ++ [runner])
      (hpointer : runner.pointer = self.server.made)

theorem turnover_of_pointers (hmade : self'.server.made = self.server.made)
    (hpointers : self'.pointers = self.pointers) : Turnover self self' :=
  .goes hmade.symm.le (hpointers ▸ .refl _)

theorem pointers_setRunner {server : ServerP} {pointer : Nat} {runner : LogicRunner}
    (hpointer : runner.pointer = pointer) :
    (setRunner server pointer runner).runners.map (·.pointer) =
      server.runners.map (·.pointer) := by
  rw [setRunner, List.map_map]
  refine List.map_congr_left fun other _ => ?_
  dsimp only [Function.comp_apply]
  split
  · next heq => exact hpointer.trans heq.symm
  · rfl

theorem pointers_logicRunnerGameOver (server : ServerP) (pointer : Nat) :
    (server.logicRunnerGameOver pointer).runners.map (·.pointer) =
      server.runners.map (·.pointer) := by
  have hrooms := congrArg (List.map Prod.fst) (server.rooms_logicRunnerGameOver pointer)
  rwa [List.map_map, List.map_map] at hrooms

theorem turnover_handle (h : Sound n m self) (hstep : self.handle event = some self') :
    Turnover self self' := by
  cases event with
  | server event =>
    obtain ⟨hover, server, hserver, rfl⟩ := handleServer_cases hstep
    have hmade := (sameSettings_of_handle hserver).made
    cases moves_of_handle h.bounds.distinct hover hserver with
    | inside hpointers => exact .goes hmade hpointers
    | opened runner _ _ hrunners hpointer hmade => exact .builds runner hmade hrunners hpointer
  | command pointer =>
    obtain ⟨thread, -, rfl⟩ := Option.map_eq_some_iff.mp hstep
    exact turnover_of_pointers rfl rfl
  | reply pointer playerName reply =>
    obtain ⟨-, hstep⟩ := Option.ite_none_right_eq_some.mp hstep
    cases hstep
    exact turnover_of_pointers rfl rfl
  | signal pointer =>
    obtain ⟨runner, signal, rest, result, hrunner, hsignals, hresult, rfl⟩ :=
      handleSignal_cases hstep
    obtain ⟨hmem, rfl⟩ := mem_of_runner hrunner
    obtain ⟨-, hasks⟩ := (h.inStep runner hmem).asks (hsignals ▸ List.mem_cons_self)
    obtain ⟨result', hresult', hsame, -⟩ := exists_handle hasks
    obtain rfl := Option.some.inj (hresult.symm.trans hresult')
    have hpointers : (setRunner self.server runner.pointer result.runner).runners.map (·.pointer) =
        self.pointers := pointers_setRunner hsame.1
    cases result.ended with
    | false =>
      simp only [Bool.false_eq_true, if_false]
      exact turnover_of_pointers rfl hpointers
    | true =>
      simp only [if_true]
      exact turnover_of_pointers rfl ((pointers_logicRunnerGameOver _ _).trans hpointers)

/-- What happens to the commands of a logic. -/
inductive Passes (thread thread' : LogicThread) : Prop where
  | queues (commands : List Call) (htaken : thread'.taken = thread.taken)
      (hcommands : thread'.commands = thread.commands ++ commands)
  | takes (c : Call) (rest : List Call) (hcommands : thread.commands = c :: rest)
      (htaken : thread'.taken = thread.taken ++ [c]) (hrest : thread'.commands = rest)

theorem passes_update {threads : Nat → LogicThread} {other : Nat} {thread : LogicThread}
    (h : Passes (threads other) thread) (pointer : Nat) :
    Passes (threads pointer) (Function.update threads other thread pointer) := by
  by_cases heq : pointer = other
  · subst heq
    rw [Function.update_self]
    exact h
  · rw [Function.update_of_ne heq]
    exact .queues [] rfl (List.append_nil _).symm

theorem passes_handle (hstep : self.handle event = some self') (pointer : Nat) :
    Passes (self.threads pointer) (self'.threads pointer) := by
  cases event with
  | server event =>
    obtain ⟨-, server, -, rfl⟩ := handleServer_cases hstep
    exact .queues _ rfl rfl
  | command other =>
    obtain ⟨thread, htake, rfl⟩ := Option.map_eq_some_iff.mp hstep
    obtain ⟨c, rest, ret, hcommands, -, hthread⟩ := take_cases htake
    exact passes_update (.takes c rest hcommands (by rw [hthread]) (by rw [hthread])) pointer
  | reply other playerName reply =>
    obtain ⟨-, hstep⟩ := Option.ite_none_right_eq_some.mp hstep
    cases hstep
    refine passes_update ?_ pointer
    exact .queues _ rfl rfl
  | signal other =>
    obtain ⟨runner, signal, rest, result, -, -, -, rfl⟩ := handleSignal_cases hstep
    refine passes_update ?_ pointer
    exact .queues _ rfl rfl

end Rooms

namespace Reporting

open LogicThread Rooms

variable {n m : Int} {self self' : Reporting} {event : Event}

/-- How many rounds a room has started, by what is known to its logic. -/
def roundStarts (thread : LogicThread) : Nat :=
  (thread.taken ++ thread.commands).countP isRoundStart

theorem roundStarts_passes {thread thread' : LogicThread} (h : Passes thread thread') :
    roundStarts thread' = roundStarts thread + (emitted thread thread').countP isRoundStart := by
  cases h with
  | queues commands htaken hcommands =>
    rw [roundStarts, emitted, htaken, hcommands, List.drop_left, ← List.append_assoc,
      List.countP_append]
    rfl
  | takes c rest hcommands htaken hrest =>
    have hnone : emitted thread thread' = [] := by
      rw [emitted, hcommands, hrest, List.drop_eq_nil_iff, List.length_cons]
      exact Nat.le_succ _
    rw [hnone, roundStarts, roundStarts, htaken, hrest, hcommands, List.append_assoc]
    rfl

theorem built_goes {rooms rooms' : Rooms} (h : rooms'.pointers.Sublist rooms.pointers) :
    built rooms rooms' = none := by
  rw [built, List.find?_eq_none]
  intro runner hrunner hnone
  rw [runner_isNone] at hnone
  exact hnone (h.subset (List.mem_map_of_mem hrunner))

theorem built_builds {rooms rooms' : Rooms} (hsound : rooms.Sound n m) {runner : LogicRunner}
    (hrunners : rooms'.server.runners = rooms.server.runners ++ [runner])
    (hpointer : runner.pointer = rooms.server.made) : built rooms rooms' = some runner := by
  have hold : rooms.server.runners.find? (fun old => (rooms.runner old.pointer).isNone) = none := by
    rw [List.find?_eq_none]
    intro old hold hnone
    rw [runner_isNone] at hnone
    exact hnone (List.mem_map_of_mem hold)
  have hnew : (rooms.runner runner.pointer).isNone = true := by
    rw [runner_isNone, hpointer]
    intro hmem
    obtain ⟨old, hold, heq⟩ := List.mem_map.mp hmem
    have hlt := hsound.bounds.distinct.made old hold
    omega
  rw [built, hrunners, List.find?_append, hold, Option.none_or, List.find?_singleton, if_pos hnew]

/-- What an event of the rooms does to what is reported of them. -/
theorem handle_rooms_cases {event : Rooms.Event} (h : self.handle (.rooms event) = some self') :
    ∃ rooms lastId id, self.rooms.handle event = some rooms ∧
      lastId = (if (built self.rooms rooms).isSome then self.lastId + 1 else self.lastId) ∧
      id = (fun pointer =>
        if (built self.rooms rooms).any (·.pointer = pointer) then lastId else self.id pointer) ∧
      self' = ⟨rooms, lastId, id, fun pointer => self.rounds pointer +
        (emitted (self.rooms.threads pointer) (rooms.threads pointer)).countP isRoundStart⟩ := by
  obtain ⟨rooms, hrooms, rfl⟩ := Option.map_eq_some_iff.mp h
  exact ⟨rooms, _, _, hrooms, rfl, rfl, rfl⟩

/-- The rooms are sound, and the rounds that are reported are those the logics know of. -/
structure Inv (n m : Int) (reporting : Reporting) : Prop where
  sound : reporting.rooms.Sound n m
  rounds : ∀ pointer, reporting.rounds pointer = roundStarts (reporting.rooms.threads pointer)

theorem Inv.handle (h : Inv n m self) (hpos : 0 < n) (hstep : self.handle event = some self') :
    Inv n m self' := by
  cases event with
  | elsewhere =>
    cases hstep
    exact ⟨h.sound, h.rounds⟩
  | rooms event =>
    obtain ⟨rooms, lastId, id, hrooms, -, -, rfl⟩ := handle_rooms_cases hstep
    refine ⟨h.sound.handle hpos hrooms, fun pointer => ?_⟩
    rw [roundStarts_passes (passes_handle hrooms pointer), ← h.rounds]

theorem inv_invariant (hpos : 0 < n) : (system n m).Invariant (Inv n m) where
  init := by
    rintro _ ⟨rooms, lastId, hinit, rfl⟩
    refine ⟨(sound_invariant hpos).init rooms hinit, fun pointer => ?_⟩
    obtain ⟨_, _, rfl⟩ := hinit
    rfl
  step _ _ _ h hstep := h.handle hpos hstep

/-- A room has started a round exactly when it is full. -/
theorem Inv.rounds_pos (h : Inv n m self) {runner : LogicRunner}
    (hrunner : runner ∈ self.rooms.server.runners) :
    0 < self.rounds runner.pointer ↔ runner.full n = true := by
  rw [h.rounds, roundStarts, List.countP_pos_iff]
  cases h.sound.inStep runner hrunner with
  | recruiting hopen hresting hcommands =>
    refine iff_of_false ?_ (by simp [hopen])
    rintro ⟨c, hc, hstart⟩
    obtain htaken | hqueued := List.mem_append.mp hc
    · exact absurd (hstart.symm.trans (hresting.taken c htaken)) Bool.noConfusion
    · exact absurd (hstart.symm.trans (hcommands c hqueued)) Bool.noConfusion
  | starting pre post hfull hresting hcommands =>
    refine iff_of_true ⟨.roundStart, ?_, rfl⟩ hfull
    rw [hcommands]
    simp
  | started hfull htaken =>
    exact iff_of_true ⟨.roundStart, List.mem_append_left _ htaken, rfl⟩ hfull

theorem sorted_perm (self : Reporting) : self.sorted.Perm self.rooms.server.runners :=
  List.mergeSort_perm _ _

theorem sorted_pairwise (self : Reporting) :
    self.sorted.Pairwise fun left right => self.id left.pointer ≤ self.id right.pointer := by
  let le (left right : LogicRunner) : Bool := self.id left.pointer ≤ self.id right.pointer
  have htrans (left middle right : LogicRunner) (h : le left middle = true)
      (h' : le middle right = true) : le left right = true :=
    decide_eq_true (UInt32.le_trans (of_decide_eq_true h) (of_decide_eq_true h'))
  have htotal (left right : LogicRunner) : (le left right || le right left) = true := by
    simp [le, UInt32.le_total]
  exact (List.pairwise_mergeSort htrans htotal self.rooms.server.runners).imp of_decide_eq_true

/-- At most one room has no game: the one that is recruiting. -/
theorem Inv.countP_le_one (h : Inv n m self) :
    (self.rooms.server.runners.countP fun runner => self.rounds runner.pointer = 0) ≤ 1 := by
  have hnodup : self.rooms.server.runners.Nodup := h.sound.bounds.distinct.pointers.of_map
  have hrecruiting (runner : LogicRunner) (hrunner : runner ∈
      self.rooms.server.runners.filter fun runner => self.rounds runner.pointer = 0) :
      self.rooms.server.recruiting = some runner := by
    obtain ⟨hmem, hzero⟩ := List.mem_filter.mp hrunner
    have hopen : runner.full n = false := by
      rw [Bool.eq_false_iff]
      intro hfull
      have hpos := (h.rounds_pos hmem).mpr hfull
      rw [of_decide_eq_true hzero] at hpos
      exact absurd hpos (Nat.lt_irrefl 0)
    exact h.sound.bounds.recruiting_eq hmem (h.sound.playerNumPerRoom ▸ hopen)
  have hfilter := hnodup.filter fun runner => decide (self.rounds runner.pointer = 0)
  rw [List.countP_eq_length_filter]
  generalize self.rooms.server.runners.filter (fun runner => self.rounds runner.pointer = 0) =
    waiting at hrecruiting hfilter
  match waiting with
  | [] => exact Nat.zero_le 1
  | [_] => exact Nat.le_refl 1
  | first :: second :: rest =>
    have hfirst := hrecruiting first List.mem_cons_self
    have hsecond := hrecruiting second (List.mem_cons_of_mem _ List.mem_cons_self)
    rw [List.nodup_cons, Option.some.inj (hfirst.symm.trans hsecond)] at hfilter
    exact absurd List.mem_cons_self hfilter.1

/-- Whenever the status is read, it adds up: as many entries as rooms, in the order of their
identifiers, the players of the entries make up all players, and the games are the rooms
that have started a round, which is all but one of them at least. -/
theorem status_adds_up (hpos : 0 < n) (hreach : (system n m).Reachable self) :
    ∃ runners : List LogicRunner, runners.Perm self.rooms.server.runners ∧
      self.status.value "roomList" =
        .array (runners.map fun runner => .object (self.entry runner)) ∧
      self.status.value "rooms" = .ofInt runners.length ∧
      self.status.value "players" = .ofInt (runners.map roomPlayers).sum ∧
      self.status.value "games" =
        .ofInt (runners.countP fun runner => 0 < self.rounds runner.pointer) ∧
      (runners.countP fun runner => self.rounds runner.pointer = 0) ≤ 1 ∧
      (0 < m → runners.length ≤ m) ∧
      runners.Pairwise fun left right => self.id left.pointer ≤ self.id right.pointer := by
  have hinv := (inv_invariant hpos).of_reachable hreach
  have hperm := self.sorted_perm
  refine ⟨self.sorted, hperm, ?_, ?_, ?_, ?_, ?_, fun hmaximum => ?_, self.sorted_pairwise⟩
  · simp [status]
  · simp [status]
  · simp [status, players]
  · have hgames : self.games = self.sorted.countP fun runner => 0 < self.rounds runner.pointer := by
      refine List.countP_congr fun runner hrunner => ?_
      rw [decide_eq_true_eq, hinv.rounds_pos (hperm.mem_iff.mp hrunner),
        hinv.sound.playerNumPerRoom]
    rw [← hgames]
    simp [status]
  · rw [hperm.countP_eq]
    exact hinv.countP_le_one
  · have hrooms := hinv.sound.bounds.rooms
    rw [hinv.sound.maximumRooms] at hrooms
    rw [hperm.length_eq]
    exact hrooms hmaximum

/-- Two players fill a room, and one waits in the next. -/
def threePlayers : List Event := [
  .rooms (.server .newConnection), .rooms (.server .newConnection), .rooms (.server .newConnection),
  .rooms (.server (.signIn 0 (ServerP.signInValue "A" 16))),
  .rooms (.server (.signIn 1 (ServerP.signInValue "B" 16))), .elsewhere,
  .rooms (.server (.signIn 2 (ServerP.signInValue "C" 16)))]

theorem status_adds_up_three : ∃ reporting : Reporting, (system 2 2).Reachable reporting ∧
    reporting.status.value "rooms" = .ofInt 2 ∧ reporting.status.value "games" = .ofInt 1 := by
  have hrun : (threePlayers.foldlM handle (new (.new .defaults 2 2 20) 0)).any (fun reporting =>
      reporting.rooms.server.runners.length = 2 && reporting.rooms.server.runners.countP
        (fun runner => 0 < reporting.rounds runner.pointer) = 1) = true := by
    decide +kernel
  obtain ⟨reporting, hlast, hend⟩ := (Option.any_eq_true _ _).mp hrun
  simp only [Bool.and_eq_true, decide_eq_true_eq] at hend
  have hreach : (system 2 2).Reachable reporting :=
    .foldlM (fun _ _ _ hstep => hstep) (.init ⟨_, 0, ⟨.defaults, 20, rfl⟩, rfl⟩) hlast
  obtain ⟨runners, hperm, -, hrooms, -, hgames, -⟩ := status_adds_up (by decide) hreach
  rw [hperm.length_eq, hend.1] at hrooms
  rw [hperm.countP_eq, hend.2] at hgames
  exact ⟨reporting, hreach, hrooms, hgames⟩

/-- The system for as long as the counter of the identifiers does not wrap. -/
def counting (n m : Int) : TransitionSystem Reporting Event :=
  (system n m).guarded fun self _ => self.lastId.toNat + 1 < UInt32.size

theorem lt_succ {lastId : UInt32} (hroom : lastId.toNat + 1 < UInt32.size) :
    lastId < lastId + 1 := by
  rw [UInt32.lt_iff_toNat_lt, UInt32.toNat_add, UInt32.toNat_one, Nat.mod_eq_of_lt hroom]
  exact Nat.lt_succ_self _

/-- What may have become of the rooms since an earlier reading. -/
structure Follows (earlier later : Reporting) : Prop where
  made : earlier.rooms.server.made ≤ later.rooms.server.made
  lastId : earlier.lastId ≤ later.lastId
  id : ∀ pointer, pointer < earlier.rooms.server.made → later.id pointer = earlier.id pointer
  rounds : ∀ pointer, earlier.rounds pointer ≤ later.rounds pointer
  old : ∀ pointer ∈ later.rooms.pointers, pointer < earlier.rooms.server.made →
    pointer ∈ earlier.rooms.pointers
  fresh : ∀ pointer ∈ later.rooms.pointers, earlier.rooms.server.made ≤ pointer →
    earlier.lastId < later.id pointer

theorem lt_made (h : Inv n m self) {pointer : Nat} (hmem : pointer ∈ self.rooms.pointers) :
    pointer < self.rooms.server.made := by
  obtain ⟨runner, hrunner, rfl⟩ := List.mem_map.mp hmem
  exact h.sound.bounds.distinct.made runner hrunner

theorem Inv.follows_refl (h : Inv n m self) : Follows self self :=
  ⟨Nat.le_refl _, UInt32.le_refl _, fun _ _ => rfl, fun _ => Nat.le_refl _, fun _ hmem _ => hmem,
    fun _ hmem hmade => absurd (lt_made h hmem) (Nat.not_lt.mpr hmade)⟩

theorem Follows.trans {self'' : Reporting} (h : Follows self self') (h' : Follows self' self'') :
    Follows self self'' := by
  refine ⟨h.made.trans h'.made, UInt32.le_trans h.lastId h'.lastId, fun pointer hmade => ?_,
    fun pointer => (h.rounds pointer).trans (h'.rounds pointer), fun pointer hmem hmade => ?_,
    fun pointer hmem hmade => ?_⟩
  · rw [h'.id pointer (hmade.trans_le h.made), h.id pointer hmade]
  · exact h.old pointer (h'.old pointer hmem (hmade.trans_le h.made)) hmade
  · obtain hlt | hle := Nat.lt_or_ge pointer self'.rooms.server.made
    · rw [h'.id pointer hlt]
      exact h.fresh pointer (h'.old pointer hmem hlt) hmade
    · exact UInt32.lt_of_le_of_lt h.lastId (h'.fresh pointer hmem hle)

theorem Inv.follows_handle (h : Inv n m self) (hroom : self.lastId.toNat + 1 < UInt32.size)
    (hstep : self.handle event = some self') : Follows self self' := by
  have hnext := lt_succ hroom
  cases event with
  | elsewhere =>
    cases hstep
    exact { h.follows_refl with lastId := UInt32.le_of_lt hnext }
  | rooms event =>
    obtain ⟨rooms, lastId, id, hrooms, hlastId, hid, rfl⟩ := handle_rooms_cases hstep
    have hrounds (pointer : Nat) := Nat.le_add_right (self.rounds pointer)
      ((emitted (self.rooms.threads pointer) (rooms.threads pointer)).countP isRoundStart)
    cases turnover_handle h.sound hrooms with
    | goes hmade hpointers =>
      rw [built_goes hpointers] at hlastId hid
      subst hlastId hid
      refine ⟨hmade, UInt32.le_refl _, fun _ _ => rfl, hrounds,
        fun _ hmem _ => hpointers.subset hmem, fun pointer hmem hlater => ?_⟩
      exact absurd (lt_made h (hpointers.subset hmem)) (Nat.not_lt.mpr hlater)
    | builds runner hmade hrunners hpointer =>
      rw [built_builds h.sound hrunners hpointer] at hlastId hid
      subst hlastId hid
      have hmem {pointer : Nat} (hmem : pointer ∈ rooms.pointers) :
          pointer ∈ self.rooms.pointers ∨ pointer = self.rooms.server.made := by
        rw [pointers, hrunners, List.map_append, List.mem_append, List.map_singleton,
          List.mem_singleton, hpointer] at hmem
        exact hmem
      refine ⟨hmade.le, UInt32.le_of_lt hnext, fun pointer hold => ?_, hrounds,
        fun pointer hnow hold => ?_, fun pointer hnow hlater => ?_⟩
      · simp [hpointer, hold.ne']
      · exact (hmem hnow).resolve_right hold.ne
      · obtain hold | rfl := hmem hnow
        · exact absurd (lt_made h hold) (Nat.not_lt.mpr hlater)
        · simpa [hpointer] using hnext

theorem pointers_builds {rooms rooms' : Rooms} {runner : LogicRunner}
    (hrunners : rooms'.server.runners = rooms.server.runners ++ [runner])
    (hpointer : runner.pointer = rooms.server.made) :
    rooms'.pointers = rooms.pointers ++ [rooms.server.made] := by
  rw [pointers, hrunners, List.map_append, List.map_singleton, hpointer]
  rfl

/-- The rooms have their identifiers in the order they were built in. -/
structure Named (reporting : Reporting) : Prop where
  lastId : ∀ pointer ∈ reporting.rooms.pointers, reporting.id pointer ≤ reporting.lastId
  pairwise : reporting.rooms.pointers.Pairwise fun left right =>
    reporting.id left < reporting.id right

theorem Inv.named_handle (h : Inv n m self) (hnamed : Named self)
    (hroom : self.lastId.toNat + 1 < UInt32.size) (hstep : self.handle event = some self') :
    Named self' := by
  have hnext := lt_succ hroom
  cases event with
  | elsewhere =>
    cases hstep
    exact ⟨fun pointer hmem => UInt32.le_trans (hnamed.lastId pointer hmem) (UInt32.le_of_lt hnext),
      hnamed.pairwise⟩
  | rooms event =>
    obtain ⟨rooms, lastId, id, hrooms, hlastId, hid, rfl⟩ := handle_rooms_cases hstep
    cases turnover_handle h.sound hrooms with
    | goes hmade hpointers =>
      rw [built_goes hpointers] at hlastId hid
      subst hlastId hid
      exact ⟨fun pointer hmem => hnamed.lastId pointer (hpointers.subset hmem),
        hnamed.pairwise.sublist hpointers⟩
    | builds runner hmade hrunners hpointer =>
      rw [built_builds h.sound hrunners hpointer, Option.isSome_some, if_pos rfl] at hlastId
      rw [built_builds h.sound hrunners hpointer] at hid
      have hold (pointer : Nat) (hmem : pointer ∈ self.rooms.pointers) :
          id pointer = self.id pointer := by
        simp [hid, hpointer, (lt_made h hmem).ne']
      have hnew : id self.rooms.server.made = lastId := by simp [hid, hpointer]
      have hpointers := pointers_builds hrunners hpointer
      have hbelow (pointer : Nat) (hmem : pointer ∈ self.rooms.pointers) : id pointer < lastId := by
        rw [hold pointer hmem, hlastId]
        exact UInt32.lt_of_le_of_lt (hnamed.lastId pointer hmem) hnext
      refine ⟨fun pointer hmem => ?_, ?_⟩
      · obtain hmem | hlast := List.mem_append.mp (hpointers ▸ hmem)
        · exact UInt32.le_of_lt (hbelow pointer hmem)
        · obtain rfl := List.mem_singleton.mp hlast
          exact UInt32.le_of_eq hnew
      · dsimp only
        rw [hpointers, List.pairwise_append]
        refine ⟨hnamed.pairwise.imp_of_mem fun hleft hright hlt => ?_, List.pairwise_singleton _ _,
          fun left hleft right hright => ?_⟩
        · rw [hold _ hleft, hold _ hright]
          exact hlt
        · rw [List.mem_singleton.mp hright, hnew]
          exact hbelow left hleft

theorem counted_invariant (hpos : 0 < n) :
    (counting n m).Invariant fun reporting => Inv n m reporting ∧ Named reporting where
  init := by
    rintro self hinit
    refine ⟨(inv_invariant hpos).init self hinit, ?_⟩
    obtain ⟨_, lastId, ⟨_, _, rfl⟩, rfl⟩ := hinit
    exact ⟨fun pointer hmem => absurd hmem List.not_mem_nil, List.Pairwise.nil⟩
  step _ _ _ h hstep :=
    ⟨h.1.handle hpos hstep.2, h.1.named_handle h.2 hstep.1 hstep.2⟩

theorem follows_of_run (hpos : 0 < n) {events : List Event} (hreach : (counting n m).Reachable self)
    (hrun : (counting n m).Run self events self') : Follows self self' := by
  induction hrun with
  | nil => exact ((counted_invariant hpos).of_reachable hreach).1.follows_refl
  | snoc hrun hstep ih =>
    have hinv := ((counted_invariant hpos).of_reachable (hreach.run hrun)).1
    exact ih.trans (hinv.follows_handle hstep.1 hstep.2)

/-- Rooms with one identifier are one room. -/
theorem Named.eq (h : Named self) {pointer pointer' : Nat} (hmem : pointer ∈ self.rooms.pointers)
    (hmem' : pointer' ∈ self.rooms.pointers) (heq : self.id pointer = self.id pointer') :
    pointer = pointer' := by
  have hnodup : (self.rooms.pointers.map self.id).Nodup :=
    List.pairwise_map.mpr (h.pairwise.imp UInt32.ne_of_lt)
  exact List.inj_on_of_nodup_map hnodup hmem hmem' heq

theorem Named.sorted (h : Named self) :
    (self.sorted.map fun runner => self.id runner.pointer).Pairwise (· < ·) := by
  have hnodup : (self.sorted.map fun runner => self.id runner.pointer).Nodup := by
    rw [(self.sorted_perm.map _).nodup_iff, List.Nodup, List.pairwise_map]
    exact (List.pairwise_map.mp h.pairwise).imp UInt32.ne_of_lt
  have hsorted := List.pairwise_map.mpr self.sorted_pairwise
  exact hsorted.imp₂ (fun left right hle hne => UInt32.lt_of_le_of_ne hle hne) hnodup

/-- Two readings of the status in one run can be compared by the identifiers: each has them
ascending, and without gaps in time. What the later reading has up to the counter of the
earlier one was there already, as the same room with no more rounds than now, and two
entries with one identifier are of one room. -/
theorem snapshots_compare (hpos : 0 < n) {events : List Event}
    (hreach : (counting n m).Reachable self) (hrun : (counting n m).Run self events self') :
    (self'.sorted.map fun runner => self'.id runner.pointer).Pairwise (· < ·) ∧
    ∀ runner' ∈ self'.rooms.server.runners,
      (self'.id runner'.pointer ≤ self.lastId →
        ∃ runner ∈ self.rooms.server.runners, self.id runner.pointer = self'.id runner'.pointer) ∧
      ∀ runner ∈ self.rooms.server.runners, self.id runner.pointer = self'.id runner'.pointer →
        runner.pointer = runner'.pointer ∧
          self.rounds runner.pointer ≤ self'.rounds runner'.pointer := by
  obtain ⟨hinv, hnamed⟩ := (counted_invariant hpos).of_reachable hreach
  obtain ⟨-, hnamed'⟩ := (counted_invariant hpos).of_reachable (hreach.run hrun)
  have hfollows := follows_of_run hpos hreach hrun
  have hback {runner' : LogicRunner} (hrunner' : runner' ∈ self'.rooms.server.runners)
      (hle : self'.id runner'.pointer ≤ self.lastId) :
      runner'.pointer ∈ self.rooms.pointers ∧
        self.id runner'.pointer = self'.id runner'.pointer := by
    have hmem' : runner'.pointer ∈ self'.rooms.pointers := List.mem_map_of_mem hrunner'
    have hmade : runner'.pointer < self.rooms.server.made := by
      rw [← Nat.not_le]
      intro hlater
      exact absurd hle (UInt32.not_le.mpr (hfollows.fresh _ hmem' hlater))
    exact ⟨hfollows.old _ hmem' hmade, (hfollows.id _ hmade).symm⟩
  refine ⟨hnamed'.sorted, fun runner' hrunner' => ⟨fun hle => ?_, fun runner hrunner heq => ?_⟩⟩
  · obtain ⟨hmem, hid⟩ := hback hrunner' hle
    obtain ⟨runner, hrunner, hpointer⟩ := List.mem_map.mp hmem
    exact ⟨runner, hrunner, hpointer ▸ hid⟩
  · have hmem : runner.pointer ∈ self.rooms.pointers := List.mem_map_of_mem hrunner
    obtain ⟨hmem', hid⟩ := hback hrunner' (heq ▸ hnamed.lastId _ hmem)
    have hsame := hnamed.eq hmem hmem' (heq.trans hid.symm)
    exact ⟨hsame, hsame ▸ hfollows.rounds _⟩

def countingHandle (self : Reporting) (event : Event) : Option Reporting :=
  if self.lastId.toNat + 1 < UInt32.size then self.handle event else none

theorem step_of_countingHandle (self : Reporting) (event : Event) (self' : Reporting)
    (h : self.countingHandle event = some self') : (counting n m).step self event self' :=
  Option.ite_none_right_eq_some.mp h

/-- The first room of two is there before and after the second is built. -/
theorem snapshots_compare_second : ∃ earlier later : Reporting,
    ∃ runner ∈ earlier.rooms.server.runners, ∃ runner' ∈ later.rooms.server.runners,
      runner.pointer = runner'.pointer ∧
      earlier.rounds runner.pointer ≤ later.rounds runner'.pointer ∧
      (later.sorted.map fun runner => later.id runner.pointer).Pairwise (· < ·) := by
  have hrun : ((threePlayers.take 5).foldlM countingHandle (new (.new .defaults 2 2 20) 0)).any
      (fun earlier => ((threePlayers.drop 5).foldlM countingHandle earlier).any fun later =>
        later.rooms.server.runners.any fun runner =>
          later.id runner.pointer ≤ earlier.lastId) = true := by
    decide +kernel
  obtain ⟨earlier, hearlier, hrun⟩ := (Option.any_eq_true _ _).mp hrun
  obtain ⟨later, hlater, hend⟩ := (Option.any_eq_true _ _).mp hrun
  obtain ⟨runner', hrunner', hle⟩ := List.any_eq_true.mp hend
  have hreach : (counting 2 2).Reachable earlier :=
    .foldlM step_of_countingHandle (.init ⟨_, 0, ⟨.defaults, 20, rfl⟩, rfl⟩) hearlier
  obtain ⟨hascending, hcompare⟩ :=
    snapshots_compare (by decide) hreach (.foldlM step_of_countingHandle hlater)
  obtain ⟨hback, hsame⟩ := hcompare runner' hrunner'
  obtain ⟨runner, hrunner, heq⟩ := hback (of_decide_eq_true hle)
  obtain ⟨hpointer, hrounds⟩ := hsame runner hrunner heq
  exact ⟨earlier, later, runner, hrunner, runner', hrunner', hpointer, hrounds, hascending⟩

end Reporting

end QMdmmNetworking
