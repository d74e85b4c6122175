import QMdmm.Networking.Rooms

namespace QMdmmNetworking

open QMdmmCore Data Logic LogicThread

namespace LogicRunner

variable {n : Int} {self runner : LogicRunner}

theorem agentsCount_eq (children : List Seat) :
    agentsCount children = (children.flatMap Seat.names).length := by
  induction children with
  | nil => rfl
  | cons seat rest ih =>
    rw [agentsCount, List.filter_cons, List.flatMap_cons, List.length_append, ← ih, Seat.names]
    by_cases hregistered : seat.registered = true <;> simp [hregistered, agentsCount, Nat.add_comm]

theorem full_congr (hnames : runner.children.flatMap Seat.names = self.children.flatMap Seat.names) :
    runner.full n = self.full n := by
  rw [full, full, agentsCount_eq, agentsCount_eq, hnames]

theorem mem_agentNames {name : String} :
    name ∈ agentNames self.children ↔ (self.agent name).isSome = true := by
  rw [← Option.ne_none_iff_isSome, ne_eq, agent_eq_none, agentNames, List.mem_toFinset,
    List.mem_flatMap]
  push Not
  rfl

/-- A room that is full keeps its agents when a socket disconnects. -/
theorem dropSeats_full {socket : Socket} {random : RockPaperScissors} (done rest : List Seat)
    (hfull : n ≤ agentsCount (done ++ rest)) :
    dropSeatsEmits n socket random done rest = [] ∧
      (dropSeats n socket random done rest).flatMap Seat.names =
        (done ++ rest).flatMap Seat.names := by
  induction rest generalizing done with
  | nil => simp [dropSeatsEmits, dropSeats]
  | cons seat rest ih =>
    rw [dropSeatsEmits, dropSeats]
    split
    · have hcount : agentsCount (done ++ seat.dropped random :: rest) =
          agentsCount (done ++ seat :: rest) := by
        simp only [agentsCount_eq, List.flatMap_append, List.flatMap_cons, Seat.names_dropped]
      have hkept : ¬ ((seat.dropped random).registered &&
          decide ((agentsCount (done ++ seat.dropped random :: rest) : Int) < n)) = true := by
        rw [Bool.and_eq_true_iff, decide_eq_true_eq]
        omega
      have hrest := ih (done ++ [seat.dropped random]) (by
        rw [List.append_assoc, List.singleton_append]
        omega)
      obtain ⟨hemits, hnames⟩ := hrest
      refine ⟨(if_neg hkept).trans hemits, (congrArg _ (if_neg hkept)).trans (hnames.trans ?_)⟩
      simp
    · have hrest := ih (done ++ [seat])
      rw [List.append_assoc, List.singleton_append] at hrest
      exact hrest hfull

/-- The names that are left are those the logic is not told to remove. -/
theorem dropSeats_settle {socket : Socket} {random : RockPaperScissors} (done rest : List Seat)
    (hnodup : ((done ++ rest).flatMap Seat.names).Nodup) :
    (∀ c ∈ dropSeatsEmits n socket random done rest, isRoundStart c = false) ∧
      (dropSeatsEmits n socket random done rest).foldl Call.settle (agentNames (done ++ rest)) =
        agentNames (dropSeats n socket random done rest) := by
  induction rest generalizing done with
  | nil => simp [dropSeatsEmits, dropSeats]
  | cons seat rest ih =>
    rw [dropSeatsEmits, dropSeats]
    split
    · dsimp only
      split
      · next hdrop =>
        have hregistered : seat.registered = true := (Bool.and_eq_true_iff.mp hdrop).1
        have hnames : seat.names = [seat.playerName] := if_pos hregistered
        rw [List.flatMap_append, List.flatMap_cons, hnames, List.singleton_append,
          List.nodup_middle, List.nodup_cons, ← List.flatMap_append] at hnodup
        obtain ⟨hquiet, hsettle⟩ := ih done hnodup.2
        refine ⟨List.forall_mem_cons.mpr ⟨rfl, hquiet⟩, ?_⟩
        rw [List.foldl_cons, ← hsettle]
        congr 1
        ext name
        simp only [Call.settle, agentNames, List.flatMap_append, List.flatMap_cons, hnames,
          Finset.mem_erase, List.mem_toFinset, List.mem_append, List.mem_singleton] at hnodup ⊢
        constructor
        · tauto
        · rintro hname
          refine ⟨?_, by tauto⟩
          rintro rfl
          exact hnodup.1 hname
      · have hsame : (done ++ [seat.dropped random] ++ rest).flatMap Seat.names =
            (done ++ seat :: rest).flatMap Seat.names := by simp
        rw [← hsame] at hnodup
        have hrest := ih _ hnodup
        rwa [agentNames, hsame] at hrest
    · have hrest := ih (done ++ [seat])
      rw [List.append_assoc, List.singleton_append] at hrest
      exact hrest hnodup

/-- What the handling of an event can do to a runner, with what it emits for its logic. -/
inductive RunnerStep (n : Int) (self : LogicRunner) : List Call → LogicRunner → Prop where
  | kept {runner : LogicRunner}
      (hnames : runner.children.flatMap Seat.names = self.children.flatMap Seat.names) :
      RunnerStep n self [] runner
  | dropped {runner : LogicRunner} {socket : Socket} {random : RockPaperScissors}
      (hchildren : runner.children = dropSeats n socket random [] self.children) :
      RunnerStep n self (dropSeatsEmits n socket random [] self.children) runner
  | added {runner : LogicRunner} {conn : ServerConnectionP} (hopen : self.full n = false)
      (hchildren : runner.children = (self.addAgent conn).children) :
      RunnerStep n self (self.addAgentEmits n conn) runner

theorem full_eq_false : self.full n = false ↔ (agentsCount self.children : Int) < n := by
  simp [full]

theorem full_eq_true : self.full n = true ↔ n ≤ agentsCount self.children := by
  simp [full]

theorem names_addAgent (self : LogicRunner) (conn : ServerConnectionP) :
    (self.addAgent conn).children.flatMap Seat.names = self.children.flatMap Seat.names ++
      if (self.agent conn.agent.objectName).isSome then [] else [conn.agent.objectName] := by
  cases hagent : self.agent conn.agent.objectName <;>
    simp [addAgent, hagent, Seat.names, Seat.playerName]

namespace RunnerStep

variable {commands : List Call}

/-- A full room stays as it is. -/
theorem of_full (hstep : RunnerStep n self commands runner) (hfull : self.full n = true) :
    commands = [] ∧ runner.children.flatMap Seat.names = self.children.flatMap Seat.names := by
  cases hstep with
  | kept hnames => exact ⟨rfl, hnames⟩
  | dropped hchildren =>
    obtain ⟨hemits, hnames⟩ := dropSeats_full [] self.children (full_eq_true.mp hfull)
    rw [hchildren]
    exact ⟨hemits, hnames⟩
  | added hopen => cases hfull.symm.trans hopen

/-- A room that is open stays open, and tells its logic who is in it; or it is filled,
and then it also tells its logic to start. -/
theorem of_open (hstep : RunnerStep n self commands runner) (hopen : self.full n = false)
    (hnodup : (self.children.flatMap Seat.names).Nodup) :
    (runner.full n = false ∧ (∀ c ∈ commands, isRoundStart c = false) ∧
      commands.foldl Call.settle (agentNames self.children) = agentNames runner.children) ∨
    (runner.full n = true ∧ agentsCount runner.children ≤ n ∧ ∃ playerName,
      commands = [.addPlayer playerName, .roundStart] ∧
      insert playerName (agentNames self.children) = agentNames runner.children) := by
  cases hstep with
  | kept hnames =>
    refine .inl ⟨(full_congr hnames).trans hopen, by simp, ?_⟩
    rw [agentNames, agentNames, hnames]
    rfl
  | @dropped _ socket random hchildren =>
    obtain ⟨hquiet, hsettle⟩ := @dropSeats_settle n socket random [] self.children hnodup
    refine .inl ⟨?_, hquiet, by rw [hchildren]; exact hsettle⟩
    have hle := (@dropSeats_sublist _ Seat.names n socket random (fun _ => .refl _) []
      self.children).length_le
    rw [List.nil_append, ← agentsCount_eq, ← agentsCount_eq, ← hchildren] at hle
    rw [full_eq_false] at hopen ⊢
    omega
  | @added _ conn _ hchildren =>
    have hnames := self.names_addAgent conn
    rw [addAgentEmits]
    split
    · next hagent =>
      rw [if_pos hagent, List.append_nil, ← hchildren] at hnames
      refine .inl ⟨(full_congr hnames).trans hopen, by simp, ?_⟩
      rw [agentNames, agentNames, hnames]
      rfl
    · next hagent =>
      have hinsert : insert conn.agent.objectName (agentNames self.children) =
          agentNames runner.children := by
        rw [hchildren, agentNames, agentNames, hnames, if_neg hagent]
        ext name
        simp
      have hcount : agentsCount runner.children = agentsCount self.children + 1 := by
        rw [hchildren, agentsCount_eq, hnames, if_neg hagent, List.length_append, ← agentsCount_eq]
        rfl
      have hsame : (self.addAgent conn).full n = runner.full n := by rw [full, full, hchildren]
      rw [full_eq_false] at hopen
      rw [hsame]
      cases hfull : runner.full n with
      | false => exact .inl ⟨rfl, by simp [isRoundStart], hinsert⟩
      | true => exact .inr ⟨rfl, by omega, _, rfl, hinsert⟩

/-- A room that an event leaves open was open. -/
theorem was_open (hstep : RunnerStep n self commands runner) (hopen : runner.full n = false) :
    self.full n = false := by
  cases hfull : self.full n with
  | false => rfl
  | true => rw [← hopen, full_congr (hstep.of_full hfull).2, hfull]

theorem agents_le (hstep : RunnerStep n self commands runner)
    (hnodup : (self.children.flatMap Seat.names).Nodup)
    (hagents : agentsCount self.children ≤ n) : agentsCount runner.children ≤ n := by
  cases hfull : self.full n with
  | true =>
    rw [agentsCount_eq, (hstep.of_full hfull).2, ← agentsCount_eq]
    exact hagents
  | false =>
    rcases hstep.of_open hfull hnodup with ⟨hopen, -⟩ | ⟨-, hle, -⟩
    · have hlt := full_eq_false.mp hopen
      omega
    · exact hle

end RunnerStep

end LogicRunner

namespace ServerP

open LogicRunner

variable {self self' : ServerP}

/-- What the handling of an event does to the rooms, with what each runner emits for its
logic. -/
inductive Moves (self : ServerP) (emits : Nat → List Call) (self' : ServerP) : Prop where
  | inside (hpointers : (self'.runners.map (·.pointer)).Sublist (self.runners.map (·.pointer)))
      (hcurrent : ∀ runner ∈ self'.runners, runner.full self.playerNumPerRoom = false →
        self.current = some runner.pointer → self'.current = self.current)
      (hrunners : ∀ runner' ∈ self'.runners, ∃ runner ∈ self.runners,
        runner'.pointer = runner.pointer ∧
          RunnerStep self.playerNumPerRoom runner (emits runner.pointer) runner')
      (hsilent : ∀ pointer, (∀ runner ∈ self'.runners, runner.pointer ≠ pointer) →
        emits pointer = [])
  | opened (runner : LogicRunner) (hneeds : self.needsRoom = true)
      (hmaximum : self.atMaximumRooms = false)
      (hrunners : self'.runners = self.runners ++ [runner])
      (hpointer : runner.pointer = self.made) (hmade : self.made < self'.made)
      (hcurrent : self'.current = some self.made)
      (hstep : 0 < self.playerNumPerRoom → RunnerStep self.playerNumPerRoom
        ⟨self.made, [], false⟩ (emits self.made) runner)
      (hsilent : ∀ pointer, pointer ≠ self.made → emits pointer = [])

/-- No event moves anybody where every room keeps its agents. -/
theorem Moves.kept
    (hpointers : (self'.runners.map (·.pointer)).Sublist (self.runners.map (·.pointer)))
    (hcurrent : ∀ runner ∈ self'.runners, runner.full self.playerNumPerRoom = false →
      self.current = some runner.pointer → self'.current = self.current)
    (hrunners : ∀ runner' ∈ self'.runners, ∃ runner ∈ self.runners,
      runner'.pointer = runner.pointer ∧
        runner'.children.flatMap Seat.names = runner.children.flatMap Seat.names) :
    self.Moves (fun _ => []) self' := by
  refine .inside hpointers hcurrent (fun runner' hrunner' => ?_) fun _ _ => rfl
  obtain ⟨runner, hrunner, hpointer, hnames⟩ := hrunners runner' hrunner'
  exact ⟨runner, hrunner, hpointer, .kept hnames⟩

/-- The pointers of the runners are those of different objects. -/
structure Distinct (server : ServerP) : Prop where
  pointers : (server.runners.map (·.pointer)).Nodup
  made : ∀ runner ∈ server.runners, runner.pointer < server.made

theorem Distinct.eq (h : Distinct self) {runner other : LogicRunner} (hrunner : runner ∈ self.runners)
    (hother : other ∈ self.runners) (hsame : other.pointer = runner.pointer) : other = runner :=
  List.inj_on_of_nodup_map h.pointers hother hrunner hsame

theorem Distinct.find? (h : Distinct self) {runner : LogicRunner} (hrunner : runner ∈ self.runners) :
    (self.runners.find? fun other => other.pointer = runner.pointer) = some runner := by
  cases hfind : self.runners.find? fun other => other.pointer = runner.pointer with
  | none =>
    have hnone := List.find?_eq_none.mp hfind runner hrunner
    simp at hnone
  | some other =>
    have hfound := List.find?_some hfind
    have hsame : other.pointer = runner.pointer := of_decide_eq_true hfound
    rw [h.eq hrunner (List.mem_of_find?_eq_some hfind) hsame]

/-- The agent is added to a room that is open. -/
theorem moves_addAgent (hdistinct : Distinct self) {runner : LogicRunner}
    (hrecruiting : self.recruiting = some runner)
    (hopen : runner.full self.playerNumPerRoom = false) (socket : Socket) (ob : SignIn) :
    self.Moves (self.addAgentEmits socket ob) (self.addAgent socket ob) := by
  obtain ⟨hcurrent, pre, post, hrunners, hadded⟩ := runners_addAgent hrecruiting socket ob
  have hother : ∀ other ∈ pre ++ post, other.pointer ≠ runner.pointer := by
    intro other hother hsame
    have hpointers := hdistinct.pointers
    rw [hrunners, List.map_append, List.map_cons, List.nodup_middle, List.nodup_cons,
      ← List.map_append] at hpointers
    exact hpointers.1 (hsame ▸ List.mem_map_of_mem hother)
  have hsilent (pointer : Nat) (hne : runner.pointer ≠ pointer) :
      self.addAgentEmits socket ob pointer = [] := by
    rw [addAgentEmits, hrecruiting]
    exact if_neg hne
  refine .inside ?_ (fun _ _ _ _ => rfl) (fun runner' hrunner' => ?_) fun pointer hpointer => ?_
  · rw [hadded, hrunners, List.map_append, List.map_append]
    exact .refl _
  · rw [hadded, List.mem_append, List.mem_cons] at hrunner'
    have hkept (hmem : runner' ∈ pre ++ post) : ∃ runner ∈ self.runners,
        runner'.pointer = runner.pointer ∧ RunnerStep self.playerNumPerRoom runner
          (self.addAgentEmits socket ob runner.pointer) runner' := by
      refine ⟨runner', ?_, rfl, ?_⟩
      · rw [hrunners]
        exact (List.sublist_cons_self runner post).append_left pre |>.subset hmem
      · rw [hsilent runner'.pointer (hother runner' hmem).symm]
        exact .kept rfl
    rcases hrunner' with hpre | rfl | hpost
    · exact hkept (List.mem_append_left _ hpre)
    · refine ⟨runner, hrunners ▸ List.mem_append_right _ List.mem_cons_self, rfl, ?_⟩
      rw [addAgentEmits, hrecruiting]
      dsimp only
      rw [if_pos rfl]
      exact .added hopen rfl
    · exact hkept (List.mem_append_right _ hpost)
  · have hmem : runner.addAgent (Seat.signedIn ob self.logicConfiguration self.requestTimeout socket
        true).conn ∈ (self.addAgent socket ob).runners := by
      rw [hadded]
      exact List.mem_append_right _ List.mem_cons_self
    have hne := hpointer _ hmem
    exact hsilent pointer hne

/-- A room that nobody is in is opened for the agent. -/
theorem moves_openRoom (hdistinct : Distinct self) (hneeds : self.needsRoom = true)
    (hmaximum : self.atMaximumRooms = false) (socket : Socket) (ob : SignIn) :
    self.Moves (self.openRoom.addAgentEmits socket ob) (self.openRoom.addAgent socket ob) := by
  have hnew : ∀ runner ∈ self.runners, runner.pointer ≠ self.made := fun runner hrunner =>
    Nat.ne_of_lt (hdistinct.made runner hrunner)
  have hrecruiting : self.openRoom.recruiting = some ⟨self.made, [], false⟩ := by
    have hnone : self.runners.find? (fun runner => runner.pointer = self.made) = none := by
      simpa using hnew
    simp [recruiting, openRoom, hnone]
  set conn := ((ServerConnectionP.new ⟨ob.playerName, ob.screenName, ob.agentState⟩
    self.logicConfiguration self.requestTimeout).setSocket socket).1
  have hrunners : (self.openRoom.addAgent socket ob).runners =
      self.runners ++ [LogicRunner.addAgent ⟨self.made, [], false⟩ conn] := by
    refine LogicRunner.replaceF_append_cons (fun runner hrunner => if_neg fun hsame => ?_)
      (if_pos rfl)
    exact hnew runner hrunner (Option.some.inj hsame).symm
  refine .opened _ hneeds hmaximum hrunners rfl (Nat.lt_succ_self _) rfl (fun hpos => ?_)
    fun pointer hpointer => ?_
  · have hopen : LogicRunner.full self.playerNumPerRoom ⟨self.made, [], false⟩ = false :=
      full_eq_false.mpr hpos
    rw [addAgentEmits, hrecruiting]
    dsimp only
    rw [if_pos rfl]
    exact .added hopen rfl
  · rw [addAgentEmits, hrecruiting]
    exact if_neg hpointer.symm

/-- What is replaced keeps its pointer. -/
theorem pointers_replaceF {f : LogicRunner → Option LogicRunner} {runners : List LogicRunner}
    (hf : ∀ runner runner', f runner = some runner' → runner'.pointer = runner.pointer) :
    (runners.replaceF f).map (·.pointer) = runners.map (·.pointer) := by
  induction runners with
  | nil => rfl
  | cons runner rest ih =>
    cases hrunner : f runner with
    | none => rw [List.replaceF_cons_of_none f hrunner, List.map_cons, List.map_cons, ih]
    | some runner' =>
      rw [List.replaceF_cons_of_some f hrunner, List.map_cons, List.map_cons, hf _ _ hrunner]

theorem moves_signIn (hdistinct : Distinct self) {socket : Socket} {packetValue : QJsonValue}
    (hsignIn : self.signIn socket packetValue = .ok self') :
    self.Moves (self.signInEmits socket packetValue) self' := by
  have hsame : self.Moves (fun _ => []) self :=
    .kept (.refl _) (fun _ _ _ _ => rfl) fun runner hrunner => ⟨runner, hrunner, rfl, rfl⟩
  cases hvalue : SignIn.ofValue packetValue with
  | none =>
    have hemits : self.signInEmits socket packetValue = fun _ => [] := by
      funext pointer
      rw [signInEmits, hvalue]
    rw [signIn, hvalue] at hsignIn
    cases hsignIn
    rw [hemits]
    exact hsame
  | some ob =>
    cases hexisting : self.existing ob.playerName with
    | some seat =>
      have hemits : self.signInEmits socket packetValue = fun _ => [] := by
        funext pointer
        rw [signInEmits, hvalue]
        dsimp only
        rw [hexisting]
        rfl
      rw [signIn, hvalue] at hsignIn
      dsimp only at hsignIn
      rw [hexisting] at hsignIn
      obtain ⟨⟨conn, effects⟩, hconn, hsignIn⟩ := Except.bind_eq_ok.mp hsignIn
      cases hsignIn
      obtain ⟨rfl, -⟩ := doomed_reconnect hconn self
      have hname : (seat.conn.setSocket socket).1.agent.objectName = ob.playerName :=
        (Seat.isAgent_iff.mp (mem_of_existing hexisting).2.1).2
      rw [hemits]
      refine .kept ?_ (fun _ _ _ _ => rfl) fun runner' hrunner' => ?_
      · rw [deleteLater]
        dsimp only
        rw [pointers_replaceF fun _ _ hsome => (names_reconnectAgent hname hsome).1]
      · rcases LogicRunner.mem_replaceF hrunner' with hold | ⟨runner, hrunner, hsome⟩
        · exact ⟨runner', hold, rfl, rfl⟩
        · exact ⟨runner, hrunner, names_reconnectAgent hname hsome⟩
    | none =>
      have hemits : self.signInEmits socket packetValue = fun pointer =>
          if self.needsRoom then
            if self.atMaximumRooms then [] else self.openRoom.addAgentEmits socket ob pointer
          else self.addAgentEmits socket ob pointer := by
        funext pointer
        rw [signInEmits, hvalue]
        dsimp only
        rw [hexisting]
        rfl
      rw [signIn, hvalue] at hsignIn
      dsimp only at hsignIn
      rw [hexisting] at hsignIn
      dsimp only at hsignIn
      rw [hemits]
      cases hneeds : self.needsRoom with
      | true =>
        cases hmaximum : self.atMaximumRooms with
        | true =>
          simp only [hneeds, hmaximum, if_true] at hsignIn ⊢
          cases hsignIn
          exact hsame
        | false =>
          simp only [hneeds, hmaximum, if_true, Bool.false_eq_true, if_false] at hsignIn ⊢
          cases hsignIn
          exact moves_openRoom hdistinct hneeds hmaximum socket ob
      | false =>
        simp only [hneeds, Bool.false_eq_true, if_false] at hsignIn ⊢
        cases hsignIn
        cases hrecruiting : self.recruiting with
        | none => simp [needsRoom, hrecruiting] at hneeds
        | some runner =>
          have hopen : runner.full self.playerNumPerRoom = false := by
            simpa [needsRoom, hrecruiting] using hneeds
          exact moves_addAgent hdistinct hrecruiting hopen socket ob

theorem moves_stateChange (self : ServerP) (socket : Socket) (packetValue : QJsonValue) :
    self.Moves (fun _ => []) (self.stateChange socket packetValue) := by
  refine .kept ?_ (fun _ _ _ _ => ?_) fun runner' hrunner' => names_stateChange hrunner'
  · rw [stateChange]
    split
    · rw [pointers_replaceF]
      intro runner runner' hsome
      obtain ⟨-, hsome⟩ := Option.ite_none_right_eq_some.mp hsome
      cases hsome
      rfl
    · exact .refl _
  · rw [stateChange]
    split <;> rfl

/-- Games that are over elsewhere leave the recruiting room alone. -/
theorem current_foldl_logicRunnerGameOver {pointer : Nat} {pointers : List Nat}
    (hother : pointer ∉ pointers) (hcurrent : self.current = some pointer) :
    (pointers.foldl logicRunnerGameOver self).current = some pointer := by
  induction pointers generalizing self with
  | nil => exact hcurrent
  | cons ended rest ih =>
    obtain ⟨hne, hrest⟩ := not_or.mp (mt List.mem_cons.mpr hother)
    refine ih hrest ?_
    rw [logicRunnerGameOver, hcurrent]
    exact if_neg fun hsame => hne (Option.some.inj hsame)

theorem mem_of_rooms_eq {runners runners' : List LogicRunner} {f : LogicRunner → List Seat}
    (hrooms : runners'.map (fun runner => (runner.pointer, runner.children)) =
      runners.map fun runner => (runner.pointer, f runner))
    {runner' : LogicRunner} (hrunner' : runner' ∈ runners') :
    ∃ runner ∈ runners, runner'.pointer = runner.pointer ∧ runner'.children = f runner := by
  have hmem := List.mem_map_of_mem (f := fun runner => (runner.pointer, runner.children)) hrunner'
  rw [hrooms] at hmem
  obtain ⟨runner, hrunner, heq⟩ := List.mem_map.mp hmem
  obtain ⟨hpointer, hchildren⟩ := Prod.mk.inj heq
  exact ⟨runner, hrunner, hpointer.symm, hchildren.symm⟩

theorem moves_socketDisconnected (hdistinct : Distinct self) (socket : Socket)
    (random : RockPaperScissors) :
    self.Moves (fun pointer => self.emits pointer (.socketDisconnected socket random))
      (self.socketDisconnected socket random) := by
  have hrooms : (self.socketDisconnected socket random).runners.map
      (fun runner => (runner.pointer, runner.children)) = self.runners.map fun runner =>
        (runner.pointer, dropSeats self.playerNumPerRoom socket random [] runner.children) := by
    rw [socketDisconnected, foldl_logicRunnerGameOver
      (g := fun self => self.runners.map fun runner => (runner.pointer, runner.children))
      rooms_logicRunnerGameOver, List.map_map]
    rfl
  have hpointers : (self.socketDisconnected socket random).runners.map (·.pointer) =
      self.runners.map (·.pointer) := by
    have hfirst := congrArg (List.map Prod.fst) hrooms
    rwa [List.map_map, List.map_map] at hfirst
  refine .inside (hpointers ▸ .refl _) (fun runner' hrunner' hopen hcurrent => ?_)
    (fun runner' hrunner' => ?_) fun pointer hpointer => ?_
  · obtain ⟨runner, hrunner, hsame, hchildren⟩ := mem_of_rooms_eq hrooms hrunner'
    rw [hcurrent, socketDisconnected]
    refine current_foldl_logicRunnerGameOver (fun hover => ?_) hcurrent
    -- Only a room that is full is abandoned.
    obtain ⟨other, hother, hpointer⟩ := List.mem_map.mp hover
    obtain ⟨hother, habandoned⟩ := List.mem_filter.mp hother
    obtain rfl := hdistinct.eq hrunner hother (hpointer.trans hsame)
    rw [full, hchildren] at hopen
    rw [abandoned, full, dropRunner, hopen] at habandoned
    cases habandoned
  · obtain ⟨runner, hrunner, hsame, hchildren⟩ := mem_of_rooms_eq hrooms hrunner'
    refine ⟨runner, hrunner, hsame, ?_⟩
    simp only [emits, hdistinct.find? hrunner]
    exact .dropped hchildren
  · have hnone : self.runners.find? (fun runner => runner.pointer = pointer) = none := by
      refine List.find?_eq_none.mpr fun runner hrunner hsame => ?_
      have hmem : runner.pointer ∈ self.runners.map (·.pointer) := List.mem_map_of_mem hrunner
      rw [← hpointers] at hmem
      obtain ⟨runner', hrunner', heq⟩ := List.mem_map.mp hmem
      exact hpointer runner' hrunner' (heq.trans (of_decide_eq_true hsame))
    simp only [emits, hnone]

/-- A full room's game is over. -/
theorem moves_logicRunnerGameOver (hdistinct : Distinct self) {runner : LogicRunner}
    (hrunner : runner ∈ self.runners) (hfull : runner.full self.playerNumPerRoom = true) :
    self.Moves (fun _ => []) (self.logicRunnerGameOver runner.pointer) := by
  have hrooms := self.rooms_logicRunnerGameOver runner.pointer
  refine .kept ?_ (fun other hother hopen hcurrent => ?_) fun runner' hrunner' => ?_
  · have hpointers := congrArg (List.map Prod.fst) hrooms
    rw [List.map_map, List.map_map] at hpointers
    exact hpointers ▸ .refl _
  · obtain ⟨old, hold, hsame, hchildren⟩ := mem_of_rooms_eq hrooms hother
    rw [logicRunnerGameOver, hcurrent]
    refine if_neg fun heq => ?_
    obtain rfl := hdistinct.eq hold hrunner ((Option.some.inj heq).symm.trans hsame)
    rw [full, hchildren, ← full, hfull] at hopen
    cases hopen
  · obtain ⟨old, hold, hsame, hchildren⟩ := mem_of_rooms_eq hrooms hrunner'
    exact ⟨old, hold, hsame, by rw [hchildren]⟩

/-- What an event of the server does to the rooms. -/
theorem moves_of_handle (hdistinct : Distinct self) {event : Event}
    (hover : ∀ pointer, event ≠ .gameOver pointer) (hevent : self.handle event = some self') :
    self.Moves (fun pointer => self.emits pointer event) self' := by
  cases handle_cases hevent with
  | newConnection =>
    exact .kept (.refl _) (fun _ _ _ _ => rfl) fun runner hrunner => ⟨runner, hrunner, rfl, rfl⟩
  | signIn _ hsignIn => exact moves_signIn hdistinct hsignIn
  | stateChange => exact moves_stateChange self _ _
  | socketDisconnected => exact moves_socketDisconnected hdistinct _ _
  | gameOver => exact absurd rfl (hover _)
  | runnerDeleted =>
    refine .kept (List.filter_sublist.map _) (fun _ _ _ _ => rfl) fun runner hrunner => ?_
    exact ⟨runner, (List.mem_filter.mp hrunner).1, rfl, rfl⟩
  | socketDeleted =>
    refine .kept ?_ (fun _ _ _ _ => rfl) fun runner' hrunner' => ?_
    · rw [socketDeleted, List.map_map]
      exact .refl _
    · obtain ⟨runner, hrunner, rfl⟩ := List.mem_map.mp hrunner'
      exact ⟨runner, hrunner, rfl, List.flatMap_map _ _ _⟩

/-- What no event changes, and the numbering of the objects. -/
structure SameSettings (server server' : ServerP) : Prop where
  logicConfiguration : server'.logicConfiguration = server.logicConfiguration
  playerNumPerRoom : server'.playerNumPerRoom = server.playerNumPerRoom
  maximumRooms : server'.maximumRooms = server.maximumRooms
  made : server.made ≤ server'.made

theorem SameSettings.refl (self : ServerP) : self.SameSettings self := ⟨rfl, rfl, rfl, le_rfl⟩

theorem sameSettings_signIn {socket : Socket} {packetValue : QJsonValue}
    (hsignIn : self.signIn socket packetValue = .ok self') : self.SameSettings self' := by
  rw [signIn] at hsignIn
  split at hsignIn
  · cases hsignIn
    exact .refl self
  split at hsignIn
  · obtain ⟨⟨conn, effects⟩, -, hsignIn⟩ := Except.bind_eq_ok.mp hsignIn
    cases hsignIn
    exact ⟨rfl, rfl, rfl, le_rfl⟩
  split at hsignIn
  · split at hsignIn
    · cases hsignIn
      exact .refl self
    · cases hsignIn
      exact ⟨rfl, rfl, rfl, Nat.le_succ _⟩
  · cases hsignIn
    exact ⟨rfl, rfl, rfl, le_rfl⟩

theorem sameSettings_of_handle {event : Event} (hevent : self.handle event = some self') :
    self.SameSettings self' := by
  cases handle_cases hevent with
  | newConnection => exact ⟨rfl, rfl, rfl, Nat.le_succ _⟩
  | signIn _ hsignIn => exact sameSettings_signIn hsignIn
  | stateChange =>
    rw [stateChange]
    split
    · exact ⟨rfl, rfl, rfl, le_rfl⟩
    · exact .refl self
  | socketDisconnected =>
    rw [socketDisconnected]
    refine ⟨?_, ?_, ?_, ?_⟩
    · rw [foldl_logicRunnerGameOver (g := logicConfiguration) fun _ _ => rfl]
    · rw [foldl_logicRunnerGameOver (g := playerNumPerRoom) fun _ _ => rfl]
    · rw [foldl_logicRunnerGameOver (g := maximumRooms) fun _ _ => rfl]
    · rw [foldl_logicRunnerGameOver (g := made) fun _ _ => rfl]
  | gameOver | runnerDeleted | socketDeleted => exact ⟨rfl, rfl, rfl, le_rfl⟩

/-- No room has too many agents, only the recruiting room is open, and there are not too
many rooms. -/
structure InBounds (server : ServerP) : Prop where
  distinct : Distinct server
  agents : ∀ runner ∈ server.runners, agentsCount runner.children ≤ server.playerNumPerRoom
  recruiting : ∀ runner ∈ server.runners, runner.full server.playerNumPerRoom = false →
    server.current = some runner.pointer
  rooms : 0 < server.maximumRooms → server.runners.length ≤ server.maximumRooms

/-- The room that is open is the recruiting one. -/
theorem InBounds.recruiting_eq (h : InBounds self) {runner : LogicRunner}
    (hrunner : runner ∈ self.runners) (hopen : runner.full self.playerNumPerRoom = false) :
    ServerP.recruiting self = some runner := by
  rw [ServerP.recruiting, h.recruiting runner hrunner hopen]
  exact h.distinct.find? hrunner

theorem InBounds.moves (h : InBounds self) (hnames : RoomNames self)
    (hpos : 0 < self.playerNumPerRoom) (hsettings : self.SameSettings self')
    {emits : Nat → List Call} (hmoves : self.Moves emits self') : InBounds self' := by
  have hmade := hsettings.made
  cases hmoves with
  | inside hpointers hcurrent hrunners =>
    refine ⟨⟨h.distinct.pointers.sublist hpointers, fun runner hrunner => ?_⟩, fun runner hrunner => ?_,
      fun runner hrunner hopen => ?_, fun hmaximum => ?_⟩
    · obtain ⟨old, hold, hsame, -⟩ := hrunners runner hrunner
      have hlt := h.distinct.made old hold
      omega
    · obtain ⟨old, hold, -, hstep⟩ := hrunners runner hrunner
      rw [hsettings.playerNumPerRoom]
      exact hstep.agents_le (hnames old hold) (h.agents old hold)
    · rw [hsettings.playerNumPerRoom] at hopen
      obtain ⟨old, hold, hsame, hstep⟩ := hrunners runner hrunner
      have hrecruiting := h.recruiting old hold (hstep.was_open hopen)
      rw [← hsame] at hrecruiting
      rw [hcurrent runner hrunner hopen hrecruiting, hrecruiting]
    · rw [hsettings.maximumRooms] at hmaximum ⊢
      have hle := hpointers.length_le
      rw [List.length_map, List.length_map] at hle
      have hrooms := h.rooms hmaximum
      omega
  | opened runner hneeds hroom hrunners hpointer hlt hcurrent hstep =>
    have hfull : ∀ old ∈ self.runners, old.full self.playerNumPerRoom = true := by
      intro old hold
      cases hopen : old.full self.playerNumPerRoom with
      | true => rfl
      | false =>
        rw [needsRoom, h.recruiting_eq hold hopen] at hneeds
        exact hopen.symm.trans hneeds
    refine ⟨⟨?_, ?_⟩, ?_, ?_, fun hmaximum => ?_⟩
    · rw [hrunners, List.map_append, List.nodup_append]
      refine ⟨h.distinct.pointers, List.nodup_singleton _, fun pointer hmem other hother heq => ?_⟩
      obtain ⟨old, hold, rfl⟩ := List.mem_map.mp hmem
      have hnew : other = runner.pointer := List.mem_singleton.mp hother
      have hlt := h.distinct.made old hold
      omega
    · rw [hrunners]
      intro other hother
      rcases List.mem_append.mp hother with hold | hnew
      · have hlt := h.distinct.made other hold
        omega
      · rw [List.mem_singleton.mp hnew]
        omega
    · rw [hrunners, hsettings.playerNumPerRoom]
      intro other hother
      rcases List.mem_append.mp hother with hold | hnew
      · exact h.agents other hold
      · rw [List.mem_singleton.mp hnew]
        exact (hstep hpos).agents_le List.nodup_nil hpos.le
    · rw [hrunners, hsettings.playerNumPerRoom]
      intro other hother hopen
      rcases List.mem_append.mp hother with hold | hnew
      · cases hopen.symm.trans (hfull other hold)
      · rw [List.mem_singleton.mp hnew, hpointer, hcurrent]
    · rw [hsettings.maximumRooms] at hmaximum ⊢
      simp only [atMaximumRooms, Bool.and_eq_false_iff, decide_eq_false_iff_not] at hroom
      rw [hrunners, List.length_append, List.length_singleton]
      omega

end ServerP

end QMdmmNetworking
