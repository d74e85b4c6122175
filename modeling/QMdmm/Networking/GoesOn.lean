import Mathlib.Algebra.Order.BigOperators.Group.Finset
import QMdmm.Networking.Timers

namespace QMdmmNetworking

open QMdmmCore Data Logic LogicThread

namespace RunningRoom

open LogicRunner LogicP ServerConnectionP

variable {rules : Rules} {self self' : RunningRoom} {n : Int}

/-- What holds of a room beside `Sound`: between two rounds somebody is about to start the
next one, or the game is over. -/
structure Lively (rules : Rules) (room : RunningRoom) : Prop where
  logicConfiguration : room.thread.logic.d.room.logicConfiguration = rules.logicConfiguration
  turns : .roundStart ∈ room.thread.taken → room.thread.logic.d.state = .BeforeRoundStart →
    room.ended = true ∨ .roundStart ∈ room.thread.commands ∨
      ∃ signal ∈ room.thread.signals, signal.concludes = true
  backed : AllBacked rules.requestTimeout room.runner

theorem lively_new (rules : Rules) (pointer : Nat) : Lively rules (new rules pointer) where
  logicConfiguration := rfl
  turns htaken := absurd htaken List.not_mem_nil
  backed _ hseat := absurd hseat List.not_mem_nil

/-- What happens outside of the logic leaves what is queued in place. -/
theorem Lively.frame (h : Lively rules self) (hlogic : self'.thread.logic = self.thread.logic)
    (htaken : self'.thread.taken = self.thread.taken)
    (hhandled : self'.thread.handled = self.thread.handled)
    (hcommands : self.thread.commands ⊆ self'.thread.commands)
    (hended : self.ended = true → self'.ended = true)
    (hbacked : AllBacked rules.requestTimeout self'.runner) : Lively rules self' := by
  refine ⟨?_, fun hstarted hstate => ?_, hbacked⟩
  · rw [hlogic]
    exact h.logicConfiguration
  · rw [htaken] at hstarted
    rw [hlogic] at hstate
    obtain hover | hqueued | hsignal := h.turns hstarted hstate
    · exact .inl (hended hover)
    · exact .inr (.inl (hcommands hqueued))
    · refine .inr (.inr ?_)
      rwa [LogicThread.signals, hlogic, hhandled]

theorem Lively.addAgent (h : Lively rules self) (agent : Agent) (socket : Socket) :
    Lively rules (self.addAgent rules agent socket) := by
  refine h.frame rfl rfl rfl (List.subset_append_left _ _) id fun seat hseat => ?_
  obtain hseat | hseat := List.mem_append.mp hseat
  · exact h.backed seat hseat
  · rw [List.mem_singleton.mp hseat]
    exact ⟨rfl, fun _ hasked => absurd rfl hasked⟩

theorem Lively.agentDisconnected (h : Lively rules self) (playerName : String) :
    Lively rules (self.agentDisconnected n playerName) := by
  rw [RunningRoom.agentDisconnected]
  split
  · refine h.frame rfl rfl rfl (fun _ => id) (fun hended => ?_) h.backed
    simp [hended]
  · refine h.frame rfl rfl rfl (List.subset_append_left _ _) id fun seat hseat => ?_
    exact h.backed seat (List.mem_of_mem_filter hseat)

theorem Lively.receive (h : Lively rules self) {playerName : String} {l : Session.Step}
    (hreceive : self.receive n playerName l = some self') : Lively rules self' := by
  obtain ⟨seat, conn, effects, hseat, hruns, hact, rfl⟩ := receive_cases hreceive
  obtain ⟨hcalms, -⟩ := act_calms playerName hruns hact
  have hbacked := (h.backed seat (List.mem_of_find?_eq_some hseat)).calms hcalms
  have hroom : Lively rules { self with
      runner := self.runner.setConn playerName conn
      thread := self.thread.enqueue ((repliesOf effects).map (LogicRunnerP.replied playerName)) } :=
    h.frame rfl rfl rfl (List.subset_append_left _ _) id (h.backed.setConn hbacked)
  dsimp only
  split
  · exact hroom.agentDisconnected playerName
  · exact hroom

theorem Lively.reconnectAgent (h : Lively rules self) {playerName : String} {socket : Socket}
    {lastRoundEventSeq : Int}
    (hreconnect : self.reconnectAgent playerName socket lastRoundEventSeq = some self') :
    Lively rules self' := by
  obtain ⟨seat, runner, hseat, hrunner, rfl⟩ := reconnectAgent_cases hreconnect
  refine h.frame rfl rfl rfl (fun _ => id) id fun other hother => ?_
  obtain hold | rfl := (reseats_reconnectAgent hseat hrunner).mem_or_eq hother
  · exact h.backed other hold
  · obtain ⟨henabled, hrunning⟩ := h.backed seat (List.mem_of_find?_eq_some hseat)
    exact ⟨henabled, hrunning⟩

/-- The first `roundStart` finds two players at least. -/
theorem Sound.accepts_roundStart (h : Sound n self) (htwo : 2 ≤ n) {rest : List Call}
    (hcommands : self.thread.commands = .roundStart :: rest)
    (hstate : self.thread.logic.d.state = .BeforeRoundStart) :
    self.thread.logic.d.Accepts .roundStart := by
  have hfull : self.runner.full n = true := by
    cases h.inStep with
    | recruiting _ _ hqueued =>
      rw [hcommands] at hqueued
      cases (List.forall_mem_cons.mp hqueued).1
    | starting _ _ hfull | started hfull => exact hfull
  obtain ⟨hnames, -⟩ := h.inStep.roundStart htwo h.names hcommands
  have hplayers : self.thread.logic.playerSet.card =
      self.thread.logic.d.room.playerNames.length :=
    List.toFinset_card_of_nodup self.thread.logic.d.room.playerNames_nodup
  have hagents : (agentNames self.runner.children).card = agentsCount self.runner.children := by
    rw [agentsCount_eq]
    exact List.toFinset_card_of_nodup h.names
  have hsame := congrArg Finset.card hnames
  have hcount := full_eq_true.mp hfull
  exact ⟨hstate, by omega⟩

/-- Whose turn it is after a command. -/
theorem Lively.command (h : Lively rules self) (hsound : Sound rules.playerNumPerRoom self)
    (htwo : 2 ≤ rules.playerNumPerRoom) (haccepted : rules.logicConfiguration.Accepted)
    (hends : rules.logicConfiguration.RoundsEnd) {thread : LogicThread}
    (htake : self.thread.take = some thread) : Lively rules { self with thread := thread } := by
  obtain ⟨c, rest, ret, hcommands, hcall, hthread⟩ := take_cases htake
  have hc : c ∈ self.thread.commands := hcommands ▸ List.mem_cons_self
  obtain ⟨hreplies, hending, hbusy⟩ := (busy_invariant rules.logicConfiguration haccepted.sound
    hends).of_reachable hsound.logic h.logicConfiguration
  have honward := onward hreplies.1 hreplies.2 haccepted.sound hends.1 hending
    (hsound.onlyAsked hc) hbusy hcall
  have htaken : thread.taken = self.thread.taken ++ [c] := by rw [hthread]
  have hqueued : thread.commands = rest := by rw [hthread]
  have hhandled : thread.handled = self.thread.handled := by rw [hthread]
  refine ⟨(call_cases hcall).room.logicConfiguration.trans h.logicConfiguration,
    fun hstarted hstate => ?_, h.backed⟩
  dsimp only at hstarted hstate ⊢
  cases honward with
  | asks hasked =>
    rw [AskedPlayer, hstate] at hasked
    exact hasked.elim
  | @concludes signal _ hconcludes henv =>
    refine .inr (.inr ⟨signal, ?_, hconcludes⟩)
    rw [LogicThread.signals, henv, hhandled, List.drop_append_of_le_length hsound.handled]
    exact List.mem_append_right _ (List.mem_singleton_self _)
  | rests hrested _ henv hnot =>
    have hother : c ≠ .roundStart := by
      rintro rfl
      exact hnot rfl (hsound.accepts_roundStart htwo hcommands hrested)
    rw [htaken] at hstarted
    have hbefore : .roundStart ∈ self.thread.taken :=
      (List.mem_append.mp hstarted).resolve_right fun hlast =>
        hother (List.mem_singleton.mp hlast).symm
    rw [hqueued, LogicThread.signals, henv, hhandled]
    obtain hover | hstart | hsignal := h.turns hbefore hrested
    · exact .inl hover
    · rw [hcommands] at hstart
      exact .inr (.inl ((List.mem_cons.mp hstart).resolve_left (Ne.symm hother)))
    · exact .inr (.inr hsignal)

/-- A signal that ends a round ends the game or starts the next one. -/
theorem Lively.handleSignal (h : Lively rules self) (hsound : Sound n self)
    (hsignal : self.handleSignal = some self') : Lively rules self' := by
  obtain ⟨signal, result, hsignals, hresult, -, -, -, hself'⟩ := hsound.handlesSignal hsignal
  obtain ⟨hstarts, -, hconcludes⟩ := h.backed.handle hresult
  have hlogic : self'.thread.logic = self.thread.logic := by rw [hself']; rfl
  have htaken : self'.thread.taken = self.thread.taken := by rw [hself']; rfl
  have hqueued : self'.thread.commands = self.thread.commands ++ result.commands := by
    rw [hself']
    rfl
  have hended : self'.ended = (self.ended || result.ended) := by rw [hself']
  refine ⟨?_, fun hstarted hstate => ?_, ?_⟩
  · rw [hlogic]
    exact h.logicConfiguration
  · rw [htaken] at hstarted
    rw [hlogic] at hstate
    rw [hended, Bool.or_eq_true, hqueued, List.mem_append]
    obtain hover | hstart | ⟨other, hother, hends⟩ := h.turns hstarted hstate
    · exact .inl (.inl hover)
    · exact .inr (.inl (.inl hstart))
    · rw [hsignals] at hother
      obtain rfl | hlater := List.mem_cons.mp hother
      · obtain hover | hstart := hconcludes hends
        · exact .inl (.inr hover)
        · exact .inr (.inl (.inr hstart))
      · exact .inr (.inr ⟨other, hlater, hends⟩)
  · rw [hself']
    exact hstarts.backed

theorem Lively.handle (h : Lively rules self) (hsound : Sound rules.playerNumPerRoom self)
    (htwo : 2 ≤ rules.playerNumPerRoom) (haccepted : rules.logicConfiguration.Accepted)
    (hends : rules.logicConfiguration.RoundsEnd) {event : Event}
    (hevent : self.handle rules event = some self') : Lively rules self' := by
  cases event with
  | addAgent agent socket =>
    obtain ⟨-, hsome⟩ := Option.ite_none_left_eq_some.mp hevent
    cases hsome
    exact h.addAgent agent socket
  | reconnectAgent => exact h.reconnectAgent hevent
  | connection => exact h.receive hevent
  | stateChange playerName state =>
    cases hevent
    refine h.frame rfl rfl rfl (fun _ => id) id (h.backed.map fun seat hseat => ?_)
    split
    · exact ⟨hseat.enabled, hseat.running⟩
    · exact hseat
  | socketDeleted socket =>
    cases hevent
    exact h.frame rfl rfl rfl (fun _ => id) id (h.backed.map fun seat hseat =>
      ⟨hseat.enabled, hseat.running⟩)
  | command =>
    obtain ⟨thread, htake, rfl⟩ := Option.map_eq_some_iff.mp hevent
    exact h.command hsound htwo haccepted hends htake
  | signal => exact h.handleSignal hsound hevent

/-- Both hold of every room whose rounds end. -/
theorem lively_invariant (htwo : 2 ≤ rules.playerNumPerRoom)
    (haccepted : rules.logicConfiguration.Accepted) (hends : rules.logicConfiguration.RoundsEnd) :
    (system rules).Invariant fun room => Sound rules.playerNumPerRoom room ∧ Lively rules room where
  init _ hself := by
    obtain ⟨pointer, rfl⟩ := hself
    exact ⟨sound_new (by omega) pointer, lively_new rules pointer⟩
  step _ _ _ hself hstep :=
    ⟨hself.1.handle hstep, hself.2.handle hself.1 htwo haccepted hends hstep⟩

section Weight

/-- How much is left to do for a player: a request is put, answered and taken, and each
timer runs out. -/
def weightOf (self : RunningRoom) (name : String) : Nat :=
  (self.thread.commands.flatMap (Call.answersOf name)).length +
    2 * (openOf self.runner name).length + timersOf self.runner name +
    4 * (self.thread.signals.flatMap (Signal.requestsTo name)).length

/-- How much is left to do in a room before its logic goes on. -/
def weight (self : RunningRoom) : Nat :=
  ∑ name ∈ agentNames self.runner.children, self.weightOf name +
    self.thread.commands.countP (fun c => c.replier = none) + 2 * self.thread.signals.length

/-- A command that the logic takes is not left to do. -/
theorem weight_command (h : Sound n self) {thread : LogicThread}
    (htake : self.thread.take = some thread)
    (henv : thread.logic.env = self.thread.logic.env) :
    weight { self with thread := thread } < self.weight := by
  obtain ⟨c, rest, ret, hcommands, -, hthread⟩ := take_cases htake
  have hqueued : thread.commands = rest := by rw [hthread]
  have hsignals : thread.signals = self.thread.signals := by
    rw [LogicThread.signals, LogicThread.signals, henv, hthread]
  have hof (name : String) : self.weightOf name =
      weightOf { self with thread := thread } name + (Call.answersOf name c).length := by
    rw [weightOf, weightOf, hcommands, hqueued, hsignals, List.flatMap_cons, List.length_append]
    dsimp only
    omega
  rw [weight, weight, hcommands, hqueued, hsignals, List.countP_cons]
  cases hname : c.replier with
  | none =>
    have hsame : ∀ name ∈ agentNames self.runner.children,
        self.weightOf name = weightOf { self with thread := thread } name := by
      intro name _
      rw [hof, Call.answersOf_eq_nil hname, List.length_nil, Nat.add_zero]
    rw [Finset.sum_congr rfl hsame]
    simp
  | some name =>
    have hagent : name ∈ agentNames self.runner.children :=
      mem_agentNames.mpr (h.repliers c (hcommands ▸ List.mem_cons_self) name hname)
    have hless : weightOf { self with thread := thread } name < self.weightOf name := by
      rw [hof, Call.answersOf, if_pos hname]
      exact Nat.lt_succ_self _
    have hsum := Finset.sum_lt_sum (fun other _ => by rw [hof]; exact Nat.le_add_right _ _)
      ⟨name, hagent, hless⟩
    simp only [reduceCtorEq, decide_false, Bool.false_eq_true, if_false]
    omega

/-- A signal that is handled is not left to do; its requests are half done. -/
theorem weight_signal {requestTimeout : Int} (h : Sound n self)
    (hbacked : AllBacked requestTimeout self.runner)
    (hsignal : self.handleSignal = some self') : self'.weight < self.weight := by
  obtain ⟨signal, result, hsignals, hresult, hsame, hopen, hcommands, hself'⟩ := h.handlesSignal hsignal
  obtain ⟨hstarts, hlength, -⟩ := hbacked.handle hresult
  have hrunner : self'.runner = result.runner := by rw [hself']
  have hqueued : self'.thread.commands = self.thread.commands ++ result.commands := by
    rw [hself']
    rfl
  have hnames : agentNames self'.runner.children = agentNames self.runner.children := by
    rw [hrunner, agentNames, agentNames, hsame.2]
  have hle : ∀ name ∈ agentNames self.runner.children, self'.weightOf name ≤ self.weightOf name := by
    intro name _
    have hnone := Call.flatMap_answersOf_eq_nil (fun c hc => (hcommands c hc).1) name
    have htimers := hstarts.timers name
    rw [weightOf, weightOf, hrunner, hqueued, hsignals, hopen, List.flatMap_append, hnone,
      List.append_nil, List.flatMap_cons, List.length_append, List.length_append]
    omega
  have hsum := Finset.sum_le_sum hle
  have hcount : result.commands.countP (fun c => c.replier = none) ≤ 1 :=
    List.countP_le_length.trans hlength
  rw [weight, weight, hnames, hqueued, hsignals, List.countP_append, List.length_cons]
  omega

/-- A timer that has run out runs no more, and what it has answered is half done. -/
theorem weight_connection (hfull : self.runner.full n = true)
    {playerName : String} {l : Session.Step}
    (hinternal : Event.internal (.connection playerName l) = true)
    (hreceive : self.receive n playerName l = some self') :
    self'.runner.full n = true ∧ self'.thread.logic = self.thread.logic ∧
      self'.weight < self.weight := by
  obtain ⟨seat, conn, effects, hseat, hruns, hact, hself'⟩ := receive_cases hreceive
  obtain ⟨hname, hsettles⟩ := act_cases hruns hact
  obtain ⟨-, hstops⟩ := act_calms playerName hruns hact
  have hconn : conn.agent.objectName = playerName :=
    hname.trans (Seat.isAgent_iff.mp (List.find?_some hseat)).2
  have hagent : (self.runner.agent playerName).isSome = true := by rw [hseat]; rfl
  have hchildren : (self.runner.setConn playerName conn).children.flatMap Seat.names =
      self.runner.children.flatMap Seat.names := names_map (names_setConn hconn)
  have hnames : agentNames (self.runner.setConn playerName conn).children =
      agentNames self.runner.children := by
    rw [agentNames, agentNames, hchildren]
  have hstill : (self.runner.setConn playerName conn).full n = true :=
    (full_congr hchildren).trans hfull
  have hrunner : self'.runner = self.runner.setConn playerName conn := by
    rw [hself']
    dsimp only
    split
    · rw [RunningRoom.agentDisconnected, if_pos hstill]
    · rfl
  have hthread : self'.thread = self.thread.enqueue
      ((repliesOf effects).map (LogicRunnerP.replied playerName)) := by
    rw [hself']
    dsimp only
    split
    · rw [RunningRoom.agentDisconnected, if_pos hstill]
    · rfl
  have hmoved := congrArg List.length (inFlight_of_settles hsettles)
  rw [List.length_append, List.length_map] at hmoved
  have hof (name : String) : self'.weightOf name ≤ self.weightOf name ∧
      (name = playerName → self'.weightOf name < self.weightOf name) := by
    have hlogic : self'.thread.signals = self.thread.signals := by rw [hthread]; rfl
    rw [weightOf, weightOf, hlogic, hrunner, hthread, enqueue, openOf_setConn hconn hagent,
      timersOf, agent_setConn hconn, List.flatMap_append, flatMap_answersOf_replied,
      List.length_append]
    by_cases hsame : name = playerName
    · have hlater := hstops hinternal
      rw [if_pos hsame, if_pos hsame, if_pos hsame.symm, hsame, openOf, timersOf, hseat,
        Option.map_some, Option.elim_some, Option.elim_some, Option.elim_some, List.length_map]
      dsimp only
      omega
    · rw [if_neg hsame, if_neg hsame, if_neg (Ne.symm hsame), timersOf]
      exact ⟨Nat.le_refl _, fun heq => absurd heq hsame⟩
  have hsum := Finset.sum_lt_sum (fun name _ => (hof name).1)
    ⟨playerName, mem_agentNames.mpr hagent, (hof playerName).2 rfl⟩
  have hreplies : ((repliesOf effects).map (LogicRunnerP.replied playerName)).countP
      (fun c => c.replier = none) = 0 := by
    rw [List.countP_eq_zero]
    intro c hc
    obtain ⟨reply, -, rfl⟩ := List.mem_map.mp hc
    cases reply <;> exact Bool.noConfusion
  have hlogic : self'.thread.logic = self.thread.logic := by rw [hthread]; rfl
  have hsignals : self'.thread.signals = self.thread.signals := by rw [hthread]; rfl
  have hcommands : self'.thread.commands.countP (fun c => c.replier = none) =
      self.thread.commands.countP (fun c => c.replier = none) := by
    rw [hthread, enqueue, List.countP_append, hreplies]
    rfl
  refine ⟨hrunner ▸ hstill, hlogic, ?_⟩
  rw [weight, weight, hcommands, hsignals, hrunner, hnames]
  omega

end Weight

/-- An event from within a room either makes the logic say something or uses up weight. -/
theorem internal_step {requestTimeout : Int} (h : Sound rules.playerNumPerRoom self)
    (hbacked : AllBacked requestTimeout self.runner)
    (hfull : self.runner.full rules.playerNumPerRoom = true) {event : Event}
    (hinternal : event.internal = true) (hevent : self.handle rules event = some self') :
    self'.runner.full rules.playerNumPerRoom = true ∧
      (self.thread.logic.env.length < self'.thread.logic.env.length ∨
        self.thread.logic.env.length = self'.thread.logic.env.length ∧
          self'.weight < self.weight) := by
  cases event with
  | addAgent | reconnectAgent | stateChange | socketDeleted => cases hinternal
  | connection playerName l =>
    obtain ⟨hstill, hlogic, hless⟩ := weight_connection hfull hinternal hevent
    exact ⟨hstill, .inr ⟨by rw [hlogic], hless⟩⟩
  | command =>
    obtain ⟨thread, htake, rfl⟩ := Option.map_eq_some_iff.mp hevent
    obtain ⟨c, rest, ret, -, hcall, -⟩ := take_cases htake
    obtain ⟨signals, henv, -⟩ := asksPlayers_of_call h.reachable hcall
    refine ⟨hfull, ?_⟩
    by_cases hquiet : signals = []
    · rw [hquiet, List.append_nil] at henv
      exact .inr ⟨by rw [henv], weight_command h htake henv⟩
    · rw [henv, List.length_append]
      exact .inl (Nat.lt_add_of_pos_right (List.length_pos_of_ne_nil hquiet))
  | signal =>
    have hless := weight_signal h hbacked hevent
    obtain ⟨signal, result, -, -, hsame, -, -, rfl⟩ := h.handlesSignal hevent
    exact ⟨(full_congr hsame.2).trans hfull, .inr ⟨rfl, hless⟩⟩

/-- What is queued can be handled, and a timer that runs can run out. -/
theorem Sound.exists_internal (h : Sound rules.playerNumPerRoom self)
    (hqueued : self.thread.commands ≠ [] ∨ self.thread.signals ≠ [] ∨
      ∃ name, 0 < timersOf self.runner name) :
    ∃ event self', Event.internal event = true ∧ self.handle rules event = some self' := by
  obtain hcommands | hsignals | ⟨name, htimers⟩ := hqueued
  · obtain ⟨c, rest, hcommands⟩ := List.exists_cons_of_ne_nil hcommands
    obtain ⟨ret, logic, hcall⟩ := call_ok h.reachable c
    obtain ⟨thread, htake⟩ : ∃ thread, self.thread.take = some thread := by
      rw [take, hcommands]
      dsimp only
      rw [hcall]
      exact ⟨_, rfl⟩
    exact ⟨.command, { self with thread := thread }, rfl, by rw [RunningRoom.handle, htake]; rfl⟩
  · obtain ⟨signal, rest, hsignals⟩ := List.exists_cons_of_ne_nil hsignals
    obtain ⟨-, hasks⟩ := h.inStep.asks (hsignals ▸ List.mem_cons_self)
    obtain ⟨result, hresult, -⟩ := exists_handle hasks
    obtain ⟨self', hself'⟩ : ∃ self', self.handleSignal = some self' := by
      rw [RunningRoom.handleSignal, hsignals]
      dsimp only
      rw [hresult]
      exact ⟨_, rfl⟩
    exact ⟨.signal, self', rfl, hself'⟩
  · rw [timersOf] at htimers
    cases hseat : self.runner.agent name with
    | none =>
      rw [hseat] at htimers
      exact absurd htimers (Nat.lt_irrefl 0)
    | some seat =>
      rw [hseat, Option.elim_some] at htimers
      have henabled (event : Session.Event) (hevent : event = .requestTimeout ∨
          event = .executeDefaultReply) (hruns : runs seat.conn event = true) :
          ∃ self', self.receive rules.playerNumPerRoom name ⟨event, false, .Rock⟩ = some self' := by
        rw [RunningRoom.receive, hseat]
        dsimp only
        rw [if_pos hruns]
        obtain rfl | rfl := hevent
        · exact ⟨_, rfl⟩
        · exact ⟨_, rfl⟩
      cases hrunning : seat.conn.requestTimer with
      | true =>
        obtain ⟨self', hself'⟩ := henabled .requestTimeout (.inl rfl) hrunning
        exact ⟨.connection name _, self', rfl, hself'⟩
      | false =>
        have hshots : 0 < seat.conn.singleShots := by
          rw [timers, hrunning] at htimers
          exact htimers
        obtain ⟨self', hself'⟩ := henabled .executeDefaultReply (.inr rfl) (decide_eq_true hshots)
        exact ⟨.connection name _, self', rfl, hself'⟩

/-- Something is under way in a game that is not over. -/
theorem Lively.underway (h : Lively rules self) (hsound : Sound rules.playerNumPerRoom self)
    (haccepted : rules.logicConfiguration.Accepted) (hends : rules.logicConfiguration.RoundsEnd)
    (hfull : self.runner.full rules.playerNumPerRoom = true) (hended : self.ended = false) :
    self.thread.commands ≠ [] ∨ self.thread.signals ≠ [] ∨
      ∃ name, openOf self.runner name ≠ [] := by
  cases hsound.inStep with
  | recruiting hopen => cases hopen.symm.trans hfull
  | starting pre post _ _ hcommands =>
    left
    rw [hcommands]
    exact List.append_ne_nil_of_right_ne_nil _ (List.cons_ne_nil _ _)
  | started _ htaken =>
    obtain ⟨-, -, hstate | ⟨name, hasked⟩⟩ := (busy_invariant rules.logicConfiguration
      haccepted.sound hends).of_reachable hsound.logic h.logicConfiguration
    · obtain hover | hstart | ⟨signal, hsignal, -⟩ := h.turns htaken hstate
      · cases hended.symm.trans hover
      · exact .inl (List.ne_nil_of_mem hstart)
      · exact .inr (.inl (List.ne_nil_of_mem hsignal))
    · by_contra hnothing
      push Not at hnothing
      obtain ⟨hcommands, hsignals, hopen⟩ := hnothing
      have hdue := hsound.requests name
      rw [requestsOf, hcommands, hsignals, hopen, due, if_pos hasked] at hdue
      cases hdue

/-- A game that has started and is not over has a command, a signal or a request under
way. If requests are limited in time, something can always happen without any client, and
however these events are ordered, the logic goes on before `weight` of them are over: no
silence of the clients holds up a room. -/
theorem goes_on (htwo : 2 ≤ rules.playerNumPerRoom)
    (haccepted : rules.logicConfiguration.Accepted) (hends : rules.logicConfiguration.RoundsEnd)
    (hreach : (system rules).Reachable self)
    (hfull : self.runner.full rules.playerNumPerRoom = true) (hended : self.ended = false) :
    (self.thread.commands ≠ [] ∨ self.thread.signals ≠ [] ∨
      ∃ name, openOf self.runner name ≠ []) ∧
    (0 < rules.requestTimeout →
      ∃ event self', Event.internal event = true ∧ self.handle rules event = some self') ∧
    ∀ events self', (∀ event ∈ events, Event.internal event = true) →
      (system rules).Run self events self' →
      self.thread.logic.env.length < self'.thread.logic.env.length ∨
        events.length ≤ self.weight := by
  have hinv := lively_invariant htwo haccepted hends
  obtain ⟨hsound, hlively⟩ := hinv.of_reachable hreach
  have hunderway := hlively.underway hsound haccepted hends hfull hended
  refine ⟨hunderway, fun hlimited => hsound.exists_internal ?_, fun events self' hinternal hrun => ?_⟩
  · obtain hcommands | hsignals | ⟨name, hopen⟩ := hunderway
    · exact .inl hcommands
    · exact .inr (.inl hsignals)
    · refine .inr (.inr ⟨name, ?_⟩)
      rw [openOf] at hopen
      cases hseat : self.runner.agent name with
      | none =>
        rw [hseat] at hopen
        exact absurd rfl hopen
      | some seat =>
        rw [hseat, Option.elim_some, inFlight] at hopen
        have hasked : seat.conn.currentRequest ≠ .RequestInvalid := fun hnone =>
          hopen (if_pos hnone)
        rw [timersOf, hseat]
        exact (hlively.backed seat (List.mem_of_find?_eq_some hseat)).running hlimited hasked
  · obtain ⟨-, hran⟩ := TransitionSystem.Run.progress_or_length_le
      (fun room => room.thread.logic.env.length) weight
      (I := fun room => (Sound rules.playerNumPerRoom room ∧ Lively rules room) ∧
        room.runner.full rules.playerNumPerRoom = true)
      (P := fun event => Event.internal event = true)
      (fun _ event _ hroom hevent hstep => by
        obtain ⟨hstill, hstep'⟩ := internal_step hroom.1.1 hroom.1.2.backed hroom.2 hevent hstep
        exact ⟨⟨hinv.step _ _ _ hroom.1 hstep, hstill⟩, hstep'⟩)
      ⟨⟨hsound, hlively⟩, hfull⟩ hinternal hrun
    omega

/-- While the reply of B is not there yet, something can happen without B. -/
theorem goes_on_without_B : ∃ room event room', (system ⟨.defaults, 2, 20⟩).Reachable room ∧
    openOf room.runner "B" = [.RequestRockPaperScissors] ∧ Event.internal event = true ∧
    room.handle ⟨.defaults, 2, 20⟩ event = some room' := by
  obtain ⟨room, hreach, hend⟩ := exists_run ⟨.defaults, 2, 20⟩ oneAnswered
    (fun room => decide (openOf room.runner "B" = [.RequestRockPaperScissors] ∧
      room.runner.full 2 = true ∧ room.ended = false)) (by decide +kernel)
  obtain ⟨hopen, hfull, hended⟩ := of_decide_eq_true hend
  have haccepted : LogicConfiguration.defaults.Accepted := ⟨.object LogicConfiguration.defaults.object, rfl⟩
  obtain ⟨-, hinternal, -⟩ := @goes_on ⟨.defaults, 2, 20⟩ room (by decide) haccepted
    (by decide +kernel) hreach hfull hended
  obtain ⟨event, room', hevent, hnext⟩ := hinternal (by decide)
  exact ⟨room, event, room', hreach, hopen, hevent, hnext⟩

end RunningRoom

end QMdmmNetworking
