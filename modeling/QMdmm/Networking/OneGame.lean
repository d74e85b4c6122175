import QMdmm.Core.Rounds
import QMdmm.Networking.OneRequest

namespace QMdmmNetworking

open QMdmmCore Data Logic LogicThread

namespace RunningRoom

open LogicRunner LogicP ServerConnectionP

variable {rules : Rules} {self self' : RunningRoom} {n : Int}

/-- How often a round is under way in a room: it is to start, it goes on, its results are
to be handled, or it was the last one. -/
def turns (self : RunningRoom) : Nat :=
  self.thread.commands.countP isRoundStart +
    self.thread.signals.countP Signal.isUpgradeResult +
    self.thread.logic.env.countP Signal.isGameOver +
    if self.thread.logic.d.state = .BeforeRoundStart then 0 else 1

/-- What a room has played so far. -/
structure Counted (rules : Rules) (room : RunningRoom) : Prop where
  logicConfiguration : room.thread.logic.d.room.logicConfiguration = rules.logicConfiguration
  agents : (agentsCount room.runner.children : Int) ≤ rules.playerNumPerRoom
  turn : room.turns ≤ 1
  last : ∀ signal ∈ room.thread.logic.env.dropLast, signal.isGameOver = false
  spent : room.thread.logic.env.countP Signal.isGameOver = 0 →
    room.thread.logic.env.countP Signal.isUpgradeResult + room.thread.logic.d.room.upgradesLeft ≤
      room.thread.logic.d.room.playerNames.length * rules.logicConfiguration.upgradeTotal
  rounds : room.thread.logic.env.countP Signal.isUpgradeResult = 0 ∨
    (room.thread.logic.env.countP Signal.isUpgradeResult : Int) +
      room.thread.logic.d.room.playerNames.length ≤
      room.thread.logic.d.room.playerNames.length * rules.logicConfiguration.upgradeTotal

theorem counted_new (hpos : 0 < rules.playerNumPerRoom) (pointer : Nat) :
    Counted rules (new rules pointer) where
  logicConfiguration := rfl
  agents := hpos.le
  turn := Nat.zero_le _
  last _ hsignal := absurd hsignal List.not_mem_nil
  spent _ := by
    have hle : (Room.new rules.logicConfiguration).upgradesLeft ≤ _ :=
      Room.upgradesLeft_le fun p hp => absurd hp List.not_mem_nil
    exact (zero_add _).le.trans hle
  rounds := .inl rfl

/-- What happens outside of the logic plays nothing. -/
theorem Counted.frame (h : Counted rules self) (hlogic : self'.thread.logic = self.thread.logic)
    (hagents : (agentsCount self'.runner.children : Int) ≤ rules.playerNumPerRoom)
    (hturn : self'.turns ≤ 1) : Counted rules self' := by
  obtain ⟨hconf, -, -, hlast, hspent, hrounds⟩ := h
  refine ⟨?_, hagents, hturn, ?_, ?_, ?_⟩
  · rwa [hlogic]
  · rwa [hlogic]
  · rwa [hlogic]
  · rwa [hlogic]

/-- Commands that are queued are to be taken once each. -/
theorem turns_enqueue (self : RunningRoom) (runner : LogicRunner) (commands : List Call)
    (kickOffs : Nat) (ended : Bool) :
    turns ⟨runner, { self.thread.enqueue commands with kickOffs := kickOffs }, ended⟩ =
      self.turns + commands.countP isRoundStart := by
  dsimp only [turns, LogicThread.signals, enqueue]
  rw [List.countP_append]
  omega

theorem countP_replied (playerName : String) (replies : List Reply) :
    (replies.map (LogicRunnerP.replied playerName)).countP isRoundStart = 0 := by
  rw [List.countP_eq_zero]
  intro c hc
  obtain ⟨reply, -, rfl⟩ := List.mem_map.mp hc
  cases reply <;> exact Bool.noConfusion

/-- Before its game starts, no round is under way in a room. -/
theorem Sound.turns_of_open (h : Sound n self) (hopen : self.runner.full n = false) :
    self.turns = 0 := by
  cases h.inStep with
  | starting _ _ hfull | started hfull => cases hfull.symm.trans hopen
  | recruiting _ hresting hcommands =>
    rw [turns, countP_isRoundStart hcommands, LogicThread.signals, hresting.env, if_pos hresting.state,
      List.drop_nil]
    rfl

theorem Counted.addAgent (h : Counted rules self) (hsound : Sound rules.playerNumPerRoom self)
    (hopen : self.runner.full rules.playerNumPerRoom = false) (agent : Agent) (socket : Socket) :
    Counted rules (self.addAgent rules agent socket) := by
  set conn := ((ServerConnectionP.new agent rules.logicConfiguration
    rules.requestTimeout).setSocket socket).1
  refine h.frame rfl ?_ ?_
  · have hlength := congrArg List.length (self.runner.names_addAgent conn)
    have hlt := full_eq_false.mp hopen
    rw [agentsCount_eq] at hlt
    rw [agentsCount_eq]
    change (((self.runner.addAgent conn).children.flatMap Seat.names).length : Int) ≤ _
    rw [hlength, List.length_append]
    split
    · simp only [List.length_nil]
      omega
    · simp only [List.length_singleton]
      omega
  · have hturns : (self.addAgent rules agent socket).turns = self.turns +
        (self.runner.addAgentEmits rules.playerNumPerRoom conn).countP isRoundStart :=
      turns_enqueue self _ _ _ _
    rw [hturns, hsound.turns_of_open hopen, Nat.zero_add, addAgentEmits]
    split
    · exact Nat.zero_le _
    · split
      · exact Nat.le_refl 1
      · exact Nat.zero_le 1

theorem Counted.agentDisconnected (h : Counted rules self) (playerName : String) :
    Counted rules (self.agentDisconnected rules.playerNumPerRoom playerName) := by
  rw [RunningRoom.agentDisconnected]
  split
  · exact h.frame rfl h.agents h.turn
  · refine h.frame rfl (le_trans ?_ h.agents) ?_
    · rw [agentsCount_eq, agentsCount_eq]
      exact_mod_cast (List.filter_sublist.flatMap Seat.names).length_le
    · refine (turns_enqueue self _ _ _ _).le.trans ?_
      exact h.turn

theorem Counted.receive (h : Counted rules self) {playerName : String} {l : Session.Step}
    (hreceive : self.receive rules.playerNumPerRoom playerName l = some self') :
    Counted rules self' := by
  obtain ⟨seat, conn, effects, hseat, hruns, hact, rfl⟩ := receive_cases hreceive
  obtain ⟨hname, -⟩ := act_cases hruns hact
  have hconn : conn.agent.objectName = playerName :=
    hname.trans (Seat.isAgent_iff.mp (List.find?_some hseat)).2
  have hnames : (self.runner.setConn playerName conn).children.flatMap Seat.names =
      self.runner.children.flatMap Seat.names := names_map (names_setConn hconn)
  have hroom : Counted rules { self with
      runner := self.runner.setConn playerName conn
      thread := self.thread.enqueue ((repliesOf effects).map (LogicRunnerP.replied playerName)) } := by
    refine h.frame rfl ?_ ?_
    · rw [agentsCount_eq, hnames, ← agentsCount_eq]
      exact h.agents
    · refine (turns_enqueue self _ _ _ _).le.trans ?_
      rw [countP_replied]
      exact h.turn
  dsimp only
  split
  · exact hroom.agentDisconnected playerName
  · exact hroom

/-- A signal that ends a round starts the next one at most. -/
theorem handle_turns {runner : LogicRunner} {signal : Signal} {result : Handled}
    (h : runner.handle signal = some result) :
    result.commands.countP isRoundStart ≤ [signal].countP Signal.isUpgradeResult := by
  cases signal with
  | requestRpsForAction | requestActionOrder | requestRpsForActionOrder | requestAction
  | requestUpgrade =>
    obtain ⟨-, -, rfl⟩ := Option.map_eq_some_iff.mp h
    exact Nat.zero_le _
  | rpsResult | actionOrderResult | actionResult | gameOver | roundOver =>
    cases h
    exact Nat.zero_le _
  | upgradeResult upgrades =>
    rw [LogicRunner.handle] at h
    split at h
    · cases h
      exact Nat.zero_le _
    · cases h
      exact Nat.le_refl _

theorem Counted.handleSignal (h : Counted rules self) (hsound : Sound n self)
    (hsignal : self.handleSignal = some self') : Counted rules self' := by
  obtain ⟨signal, result, hsignals, hresult, hsame, -, -, hself'⟩ := hsound.handlesSignal hsignal
  have hlogic : self'.thread.logic = self.thread.logic := by rw [hself']; rfl
  have hqueued : self'.thread.commands = self.thread.commands ++ result.commands := by
    rw [hself']
    rfl
  refine h.frame hlogic ?_ ?_
  · rw [hself', agentsCount_eq, hsame.2, ← agentsCount_eq]
    exact h.agents
  · have hstarts := handle_turns hresult
    have hturn := h.turn
    rw [turns, hsignals, List.countP_cons] at hturn
    rw [turns, hqueued, hlogic, List.countP_append]
    simp only [List.countP_cons, List.countP_nil] at hstarts
    omega

/-- What a command does to the turns. -/
theorem turns_command (hsound : Sound n self) {thread : LogicThread} {c : Call}
    {rest : List Call} (hcommands : self.thread.commands = c :: rest)
    (hqueued : thread.commands = rest) (hhandled : thread.handled = self.thread.handled)
    {signals : List Signal} (henv : thread.logic.env = self.thread.logic.env ++ signals)
    (hplays : signals.countP Signal.isUpgradeResult + signals.countP Signal.isGameOver +
        (if thread.logic.d.state = .BeforeRoundStart then 0 else 1) ≤
      (if isRoundStart c then 1 else 0) +
        if self.thread.logic.d.state = .BeforeRoundStart then 0 else 1) :
    turns { self with thread := thread } ≤ self.turns := by
  have hsignals : thread.signals = self.thread.signals ++ signals := by
    rw [LogicThread.signals, LogicThread.signals, henv, hhandled,
      List.drop_append_of_le_length hsound.handled]
  rw [turns, turns, hcommands, hqueued, hsignals, henv, List.countP_append, List.countP_append,
    List.countP_cons]
  dsimp only
  omega

/-- Where signals say nothing about how a round ends, none of them is counted. -/
theorem countP_of_noOutcome {signals : List Signal} (h : ∀ signal ∈ signals, NoOutcome signal) :
    signals.countP Signal.isUpgradeResult = 0 ∧ signals.countP Signal.isGameOver = 0 := by
  constructor
  · rw [List.countP_eq_zero]
    intro signal hsignal
    rw [Signal.isUpgradeResult_eq_false (h signal hsignal)]
    exact Bool.noConfusion
  · rw [List.countP_eq_zero]
    intro signal hsignal
    rw [Signal.isGameOver_eq_false (h signal hsignal)]
    exact Bool.noConfusion

theorem countP_isGameOver_eq_zero {env : List Signal}
    (h : env.countP Signal.isGameOver = 0) : ∀ signal ∈ env, signal.isGameOver = false := by
  intro signal hsignal
  rw [List.countP_eq_zero] at h
  exact Bool.eq_false_iff.mpr (h signal hsignal)

/-- A game that is over is not going on. -/
theorem Counted.over (h : Counted rules self)
    (hover : self.thread.logic.env.countP Signal.isGameOver ≠ 0) :
    self.thread.logic.d.state = .BeforeRoundStart ∧
      ∀ c ∈ self.thread.commands, isRoundStart c = false := by
  have hturn := h.turn
  rw [turns] at hturn
  constructor
  · by_contra hstate
    rw [if_neg hstate] at hturn
    omega
  · have hnone : self.thread.commands.countP isRoundStart = 0 := by omega
    rw [List.countP_eq_zero] at hnone
    exact fun c hc => Bool.eq_false_iff.mpr (hnone c hc)

/-- The call of a command that is taken. -/
structure Takes (room : RunningRoom) (thread : LogicThread) (c : Call) (ret : Bool) : Prop where
  commands : room.thread.commands = c :: thread.commands
  handled : thread.handled = room.thread.handled
  call : room.thread.logic.call post c = .ok (ret, thread.logic)

/-- Signals that say nothing about how a round ends leave what has been played alone. -/
theorem Counted.goes (h : Counted rules self) (hsound : Sound n self) {thread : LogicThread}
    {c : Call} {ret : Bool} (htakes : Takes self thread c ret) (hkeeps : c.changesNames = false)
    (henv : Appends NoOutcome self.thread.logic.env thread.logic.env)
    (hleft : thread.logic.d.room.upgradesLeft = self.thread.logic.d.room.upgradesLeft) :
    Counted rules { self with thread := thread } := by
  obtain ⟨signals, henv, hquiet⟩ := henv
  obtain ⟨hresult, hgameOver⟩ := countP_of_noOutcome hquiet
  have hstep := call_cases htakes.call
  have hnames := hstep.room.playerNames hkeeps
  have hsettles (hstart : isRoundStart c = false)
      (hstate : self.thread.logic.d.state = .BeforeRoundStart) :=
    hstep.settles hstate (ne_roundStart hstart)
  refine ⟨hstep.room.logicConfiguration.trans h.logicConfiguration, h.agents, ?_, ?_, ?_, ?_⟩
  · refine (turns_command hsound htakes.commands rfl htakes.handled henv ?_).trans h.turn
    rw [hresult, hgameOver]
    cases hstart : isRoundStart c with
    | true =>
      rw [if_pos rfl]
      split <;> omega
    | false =>
      by_cases hstate : self.thread.logic.d.state = .BeforeRoundStart
      · rw [if_pos (hsettles hstart hstate).1]
        omega
      · rw [if_neg hstate]
        split <;> omega
  · intro signal hsignal
    by_cases hover : self.thread.logic.env.countP Signal.isGameOver = 0
    · have hmember := List.mem_of_mem_dropLast hsignal
      dsimp only at hmember
      rw [henv] at hmember
      obtain hold | hnew := List.mem_append.mp hmember
      · exact countP_isGameOver_eq_zero hover signal hold
      · exact Signal.isGameOver_eq_false (hquiet signal hnew)
    · obtain ⟨hstate, hstart⟩ := h.over hover
      have hsame := (hsettles (hstart c (htakes.commands ▸ List.mem_cons_self)) hstate).2.1
      apply h.last
      rwa [← hsame]
  · intro hover
    dsimp only at hover ⊢
    rw [henv, List.countP_append, hgameOver] at hover
    rw [henv, List.countP_append, hresult, hleft, hnames]
    exact h.spent hover
  · dsimp only
    rw [henv, List.countP_append, hresult, hnames]
    exact h.rounds

/-- The results of a round use up what there is to upgrade. -/
theorem Counted.result (h : Counted rules self) (hsound : Sound n self)
    (haccepted : rules.logicConfiguration.Accepted) {thread : LogicThread}
    {c : Call} {ret : Bool} (htakes : Takes self thread c ret) (hkeeps : c.changesNames = false)
    (hstate : self.thread.logic.d.state = .Upgrade)
    (hstate' : thread.logic.d.state = .BeforeRoundStart)
    {upgrades : QHash String (List UpgradeItem)}
    (henv : thread.logic.env = self.thread.logic.env ++ [.upgradeResult upgrades])
    (hleft : thread.logic.d.room.upgradesLeft < self.thread.logic.d.room.upgradesLeft) :
    Counted rules { self with thread := thread } := by
  have hstep := call_cases htakes.call
  have hnames := hstep.room.playerNames hkeeps
  have hconf := hstep.room.logicConfiguration.trans h.logicConfiguration
  have hreach : Logic.system.Reachable thread.logic := .step hsound.reachable ⟨ret, htakes.call⟩
  have hover : self.thread.logic.env.countP Signal.isGameOver = 0 := by
    by_contra hover
    cases (h.over hover).1.symm.trans hstate
  have hspent := h.spent hover
  have hbounds := ((solvent_invariant _ haccepted.sound).of_reachable hreach hconf).statsInBounds
  have hnonneg : 0 ≤ thread.logic.d.room.upgradesLeft := by
    apply Room.upgradesLeft_nonneg
    rw [hconf]
    exact hbounds
  have htotal : 1 ≤ rules.logicConfiguration.upgradeTotal := by
    by_contra hnone
    have hprod := Int.mul_nonpos_of_nonneg_of_nonpos
      (Int.natCast_nonneg self.thread.logic.d.room.playerNames.length)
      (show rules.logicConfiguration.upgradeTotal ≤ 0 by omega)
    omega
  have hunfinished := (unfinished_invariant _ haccepted.sound htotal).of_reachable hreach hconf
  have hleft' := Room.le_upgradesLeft hunfinished
  have hresult : [Signal.upgradeResult upgrades].countP Signal.isUpgradeResult = 1 := rfl
  have hgameOver : [Signal.upgradeResult upgrades].countP Signal.isGameOver = 0 := rfl
  refine ⟨hconf, h.agents, ?_, ?_, ?_, .inr ?_⟩
  · refine (turns_command hsound htakes.commands rfl htakes.handled henv ?_).trans h.turn
    rw [hresult, hgameOver, if_pos hstate', hstate]
    exact Nat.le_add_left _ _
  · dsimp only
    rw [henv, List.dropLast_concat]
    exact countP_isGameOver_eq_zero hover
  · intro _
    dsimp only
    rw [henv, List.countP_append, hresult, hnames]
    push_cast
    omega
  · dsimp only
    rw [hnames] at hleft' ⊢
    rw [henv, List.countP_append, hresult]
    push_cast
    omega

/-- A game that is over has played what it had played. -/
theorem Counted.gameOver (h : Counted rules self) (hsound : Sound n self) {thread : LogicThread}
    {c : Call} {ret : Bool} (htakes : Takes self thread c ret) (hkeeps : c.changesNames = false)
    (hstate : self.thread.logic.d.state = .Upgrade)
    (hstate' : thread.logic.d.state = .BeforeRoundStart) {winners : List String}
    (henv : thread.logic.env = self.thread.logic.env ++ [.gameOver winners]) :
    Counted rules { self with thread := thread } := by
  have hstep := call_cases htakes.call
  have hover : self.thread.logic.env.countP Signal.isGameOver = 0 := by
    by_contra hover
    cases (h.over hover).1.symm.trans hstate
  have hresult : [Signal.gameOver winners].countP Signal.isUpgradeResult = 0 := rfl
  have hgameOver : [Signal.gameOver winners].countP Signal.isGameOver = 1 := rfl
  refine ⟨hstep.room.logicConfiguration.trans h.logicConfiguration, h.agents, ?_, ?_, ?_, ?_⟩
  · refine (turns_command hsound htakes.commands rfl htakes.handled henv ?_).trans h.turn
    rw [hresult, hgameOver, if_pos hstate', hstate]
    exact Nat.le_add_left _ _
  · dsimp only
    rw [henv, List.dropLast_concat]
    exact countP_isGameOver_eq_zero hover
  · intro hnot
    dsimp only at hnot
    rw [henv, List.countP_append, hgameOver] at hnot
    cases hnot
  · dsimp only
    rw [henv, List.countP_append, hresult, hstep.room.playerNames hkeeps]
    exact h.rounds

/-- Before its game starts, the players of a room come and go, and nothing is played. -/
theorem Counted.gathers (h : Counted rules self) (hsound : Sound n self)
    (haccepted : rules.logicConfiguration.Accepted) {thread : LogicThread} {c : Call} {ret : Bool}
    (htakes : Takes self thread c ret) (hresting : Resting self.thread)
    (hstart : isRoundStart c = false) : Counted rules { self with thread := thread } := by
  have hstep := call_cases htakes.call
  obtain ⟨hstate, hsame, -⟩ := hstep.settles hresting.state (ne_roundStart hstart)
  have hconf := hstep.room.logicConfiguration.trans h.logicConfiguration
  have henv : thread.logic.env = [] := hsame.trans hresting.env
  have hreach : Logic.system.Reachable thread.logic := .step hsound.reachable ⟨ret, htakes.call⟩
  refine ⟨hconf, h.agents, ?_, ?_, ?_, .inl ?_⟩
  · refine (turns_command hsound htakes.commands rfl htakes.handled
      (hsame.trans (List.append_nil _).symm) ?_).trans h.turn
    rw [if_pos hstate]
    exact Nat.zero_le _
  · dsimp only
    rw [henv]
    exact fun signal hsignal => absurd hsignal List.not_mem_nil
  · intro _
    have hbounds := ((solvent_invariant _ haccepted.sound).of_reachable hreach hconf).statsInBounds
    rw [← hconf] at hbounds
    have hle := Room.upgradesLeft_le hbounds
    rw [hconf] at hle
    dsimp only
    rw [henv]
    exact (zero_add _).le.trans hle
  · dsimp only
    rw [henv]
    rfl

theorem Counted.command (h : Counted rules self) (hsound : Sound rules.playerNumPerRoom self)
    (haccepted : rules.logicConfiguration.Accepted) {thread : LogicThread}
    (htake : self.thread.take = some thread) : Counted rules { self with thread := thread } := by
  obtain ⟨c, rest, ret, hcommands, hcall, hthread⟩ := take_cases htake
  have htakes : Takes self thread c ret := by
    refine ⟨?_, by rw [hthread], hcall⟩
    rw [hthread]
    exact hcommands
  have hc : c ∈ self.thread.commands := hcommands ▸ List.mem_cons_self
  by_cases hrests : Resting self.thread ∧ isRoundStart c = false
  · exact h.gathers hsound haccepted htakes hrests.1 hrests.2
  · have hkeeps : c.changesNames = false := by
      cases hstart : isRoundStart c with
      | true =>
        rw [eq_roundStart hstart]
        rfl
      | false =>
        cases hsound.inStep with
        | recruiting _ hresting | starting _ _ _ hresting => exact absurd ⟨hresting, hstart⟩ hrests
        | started _ _ hqueued => exact hqueued c hc
    cases (call_cases hcall).plays hsound.reachable (h.logicConfiguration ▸ haccepted.sound)
      (hsound.onlyAsked hc).holdersReply hkeeps with
    | goes henv hleft => exact h.goes hsound htakes hkeeps henv hleft
    | result hstate hstate' henv hleft =>
      exact h.result hsound haccepted htakes hkeeps hstate hstate' henv hleft
    | isOver hstate hstate' henv => exact h.gameOver hsound htakes hkeeps hstate hstate' henv

theorem Counted.handle (h : Counted rules self) (hsound : Sound rules.playerNumPerRoom self)
    (haccepted : rules.logicConfiguration.Accepted) {event : Event}
    (hevent : self.handle rules event = some self') : Counted rules self' := by
  have hsame {runner : LogicRunner} (ended : Bool)
      (hnames : runner.children.flatMap Seat.names = self.runner.children.flatMap Seat.names) :
      Counted rules ⟨runner, self.thread, ended⟩ := by
    refine h.frame rfl ?_ h.turn
    rw [agentsCount_eq, hnames, ← agentsCount_eq]
    exact h.agents
  cases event with
  | addAgent agent socket =>
    obtain ⟨hopen, hsome⟩ := Option.ite_none_left_eq_some.mp hevent
    cases hsome
    exact h.addAgent hsound (Bool.eq_false_iff.mpr hopen) agent socket
  | reconnectAgent playerName socket =>
    obtain ⟨seat, runner, hseat, hrunner, rfl⟩ := reconnectAgent_cases hevent
    have hname : (seat.conn.setSocket socket).1.agent.objectName = seat.conn.agent.objectName := rfl
    exact hsame _ (reconnectAgent_spec hseat hname rfl hrunner).1
  | connection => exact h.receive hevent
  | stateChange playerName state =>
    cases hevent
    refine hsame _ (names_map fun seat => ?_)
    split <;> rfl
  | socketDeleted socket =>
    cases hevent
    exact hsame _ (names_map fun seat => rfl)
  | command =>
    obtain ⟨thread, htake, rfl⟩ := Option.map_eq_some_iff.mp hevent
    exact h.command hsound haccepted htake
  | signal => exact h.handleSignal hsound hevent

theorem counted_invariant (hpos : 0 < rules.playerNumPerRoom)
    (haccepted : rules.logicConfiguration.Accepted) :
    (system rules).Invariant fun room =>
      Sound rules.playerNumPerRoom room ∧ Counted rules room where
  init _ hself := by
    obtain ⟨pointer, rfl⟩ := hself
    exact ⟨sound_new hpos pointer, counted_new hpos pointer⟩
  step _ _ _ hself hstep := ⟨hself.1.handle hstep, hself.2.handle hself.1 haccepted hstep⟩

/-- As many players as the room has agents have played. -/
theorem Counted.players_le (h : Counted rules self) (hsound : Sound n self)
    (hplayed : self.thread.logic.env.countP Signal.isUpgradeResult ≠ 0) :
    (self.thread.logic.d.room.playerNames.length : Int) ≤ rules.playerNumPerRoom := by
  cases hsound.inStep with
  | recruiting _ hresting | starting _ _ _ hresting =>
    rw [hresting.env] at hplayed
    exact absurd rfl hplayed
  | started _ _ _ _ hnames =>
    have hplayers : self.thread.logic.playerSet.card = self.thread.logic.d.room.playerNames.length :=
      List.toFinset_card_of_nodup self.thread.logic.d.room.playerNames_nodup
    have hagents : (agentNames self.runner.children).card = agentsCount self.runner.children := by
      rw [agentsCount_eq]
      exact List.toFinset_card_of_nodup hsound.names
    rw [← hplayers, hnames, hagents]
    exact h.agents

/-- A room plays one game: that it is over is the last thing its logic says, and no round
starts after it. Every round before the last one spends a point, and leaves everybody with
something to upgrade, so their number is bounded. -/
theorem one_game (hpos : 0 < rules.playerNumPerRoom)
    (haccepted : rules.logicConfiguration.Accepted) (hreach : (system rules).Reachable self) :
    (∀ signal ∈ self.thread.logic.env.dropLast, signal.isGameOver = false) ∧
    (∀ winners, .gameOver winners ∈ self.thread.logic.env →
      self.thread.logic.d.state = .BeforeRoundStart ∧ .roundStart ∉ self.thread.commands) ∧
    (self.thread.logic.env.countP Signal.isUpgradeResult : Int) ≤
      rules.playerNumPerRoom * max 0 (rules.logicConfiguration.upgradeTotal - 1) := by
  obtain ⟨hsound, hcounted⟩ := (counted_invariant hpos haccepted).of_reachable hreach
  refine ⟨hcounted.last, fun winners hover => ?_, ?_⟩
  · have hcount : self.thread.logic.env.countP Signal.isGameOver ≠ 0 := by
      intro hnone
      have hnot := countP_isGameOver_eq_zero hnone _ hover
      cases hnot
    obtain ⟨hstate, hnone⟩ := hcounted.over hcount
    exact ⟨hstate, fun hstart => Bool.noConfusion (hnone _ hstart)⟩
  · by_cases hplayed : self.thread.logic.env.countP Signal.isUpgradeResult = 0
    · rw [hplayed]
      exact Int.mul_nonneg hpos.le (le_max_left _ _)
    · have hrounds := hcounted.rounds.resolve_left hplayed
      have hplayers := hcounted.players_le hsound hplayed
      calc (self.thread.logic.env.countP Signal.isUpgradeResult : Int)
        _ ≤ self.thread.logic.d.room.playerNames.length *
            (rules.logicConfiguration.upgradeTotal - 1) := by
          rw [mul_sub, mul_one]
          omega
        _ ≤ self.thread.logic.d.room.playerNames.length *
            max 0 (rules.logicConfiguration.upgradeTotal - 1) :=
          Int.mul_le_mul_of_nonneg_left (le_max_right _ _) (Int.natCast_nonneg _)
        _ ≤ rules.playerNumPerRoom * max 0 (rules.logicConfiguration.upgradeTotal - 1) :=
          Int.mul_le_mul_of_nonneg_right hplayers (le_max_left _ _)

/-- A player answers, and what the logic says to it is handled. -/
def answered (playerName : String) (requestId : Protocol.RequestId) (value : QJsonValue)
    (signals : Nat) : List Event :=
  .connection playerName ⟨.packetReceived (.ofRequest .TypeReply requestId value), true, .Rock⟩ ::
    .command :: List.replicate signals .signal

/-- A wins the throw, and acts. -/
def turnOfA (action : QJsonObject) (signals : Nat) : List Event :=
  answered "A" .RequestRockPaperScissors (.ofInt 0) 0 ++
    answered "B" .RequestRockPaperScissors (.ofInt 1) 3 ++
    answered "A" .RequestAction (.object action) signals

/-- A buys a knife, walks to B's city, slashes B to death, and takes the one upgrade. -/
def shortRoom : List Event := [
  .addAgent ⟨"A", "A", StateMaskOnline⟩ 0, .addAgent ⟨"B", "B", StateMaskOnline⟩ 1,
  .command, .command, .command, .signal] ++
  turnOfA [("action", .ofInt 1)] 2 ++
  turnOfA [("action", .ofInt 5), ("toPlace", .ofInt 0)] 2 ++
  turnOfA [("action", .ofInt 5), ("toPlace", .ofInt 2)] 2 ++
  turnOfA [("action", .ofInt 3), ("toPlayer", .string "B")] 3 ++
  answered "A" .RequestUpgrade (.array [.ofInt 0]) 1

theorem one_game_short : ∃ conf room, (system ⟨conf, 2, 20⟩).Reachable room ∧
    .gameOver ["A"] ∈ room.thread.logic.env ∧
    (∀ signal ∈ room.thread.logic.env.dropLast, signal.isGameOver = false) ∧
    .roundStart ∉ room.thread.commands := by
  obtain ⟨room, hreach, hover⟩ := exists_run
    ⟨(LogicConfiguration.deserialize shortGame).getD .defaults, 2, 20⟩ shortRoom
    (fun room => decide (.gameOver ["A"] ∈ room.thread.logic.env)) (by decide +kernel)
  have hover := of_decide_eq_true hover
  have haccepted : ((LogicConfiguration.deserialize shortGame).getD .defaults).Accepted :=
    ⟨shortGame, rfl⟩
  obtain ⟨hlast, hends, -⟩ := one_game (by decide) haccepted hreach
  exact ⟨_, room, hreach, hover, hlast, (hends _ hover).2⟩

end RunningRoom

end QMdmmNetworking
