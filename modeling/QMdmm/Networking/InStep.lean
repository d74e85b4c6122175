import QMdmm.Networking.Online
import QMdmm.Networking.RoomBounds

namespace QMdmmNetworking

open QMdmmCore Data Logic LogicThread

namespace ServerConnectionP

@[simp] theorem agent_request (self : ServerConnectionP) (req : Request) :
    (self.request req).1.agent = self.agent := by
  have haddRequest (requestId : Protocol.RequestId) (value : QJsonValue) :
      (self.addRequest requestId value).1.agent = self.agent := by
    rw [addRequest]
    dsimp only
    split <;> rfl
  cases req <;> exact haddRequest _ _

@[simp] theorem agent_notify (self : ServerConnectionP) (notification : Notification) :
    (self.notify notification).1.agent = self.agent := by
  cases notification <;> rfl

end ServerConnectionP

namespace LogicRunner

variable {n : Int} {self runner : LogicRunner}

theorem names_map {children : List Seat} {f : Seat → Seat}
    (hf : ∀ seat, (f seat).names = seat.names) :
    (children.map f).flatMap Seat.names = children.flatMap Seat.names := by
  rw [List.flatMap_map]
  exact List.flatMap_congr fun seat _ => hf seat

theorem names_conn {seat : Seat} {conn : ServerConnectionP} (hagent : conn.agent = seat.conn.agent) :
    Seat.names { seat with conn := conn } = seat.names := by
  rw [Seat.names, Seat.names, Seat.playerName, Seat.playerName, hagent]

/-- Two runners with the same agents in the same room. -/
def SameAgents (self runner : LogicRunner) : Prop :=
  runner.pointer = self.pointer ∧
    runner.children.flatMap Seat.names = self.children.flatMap Seat.names

theorem SameAgents.trans {last : LogicRunner} (h : SameAgents self runner)
    (h' : SameAgents runner last) : SameAgents self last :=
  ⟨h'.1.trans h.1, h'.2.trans h.2⟩

theorem SameAgents.isSome (h : SameAgents self runner) {name : String} :
    (runner.agent name).isSome = (self.agent name).isSome := by
  rw [Bool.eq_iff_iff, ← mem_agentNames, ← mem_agentNames, agentNames, agentNames, h.2]

theorem sameAgents_notify (self : LogicRunner) (notification : Notification) :
    SameAgents self (self.notify notification) := by
  refine ⟨rfl, names_map fun seat => ?_⟩
  split
  · exact names_conn (seat.conn.agent_notify notification)
  · rfl

theorem sameAgents_clearRoundEventLogs (self : LogicRunner) :
    SameAgents self self.clearRoundEventLogs := by
  refine ⟨rfl, names_map fun seat => ?_⟩
  split
  · exact names_conn rfl
  · rfl

/-- A request handler follows no null pointer if it asks agents of the room. -/
theorem exists_request (reqs : List (String × Request)) (self : LogicRunner)
    (hagents : ∀ req ∈ reqs, (self.agent req.1).isSome = true) :
    ∃ runner, self.request reqs = some runner ∧ SameAgents self runner := by
  induction reqs generalizing self with
  | nil => exact ⟨self, rfl, rfl, rfl⟩
  | cons req rest ih =>
    obtain ⟨playerName, req⟩ := req
    obtain ⟨hfirst, hrest⟩ := List.forall_mem_cons.mp hagents
    obtain ⟨seat, hseat⟩ := Option.isSome_iff_exists.mp hfirst
    have hasked : SameAgents self { self with
        children := self.children.map fun seat =>
          if seat.isAgent playerName then { seat with conn := (seat.conn.request req).1 }
          else seat } := by
      refine ⟨rfl, names_map fun seat => ?_⟩
      split
      · exact names_conn (seat.conn.agent_request req)
      · rfl
    obtain ⟨runner, hrunner, hsame⟩ := ih _ fun other hother => by
      rw [hasked.isSome]
      exact hrest other hother
    refine ⟨runner, ?_, hasked.trans hsame⟩
    rw [request, hseat]
    exact hrunner

theorem asks_of_requests {signal : Signal} {req : String × Request}
    (hreq : req ∈ LogicRunnerP.requests signal) : req.1 ∈ signal.asks := by
  cases signal with
  | requestRpsForAction | requestRpsForActionOrder =>
    obtain ⟨name, hname, rfl⟩ := List.mem_map.mp hreq
    exact hname
  | requestActionOrder | requestAction | requestUpgrade =>
    rw [List.mem_singleton.mp hreq]
    exact List.mem_singleton_self _
  | _ => cases hreq

/-- What the handling of a signal does, if it asks agents of the room. -/
theorem exists_handle {signal : Signal}
    (hasks : ∀ name ∈ signal.asks, (self.agent name).isSome = true) :
    ∃ result, self.handle signal = some result ∧ SameAgents self result.runner ∧
      ∀ c ∈ result.commands, c.changesNames = false := by
  have hnotify (notification : Notification) (ended : Bool) :
      ∃ result, (some ⟨self.notify notification, [], ended⟩ : Option Handled) = some result ∧
        SameAgents self result.runner ∧ ∀ c ∈ result.commands, c.changesNames = false :=
    ⟨_, rfl, sameAgents_notify self _, fun _ hc => absurd hc List.not_mem_nil⟩
  have hrequest : ∃ result, (self.request (LogicRunnerP.requests signal)).map
      (fun runner => (⟨runner, [], false⟩ : Handled)) = some result ∧
        SameAgents self result.runner ∧ ∀ c ∈ result.commands, c.changesNames = false := by
    obtain ⟨runner, hrunner, hsame⟩ := exists_request (LogicRunnerP.requests signal) self
      fun req hreq => hasks _ (asks_of_requests hreq)
    rw [hrunner]
    exact ⟨_, rfl, hsame, fun _ hc => absurd hc List.not_mem_nil⟩
  cases signal with
  | requestRpsForAction | requestActionOrder | requestRpsForActionOrder | requestAction
  | requestUpgrade => exact hrequest
  | rpsResult | actionOrderResult | actionResult | gameOver => exact hnotify _ _
  | roundOver =>
    refine ⟨_, rfl, ?_, fun _ hc => absurd hc List.not_mem_nil⟩
    exact (sameAgents_clearRoundEventLogs self).trans (sameAgents_notify _ _)
  | upgradeResult upgrades =>
    rw [handle]
    split
    · exact hnotify _ _
    · refine ⟨_, rfl, ?_, by simp [Call.changesNames]⟩
      exact ((sameAgents_notify self _).trans (sameAgents_notify _ _)).trans
        (sameAgents_clearRoundEventLogs _)

end LogicRunner

namespace LogicThread

open LogicRunner

variable {n : Int} {runner runner' : LogicRunner} {self self' : LogicThread}

/-- A logic that has not been told to start. -/
structure Resting (thread : LogicThread) : Prop where
  state : thread.logic.d.state = .BeforeRoundStart
  env : thread.logic.env = []
  taken : ∀ c ∈ thread.taken, isRoundStart c = false

/-- The logic of a room is in step with it: what it has not taken yet makes up for the
difference between its players and the agents, and once it has taken the first
`roundStart`, there is none. -/
inductive InStep (n : Int) (runner : LogicRunner) (thread : LogicThread) : Prop where
  | recruiting (hopen : runner.full n = false) (hresting : Resting thread)
      (hcommands : ∀ c ∈ thread.commands, isRoundStart c = false)
      (hkickOffs : thread.kickOffs = 0)
      (hnames : thread.commands.foldl Call.settle thread.logic.playerSet =
        agentNames runner.children)
  | starting (pre post : List Call) (hfull : runner.full n = true) (hresting : Resting thread)
      (hcommands : thread.commands = pre ++ .roundStart :: post)
      (hpre : ∀ c ∈ pre, isRoundStart c = false) (hpost : ∀ c ∈ post, c.changesNames = false)
      (hkickOffs : thread.kickOffs = 1)
      (hnames : pre.foldl Call.settle thread.logic.playerSet = agentNames runner.children)
  | started (hfull : runner.full n = true) (htaken : .roundStart ∈ thread.taken)
      (hcommands : ∀ c ∈ thread.commands, c.changesNames = false)
      (hkickOffs : thread.kickOffs = 1)
      (hnames : thread.logic.playerSet = agentNames runner.children)
      (hasks : ∀ signal ∈ thread.logic.env, thread.logic.AsksPlayers signal)

theorem countP_isRoundStart {commands : List Call} (h : ∀ c ∈ commands, isRoundStart c = false) :
    commands.countP isRoundStart = 0 := by
  rw [List.countP_eq_zero]
  exact fun c hc => Bool.eq_false_iff.mp (h c hc)

namespace InStep

theorem congr (h : InStep n runner self)
    (hnames : runner'.children.flatMap Seat.names = runner.children.flatMap Seat.names) :
    InStep n runner' self := by
  have hsame : agentNames runner'.children = agentNames runner.children := by
    rw [agentNames, agentNames, hnames]
  have hfull : runner'.full n = runner.full n := full_congr hnames
  cases h with
  | recruiting hopen hresting hcommands hkickOffs hsettled =>
    exact .recruiting (hfull.trans hopen) hresting hcommands hkickOffs (hsettled.trans hsame.symm)
  | starting pre post hstarted hresting hcommands hpre hpost hkickOffs hsettled =>
    exact .starting pre post (hfull.trans hstarted) hresting hcommands hpre hpost hkickOffs
      (hsettled.trans hsame.symm)
  | started hstarted htaken hcommands hkickOffs hsettled hasks =>
    exact .started (hfull.trans hstarted) htaken hcommands hkickOffs (hsettled.trans hsame.symm) hasks

/-- The room changes, and its runner tells the logic. -/
theorem enqueueEmitted {commands : List Call} (h : InStep n runner self)
    (hnodup : (runner.children.flatMap Seat.names).Nodup)
    (hstep : RunnerStep n runner commands runner') :
    InStep n runner' (self.enqueueEmitted commands) := by
  have hfulls (hfull : runner.full n = true) : runner'.full n = true ∧
      self.enqueueEmitted commands = self ∧
        agentNames runner'.children = agentNames runner.children := by
    obtain ⟨rfl, hnames⟩ := hstep.of_full hfull
    refine ⟨(full_congr hnames).trans hfull, ?_, by rw [agentNames, agentNames, hnames]⟩
    simp [LogicThread.enqueueEmitted, enqueue]
  cases h with
  | recruiting hopen hresting hcommands hkickOffs hnames =>
    have hresting' : Resting (self.enqueueEmitted commands) :=
      ⟨hresting.state, hresting.env, hresting.taken⟩
    rcases hstep.of_open hopen hnodup with
      ⟨hopen', hquiet, hsettle⟩ | ⟨hfull, -, playerName, rfl, hinsert⟩
    · refine .recruiting hopen' hresting' (List.forall_mem_append.mpr ⟨hcommands, hquiet⟩) ?_ ?_
      · rw [LogicThread.enqueueEmitted]
        dsimp only
        rw [hkickOffs, countP_isRoundStart hquiet]
      · rw [← hsettle, ← hnames]
        exact List.foldl_append
    · refine .starting (self.commands ++ [.addPlayer playerName]) [] hfull hresting' ?_ ?_
        (by simp) ?_ ?_
      · simp [LogicThread.enqueueEmitted, enqueue]
      · exact List.forall_mem_append.mpr ⟨hcommands, by simp [isRoundStart]⟩
      · simp [LogicThread.enqueueEmitted, hkickOffs, isRoundStart]
      · rw [List.foldl_append]
        exact (congrArg (insert playerName) hnames).trans hinsert
  | starting pre post hfull hresting hcommands hpre hpost hkickOffs hnames =>
    obtain ⟨hfull', hself, hsame⟩ := hfulls hfull
    rw [hself]
    exact .starting pre post hfull' hresting hcommands hpre hpost hkickOffs (hnames.trans hsame.symm)
  | started hfull htaken hcommands hkickOffs hnames hasks =>
    obtain ⟨hfull', hself, hsame⟩ := hfulls hfull
    rw [hself]
    exact .started hfull' htaken hcommands hkickOffs (hnames.trans hsame.symm) hasks

/-- A reply of an agent is queued. -/
theorem enqueue_replied (h : InStep n runner self) (playerName : String) (reply : Reply) :
    InStep n runner (self.enqueue [LogicRunnerP.replied playerName reply]) := by
  set c := LogicRunnerP.replied playerName reply
  have hstart : isRoundStart c = false := by cases reply <;> rfl
  have hkeeps : c.changesNames = false := by cases reply <;> rfl
  have hsettle (names : Finset String) : c.settle names = names := by cases reply <;> rfl
  cases h with
  | recruiting hopen hresting hcommands hkickOffs hnames =>
    refine .recruiting hopen ⟨hresting.state, hresting.env, hresting.taken⟩
      (List.forall_mem_append.mpr ⟨hcommands, by simpa using hstart⟩) hkickOffs ?_
    rw [enqueue, List.foldl_append]
    exact (hsettle _).trans hnames
  | starting pre post hfull hresting hcommands hpre hpost hkickOffs hnames =>
    refine .starting pre (post ++ [c]) hfull ⟨hresting.state, hresting.env, hresting.taken⟩ ?_ hpre
      (List.forall_mem_append.mpr ⟨hpost, by simpa using hkeeps⟩) hkickOffs hnames
    rw [enqueue, hcommands, List.append_assoc, List.cons_append]
  | started hfull htaken hcommands hkickOffs hnames hasks =>
    exact .started hfull htaken (List.forall_mem_append.mpr ⟨hcommands, by simpa using hkeeps⟩) hkickOffs
      hnames hasks

/-- The logic of a started room asks agents of the room. -/
theorem asks (h : InStep n runner self) {signal : Signal} (hsignal : signal ∈ self.signals) :
    runner.full n = true ∧ ∀ name ∈ signal.asks, (runner.agent name).isSome = true := by
  have hemitted : signal ∈ self.logic.env := List.mem_of_mem_drop hsignal
  cases h with
  | recruiting _ hresting | starting _ _ _ hresting =>
    rw [hresting.env] at hemitted
    cases hemitted
  | started hfull _ _ _ hnames hasks =>
    refine ⟨hfull, fun name hname => ?_⟩
    rw [← mem_agentNames, ← hnames]
    exact hasks signal hemitted name hname

/-- A signal has been handled, and what its handler has emitted is queued. -/
theorem signal (h : InStep n runner self) (hsome : self.signals ≠ []) {commands : List Call}
    (hcommands : ∀ c ∈ commands, c.changesNames = false) (handled : Nat) :
    InStep n runner { self.enqueue commands with handled := handled } := by
  cases h with
  | recruiting _ hresting | starting _ _ _ hresting =>
    rw [signals, hresting.env, List.drop_nil] at hsome
    exact absurd rfl hsome
  | started hfull htaken hqueued hkickOffs hnames hasks =>
    exact .started hfull htaken (List.forall_mem_append.mpr ⟨hqueued, hcommands⟩) hkickOffs hnames hasks

end InStep

/-- What taking a command does. -/
theorem take_cases (h : self.take = some self') :
    ∃ c rest ret, self.commands = c :: rest ∧ self.logic.call post c = .ok (ret, self'.logic) ∧
      self' = { self with
        commands := rest, taken := self.taken ++ [c], logic := self'.logic } := by
  rw [take] at h
  split at h
  · cases h
  · next c rest hcommands =>
    obtain ⟨⟨ret, logic⟩, hcall, rfl⟩ := Option.map_eq_some_iff.mp h
    refine ⟨c, rest, ret, hcommands, ?_, rfl⟩
    cases hresult : self.logic.call post c with
    | error fault => rw [hresult] at hcall; cases hcall
    | ok result =>
      rw [hresult] at hcall
      cases hcall
      rfl

theorem eq_roundStart {c : Call} (h : isRoundStart c = true) : c = .roundStart := by
  cases c with
  | roundStart => rfl
  | _ => cases h

theorem ne_roundStart {c : Call} (h : isRoundStart c = false) : c ≠ .roundStart := by
  rintro rfl
  cases h

/-- Where nothing that is queued changes who is in the room, nobody is asked who is not
an agent. -/
theorem InStep.take_started {c : Call} {rest : List Call} {ret : Bool}
    (hfull : runner.full n = true) (htaken : .roundStart ∈ self.taken ++ [c]) (hkickOffs : self.kickOffs = 1)
    (hnames : self.logic.playerSet = agentNames runner.children)
    (hasks : ∀ signal ∈ self.logic.env, self.logic.AsksPlayers signal)
    (hreach : Logic.system.Reachable self.logic) (hfirst : c.changesNames = false) (hrest : ∀ c ∈ rest, c.changesNames = false)
    (hcall : self.logic.call post c = .ok (ret, self'.logic))
    (hself' : self' = { self with
      commands := rest, taken := self.taken ++ [c], logic := self'.logic }) :
    InStep n runner self' := by
  have hsame := (call_cases hcall).playerSet hfirst
  obtain ⟨signals, henv, hemitted⟩ := asksPlayers_of_call hreach hcall
  rw [hself']
  refine .started hfull htaken hrest hkickOffs (hsame.trans hnames) ?_
  rw [henv]
  refine List.forall_mem_append.mpr ⟨fun signal hsignal => ?_, hemitted⟩
  rw [AsksPlayers, hsame]
  exact hasks signal hsignal

/-- The logic takes a command. -/
theorem InStep.take (h : InStep n runner self) (hreach : Logic.system.Reachable self.logic)
    (htake : self.take = some self') : InStep n runner self' := by
  obtain ⟨c, rest, ret, hcommands, hcall, hself'⟩ := take_cases htake
  have hstep := call_cases hcall
  have hresting {thread : LogicThread} (hrest : Resting thread) (hfirst : isRoundStart c = false) :
      ∀ other ∈ thread.taken ++ [c], isRoundStart other = false :=
    List.forall_mem_append.mpr ⟨hrest.taken, by simpa using hfirst⟩
  cases h with
  | recruiting hopen hrest hqueued hkickOffs hnames =>
    rw [hcommands] at hqueued hnames
    obtain ⟨hfirst, hlater⟩ := List.forall_mem_cons.mp hqueued
    obtain ⟨hstate, henv, hsettle⟩ := hstep.settles hrest.state (ne_roundStart hfirst)
    rw [hself']
    refine .recruiting hopen ⟨hstate, henv.trans hrest.env, hresting hrest hfirst⟩ hlater hkickOffs ?_
    rw [← hnames, List.foldl_cons, ← hsettle]
  | starting pre post hfull hrest hqueued hpre hpost hkickOffs hnames =>
    cases pre with
    | cons first pre =>
      obtain ⟨rfl, rfl⟩ := List.cons.inj (hcommands.symm.trans hqueued)
      obtain ⟨hfirst, hlater⟩ := List.forall_mem_cons.mp hpre
      obtain ⟨hstate, henv, hsettle⟩ := hstep.settles hrest.state (ne_roundStart hfirst)
      rw [hself']
      refine .starting pre post hfull ⟨hstate, henv.trans hrest.env, hresting hrest hfirst⟩ rfl
        hlater hpost hkickOffs ?_
      rw [← hnames, List.foldl_cons, ← hsettle]
    | nil =>
      obtain ⟨rfl, rfl⟩ := List.cons.inj (hcommands.symm.trans hqueued)
      refine take_started hfull (List.mem_append_right _ (List.mem_singleton_self _)) hkickOffs
        hnames ?_ hreach rfl hpost hcall hself'
      rw [hrest.env]
      exact fun signal hsignal => absurd hsignal List.not_mem_nil
  | started hfull htaken hqueued hkickOffs hnames hasks =>
    rw [hcommands] at hqueued
    obtain ⟨hfirst, hlater⟩ := List.forall_mem_cons.mp hqueued
    exact take_started hfull (List.mem_append_left _ htaken) hkickOffs hnames hasks hreach hfirst hlater hcall hself'

/-- Once it has taken a `roundStart`, a logic has exactly the agents in the room. -/
theorem InStep.after (h : InStep n runner self) (htaken : .roundStart ∈ self.taken) :
    self.logic.playerSet = agentNames runner.children := by
  cases h with
  | recruiting _ hrest | starting _ _ _ hrest => cases hrest.taken _ htaken
  | started _ _ _ _ hnames => exact hnames

/-- A room has been kicked off if and only if it is full. -/
theorem InStep.kickOffs_eq (h : InStep n runner self) :
    self.kickOffs = if runner.full n then 1 else 0 := by
  cases h with
  | recruiting hopen _ _ hkickOffs => rw [hkickOffs, hopen]; rfl
  | starting _ _ hfull _ _ _ _ hkickOffs => rw [hkickOffs, if_pos hfull]
  | started hfull _ _ hkickOffs => rw [hkickOffs, if_pos hfull]

theorem InStep.kickOffs_le (h : InStep n runner self) : self.kickOffs ≤ 1 := by
  rw [h.kickOffs_eq]
  split <;> omega

/-- A `roundStart` finds exactly the agents in the room, and the first one is accepted. -/
theorem InStep.roundStart (h : InStep n runner self) (hn : 2 ≤ n)
    (hnodup : (runner.children.flatMap Seat.names).Nodup) {rest : List Call}
    (hcommands : self.commands = .roundStart :: rest) :
    self.logic.playerSet = agentNames runner.children ∧
      (.roundStart ∉ self.taken → ∀ ret logic,
        self.logic.call post .roundStart = .ok (ret, logic) → ret = true) := by
  cases h with
  | recruiting _ _ hqueued =>
    rw [hcommands] at hqueued
    cases (List.forall_mem_cons.mp hqueued).1
  | starting pre later hfull hrest hqueued hpre hpost hkickOffs hnames =>
    cases pre with
    | cons first pre =>
      obtain ⟨rfl, -⟩ := List.cons.inj (hcommands.symm.trans hqueued)
      cases (List.forall_mem_cons.mp hpre).1
    | nil =>
      refine ⟨hnames, fun _ ret logic hcall => ?_⟩
      have hplayers : self.logic.playerSet.card = self.logic.d.room.playerNames.length :=
        List.toFinset_card_of_nodup self.logic.d.room.playerNames_nodup
      have hagents : (agentNames runner.children).card = agentsCount runner.children := by
        rw [agentsCount_eq]
        exact List.toFinset_card_of_nodup hnodup
      have hsame := congrArg Finset.card hnames
      rw [List.foldl_nil, hplayers, hagents] at hsame
      have hcount := full_eq_true.mp hfull
      have haccepts : self.logic.d.Accepts .roundStart := ⟨hrest.state, by omega⟩
      cases call_cases hcall with
      | rejected hreject => exact absurd haccepts hreject
      | roundStart => rfl
  | started _ htaken _ _ hnames => exact ⟨hnames, fun hnot => absurd htaken hnot⟩

end LogicThread

namespace Rooms

open LogicRunner LogicThread ServerP

variable {n m : Int} {self self' : Rooms}

/-- The rooms are within their bounds, and every logic is in step with its room. -/
structure Sound (n m : Int) (rooms : Rooms) : Prop where
  playerNumPerRoom : rooms.server.playerNumPerRoom = n
  maximumRooms : rooms.server.maximumRooms = m
  bounds : rooms.server.InBounds
  names : rooms.server.RoomNames
  logics : ∀ pointer, Logic.system.Reachable (rooms.threads pointer).logic
  idle : ∀ pointer, rooms.server.made ≤ pointer →
    ∃ logicConfiguration, rooms.threads pointer = .new logicConfiguration
  inStep : ∀ runner ∈ rooms.server.runners, InStep n runner (rooms.threads runner.pointer)
  kickOffs : ∀ pointer, (rooms.threads pointer).kickOffs ≤ 1

/-- A room that nobody is in is in step with a new logic. -/
theorem inStep_new (hpos : 0 < n) (pointer : Nat) (logicConfiguration : LogicConfiguration) :
    InStep n ⟨pointer, [], false⟩ (.new logicConfiguration) := by
  refine .recruiting (full_eq_false.mpr hpos) ⟨rfl, rfl, ?_⟩ ?_ rfl rfl
  · exact fun c hc => absurd hc List.not_mem_nil
  · exact fun c hc => absurd hc List.not_mem_nil

theorem handleServer_cases {event : ServerP.Event} (h : self.handleServer event = some self') :
    (∀ pointer, event ≠ .gameOver pointer) ∧
      ∃ server, self.server.handle event = some server ∧ self' = ⟨server, fun pointer =>
        (self.threads pointer).enqueueEmitted (self.server.emits pointer event)⟩ := by
  unfold handleServer at h
  split at h
  · cases h
  · next hover =>
    obtain ⟨server, hserver, rfl⟩ := Option.map_eq_some_iff.mp h
    exact ⟨hover, server, hserver, rfl⟩

theorem Sound.handleServer (h : Sound n m self) (hpos : 0 < n) {event : ServerP.Event}
    (hevent : self.handleServer event = some self') : Sound n m self' := by
  obtain ⟨hover, server, hserver, rfl⟩ := handleServer_cases hevent
  have hsettings := sameSettings_of_handle hserver
  have hmoves := moves_of_handle h.bounds.distinct hover hserver
  have hn := h.playerNumPerRoom
  have hsilent (pointer : Nat) (hpointer : self.server.emits pointer event = []) :
      (self.threads pointer).enqueueEmitted (self.server.emits pointer event) =
        self.threads pointer := by
    rw [hpointer]
    simp [LogicThread.enqueueEmitted, enqueue]
  have hbounds := h.bounds.moves h.names (hn ▸ hpos) hsettings hmoves
  have hgone (pointer : Nat) (hpointer : ∀ runner ∈ server.runners, runner.pointer ≠ pointer) :
      self.server.emits pointer event = [] := by
    cases hmoves with
    | inside _ _ _ hsilent => exact hsilent pointer hpointer
    | opened new _ _ hrunners hnew _ _ _ hsilent =>
      refine hsilent pointer fun heq => hpointer new ?_ (hnew.trans heq.symm)
      rw [hrunners]
      exact List.mem_append_right _ (List.mem_singleton_self _)
  have hinStep : ∀ runner ∈ server.runners, InStep n runner
      ((self.threads runner.pointer).enqueueEmitted (self.server.emits runner.pointer event)) := by
    intro runner hrunner
    cases hmoves with
    | inside _ _ hrunners =>
      obtain ⟨old, hold, hsame, hstep⟩ := hrunners runner hrunner
      rw [hn] at hstep
      rw [hsame]
      exact (h.inStep old hold).enqueueEmitted (h.names old hold) hstep
    | opened new _ _ hrunners hpointer _ _ hstep hothers =>
      rw [hrunners] at hrunner
      rcases List.mem_append.mp hrunner with hold | hnew
      · have hlt := h.bounds.distinct.made runner hold
        rw [hsilent runner.pointer (hothers runner.pointer (by omega))]
        exact h.inStep runner hold
      · obtain ⟨logicConfiguration, hthread⟩ := h.idle self.server.made le_rfl
        have hadded := hstep (hn ▸ hpos)
        rw [hn] at hadded
        rw [List.mem_singleton.mp hnew, hpointer, hthread]
        exact (inStep_new hpos _ _).enqueueEmitted List.nodup_nil hadded
  refine ⟨hsettings.playerNumPerRoom.trans hn, hsettings.maximumRooms.trans h.maximumRooms, hbounds,
    h.names.handle hserver, h.logics, fun pointer hpointer => ?_, hinStep, fun pointer => ?_⟩
  · have hnone : self.server.emits pointer event = [] := by
      refine hgone pointer fun runner hrunner hsame => ?_
      have hlt := hbounds.distinct.made runner hrunner
      exact absurd hlt (by rw [hsame]; exact Nat.not_lt.mpr hpointer)
    dsimp only
    rw [hsilent pointer hnone]
    exact h.idle pointer (hsettings.made.trans hpointer)
  · by_cases hlive : ∃ runner ∈ server.runners, runner.pointer = pointer
    · obtain ⟨runner, hrunner, rfl⟩ := hlive
      exact (hinStep runner hrunner).kickOffs_le
    · dsimp only
      rw [hsilent pointer (hgone pointer fun runner hrunner heq => hlive ⟨runner, hrunner, heq⟩)]
      exact h.kickOffs pointer

/-- A server with another runner in the place of one. -/
def setRunner (server : ServerP) (pointer : Nat) (runner : LogicRunner) : ServerP :=
  { server with
    runners := server.runners.map fun other => if other.pointer = pointer then runner else other }

theorem mem_setRunner {server : ServerP} (hdistinct : server.Distinct) {runner runner' : LogicRunner}
    (hrunner : runner ∈ server.runners) (hsame : SameAgents runner runner') {other : LogicRunner}
    (hother : other ∈ (setRunner server runner.pointer runner').runners) :
    ∃ old ∈ server.runners, SameAgents old other := by
  obtain ⟨old, hold, rfl⟩ := List.mem_map.mp hother
  split
  · next heq =>
    rw [hdistinct.eq hrunner hold heq] at hold
    exact ⟨runner, hold, hsame⟩
  · exact ⟨old, hold, rfl, rfl⟩

theorem moves_setRunner {server : ServerP} (hdistinct : server.Distinct)
    {runner runner' : LogicRunner} (hrunner : runner ∈ server.runners)
    (hsame : SameAgents runner runner') :
    server.Moves (fun _ => []) (setRunner server runner.pointer runner') := by
  have hpointers : (setRunner server runner.pointer runner').runners.map (·.pointer) =
      server.runners.map (·.pointer) := by
    rw [setRunner, List.map_map]
    refine List.map_congr_left fun other _ => ?_
    dsimp only [Function.comp_apply]
    split
    · next heq => exact hsame.1.trans heq.symm
    · rfl
  exact .kept (hpointers ▸ .refl _) (fun _ _ _ _ => rfl) fun other hother =>
    mem_setRunner hdistinct hrunner hsame hother

theorem handleSignal_cases {pointer : Nat} (h : self.handleSignal pointer = some self') :
    ∃ runner signal rest result, self.runner pointer = some runner ∧
      (self.threads pointer).signals = signal :: rest ∧ runner.handle signal = some result ∧
      self' = { self with
        server := if result.ended then
            (setRunner self.server pointer result.runner).logicRunnerGameOver pointer
          else setRunner self.server pointer result.runner
        threads := Function.update self.threads pointer
          { (self.threads pointer).enqueue result.commands with
            handled := (self.threads pointer).handled + 1 } } := by
  unfold handleSignal at h
  split at h
  · next runner signal rest hrunner hsignals =>
    obtain ⟨result, hresult, rfl⟩ := Option.map_eq_some_iff.mp h
    exact ⟨runner, signal, rest, result, hrunner, hsignals, hresult, rfl⟩
  · cases h

theorem mem_of_runner {pointer : Nat} {runner : LogicRunner}
    (h : self.runner pointer = some runner) :
    runner ∈ self.server.runners ∧ runner.pointer = pointer := by
  have hfound := List.find?_some h
  exact ⟨List.mem_of_find?_eq_some h, of_decide_eq_true hfound⟩

/-- Something happens to the thread of a room. -/
theorem Sound.setThread (h : Sound n m self) {pointer : Nat} {thread : LogicThread}
    (hmade : pointer < self.server.made) (hlogic : Logic.system.Reachable thread.logic)
    (hkickOffs : thread.kickOffs = (self.threads pointer).kickOffs)
    (hinStep : ∀ runner ∈ self.server.runners, runner.pointer = pointer → InStep n runner thread) :
    Sound n m (self.setThread pointer thread) := by
  have hself : (self.setThread pointer thread).threads pointer = thread := Function.update_self ..
  have hother {other : Nat} (hne : other ≠ pointer) :
      (self.setThread pointer thread).threads other = self.threads other :=
    Function.update_of_ne hne ..
  refine ⟨h.playerNumPerRoom, h.maximumRooms, h.bounds, h.names, fun other => ?_,
    fun other hidle => ?_, fun runner hrunner => ?_, fun other => ?_⟩
  · by_cases heq : other = pointer
    · rw [heq, hself]
      exact hlogic
    · rw [hother heq]
      exact h.logics other
  · have hidle : self.server.made ≤ other := hidle
    rw [hother (by omega)]
    exact h.idle other hidle
  · by_cases heq : runner.pointer = pointer
    · rw [heq, hself]
      exact hinStep runner hrunner heq
    · rw [hother heq]
      exact h.inStep runner hrunner
  · by_cases heq : other = pointer
    · rw [heq, hself, hkickOffs]
      exact h.kickOffs pointer
    · rw [hother heq]
      exact h.kickOffs other

/-- Something happens to the runners that moves nobody. -/
theorem Sound.setServer (h : Sound n m self) (hpos : 0 < n) {server : ServerP}
    (hsettings : self.server.SameSettings server) (hmoves : self.server.Moves (fun _ => []) server)
    (hrunners : ∀ runner ∈ server.runners, ∃ old ∈ self.server.runners, SameAgents old runner) :
    Sound n m { self with server := server } := by
  have hn := h.playerNumPerRoom
  refine ⟨hsettings.playerNumPerRoom.trans hn, hsettings.maximumRooms.trans h.maximumRooms,
    h.bounds.moves h.names (hn ▸ hpos) hsettings hmoves, fun runner hrunner => ?_, h.logics,
    fun pointer hpointer => h.idle pointer (hsettings.made.trans hpointer), fun runner hrunner => ?_,
    h.kickOffs⟩
  · obtain ⟨old, hold, hsame⟩ := hrunners runner hrunner
    rw [hsame.2]
    exact h.names old hold
  · obtain ⟨old, hold, hsame⟩ := hrunners runner hrunner
    dsimp only
    rw [hsame.1]
    exact (h.inStep old hold).congr hsame.2

/-- A runner handles a signal: nobody moves, but the game may be over. -/
theorem Sound.handleSignal (h : Sound n m self) (hpos : 0 < n) {pointer : Nat}
    (hsignal : self.handleSignal pointer = some self') : Sound n m self' := by
  obtain ⟨runner, signal, rest, result, hrunner, hsignals, hresult, rfl⟩ :=
    handleSignal_cases hsignal
  obtain ⟨hmem, rfl⟩ := mem_of_runner hrunner
  have hin := h.inStep runner hmem
  obtain ⟨hfull, hasks⟩ := hin.asks (hsignals ▸ List.mem_cons_self)
  obtain ⟨result', hresult', hsame, hcommands⟩ := exists_handle hasks
  obtain rfl := Option.some.inj (hresult.symm.trans hresult')
  have hdistinct := h.bounds.distinct
  set thread : LogicThread := { (self.threads runner.pointer).enqueue result.commands with
    handled := (self.threads runner.pointer).handled + 1 }
  have hthread : Sound n m (self.setThread runner.pointer thread) := by
    refine h.setThread (hdistinct.made runner hmem) (h.logics _) rfl fun other hother heq => ?_
    rw [hdistinct.eq hmem hother heq]
    exact hin.signal (by rw [hsignals]; exact List.cons_ne_nil _ _) hcommands _
  set server := setRunner self.server runner.pointer result.runner
  have hserver : Sound n m { self.setThread runner.pointer thread with server := server } :=
    hthread.setServer hpos ⟨rfl, rfl, rfl, le_rfl⟩ (moves_setRunner hdistinct hmem hsame)
      fun other hother => mem_setRunner hdistinct hmem hsame hother
  cases result.ended with
  | false => exact hserver
  | true =>
    have hnew : result.runner ∈ server.runners := List.mem_map.mpr ⟨runner, hmem, if_pos rfl⟩
    have hfull' : result.runner.full server.playerNumPerRoom = true := by
      rw [full_congr hsame.2]
      exact h.playerNumPerRoom ▸ hfull
    have hmoves := moves_logicRunnerGameOver hserver.bounds.distinct hnew hfull'
    rw [hsame.1] at hmoves
    refine hserver.setServer hpos ⟨rfl, rfl, rfl, le_rfl⟩ hmoves fun other hother => ?_
    obtain ⟨old, hold, hpointer, hchildren⟩ :=
      mem_of_rooms_eq (server.rooms_logicRunnerGameOver runner.pointer) hother
    exact ⟨old, hold, hpointer, by rw [hchildren]⟩

theorem Sound.handle (h : Sound n m self) (hpos : 0 < n) {event : Event}
    (hevent : self.handle event = some self') : Sound n m self' := by
  cases event with
  | server event => exact h.handleServer hpos hevent
  | command pointer =>
    obtain ⟨thread, htake, rfl⟩ := Option.map_eq_some_iff.mp hevent
    obtain ⟨c, rest, ret, hcommands, hcall, hthread⟩ := take_cases htake
    have hlogic : Logic.system.Reachable thread.logic := .step (h.logics pointer) ⟨ret, hcall⟩
    have hmade : pointer < self.server.made := by
      by_contra hidle
      obtain ⟨logicConfiguration, hnew⟩ := h.idle pointer (Nat.not_lt.mp hidle)
      rw [hnew] at hcommands
      cases hcommands
    refine h.setThread hmade hlogic (by rw [hthread]) fun runner hrunner heq => ?_
    rw [← heq] at htake
    exact (h.inStep runner hrunner).take (h.logics _) htake
  | signal pointer => exact h.handleSignal hpos hevent
  | reply pointer playerName reply =>
    obtain ⟨hagent, hsome⟩ := Option.ite_none_right_eq_some.mp hevent
    cases hsome
    obtain ⟨runner, hrunner, -⟩ := (Option.any_eq_true _ _).mp hagent
    obtain ⟨hmem, rfl⟩ := mem_of_runner hrunner
    refine h.setThread (h.bounds.distinct.made runner hmem) (h.logics _) rfl
      fun other hother heq => ?_
    rw [← heq]
    exact (h.inStep other hother).enqueue_replied playerName reply

theorem sound_invariant (hpos : 0 < n) : (system n m).Invariant (Sound n m) where
  init self hself := by
    obtain ⟨logicConfiguration, requestTimeout, rfl⟩ := hself
    refine ⟨rfl, rfl, ⟨⟨List.nodup_nil, ?_⟩, ?_, ?_, fun hmaximum => hmaximum.le⟩, ?_,
      fun _ => .init ⟨logicConfiguration, rfl⟩, fun _ _ => ⟨logicConfiguration, rfl⟩, ?_,
      fun _ => Nat.zero_le _⟩
    all_goals exact fun runner hrunner => absurd hrunner List.not_mem_nil
  step self event self' hself hevent := hself.handle hpos hevent

/-- In every reachable state no room has more agents than it takes, only the recruiting
room is open, there are not too many rooms, and whoever is offline is found by a
sign-in. `addAgent` has kicked off exactly the full rooms, once each. The logic of a room
that takes a `roundStart` has the agents of the room for its players, and from then on;
so a signal that is queued asks agents of the room, and no handler follows a null
pointer. -/
theorem rooms_in_step (hn : 2 ≤ n) (hreach : (system n m).Reachable self) :
    (∀ runner ∈ self.server.runners, agentsCount runner.children ≤ n) ∧
    (∀ runner ∈ self.server.runners, runner.full n = false →
      self.server.recruiting = some runner) ∧
    (0 < m → self.server.runners.length ≤ m) ∧
    (∀ seat ∈ self.server.seats, seat.registered = true → seat.online = false →
      self.server.refuses seat.playerName = false ∧
      ∀ socket packetValue ob server, SignIn.ofValue packetValue = some ob →
        ob.playerName = seat.playerName → self.server.signIn socket packetValue = .ok server →
        ∃ existing, existing.isAgent seat.playerName = true ∧ existing.online = false ∧
          Reseats self.server.seats server.seats existing (existing.reconnected socket)) ∧
    (∀ pointer, (self.threads pointer).kickOffs ≤ 1) ∧
    ∀ runner ∈ self.server.runners,
      (self.threads runner.pointer).kickOffs = (if runner.full n then 1 else 0) ∧
      (∀ rest, (self.threads runner.pointer).commands = .roundStart :: rest →
        (self.threads runner.pointer).logic.playerSet = agentNames runner.children ∧
        (.roundStart ∉ (self.threads runner.pointer).taken → ∀ ret logic,
          (self.threads runner.pointer).logic.call post .roundStart = .ok (ret, logic) →
          ret = true)) ∧
      (.roundStart ∈ (self.threads runner.pointer).taken →
        (self.threads runner.pointer).logic.playerSet = agentNames runner.children) ∧
      ∀ signal ∈ (self.threads runner.pointer).signals,
        (∀ name ∈ signal.asks, (runner.agent name).isSome = true) ∧
        (runner.handle signal).isSome = true := by
  have hpos : 0 < n := by omega
  have hsound := (sound_invariant (m := m) hpos).of_reachable hreach
  have hbounds := hsound.bounds
  obtain rfl := hsound.playerNumPerRoom
  obtain rfl := hsound.maximumRooms
  refine ⟨hbounds.agents, fun runner hrunner hopen => hbounds.recruiting_eq hrunner hopen,
    hbounds.rooms, fun seat hseat hregistered hoffline => ?_, hsound.kickOffs,
    fun runner hrunner => ?_⟩
  · obtain ⟨existing, hexisting⟩ := exists_existing hsound.names hseat hregistered hoffline
    refine ⟨by simp [refuses, hexisting], fun socket packetValue ob server hob hname hsignIn => ?_⟩
    obtain ⟨-, hsame, hexistingOffline⟩ := mem_of_existing hexisting
    rw [← hname] at hexisting
    exact ⟨existing, hsame, hexistingOffline, reseats_of_existing hob hexisting hsignIn⟩
  · have hin := hsound.inStep runner hrunner
    refine ⟨hin.kickOffs_eq, fun rest hcommands => hin.roundStart hn (hsound.names runner hrunner)
      hcommands, hin.after, fun signal hsignal => ?_⟩
    have hasks := (hin.asks hsignal).2
    obtain ⟨result, hresult, -⟩ := exists_handle hasks
    exact ⟨hasks, by rw [hresult]; rfl⟩

/-- Two players fill the only room, one of them is gone and has come back; the logic has
started, and its first request is queued. -/
theorem rooms_in_step_reconnected : ∃ rooms : Rooms, ∃ runner ∈ rooms.server.runners,
    (rooms.threads runner.pointer).kickOffs = 1 ∧
      (rooms.threads runner.pointer).logic.playerSet = agentNames runner.children ∧
      ∃ signal ∈ (rooms.threads runner.pointer).signals, signal.asks = ["A", "B"] ∧
        (runner.handle signal).isSome = true := by
  have hrun : (List.foldlM Rooms.handle (new .defaults 2 1 20)
      [.server .newConnection, .server .newConnection, .server .newConnection,
        .server (.signIn 0 (signInValue "A" 16)), .server (.signIn 1 (signInValue "B" 16)),
        .command 3, .server (.socketDisconnected 0 .Rock),
        .server (.signIn 2 (signInValue "A" 16)), .command 3, .command 3]).any (fun rooms =>
      rooms.server.runners.any fun runner => runner.full 2 &&
        (rooms.threads runner.pointer).taken.any isRoundStart &&
        (rooms.threads runner.pointer).signals.any fun signal => signal.asks = ["A", "B"]) = true := by
    decide +kernel
  obtain ⟨rooms, hrooms, hend⟩ := (Option.any_eq_true _ _).mp hrun
  have hreach : (system 2 1).Reachable rooms :=
    .foldlM (fun _ _ _ hstep => hstep) (.init ⟨.defaults, 20, rfl⟩) hrooms
  obtain ⟨runner, hrunner, hend⟩ := List.any_eq_true.mp hend
  obtain ⟨hstarted, hasked⟩ := Bool.and_eq_true_iff.mp hend
  obtain ⟨hfull, htaken⟩ := Bool.and_eq_true_iff.mp hstarted
  obtain ⟨c, hc, hstart⟩ := List.any_eq_true.mp htaken
  obtain ⟨signal, hsignal, hasks⟩ := List.any_eq_true.mp hasked
  rw [eq_roundStart hstart] at hc
  obtain ⟨-, -, -, -, -, hrunners⟩ := rooms_in_step le_rfl hreach
  obtain ⟨hkickOffs, -, hafter, hsignals⟩ := hrunners runner hrunner
  refine ⟨rooms, runner, hrunner, hkickOffs.trans (if_pos hfull), hafter hc, signal, hsignal,
    of_decide_eq_true hasks, (hsignals signal hsignal).2⟩

end Rooms

end QMdmmNetworking
