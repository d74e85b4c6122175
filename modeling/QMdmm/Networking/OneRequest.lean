import QMdmm.Networking.RunningRoom

namespace QMdmmNetworking

open QMdmmCore Data Logic LogicThread

namespace ServerConnectionP

variable (sync : Bool) (random : RockPaperScissors)

theorem objectName_setError (self : ServerConnectionP) :
    (self.setError sync random).1.agent.objectName = self.agent.objectName := by
  cases sync <;> rfl

theorem objectName_abnormalOver (self : ServerConnectionP) :
    (self.abnormalOver sync random).1.agent.objectName = self.agent.objectName :=
  objectName_setError sync random self

theorem objectName_replyReceivedOver (self : ServerConnectionP) (requestId : Protocol.RequestId)
    (value : QJsonValue) :
    (self.replyReceivedOver sync random requestId value).1.agent.objectName =
      self.agent.objectName := by
  unfold replyReceivedOver
  dsimp only
  split
  · rfl
  · split
    · exact objectName_setError sync random _
    · exact objectName_setError sync random _
    · rfl

theorem objectName_packetReceivedOver (self : ServerConnectionP) (packet : Packet) :
    (self.packetReceivedOver sync random packet).1.agent.objectName = self.agent.objectName := by
  unfold packetReceivedOver
  split
  · rfl
  · dsimp only
    split
    · split
      · rfl
      · rfl
      · exact objectName_setError sync random _
      · split
        · rfl
        · exact objectName_abnormalOver sync random _
    · split
      · exact objectName_replyReceivedOver sync random _ _ _
      · exact objectName_abnormalOver sync random _
    · exact objectName_abnormalOver sync random _

theorem objectName_requestTimeoutOver (self : ServerConnectionP) :
    (self.requestTimeoutOver sync random).1.agent.objectName = self.agent.objectName := by
  unfold requestTimeoutOver
  dsimp only
  split
  · exact objectName_abnormalOver sync random _
  · rfl

theorem objectName_peerWentSilentOver (self : ServerConnectionP) :
    (self.peerWentSilentOver sync random).1.agent.objectName = self.agent.objectName := by
  unfold peerWentSilentOver
  dsimp only
  split
  · exact objectName_abnormalOver sync random _
  · rfl

end ServerConnectionP

namespace RunningRoom

open LogicRunner LogicP ServerConnectionP

variable {rules : Rules} {self self' : RunningRoom} {runner runner' : LogicRunner}

/-- What reaches the connection of an agent leaves it the agent's, and answers what is in
flight at most. -/
theorem act_cases {conn conn' : ServerConnectionP} {l : Session.Step} {effects : List Effect}
    (hruns : runs conn l.event = true) (hact : Session.act conn l = .ok (conn', effects)) :
    conn'.agent.objectName = conn.agent.objectName ∧ Settles conn conn' effects := by
  have hother : ∀ req, l.event ≠ .addRequest req := by
    intro req hevent
    rw [hevent] at hruns
    cases hruns
  refine ⟨?_, Session.settles_act hact hother⟩
  unfold Session.act at hact
  cases hevent : l.event with
  | packetReceived packet =>
    rw [hevent] at hact
    rw [← (Prod.mk.inj (Except.ok.inj hact)).1]
    exact objectName_packetReceivedOver l.sync l.random conn packet
  | requestTimeout =>
    rw [hevent] at hact
    rw [← (Prod.mk.inj (Except.ok.inj hact)).1]
    exact objectName_requestTimeoutOver l.sync l.random conn
  | peerWentSilent =>
    rw [hevent] at hact
    rw [← (Prod.mk.inj (Except.ok.inj hact)).1]
    exact objectName_peerWentSilentOver l.sync l.random conn
  | socketDisconnected | executeDefaultReply =>
    rw [hevent] at hact
    rw [← (Prod.mk.inj (Except.ok.inj hact)).1]
  | addRequest | setSocket | reconnect =>
    rw [hevent] at hruns
    cases hruns

/-- A reply is of the kind that was in flight, and then nothing is. -/
theorem inFlight_of_settles {conn conn' : ServerConnectionP} {effects : List Effect}
    (h : Settles conn conn' effects) :
    conn.inFlight = (repliesOf effects).map Reply.requestId ++ conn'.inFlight := by
  obtain ⟨hkeep, hnone⟩ | ⟨hasked, hdone, reply, hreply, hkind⟩ := h
  · rw [hnone, inFlight, inFlight, hkeep]
    rfl
  · rw [hreply, inFlight, inFlight, if_neg hasked, if_pos hdone, List.map_singleton, hkind,
      List.append_nil]

theorem answersOf_replied (playerName name : String) (reply : Reply) :
    Call.answersOf name (LogicRunnerP.replied playerName reply) =
      if playerName = name then [reply.requestId] else [] := by
  cases reply <;> simp [Call.answersOf, LogicRunnerP.replied, Call.replier, Call.requestId,
    Reply.requestId]

theorem flatMap_answersOf_replied (playerName name : String) (replies : List Reply) :
    (replies.map (LogicRunnerP.replied playerName)).flatMap (Call.answersOf name) =
      if playerName = name then replies.map Reply.requestId else [] := by
  rw [List.flatMap_map]
  simp only [answersOf_replied]
  split
  · exact List.map_eq_flatMap.symm
  · exact List.flatMap_eq_nil_iff.mpr fun _ _ => rfl

section Open

variable {f : Seat → Seat}

/-- Agents that keep their names are found under them. -/
theorem agent_map (hf : ∀ seat, (f seat).names = seat.names) (runner : LogicRunner)
    (name : String) :
    ({ runner with children := runner.children.map f } : LogicRunner).agent name =
      (runner.agent name).map f := by
  have hagent : (Seat.isAgent name) ∘ f = Seat.isAgent name := by
    funext seat
    rw [Function.comp_apply, Bool.eq_iff_iff, ← Seat.mem_names, ← Seat.mem_names, hf]
  rw [LogicRunner.agent, LogicRunner.agent, List.find?_map, hagent]

/-- One agent changes, and keeps its name. -/
theorem agent_modify {g : Seat → Seat} {playerName : String}
    (hg : ∀ seat, seat.isAgent playerName = true → (g seat).names = seat.names)
    (runner : LogicRunner) (name : String) :
    ({ runner with
      children := runner.children.map fun seat =>
        if seat.isAgent playerName then g seat else seat } : LogicRunner).agent name =
      if name = playerName then (runner.agent name).map g else runner.agent name := by
  rw [agent_map]
  · cases hfind : runner.agent name with
    | none => exact (ite_self none).symm
    | some seat =>
      obtain ⟨hregistered, hname⟩ := Seat.isAgent_iff.mp (List.find?_some hfind)
      by_cases hsame : name = playerName
      · rw [if_pos hsame, Option.map_some, Option.map_some,
          if_pos (Seat.isAgent_iff.mpr ⟨hregistered, hname.trans hsame⟩)]
      · rw [if_neg hsame, Option.map_some,
          if_neg fun hagent => hsame (hname.symm.trans (Seat.isAgent_iff.mp hagent).2)]
  · intro seat
    split
    · next hagent => exact hg seat hagent
    · rfl

theorem openOf_map (hf : ∀ seat, (f seat).names = seat.names)
    (hrequest : ∀ seat, (f seat).conn.currentRequest = seat.conn.currentRequest)
    (runner : LogicRunner) (name : String) :
    openOf { runner with children := runner.children.map f } name = openOf runner name := by
  rw [openOf, openOf, agent_map hf]
  cases runner.agent name with
  | none => rfl
  | some seat =>
    rw [Option.map_some, Option.elim_some, Option.elim_some, inFlight, inFlight, hrequest]

theorem openOf_notify (runner : LogicRunner) (notification : Notification) (name : String) :
    openOf (runner.notify notification) name = openOf runner name := by
  refine openOf_map (fun seat => ?_) (fun seat => ?_) runner name
  · split
    · exact names_conn (seat.conn.agent_notify notification)
    · rfl
  · split
    · cases notification <;> rfl
    · rfl

theorem openOf_clearRoundEventLogs (runner : LogicRunner) (name : String) :
    openOf runner.clearRoundEventLogs name = openOf runner name := by
  refine openOf_map (fun seat => ?_) (fun seat => ?_) runner name
  · split <;> rfl
  · split <;> rfl

theorem openOf_setAgentState (runner : LogicRunner) (playerName : String) (state : AgentState)
    (name : String) : openOf (runner.setAgentState playerName state) name = openOf runner name := by
  refine openOf_map (fun seat => ?_) (fun seat => ?_) runner name
  · split <;> rfl
  · split <;> rfl

theorem openOf_socketDeleted (self : RunningRoom) (socket : Socket) (name : String) :
    openOf (self.socketDeleted socket).runner name = openOf self.runner name := by
  apply openOf_map
  · intro seat
    rfl
  · intro seat
    rfl

theorem names_conn_of_isAgent {conn : ServerConnectionP} {playerName : String}
    (hconn : conn.agent.objectName = playerName) {seat : Seat}
    (hagent : seat.isAgent playerName = true) :
    Seat.names { seat with conn := conn } = seat.names := by
  rw [Seat.names_eq_of_isAgent hagent, ← hconn]
  exact if_pos (Seat.isAgent_iff.mp hagent).1

theorem names_setConn {conn : ServerConnectionP} {playerName : String}
    (hconn : conn.agent.objectName = playerName) (seat : Seat) :
    (if seat.isAgent playerName then { seat with conn := conn } else seat : Seat).names =
      seat.names := by
  split
  · next hagent => exact names_conn_of_isAgent hconn hagent
  · rfl

theorem agent_setConn {conn : ServerConnectionP} {playerName : String}
    (hconn : conn.agent.objectName = playerName) (runner : LogicRunner) (name : String) :
    (runner.setConn playerName conn).agent name =
      if name = playerName then (runner.agent name).map fun seat => { seat with conn := conn }
      else runner.agent name :=
  agent_modify (fun _ hagent => names_conn_of_isAgent hconn hagent) runner name

theorem openOf_setConn {conn : ServerConnectionP} {playerName : String}
    (hconn : conn.agent.objectName = playerName) (hagent : (runner.agent playerName).isSome = true)
    (name : String) :
    openOf (runner.setConn playerName conn) name =
      if name = playerName then conn.inFlight else openOf runner name := by
  rw [openOf, openOf, agent_setConn hconn]
  split
  · next hsame =>
    obtain ⟨seat, hseat⟩ := Option.isSome_iff_exists.mp hagent
    rw [hsame, hseat]
    rfl
  · rfl

theorem agent_takeAgent (runner : LogicRunner) (playerName name : String) :
    (runner.takeAgent playerName).agent name =
      if name = playerName then none else runner.agent name := by
  refine List.find?_filter.trans ?_
  split
  · next hsame =>
    rw [List.find?_eq_none]
    intro seat _
    simp [hsame]
  · next hne =>
    rw [LogicRunner.agent]
    congr 1
    funext seat
    cases hseat : seat.isAgent name with
    | false => simp
    | true =>
      have hother : seat.isAgent playerName = false := by
        rw [Bool.eq_false_iff]
        intro hagent
        exact hne ((Seat.isAgent_iff.mp hseat).2.symm.trans (Seat.isAgent_iff.mp hagent).2)
      simp [hother]

theorem openOf_takeAgent (runner : LogicRunner) (playerName name : String) :
    openOf (runner.takeAgent playerName) name =
      if name = playerName then [] else openOf runner name := by
  rw [openOf, openOf, agent_takeAgent]
  split <;> rfl

theorem openOf_addAgent (runner : LogicRunner) {conn : ServerConnectionP}
    (hfree : conn.inFlight = []) (name : String) :
    openOf (runner.addAgent conn) name = openOf runner name := by
  set seat : Seat := ⟨conn, (runner.agent conn.agent.objectName).isNone⟩
  have hfind : (runner.addAgent conn).agent name =
      (runner.agent name).or ([seat].find? (Seat.isAgent name)) := List.find?_append
  rw [openOf, openOf, hfind]
  cases runner.agent name with
  | some other => rfl
  | none =>
    rw [Option.none_or, List.find?_singleton]
    split
    · exact hfree
    · rfl

/-- One seat is replaced by another of the same agent with the same request. -/
theorem openOf_reseats {seat seat' : Seat}
    (h : ServerP.Reseats runner.children runner'.children seat seat')
    (hnames : seat'.names = seat.names)
    (hrequest : seat'.conn.currentRequest = seat.conn.currentRequest) (name : String) :
    openOf runner' name = openOf runner name := by
  obtain ⟨pre, post, hbefore, hafter⟩ := h
  have hagent : seat'.isAgent name = seat.isAgent name := by
    rw [Bool.eq_iff_iff, ← Seat.mem_names, ← Seat.mem_names, hnames]
  rw [openOf, openOf, LogicRunner.agent, LogicRunner.agent, hbefore, hafter, List.find?_append,
    List.find?_append, List.find?_cons, List.find?_cons, hagent]
  cases pre.find? (Seat.isAgent name) with
  | some other => rfl
  | none =>
    cases seat.isAgent name with
    | true =>
      dsimp only [Option.none_or, Option.elim_some]
      rw [inFlight, inFlight, hrequest]
    | false => rfl

theorem reseats_reconnectAgent {conn : ServerConnectionP} {playerName : String} {seat : Seat}
    (hfind : runner.agent playerName = some seat)
    (h : runner.reconnectAgent playerName conn = some runner') :
    ServerP.Reseats runner.children runner'.children seat (Seat.setState { seat with conn := conn }
      (conn.agent.state.setFlag StateMaskOnline true)) := by
  rw [LogicRunner.reconnectAgent, hfind] at h
  obtain ⟨-, hsome⟩ := Option.ite_none_left_eq_some.mp h
  cases hsome
  have hdecide : runner.children.find? (fun seat => decide (seat.isAgent playerName = true)) =
      some seat := by
    simpa [LogicRunner.agent] using hfind
  exact .of_find? (f := fun seat => Seat.setState { seat with conn := conn } _) hdecide

theorem reconnectAgent_spec {conn : ServerConnectionP} {playerName : String} {seat : Seat}
    (hfind : runner.agent playerName = some seat)
    (hconn : conn.agent.objectName = seat.conn.agent.objectName)
    (hrequest : conn.currentRequest = seat.conn.currentRequest)
    (h : runner.reconnectAgent playerName conn = some runner') :
    runner'.children.flatMap Seat.names = runner.children.flatMap Seat.names ∧
      ∀ name, openOf runner' name = openOf runner name := by
  have hseat := List.find?_some hfind
  have hname : conn.agent.objectName = playerName := hconn.trans (Seat.isAgent_iff.mp hseat).2
  refine ⟨(ServerP.names_reconnectAgent hname h).2, ?_⟩
  apply openOf_reseats (reseats_reconnectAgent hfind h)
  · rw [Seat.names_setState, Seat.names_eq_of_isAgent hseat, ← hname]
    exact if_pos (Seat.isAgent_iff.mp hseat).1
  · exact hrequest

end Open

/-- What the requests of a handler ask a player for. -/
def kindsTo (name : String) (reqs : List (String × Request)) : List Protocol.RequestId :=
  (reqs.filter fun req => req.1 = name).map fun req => req.2.requestId

theorem kindsTo_cons (name playerName : String) (req : Request) (reqs : List (String × Request)) :
    kindsTo name ((playerName, req) :: reqs) =
      (if playerName = name then [req.requestId] else []) ++ kindsTo name reqs := by
  by_cases hname : playerName = name <;> simp [kindsTo, hname]

theorem kindsTo_requests (name : String) (signal : Signal) :
    kindsTo name (LogicRunnerP.requests signal) = signal.requestsTo name := by
  cases signal with
  | requestRpsForAction | requestRpsForActionOrder =>
    simp [kindsTo, LogicRunnerP.requests, Signal.requestsTo, Signal.asks, Signal.requestId,
      List.filter_map, Function.comp_def, Request.requestId]
  | requestActionOrder playerName | requestAction playerName | requestUpgrade playerName =>
    by_cases hname : playerName = name <;>
      simp [kindsTo, LogicRunnerP.requests, Signal.requestsTo, Signal.asks, Signal.requestId,
        Request.requestId, hname]
  | _ => rfl

theorem agent_requestOne (playerName : String) (req : Request) (runner : LogicRunner)
    (name : String) :
    ({ runner with
      children := runner.children.map fun seat =>
        if seat.isAgent playerName then { seat with conn := (seat.conn.request req).1 }
        else seat } : LogicRunner).agent name =
      if name = playerName then
        (runner.agent name).map fun seat => { seat with conn := (seat.conn.request req).1 }
      else runner.agent name :=
  agent_modify (fun seat _ => names_conn (seat.conn.agent_request req)) runner name

/-- A request that finds none open is the one that is open then. -/
theorem openOf_requestOne {playerName : String} (req : Request)
    (hagent : (runner.agent playerName).isSome = true) (hfree : openOf runner playerName = [])
    (name : String) :
    openOf { runner with
        children := runner.children.map fun seat =>
          if seat.isAgent playerName then { seat with conn := (seat.conn.request req).1 }
          else seat } name =
      openOf runner name ++ if playerName = name then [req.requestId] else [] := by
  rw [openOf, openOf, agent_requestOne]
  by_cases hname : playerName = name
  · subst hname
    obtain ⟨seat, hseat⟩ := Option.isSome_iff_exists.mp hagent
    rw [openOf, hseat] at hfree
    rw [if_pos rfl, if_pos rfl, hseat, Option.map_some]
    obtain ⟨hcurrent, -⟩ := seat.conn.request_asks req
    dsimp only [Option.elim_some] at hfree ⊢
    rw [hfree, inFlight, hcurrent, if_neg (Session.requestId_ne_invalid req), List.nil_append]
  · rw [if_neg hname, if_neg (Ne.symm hname), List.append_nil]

/-- Where no player has or gets a second request, each request is open afterwards. -/
theorem openOf_request (reqs : List (String × Request)) (runner : LogicRunner)
    (h : runner.request reqs = some runner')
    (honce : ∀ name, (openOf runner name ++ kindsTo name reqs).length ≤ 1) (name : String) :
    openOf runner' name = openOf runner name ++ kindsTo name reqs := by
  induction reqs generalizing runner with
  | nil =>
    cases h
    exact (List.append_nil _).symm
  | cons first rest ih =>
    obtain ⟨playerName, req⟩ := first
    rw [LogicRunner.request] at h
    split at h
    · cases h
    · next seat hseat =>
      have hfree : openOf runner playerName = [] := by
        have hlength := honce playerName
        rw [kindsTo_cons, if_pos rfl, List.length_append, List.length_append,
          List.length_singleton] at hlength
        exact List.length_eq_zero_iff.mp (by omega)
      have hone := openOf_requestOne req (by rw [hseat]; rfl) hfree
      rw [ih _ h, hone, kindsTo_cons, List.append_assoc]
      intro name
      rw [hone, List.append_assoc, ← kindsTo_cons]
      exact honce name

/-- What a handler does to the requests that are open: those its signal asks for are. -/
theorem handle_spec {signal : Signal} {result : Handled} (h : runner.handle signal = some result)
    (honce : ∀ name, (openOf runner name ++ signal.requestsTo name).length ≤ 1) :
    (∀ name, openOf result.runner name = openOf runner name ++ signal.requestsTo name) ∧
      ∀ c ∈ result.commands, c.replier = none := by
  have hrequest (h : (runner.request (LogicRunnerP.requests signal)).map
      (fun runner => (⟨runner, [], false⟩ : Handled)) = some result) :
      (∀ name, openOf result.runner name = openOf runner name ++ signal.requestsTo name) ∧
        ∀ c ∈ result.commands, c.replier = none := by
    obtain ⟨runner', hrunner', rfl⟩ := Option.map_eq_some_iff.mp h
    refine ⟨fun name => ?_, fun _ hc => absurd hc List.not_mem_nil⟩
    rw [← kindsTo_requests]
    refine openOf_request _ runner hrunner' (fun name => ?_) name
    rw [kindsTo_requests]
    exact honce name
  cases signal with
  | requestRpsForAction | requestActionOrder | requestRpsForActionOrder | requestAction
  | requestUpgrade => exact hrequest h
  | rpsResult | actionOrderResult | actionResult | gameOver =>
    cases h
    refine ⟨fun name => ?_, fun _ hc => absurd hc List.not_mem_nil⟩
    exact (openOf_notify runner _ name).trans (List.append_nil _).symm
  | roundOver =>
    cases h
    refine ⟨fun name => ?_, fun _ hc => absurd hc List.not_mem_nil⟩
    rw [openOf_notify, openOf_clearRoundEventLogs]
    exact (List.append_nil _).symm
  | upgradeResult upgrades =>
    rw [LogicRunner.handle] at h
    split at h
    · cases h
      refine ⟨fun name => ?_, fun _ hc => absurd hc List.not_mem_nil⟩
      exact (openOf_notify runner _ name).trans (List.append_nil _).symm
    · cases h
      refine ⟨fun name => ?_, fun c hc => by rw [List.mem_singleton.mp hc]; rfl⟩
      rw [openOf_clearRoundEventLogs, openOf_notify, openOf_notify]
      exact (List.append_nil _).symm

/-- What holds of a room whatever happens to it: every request is in one place, and no
logic has been told what nobody asked for. -/
structure Sound (n : Int) (room : RunningRoom) : Prop where
  names : (room.runner.children.flatMap Seat.names).Nodup
  logic : (Logic.system.guarded OnlyAsked).Reachable room.thread.logic
  inStep : InStep n room.runner room.thread
  repliers : ∀ c ∈ room.thread.commands, ∀ name, c.replier = some name →
    (room.runner.agent name).isSome = true
  handled : room.thread.handled ≤ room.thread.logic.env.length
  requests : ∀ name, room.requestsOf name = room.thread.logic.d.due name

namespace Sound

variable {n : Int}

theorem reachable (h : Sound n self) : Logic.system.Reachable self.thread.logic := .of_guarded h.logic

/-- A player has one request at most, wherever it is. -/
theorem requestsOf_le (h : Sound n self) (name : String) : (self.requestsOf name).length ≤ 1 := by
  rw [h.requests]
  exact length_due_le _ _

/-- Before its game has started, nobody in a room is asked for anything. -/
theorem of_resting (h : Sound n self) (hresting : Resting self.thread) (name : String) :
    self.thread.commands.flatMap (Call.answersOf name) = [] ∧ openOf self.runner name = [] := by
  have hnone := h.requests name
  rw [due_of_beforeRoundStart hresting.state, requestsOf] at hnone
  exact List.append_eq_nil_iff.mp (List.append_eq_nil_iff.mp hnone).1

theorem resting (h : Sound n self) (hopen : self.runner.full n = false) : Resting self.thread := by
  cases h.inStep with
  | recruiting _ hresting => exact hresting
  | starting _ _ hfull | started hfull => cases hfull.symm.trans hopen

/-- No reply is queued before the game has started. -/
theorem no_replier (h : Sound n self) (hresting : Resting self.thread) :
    ∀ c ∈ self.thread.commands, c.replier = none := by
  intro c hc
  cases hname : c.replier with
  | none => rfl
  | some name =>
    have hnone := List.flatMap_eq_nil_iff.mp (h.of_resting hresting name).1 c hc
    rw [Call.answersOf, if_pos hname] at hnone
    cases hnone

end Sound

theorem sound_new (hpos : 0 < rules.playerNumPerRoom) (pointer : Nat) :
    Sound rules.playerNumPerRoom (new rules pointer) where
  names := List.nodup_nil
  logic := .init ⟨rules.logicConfiguration, rfl⟩
  inStep := by
    refine .recruiting ?_ ⟨rfl, rfl, fun _ hc => absurd hc List.not_mem_nil⟩
      (fun _ hc => absurd hc List.not_mem_nil) rfl rfl
    exact full_eq_false.mpr hpos
  repliers := fun _ hc => absurd hc List.not_mem_nil
  handled := Nat.zero_le _
  requests _ := rfl

/-- The agents stay, with the requests that are open. -/
theorem Sound.setRunner {n : Int} (h : Sound n self)
    (hnames : runner.children.flatMap Seat.names = self.runner.children.flatMap Seat.names)
    (hopen : ∀ name, openOf runner name = openOf self.runner name) (ended : Bool) :
    Sound n ⟨runner, self.thread, ended⟩ where
  names := hnames ▸ h.names
  logic := h.logic
  inStep := h.inStep.congr hnames
  repliers c hc name hname := by
    rw [← mem_agentNames, agentNames, hnames]
    exact mem_agentNames.mpr (h.repliers c hc name hname)
  handled := h.handled
  requests name := by
    rw [← h.requests, requestsOf, requestsOf, hopen]

/-- A sign-in brings an agent that has not been asked for anything. -/
theorem Sound.addAgent (h : Sound rules.playerNumPerRoom self)
    (hopen : self.runner.full rules.playerNumPerRoom = false) (agent : Agent) (socket : Socket) :
    Sound rules.playerNumPerRoom (self.addAgent rules agent socket) := by
  set conn := ((ServerConnectionP.new agent rules.logicConfiguration
    rules.requestTimeout).setSocket socket).1
  have hnames := self.runner.names_addAgent conn
  have hquiet : ∀ c ∈ self.runner.addAgentEmits rules.playerNumPerRoom conn, c.replier = none := by
    intro c hc
    rw [addAgentEmits] at hc
    split at hc
    · cases hc
    · obtain rfl | hc := List.mem_cons.mp hc
      · rfl
      · split at hc
        · rw [List.mem_singleton.mp hc]
          rfl
        · cases hc
  have hfree : conn.inFlight = [] := rfl
  refine ⟨?_, h.logic, h.inStep.enqueueEmitted h.names (.added hopen rfl), fun c hc name hname => ?_,
    h.handled, fun name => ?_⟩
  · rw [RunningRoom.addAgent, hnames]
    split
    · rw [List.append_nil]
      exact h.names
    · next hnew =>
      refine List.Nodup.append h.names (List.nodup_singleton _) ?_
      intro name hname hsame
      rw [List.mem_singleton.mp hsame, ← List.mem_toFinset] at hname
      exact hnew (mem_agentNames.mp hname)
  · obtain hc | hc := List.mem_append.mp hc
    · rw [← mem_agentNames, agentNames, List.mem_toFinset, RunningRoom.addAgent, hnames]
      have hold := mem_agentNames.mpr (h.repliers c hc name hname)
      exact List.mem_append_left _ (List.mem_toFinset.mp hold)
    · rw [hquiet c hc] at hname
      cases hname
  · have hnone := Call.flatMap_answersOf_eq_nil hquiet name
    refine Eq.trans ?_ (h.requests name)
    rw [requestsOf, requestsOf, RunningRoom.addAgent, enqueueEmitted, enqueue]
    dsimp only
    rw [List.flatMap_append, hnone, List.append_nil, openOf_addAgent self.runner hfree]
    rfl

/-- A slot of a connection moves what is in flight to the replies that are queued. -/
theorem Sound.setConn {n : Int} (h : Sound n self) {playerName : String} {seat : Seat}
    {conn : ServerConnectionP} {effects : List Effect}
    (hseat : self.runner.agent playerName = some seat)
    (hname : conn.agent.objectName = seat.conn.agent.objectName)
    (hsettles : Settles seat.conn conn effects) :
    Sound n { self with
      runner := self.runner.setConn playerName conn
      thread := self.thread.enqueue ((repliesOf effects).map (LogicRunnerP.replied playerName)) } := by
  have hconn : conn.agent.objectName = playerName :=
    hname.trans (Seat.isAgent_iff.mp (List.find?_some hseat)).2
  have hagent : (self.runner.agent playerName).isSome = true := by rw [hseat]; rfl
  have hnames : (self.runner.setConn playerName conn).children.flatMap Seat.names =
      self.runner.children.flatMap Seat.names := names_map (names_setConn hconn)
  refine ⟨hnames ▸ h.names, h.logic, ?_, fun c hc name hreplier => ?_, h.handled, fun name => ?_⟩
  · have hin := h.inStep.congr hnames
    obtain ⟨-, hnone⟩ | ⟨-, -, reply, hreply, -⟩ := hsettles
    · rw [hnone, List.map_nil, enqueue, List.append_nil]
      exact hin
    · rw [hreply]
      exact hin.enqueue_replied playerName reply
  · rw [← mem_agentNames, agentNames, hnames]
    apply mem_agentNames.mpr
    obtain hc | hc := List.mem_append.mp hc
    · exact h.repliers c hc name hreplier
    · obtain ⟨reply, -, rfl⟩ := List.mem_map.mp hc
      have hsame : playerName = name := by cases reply <;> exact Option.some.inj hreplier
      rwa [← hsame]
  · refine Eq.trans ?_ (h.requests name)
    rw [requestsOf, requestsOf, enqueue]
    dsimp only
    rw [List.flatMap_append, flatMap_answersOf_replied, openOf_setConn hconn hagent]
    by_cases hsame : playerName = name
    · subst hsame
      rw [if_pos rfl, if_pos rfl, openOf, hseat, Option.elim_some, inFlight_of_settles hsettles]
      simp only [List.append_assoc]
      rfl
    · rw [if_neg hsame, if_neg (Ne.symm hsame), List.append_nil]
      rfl

/-- Who leaves a room that is not full has not been asked for anything. -/
theorem Sound.agentDisconnected {n : Int} (h : Sound n self) (playerName : String) :
    Sound n (self.agentDisconnected n playerName) := by
  rw [RunningRoom.agentDisconnected]
  split
  · exact h.setRunner rfl (fun _ => rfl) _
  next hfull =>
  have hopen : self.runner.full n = false := Bool.eq_false_iff.mpr hfull
  have hresting := h.resting hopen
  have hsub : ((self.runner.takeAgent playerName).children.flatMap Seat.names).Sublist
      (self.runner.children.flatMap Seat.names) := List.filter_sublist.flatMap _
  have hnames : agentNames (self.runner.takeAgent playerName).children =
      (agentNames self.runner.children).erase playerName := by
    ext name
    rw [mem_agentNames, agent_takeAgent, Finset.mem_erase, mem_agentNames]
    by_cases hname : name = playerName <;> simp [hname]
  have hquiet := h.no_replier hresting
  refine ⟨h.names.sublist hsub, h.logic, ?_, fun c hc name hreplier => ?_, h.handled, fun name => ?_⟩
  · cases h.inStep with
    | starting _ _ hfull | started hfull => cases hfull.symm.trans hopen
    | recruiting _ _ hcommands hkickOffs hsettled =>
      have hstill : (self.runner.takeAgent playerName).full n = false := by
        have hle := hsub.length_le
        rw [← agentsCount_eq, ← agentsCount_eq] at hle
        rw [full_eq_false] at hopen ⊢
        omega
      refine .recruiting hstill ⟨hresting.state, hresting.env, hresting.taken⟩
        (List.forall_mem_append.mpr ⟨hcommands, by simp [isRoundStart]⟩) hkickOffs ?_
      rw [hnames, ← hsettled]
      exact List.foldl_append
  · obtain hc | hc := List.mem_append.mp hc
    · rw [hquiet c hc] at hreplier
      cases hreplier
    · rw [List.mem_singleton.mp hc] at hreplier
      cases hreplier
  · refine Eq.trans ?_ (h.requests name)
    obtain ⟨hcommands, hnone⟩ := h.of_resting hresting name
    rw [requestsOf, requestsOf, enqueueEmitted, enqueue]
    dsimp only
    rw [List.flatMap_append, hcommands, hnone, openOf_takeAgent, hnone, ite_self]
    rfl

/-- What a slot of a connection does to its room. -/
structure Receives (n : Int) (room : RunningRoom) (playerName : String) (l : Session.Step)
    (room' : RunningRoom) (seat : Seat) (conn : ServerConnectionP) (effects : List Effect) :
    Prop where
  found : room.runner.agent playerName = some seat
  enabled : runs seat.conn l.event = true
  acts : Session.act seat.conn l = .ok (conn, effects)
  received : room' =
    let room := { room with
      runner := room.runner.setConn playerName conn
      thread := room.thread.enqueue ((repliesOf effects).map (LogicRunnerP.replied playerName)) }
    if drops l effects then room.agentDisconnected n playerName else room

theorem receive_cases {n : Int} {playerName : String} {l : Session.Step}
    (hreceive : self.receive n playerName l = some self') :
    ∃ seat conn effects, Receives n self playerName l self' seat conn effects := by
  rw [RunningRoom.receive] at hreceive
  split at hreceive
  · cases hreceive
  next seat hseat =>
  split at hreceive
  · next hruns =>
    split at hreceive
    · cases hreceive
    · next conn effects hact => exact ⟨seat, conn, effects, hseat, hruns, hact,
        (Option.some.inj hreceive).symm⟩
  · cases hreceive

/-- Whatever reaches a connection. -/
theorem Sound.receive {n : Int} (h : Sound n self) {playerName : String} {l : Session.Step}
    (hreceive : self.receive n playerName l = some self') : Sound n self' := by
  obtain ⟨seat, conn, effects, hseat, hruns, hact, rfl⟩ := receive_cases hreceive
  obtain ⟨hname, hsettles⟩ := act_cases hruns hact
  have hroom := h.setConn hseat hname hsettles
  dsimp only
  split
  · exact hroom.agentDisconnected playerName
  · exact hroom

theorem reconnectAgent_cases {playerName : String} {socket : Socket} {lastRoundEventSeq : Int}
    (hreconnect : self.reconnectAgent playerName socket lastRoundEventSeq = some self') :
    ∃ seat runner, self.runner.agent playerName = some seat ∧
      self.runner.reconnectAgent playerName (seat.conn.setSocket socket).1 = some runner ∧
      self' = { self with runner := runner } := by
  rw [RunningRoom.reconnectAgent] at hreconnect
  split at hreconnect
  · cases hreconnect
  next seat hseat =>
  split at hreconnect
  · cases hreconnect
  next conn effects hconn =>
  obtain ⟨runner, hrunner, rfl⟩ := Option.map_eq_some_iff.mp hreconnect
  obtain ⟨replayed, -, hbound⟩ := Except.bind_eq_ok.mp hconn
  obtain ⟨rfl, -⟩ := Prod.mk.inj (Except.ok.inj hbound)
  exact ⟨seat, runner, hseat, hrunner, rfl⟩

theorem Sound.reconnectAgent {n : Int} (h : Sound n self) {playerName : String} {socket : Socket}
    {lastRoundEventSeq : Int}
    (hreconnect : self.reconnectAgent playerName socket lastRoundEventSeq = some self') :
    Sound n self' := by
  obtain ⟨seat, runner, hseat, hrunner, rfl⟩ := reconnectAgent_cases hreconnect
  have hname : (seat.conn.setSocket socket).1.agent.objectName = seat.conn.agent.objectName := rfl
  obtain ⟨hnames, hopen⟩ := reconnectAgent_spec hseat hname rfl hrunner
  exact h.setRunner hnames hopen self.ended

/-- A reply that is queued has been asked for, of a player of the logic. -/
theorem Sound.asked {n : Int} (h : Sound n self) {c : Call} (hc : c ∈ self.thread.commands)
    {name : String} (hname : c.replier = some name) :
    name ∈ self.thread.logic.d.room.playerNames ∧ self.thread.logic.d.due name = [c.requestId] := by
  constructor
  · cases h.inStep with
    | recruiting _ hresting | starting _ _ _ hresting =>
      rw [h.no_replier hresting c hc] at hname
      cases hname
    | started _ _ _ _ hnames =>
      have hagent := mem_agentNames.mpr (h.repliers c hc name hname)
      rw [← hnames] at hagent
      exact List.mem_toFinset.mp hagent
  · have hmem : c.requestId ∈ Call.answersOf name c := by
      rw [Call.answersOf, if_pos hname]
      exact List.mem_singleton_self _
    apply due_eq_of_mem
    rw [← h.requests]
    exact List.mem_append_left _ (List.mem_append_left _ (List.mem_flatMap.mpr ⟨c, hc, hmem⟩))

theorem Sound.onlyAsked {n : Int} (h : Sound n self) {c : Call} (hc : c ∈ self.thread.commands) :
    OnlyAsked self.thread.logic c :=
  fun _ hname _ => .inl (asked_of_due hname (h.asked hc hname).2)

/-- The logic takes a command. -/
theorem Sound.command {n : Int} (h : Sound n self) {thread : LogicThread}
    (htake : self.thread.take = some thread) : Sound n { self with thread := thread } := by
  obtain ⟨c, rest, ret, hcommands, hcall, hthread⟩ := take_cases htake
  have hc : c ∈ self.thread.commands := hcommands ▸ List.mem_cons_self
  have hasked : ∀ name, c.replier = some name → name ∈ self.thread.logic.d.room.playerNames ∧
      self.thread.logic.d.Asked c := by
    intro name hname
    obtain ⟨hmember, hdue⟩ := h.asked hc hname
    exact ⟨hmember, asked_of_due hname hdue⟩
  obtain ⟨hneg, hreplies⟩ := repliesAsked_invariant.of_reachable h.logic
  obtain ⟨signals, henv, hdue⟩ := (call_cases hcall).renews hneg hreplies hasked
  have hsignals : thread.signals = self.thread.signals ++ signals := by
    have hhandled : thread.handled = self.thread.handled := by rw [hthread]
    rw [LogicThread.signals, LogicThread.signals, henv, hhandled,
      List.drop_append_of_le_length h.handled]
  refine ⟨h.names, .step h.logic ⟨h.onlyAsked hc, ret, hcall⟩,
    h.inStep.take h.reachable htake, fun c hc => h.repliers c ?_, ?_, fun name => ?_⟩
  · rw [hthread] at hc
    exact hcommands ▸ List.mem_cons_of_mem _ hc
  · rw [hthread]
    dsimp only
    rw [henv, List.length_append]
    exact Nat.le_add_right_of_le h.handled
  · have hlater : thread.commands = rest := by rw [hthread]
    have hbefore := h.requests name
    rw [requestsOf, hcommands, List.flatMap_cons, Call.answersOf] at hbefore
    rw [requestsOf]
    dsimp only
    rw [hdue, hlater, hsignals, List.flatMap_append]
    split
    · next hname =>
      rw [if_pos hname, (h.asked hc hname).2, List.append_assoc, List.append_assoc,
        List.singleton_append, List.cons_eq_cons] at hbefore
      rw [← List.append_assoc, List.append_assoc _ _ (self.thread.signals.flatMap _), hbefore.2]
    · next hname =>
      rw [if_neg hname, List.nil_append] at hbefore
      rw [← hbefore]
      simp only [List.append_assoc]

/-- What the handling of a signal does to its room. -/
structure HandlesSignal (room room' : RunningRoom) (signal : Signal) (result : Handled) :
    Prop where
  signals : room.thread.signals = signal :: room'.thread.signals
  handle : room.runner.handle signal = some result
  agents : SameAgents room.runner result.runner
  opened : ∀ name, openOf result.runner name = openOf room.runner name ++ signal.requestsTo name
  commands : ∀ c ∈ result.commands, c.replier = none ∧ c.changesNames = false
  handled : room' = ⟨result.runner,
    { room.thread.enqueue result.commands with handled := room.thread.handled + 1 },
    room.ended || result.ended⟩

/-- Who is asked is an agent that has no request open. -/
theorem Sound.handlesSignal {n : Int} (h : Sound n self)
    (hsignal : self.handleSignal = some self') :
    ∃ signal result, HandlesSignal self self' signal result := by
  rw [RunningRoom.handleSignal] at hsignal
  split at hsignal
  · cases hsignal
  next signal rest hsignals =>
  obtain ⟨result, hresult, rfl⟩ := Option.map_eq_some_iff.mp hsignal
  obtain ⟨-, hasks⟩ := h.inStep.asks (hsignals ▸ List.mem_cons_self)
  obtain ⟨result', hresult', hsame, hkeeps⟩ := exists_handle hasks
  obtain rfl := Option.some.inj (hresult.symm.trans hresult')
  have honce (name : String) : (openOf self.runner name ++ signal.requestsTo name).length ≤ 1 := by
    have hlength := h.requestsOf_le name
    rw [requestsOf, hsignals, List.flatMap_cons] at hlength
    simp only [List.length_append] at hlength ⊢
    omega
  obtain ⟨hopen, hquiet⟩ := handle_spec hresult honce
  have hdrop : self.thread.logic.env.drop (self.thread.handled + 1) = rest := by
    rw [← List.drop_drop, ← LogicThread.signals, hsignals]
    rfl
  refine ⟨signal, result, ?_, hresult, hsame, hopen, fun c hc => ⟨hquiet c hc, hkeeps c hc⟩, rfl⟩
  rw [hsignals, LogicThread.signals]
  exact congrArg _ hdrop.symm

/-- The runner handles a signal. -/
theorem Sound.handleSignal {n : Int} (h : Sound n self)
    (hsignal : self.handleSignal = some self') : Sound n self' := by
  obtain ⟨signal, result, hsignals, -, hsame, hopen, hcommands, hself'⟩ := h.handlesSignal hsignal
  have hrest : self'.thread.signals = self.thread.logic.env.drop (self.thread.handled + 1) := by
    rw [hself']
    rfl
  refine ⟨?_, ?_, ?_, fun c hc name hname => ?_, ?_, fun name => ?_⟩
  · rw [hself']
    exact hsame.2 ▸ h.names
  · rw [hself']
    exact h.logic
  · rw [hself']
    exact (h.inStep.congr hsame.2).signal (by simp [hsignals]) (fun c hc => (hcommands c hc).2) _
  · rw [hself'] at hc ⊢
    obtain hc | hc := List.mem_append.mp hc
    · rw [hsame.isSome]
      exact h.repliers c hc name hname
    · rw [(hcommands c hc).1] at hname
      cases hname
  · have hlength := congrArg List.length hsignals
    rw [LogicThread.signals, List.length_drop, List.length_cons] at hlength
    rw [hself']
    change self.thread.handled + 1 ≤ self.thread.logic.env.length
    omega
  · have hlogic : self'.thread.logic = self.thread.logic := by rw [hself']; rfl
    have hnone := Call.flatMap_answersOf_eq_nil (fun c hc => (hcommands c hc).1) name
    have hqueued : self'.thread.commands = self.thread.commands ++ result.commands := by
      rw [hself']
      rfl
    have hopened : openOf self'.runner name = openOf self.runner name ++ signal.requestsTo name := by
      rw [hself']
      exact hopen name
    rw [hlogic, ← h.requests name, requestsOf, requestsOf, hqueued, hopened, hsignals,
      List.flatMap_append, hnone, List.append_nil, List.flatMap_cons]
    simp only [List.append_assoc]

theorem Sound.handle (h : Sound rules.playerNumPerRoom self) {event : Event}
    (hevent : self.handle rules event = some self') : Sound rules.playerNumPerRoom self' := by
  cases event with
  | addAgent agent socket =>
    obtain ⟨hopen, hsome⟩ := Option.ite_none_left_eq_some.mp hevent
    cases hsome
    exact h.addAgent (Bool.eq_false_iff.mpr hopen) agent socket
  | reconnectAgent => exact h.reconnectAgent hevent
  | connection => exact h.receive hevent
  | stateChange playerName state =>
    cases hevent
    refine h.setRunner (names_map fun seat => ?_) (openOf_setAgentState _ _ _) self.ended
    split <;> rfl
  | socketDeleted socket =>
    cases hevent
    refine h.setRunner ?_ (openOf_socketDeleted self socket) self.ended
    apply names_map
    intro seat
    rfl
  | command =>
    obtain ⟨thread, htake, rfl⟩ := Option.map_eq_some_iff.mp hevent
    exact h.command htake
  | signal => exact h.handleSignal hevent

theorem sound_invariant (hpos : 0 < rules.playerNumPerRoom) :
    (system rules).Invariant (Sound rules.playerNumPerRoom) where
  init _ hself := by
    obtain ⟨pointer, rfl⟩ := hself
    exact sound_new hpos pointer
  step _ _ _ hself hstep := hself.handle hstep

/-- A request that is queued finds none open. -/
theorem Sound.closed {n : Int} (h : Sound n self) {signal : Signal} (hsignal : signal ∈ self.thread.signals)
    {name : String} (hname : name ∈ signal.asks) :
    ∃ seat, self.runner.agent name = some seat ∧ seat.conn.currentRequest = .RequestInvalid := by
  obtain ⟨seat, hseat⟩ := Option.isSome_iff_exists.mp ((h.inStep.asks hsignal).2 name hname)
  refine ⟨seat, hseat, ?_⟩
  have hasks : signal.requestId ∈ self.thread.signals.flatMap (Signal.requestsTo name) := by
    refine List.mem_flatMap.mpr ⟨signal, hsignal, List.mem_map.mpr ⟨name, ?_, rfl⟩⟩
    exact List.mem_filter.mpr ⟨hname, decide_eq_true rfl⟩
  have hlength := h.requestsOf_le name
  have hpos := List.length_pos_of_mem hasks
  rw [requestsOf, List.length_append, List.length_append, openOf, hseat, Option.elim_some,
    inFlight] at hlength
  by_contra hopen
  rw [if_neg hopen, List.length_singleton] at hlength
  omega

/-- In every run of a room, the requests to a player are those the logic waits for: none,
or one of the kind of the phase, which is in one place. So a reply that is queued has been
asked for and is accepted, no request is put to a connection that has one open, and the
logic is one that only takes replies it has asked for. -/
theorem one_request (hpos : 0 < rules.playerNumPerRoom) (hreach : (system rules).Reachable self) :
    (Logic.system.guarded OnlyAsked).Reachable self.thread.logic ∧
    (∀ name, self.requestsOf name =
      if self.thread.logic.d.AskedPlayer name then [self.thread.logic.d.state.requestId]
      else []) ∧
    (∀ c ∈ self.thread.commands, ∀ name, c.replier = some name →
      self.thread.logic.d.Asked c ∧ self.thread.logic.d.Accepts c) ∧
    ∀ signal ∈ self.thread.signals, ∀ name ∈ signal.asks,
      ∃ seat, self.runner.agent name = some seat ∧ seat.conn.currentRequest = .RequestInvalid := by
  have hsound := (sound_invariant hpos).of_reachable hreach
  refine ⟨hsound.logic, hsound.requests, fun c hc name hname => ?_, fun signal hsignal name hname =>
    hsound.closed hsignal hname⟩
  obtain ⟨hmember, hdue⟩ := hsound.asked hc hname
  have hasked := asked_of_due hname hdue
  obtain ⟨hneg, -⟩ := repliesAsked_invariant.of_reachable hsound.logic
  exact ⟨hasked, hneg.accepts_of_asked hname hmember hasked⟩

/-- A run from a new room, as computed. -/
theorem exists_run (rules : Rules) (events : List Event) (P : RunningRoom → Bool)
    (hrun : (events.foldlM (handle rules) (new rules 0)).any P = true) :
    ∃ room, (system rules).Reachable room ∧ P room = true := by
  obtain ⟨room, hroom, hend⟩ := (Option.any_eq_true _ _).mp hrun
  exact ⟨room, .foldlM (fun _ _ _ hstep => hstep) (.init ⟨0, rfl⟩) hroom, hend⟩

/-- Two players are asked for the same; one has answered, the other has not yet. -/
def oneAnswered : List Event := [
  .addAgent ⟨"A", "A", StateMaskOnline⟩ 0, .addAgent ⟨"B", "B", StateMaskOnline⟩ 1,
  .command, .command, .command, .signal,
  .connection "A" ⟨.packetReceived (.ofRequest .TypeReply .RequestRockPaperScissors (.ofInt 0)),
    true, .Rock⟩]

theorem one_request_answered : ∃ room, (system ⟨.defaults, 2, 20⟩).Reachable room ∧
    openOf room.runner "B" = [.RequestRockPaperScissors] ∧
    ∃ c ∈ room.thread.commands, c.replier = some "A" ∧ room.thread.logic.d.Asked c ∧
      room.thread.logic.d.Accepts c := by
  obtain ⟨room, hreach, hend⟩ := exists_run ⟨.defaults, 2, 20⟩ oneAnswered
    (fun room => decide (openOf room.runner "B" = [.RequestRockPaperScissors]) &&
      room.thread.commands.any fun c => c.replier = some "A") (by decide +kernel)
  obtain ⟨hopen, hqueued⟩ := Bool.and_eq_true_iff.mp hend
  obtain ⟨c, hc, hname⟩ := List.any_eq_true.mp hqueued
  have hname := of_decide_eq_true hname
  obtain ⟨-, -, hasked, -⟩ := one_request (by decide) hreach
  exact ⟨room, hreach, of_decide_eq_true hopen, c, hc, hname, hasked c hc "A" hname⟩

end RunningRoom

end QMdmmNetworking
