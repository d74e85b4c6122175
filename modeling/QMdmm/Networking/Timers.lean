import QMdmm.Core.Somebody
import QMdmm.Networking.OneRequest

namespace QMdmmNetworking

open QMdmmCore Data Logic LogicThread

namespace ServerConnectionP

variable (sync : Bool) (random : RockPaperScissors)

/-- The timers that run for a request. -/
def timers (self : ServerConnectionP) : Nat := self.singleShots + self.requestTimer.toNat

/-- A request in flight has a timer, if requests are limited in time at all. -/
structure Backed (requestTimeout : Int) (conn : ServerConnectionP) : Prop where
  enabled : conn.requestTimeoutEnabled = decide (0 < requestTimeout)
  running : 0 < requestTimeout → conn.currentRequest ≠ .RequestInvalid → 0 < conn.timers

/-- What a slot does to the timers: it starts none, and stops one only with the request. -/
structure Calms (before after : ServerConnectionP) : Prop where
  enabled : after.requestTimeoutEnabled = before.requestTimeoutEnabled
  timers : after.timers ≤ before.timers
  request : after.currentRequest = .RequestInvalid ∨
    after.currentRequest = before.currentRequest ∧ after.timers = before.timers

variable {before middle after : ServerConnectionP} {requestTimeout : Int}

theorem Calms.rfl (self : ServerConnectionP) : Calms self self :=
  ⟨Eq.refl _, Nat.le_refl _, .inr ⟨Eq.refl _, Eq.refl _⟩⟩

theorem Calms.executeDefaultReply (h : Calms before after) :
    Calms before (after.executeDefaultReply random).1 :=
  ⟨h.enabled, h.timers, .inl (Eq.refl _)⟩

theorem Calms.setError (h : Calms before after) : Calms before (after.setError sync random).1 := by
  cases sync with
  | false => exact h
  | true => exact ⟨h.enabled, h.timers, .inl (Eq.refl _)⟩

theorem Calms.abnormalOver (h : Calms before after) :
    Calms before (after.abnormalOver sync random).1 :=
  (h.setError sync random).executeDefaultReply random

theorem timers_stop (self : ServerConnectionP) :
    timers { self with requestTimer := false } ≤ self.timers := Nat.add_le_add_left (Nat.zero_le _) _

theorem calms_replyReceivedOver (self : ServerConnectionP) (requestId : Protocol.RequestId)
    (value : QJsonValue) : Calms self (self.replyReceivedOver sync random requestId value).1 := by
  have hstop : Calms self
      { self with requestTimer := false, currentRequest := .RequestInvalid } :=
    ⟨rfl, self.timers_stop, .inl rfl⟩
  unfold replyReceivedOver
  dsimp only
  split
  · exact hstop
  · split
    · exact hstop.setError sync random
    · exact hstop.setError sync random
    · exact hstop

theorem calms_packetReceivedOver (self : ServerConnectionP) (packet : Packet) :
    Calms self (self.packetReceivedOver sync random packet).1 := by
  have hself : Calms self { self with heartbeatDeadline := true } :=
    ⟨rfl, Nat.le_refl _, .inr ⟨rfl, rfl⟩⟩
  unfold packetReceivedOver
  split
  · exact .rfl self
  · dsimp only
    split
    · split
      · exact hself
      · exact hself
      · exact hself.setError sync random
      · split
        · exact hself
        · exact hself.abnormalOver sync random
    · split
      · have hreply := calms_replyReceivedOver sync random
          { self with heartbeatDeadline := true } packet.requestId packet.value
        exact ⟨hreply.enabled, hreply.timers, hreply.request⟩
      · exact hself.abnormalOver sync random
    · exact hself.abnormalOver sync random

theorem calms_peerWentSilentOver (self : ServerConnectionP) :
    Calms self (self.peerWentSilentOver sync random).1 := by
  have hsilent : Calms self { self with heartbeatDeadline := false } :=
    ⟨rfl, Nat.le_refl _, .inr ⟨rfl, rfl⟩⟩
  unfold peerWentSilentOver
  dsimp only
  split
  · exact hsilent.abnormalOver sync random
  · exact hsilent.executeDefaultReply random

/-- The timer of a request runs out once. -/
theorem calms_requestTimeoutOver {self : ServerConnectionP} (hrunning : self.requestTimer = true) :
    Calms self (self.requestTimeoutOver sync random).1 ∧
      (self.requestTimeoutOver sync random).1.timers < self.timers := by
  have hstops : timers { self with requestTimer := false } < self.timers := by
    simp [timers, hrunning]
  unfold requestTimeoutOver
  dsimp only
  split
  · cases sync with
    | false | true => exact ⟨⟨rfl, hstops.le, .inl rfl⟩, hstops⟩
  · exact ⟨⟨rfl, hstops.le, .inl rfl⟩, hstops⟩

theorem calms_singleShot {self : ServerConnectionP} (hrunning : 0 < self.singleShots) :
    Calms self (ServerConnectionP.executeDefaultReply
      { self with singleShots := self.singleShots - 1 } random).1 ∧
    (ServerConnectionP.executeDefaultReply
      { self with singleShots := self.singleShots - 1 } random).1.timers < self.timers := by
  have hstops : self.singleShots - 1 + self.requestTimer.toNat < self.timers :=
    Nat.add_lt_add_right (Nat.sub_lt hrunning Nat.one_pos) _
  exact ⟨⟨rfl, hstops.le, .inl rfl⟩, hstops⟩

theorem Backed.calms (h : Backed requestTimeout before) (hcalms : Calms before after) :
    Backed requestTimeout after where
  enabled := hcalms.enabled.trans h.enabled
  running hlimited hasked := by
    obtain hdone | ⟨hsame, htimers⟩ := hcalms.request
    · exact absurd hdone hasked
    · rw [htimers]
      exact h.running hlimited (hsame ▸ hasked)

theorem timers_request_le (self : ServerConnectionP) (req : Request) :
    (self.request req).1.timers ≤ self.timers + 1 := by
  rw [request_eq_addRequest, addRequest]
  dsimp only
  split
  · have hone := Bool.toNat_le (self.requestTimer || self.requestTimeoutEnabled)
    simp only [timers]
    omega
  · simp only [timers]
    omega

theorem Backed.request {self : ServerConnectionP} (h : Backed requestTimeout self) (req : Request) :
    Backed requestTimeout (self.request req).1 := by
  rw [request_eq_addRequest, addRequest]
  dsimp only
  split
  · refine ⟨h.enabled, fun hlimited _ => ?_⟩
    simp [timers, h.enabled, hlimited]
  · refine ⟨h.enabled, fun _ _ => ?_⟩
    simp only [timers]
    omega

/-- What is notified starts and stops no timer. -/
theorem calms_notify (self : ServerConnectionP) (notification : Notification) :
    Calms self (self.notify notification).1 := by
  cases notification <;> exact ⟨rfl, Nat.le_refl _, .inr ⟨rfl, rfl⟩⟩

end ServerConnectionP

namespace RunningRoom

open LogicRunner LogicP ServerConnectionP

variable {rules : Rules} {self self' : RunningRoom} {runner runner' : LogicRunner}

namespace Event

/-- The events that come from within a room: nobody has to sign in, send or drop anything
for them. -/
def internal : Event → Bool
  | .command | .signal => true
  | .connection _ l =>
    match l.event with
    | .requestTimeout | .executeDefaultReply => true
    | _ => false
  | _ => false

end Event

/-- What a slot of a connection does to its timers, and that one that a timer runs stops
it. -/
theorem act_calms {conn conn' : ServerConnectionP} (playerName : String) {l : Session.Step}
    {effects : List Effect} (hruns : runs conn l.event = true)
    (hact : Session.act conn l = .ok (conn', effects)) :
    Calms conn conn' ∧
      (Event.internal (.connection playerName l) = true → conn'.timers < conn.timers) := by
  unfold Session.act at hact
  cases hevent : l.event with
  | packetReceived packet =>
    rw [hevent] at hact
    rw [← (Prod.mk.inj (Except.ok.inj hact)).1]
    exact ⟨calms_packetReceivedOver l.sync l.random conn packet, by simp [Event.internal, hevent]⟩
  | requestTimeout =>
    rw [hevent] at hact hruns
    rw [← (Prod.mk.inj (Except.ok.inj hact)).1]
    obtain ⟨hcalms, hstops⟩ := calms_requestTimeoutOver l.sync l.random hruns
    exact ⟨hcalms, fun _ => hstops⟩
  | peerWentSilent =>
    rw [hevent] at hact
    rw [← (Prod.mk.inj (Except.ok.inj hact)).1]
    exact ⟨calms_peerWentSilentOver l.sync l.random conn, by simp [Event.internal, hevent]⟩
  | socketDisconnected =>
    rw [hevent] at hact
    rw [← (Prod.mk.inj (Except.ok.inj hact)).1]
    exact ⟨⟨rfl, Nat.le_refl _, .inl rfl⟩, by simp [Event.internal, hevent]⟩
  | executeDefaultReply =>
    rw [hevent] at hact hruns
    rw [← (Prod.mk.inj (Except.ok.inj hact)).1]
    obtain ⟨hcalms, hstops⟩ := calms_singleShot l.random (of_decide_eq_true hruns)
    exact ⟨hcalms, fun _ => hstops⟩
  | addRequest | setSocket | reconnect =>
    rw [hevent] at hruns
    cases hruns

section Timers

variable {requestTimeout : Int}

/-- Every connection of a room has the timers it needs. -/
def AllBacked (requestTimeout : Int) (runner : LogicRunner) : Prop :=
  ∀ seat ∈ runner.children, seat.conn.Backed requestTimeout

/-- The timers that run at the connection of a player. -/
def timersOf (runner : LogicRunner) (name : String) : Nat :=
  (runner.agent name).elim 0 fun seat => seat.conn.timers

theorem AllBacked.map {f : Seat → Seat} (h : AllBacked requestTimeout runner)
    (hf : ∀ seat, seat.conn.Backed requestTimeout → (f seat).conn.Backed requestTimeout) :
    AllBacked requestTimeout { runner with children := runner.children.map f } := by
  intro seat hseat
  obtain ⟨other, hother, rfl⟩ := List.mem_map.mp hseat
  exact hf other (h other hother)

theorem AllBacked.setConn (h : AllBacked requestTimeout runner) {playerName : String}
    {conn : ServerConnectionP} (hconn : conn.Backed requestTimeout) :
    AllBacked requestTimeout (runner.setConn playerName conn) := by
  apply h.map
  intro seat hseat
  split
  · exact hconn
  · exact hseat

/-- What leaves the requests and the names of the agents alone leaves their timers alone. -/
theorem timersOf_map {f : Seat → Seat} (hf : ∀ seat, (f seat).names = seat.names)
    (hcalms : ∀ seat, Calms seat.conn (f seat).conn) (runner : LogicRunner) (name : String) :
    timersOf { runner with children := runner.children.map f } name ≤ timersOf runner name := by
  rw [timersOf, timersOf, agent_map hf]
  cases runner.agent name with
  | none => exact Nat.le_refl _
  | some seat => exact (hcalms seat).timers

/-- One step of a runner that starts at most the timers it may. -/
structure Starts (requestTimeout : Int) (runner runner' : LogicRunner) (may : String → Nat) :
    Prop where
  backed : AllBacked requestTimeout runner'
  timers : ∀ name, timersOf runner' name ≤ timersOf runner name + may name

theorem AllBacked.quiet (h : AllBacked requestTimeout runner) {f : Seat → Seat}
    (hf : ∀ seat, (f seat).names = seat.names) (hcalms : ∀ seat, Calms seat.conn (f seat).conn) :
    Starts requestTimeout runner { runner with children := runner.children.map f } fun _ => 0 where
  backed := h.map fun seat hseat => hseat.calms (hcalms seat)
  timers := timersOf_map hf hcalms runner

theorem AllBacked.notify (h : AllBacked requestTimeout runner) (notification : Notification) :
    Starts requestTimeout runner (runner.notify notification) fun _ => 0 := by
  refine h.quiet (fun seat => ?_) fun seat => ?_
  · split
    · exact names_conn (seat.conn.agent_notify notification)
    · rfl
  · split
    · exact seat.conn.calms_notify notification
    · exact .rfl _

theorem AllBacked.clearRoundEventLogs (h : AllBacked requestTimeout runner) :
    Starts requestTimeout runner runner.clearRoundEventLogs fun _ => 0 := by
  refine h.quiet (fun seat => ?_) fun seat => ?_
  · split <;> rfl
  · split <;> exact ⟨rfl, Nat.le_refl _, .inr ⟨rfl, rfl⟩⟩

theorem Starts.trans {last : LogicRunner} {may may' : String → Nat}
    (h : Starts requestTimeout runner runner' may) (h' : Starts requestTimeout runner' last may') :
    Starts requestTimeout runner last fun name => may name + may' name where
  backed := h'.backed
  timers name := by
    have hfirst := h.timers name
    have hlast := h'.timers name
    omega

/-- Every request starts one timer at most. -/
theorem AllBacked.request (reqs : List (String × Request)) (runner : LogicRunner)
    (h : AllBacked requestTimeout runner) (hrequest : runner.request reqs = some runner') :
    Starts requestTimeout runner runner' fun name => (kindsTo name reqs).length := by
  induction reqs generalizing runner with
  | nil =>
    cases hrequest
    exact ⟨h, fun name => Nat.le_refl _⟩
  | cons first rest ih =>
    obtain ⟨playerName, req⟩ := first
    rw [LogicRunner.request] at hrequest
    split at hrequest
    · cases hrequest
    · have hone := h.map (f := fun seat =>
          if seat.isAgent playerName then { seat with conn := (seat.conn.request req).1 } else seat)
        fun seat hseat => by
          split
          · exact hseat.request req
          · exact hseat
      obtain ⟨hbacked, htimers⟩ := ih _ hone hrequest
      refine ⟨hbacked, fun name => (htimers name).trans ?_⟩
      rw [timersOf, agent_requestOne, kindsTo_cons, List.length_append]
      by_cases hname : playerName = name
      · rw [if_pos hname.symm, if_pos hname, timersOf]
        cases runner.agent name with
        | none => exact Nat.add_le_add (Nat.zero_le _) (Nat.le_add_left _ _)
        | some seat =>
          have hle := seat.conn.timers_request_le req
          simp only [Option.map_some, Option.elim_some, List.length_singleton]
          omega
      · rw [if_neg (Ne.symm hname), if_neg hname, timersOf, List.length_nil, Nat.zero_add]

/-- What a handler starts, and what it queues. -/
theorem AllBacked.handle (h : AllBacked requestTimeout runner) {signal : Signal} {result : Handled}
    (hresult : runner.handle signal = some result) :
    Starts requestTimeout runner result.runner (fun name => (signal.requestsTo name).length) ∧
      result.commands.length ≤ 1 ∧
      (signal.concludes = true → result.ended = true ∨ .roundStart ∈ result.commands) := by
  have hrequest (hquiet : signal.concludes = false)
      (hresult : (runner.request (LogicRunnerP.requests signal)).map
        (fun runner => (⟨runner, [], false⟩ : Handled)) = some result) :
      Starts requestTimeout runner result.runner (fun name => (signal.requestsTo name).length) ∧
        result.commands.length ≤ 1 ∧
        (signal.concludes = true → result.ended = true ∨ .roundStart ∈ result.commands) := by
    obtain ⟨runner', hrunner', rfl⟩ := Option.map_eq_some_iff.mp hresult
    refine ⟨?_, Nat.zero_le _, fun hconcludes => ?_⟩
    · simpa only [kindsTo_requests] using AllBacked.request _ runner h hrunner'
    · rw [hquiet] at hconcludes
      cases hconcludes
  cases signal with
  | requestRpsForAction | requestActionOrder | requestRpsForActionOrder | requestAction
  | requestUpgrade => exact hrequest rfl hresult
  | rpsResult | actionOrderResult | actionResult =>
    cases hresult
    exact ⟨h.notify _, Nat.zero_le _, nofun⟩
  | gameOver =>
    cases hresult
    exact ⟨h.notify _, Nat.zero_le _, fun _ => .inl rfl⟩
  | roundOver =>
    cases hresult
    exact ⟨h.clearRoundEventLogs.trans (h.clearRoundEventLogs.backed.notify _), Nat.zero_le _, nofun⟩
  | upgradeResult upgrades =>
    rw [LogicRunner.handle] at hresult
    split at hresult
    · cases hresult
      exact ⟨h.notify _, Nat.zero_le _, fun _ => .inl rfl⟩
    · cases hresult
      have hnotified := (h.notify (.upgrade upgrades)).trans ((h.notify _).backed.notify .roundStart)
      exact ⟨hnotified.trans hnotified.backed.clearRoundEventLogs, Nat.le_refl _,
        fun _ => .inr (List.mem_singleton_self _)⟩

end Timers

end RunningRoom

end QMdmmNetworking
