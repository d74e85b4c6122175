import QMdmm.Networking.OneAnswer

namespace QMdmmNetworking

open QMdmmCore Data Protocol

namespace ServerConnectionP

/-- What a slot that binds no socket leaves of the request timer's business: the
timer is off, or there is no socket to judge, or nothing about them changed but
perhaps that the request in flight was answered. -/
structure Leaves (answers : Prop) (before after : ServerConnectionP) : Prop where
  wired : after.wired = before.wired
  socket : after.socket = none ∨ after.socket = before.socket
  timer : after.requestTimer = false ∨ after.socket = none ∨
    after.requestTimer = before.requestTimer ∧ after.socket = before.socket ∧
      (answers ∧ after.currentRequest = .RequestInvalid ∨
        ¬ answers ∧ after.currentRequest = before.currentRequest)

variable (sync : Bool) (random : RockPaperScissors)

theorem leaves_self (self : ServerConnectionP) {answers : Prop} (hnot : ¬ answers) :
    Leaves answers self self :=
  ⟨rfl, .inr rfl, .inr (.inr ⟨rfl, rfl, .inr ⟨hnot, rfl⟩⟩)⟩

theorem leaves_executeDefaultReply (self : ServerConnectionP) :
    Leaves True self (self.executeDefaultReply random).1 :=
  ⟨rfl, .inr rfl, .inr (.inr ⟨rfl, rfl, .inl ⟨trivial, rfl⟩⟩)⟩

theorem leaves_onSocketDisconnected (self : ServerConnectionP) (answers : Prop) :
    Leaves answers self (self.onSocketDisconnected random).1 :=
  ⟨rfl, .inl rfl, .inr (.inl rfl)⟩

theorem leaves_setError (self : ServerConnectionP) :
    Leaves False self (self.setError sync random).1 := by
  cases sync with
  | false => exact leaves_self self id
  | true => exact leaves_onSocketDisconnected random self False

theorem leaves_abnormalOver (self : ServerConnectionP) :
    Leaves True self (self.abnormalOver sync random).1 := by
  cases sync with
  | false => exact leaves_executeDefaultReply random self
  | true => exact ⟨rfl, .inl rfl, .inr (.inl rfl)⟩

/-- An error leaves a timer that is off as it is. -/
theorem leaves_setError_of_off {self conn : ServerConnectionP} (answers : Prop)
    (hwired : conn.wired = self.wired) (hsocket : conn.socket = self.socket)
    (hoff : conn.requestTimer = false) : Leaves answers self (conn.setError sync random).1 := by
  cases sync with
  | false => exact ⟨hwired, .inr hsocket, .inl hoff⟩
  | true => exact ⟨hwired, .inl rfl, .inl hoff⟩

/-- A matching reply stops the timer, whatever becomes of the reply. -/
theorem leaves_replyReceivedOver (self : ServerConnectionP) (requestId : RequestId)
    (value : QJsonValue) (answers : Prop) :
    Leaves answers self (self.replyReceivedOver sync random requestId value).1 := by
  unfold replyReceivedOver
  split
  · exact ⟨rfl, .inr rfl, .inl rfl⟩
  · dsimp only
    split
    · exact leaves_setError_of_off sync random answers rfl rfl rfl
    · exact leaves_setError_of_off sync random answers rfl rfl rfl
    · exact ⟨rfl, .inr rfl, .inl rfl⟩

/-- The deadline is no matter. -/
theorem Leaves.restarted {answers : Prop} {before after : ServerConnectionP}
    (h : Leaves answers { before with heartbeatDeadline := true } after) :
    Leaves answers before after :=
  ⟨h.wired, h.socket, h.timer⟩

theorem leaves_packetReceivedOver (self : ServerConnectionP) (packet : Packet) :
    Leaves ((self.socket.isSome && Session.isAbnormal self packet) = true) self
      (self.packetReceivedOver sync random packet).1 := by
  unfold packetReceivedOver
  split
  · next hnone =>
    have hnone : self.socket = none := by simpa using hnone
    exact ⟨rfl, .inl hnone, .inr (.inl hnone)⟩
  · next hsome =>
    have hsome : self.socket.isSome = true := by
      rwa [Option.isNone_iff_eq_none, ← ne_eq, Option.ne_none_iff_isSome] at hsome
    rw [hsome, Bool.true_and]
    apply Leaves.restarted
    dsimp only
    split
    · next htype =>
      split
      · next hid => exact leaves_self _ (by simp [Session.isAbnormal, htype, hid])
      · next hid => exact leaves_self _ (by simp [Session.isAbnormal, htype, hid])
      · next hid =>
        have hnot : ¬ Session.isAbnormal self packet = true := by
          simp [Session.isAbnormal, htype, hid]
        rw [eq_false hnot]
        exact leaves_setError sync random _
      · next hspeak hoperate hmask =>
        split
        · next hserver => exact leaves_self _ (by simp [Session.isAbnormal, htype, hserver])
        · next hserver =>
          have habnormal : Session.isAbnormal self packet = true := by
            simp only [Session.isAbnormal, htype]
            simpa [hserver] using And.intro (And.intro hspeak hoperate) hmask
          rw [eq_true habnormal]
          exact leaves_abnormalOver sync random _
    · next htype =>
      split
      · exact leaves_replyReceivedOver sync random _ _ _ _
      · next hrequest =>
        have habnormal : Session.isAbnormal self packet = true := by
          simp [Session.isAbnormal, htype, hrequest]
        rw [eq_true habnormal]
        exact leaves_abnormalOver sync random _
    · next hnotify hreply =>
      have habnormal : Session.isAbnormal self packet = true := by
        unfold Session.isAbnormal
        split
        · next htype => exact absurd htype hnotify
        · next htype => exact absurd htype hreply
        · rfl
      rw [eq_true habnormal]
      exact leaves_abnormalOver sync random _

theorem leaves_requestTimeoutOver (self : ServerConnectionP) (answers : Prop) :
    Leaves answers self (self.requestTimeoutOver sync random).1 := by
  unfold requestTimeoutOver
  dsimp only
  split
  · cases sync with
    | false => exact ⟨rfl, .inr rfl, .inl rfl⟩
    | true => exact ⟨rfl, .inl rfl, .inl rfl⟩
  · exact ⟨rfl, .inr rfl, .inl rfl⟩

theorem leaves_peerWentSilentOver (self : ServerConnectionP) :
    Leaves True self (self.peerWentSilentOver sync random).1 := by
  unfold peerWentSilentOver
  dsimp only
  split
  · obtain ⟨hwired, hsocket, htimer⟩ :=
      leaves_abnormalOver sync random { self with heartbeatDeadline := false }
    exact ⟨hwired, hsocket, htimer⟩
  · obtain ⟨hwired, hsocket, htimer⟩ :=
      leaves_executeDefaultReply random { self with heartbeatDeadline := false }
    exact ⟨hwired, hsocket, htimer⟩

/-- The time-out sets an error exactly on a socket that is bound. -/
theorem setError_mem_requestTimeoutOver (self : ServerConnectionP) :
    Effect.setError ∈ (self.requestTimeoutOver sync random).2 ↔ self.socket.isSome = true := by
  unfold requestTimeoutOver
  dsimp only
  split
  · next hsome =>
    refine iff_of_true ?_ hsome
    cases sync <;> exact List.mem_cons_self
  · next hnone =>
    refine iff_of_false ?_ hnone
    unfold executeDefaultReply defaultReply
    cases self.currentRequest <;> simp

end ServerConnectionP

namespace Session

open ServerConnectionP

/-- The timer was started for the last request, when it was sent to this socket, and
that request is still in flight. -/
def Justified (s : Session) (socket : Socket) : Prop :=
  s.timerStart = some (s.asked.length, socket) ∧ s.conn.currentRequest ≠ .RequestInvalid

structure TimerSound (s : Session) : Prop where
  answered : s.Answered
  bound_wired : ∀ k, s.conn.socket = some k → k ∈ s.conn.wired
  start_wired : ∀ i k, s.timerStart = some (i, k) → i ≤ s.asked.length ∧ k ∈ s.conn.wired
  judged : s.conn.requestTimer = true → ∀ k, s.conn.socket = some k →
    (s.Justified k ↔ s.disturbed = false)

/-- An event that neither asks nor binds a socket. -/
def isPlain : Event → Bool
  | .addRequest _ | .setSocket _ | .reconnect _ _ => false
  | _ => true

theorem leaves_act {conn conn' : ServerConnectionP} {l : Step} {effects : List Effect}
    (hact : act conn l = .ok (conn', effects)) (hplain : isPlain l.event = true) :
    Leaves (disturbs conn l.event = true) conn conn' := by
  obtain ⟨event, sync, random⟩ := l
  cases event with
  | addRequest req => cases hplain
  | setSocket socket => cases hplain
  | reconnect socket lastRoundEventSeq => cases hplain
  | packetReceived packet =>
    have h := leaves_packetReceivedOver sync random conn packet
    rwa [Except.ok.inj hact] at h
  | requestTimeout =>
    have h := leaves_requestTimeoutOver sync random conn (disturbs conn .requestTimeout = true)
    rwa [Except.ok.inj hact] at h
  | peerWentSilent =>
    have h := leaves_peerWentSilentOver sync random conn
    rw [Except.ok.inj hact, ← eq_true (show disturbs conn .peerWentSilent = true from rfl)] at h
    exact h
  | socketDisconnected =>
    have h := leaves_onSocketDisconnected random conn (disturbs conn .socketDisconnected = true)
    rwa [Except.ok.inj hact] at h
  | executeDefaultReply =>
    have h := leaves_executeDefaultReply random { conn with singleShots := conn.singleShots - 1 }
    rw [Except.ok.inj hact, ← eq_true (show disturbs conn .executeDefaultReply = true from rfl)] at h
    exact ⟨h.wired, h.socket, h.timer⟩

/-- Only a request sent to a socket starts the timer. -/
theorem record_plain (s : Session) {event : Event} (conn : ServerConnectionP)
    (effects : List Effect) (hother : ∀ req, event ≠ .addRequest req) :
    (s.record event conn effects).timerStart = s.timerStart ∧
      (s.record event conn effects).disturbed = (s.disturbed || disturbs s.conn event) := by
  cases event with
  | addRequest req => exact absurd rfl (hother req)
  | _ => exact ⟨rfl, rfl⟩

theorem timerSound_plain {s : Session} (hs : s.TimerSound) {l : Step} {conn : ServerConnectionP}
    {effects : List Effect} (hact : act s.conn l = .ok (conn, effects))
    (hplain : isPlain l.event = true) (hanswered : (s.record l.event conn effects).Answered) :
    (s.record l.event conn effects).TimerSound := by
  have hother : ∀ req, l.event ≠ .addRequest req := by
    intro req hevent
    rw [hevent] at hplain
    cases hplain
  have hasked := asked_record s conn effects hother
  obtain ⟨hstart, hdisturbed⟩ := record_plain s conn effects hother
  have hconn : (s.record l.event conn effects).conn = conn := rfl
  obtain ⟨hwired, hsocket, htimer⟩ := leaves_act hact hplain
  refine ⟨hanswered, ?_, ?_, ?_⟩
  · rw [hconn]
    intro k hk
    rw [hwired]
    obtain hnone | hsame := hsocket
    · rw [hnone] at hk
      cases hk
    · exact hs.bound_wired k (hsame.symm.trans hk)
  · intro i k hk
    rw [hstart] at hk
    rw [hasked, hconn, hwired]
    exact hs.start_wired i k hk
  · rw [hconn]
    intro hrunning k hk
    obtain hoff | hnone | ⟨htimer, hsocket, hcurrent⟩ := htimer
    · rw [hoff] at hrunning
      cases hrunning
    · rw [hnone] at hk
      cases hk
    · have hjudged := hs.judged (htimer.symm.trans hrunning) k (hsocket.symm.trans hk)
      unfold Justified at hjudged ⊢
      rw [hstart, hasked, hdisturbed, hconn]
      obtain ⟨hdisturbs, hdone⟩ | ⟨hdisturbs, hsame⟩ := hcurrent
      · simp [hdisturbs, hdone]
      · rw [Bool.not_eq_true] at hdisturbs
        rw [hsame, hdisturbs, Bool.or_false]
        exact hjudged

/-- A socket bound anew is not the one the timer was started for. -/
theorem timerSound_bind {s : Session} (hs : s.TimerSound) {event : Event} {socket : Socket}
    {conn : ServerConnectionP} {effects : List Effect} (hfresh : socket ∉ s.conn.wired)
    (hsocket : conn.socket = some socket) (hwired : conn.wired = s.conn.wired ++ [socket])
    (hother : ∀ req, event ≠ .addRequest req) (hdisturbs : disturbs s.conn event = true)
    (hanswered : (s.record event conn effects).Answered) :
    (s.record event conn effects).TimerSound := by
  have hasked := asked_record s conn effects hother
  obtain ⟨hstart, hdisturbed⟩ := record_plain s conn effects hother
  have hconn : (s.record event conn effects).conn = conn := rfl
  refine ⟨hanswered, ?_, ?_, ?_⟩
  · rw [hconn, hwired, hsocket]
    rintro _ ⟨⟩
    exact List.mem_append_right _ List.mem_cons_self
  · intro i k hk
    rw [hstart] at hk
    rw [hasked, hconn, hwired]
    obtain ⟨hle, hmem⟩ := hs.start_wired i k hk
    exact ⟨hle, List.mem_append_left _ hmem⟩
  · rw [hconn, hsocket]
    rintro - _ ⟨⟩
    refine iff_of_false ?_ (by rw [hdisturbed, hdisturbs, Bool.or_true]; exact nofun)
    rintro ⟨hstarted, -⟩
    rw [hstart] at hstarted
    exact hfresh (hs.start_wired _ _ hstarted).2

/-- A request comes when none is in flight, and starts the timer if it is sent. -/
theorem timerSound_addRequest {s : Session} (hs : s.TimerSound) (req : Request)
    (henabled : s.asked.length = s.replies.length)
    (hanswered : (s.record (.addRequest req) (s.conn.request req).1 (s.conn.request req).2).Answered) :
    (s.record (.addRequest req) (s.conn.request req).1 (s.conn.request req).2).TimerSound := by
  have hdone : s.conn.currentRequest = .RequestInvalid := by
    have h := congrArg List.length hs.answered
    rw [List.length_append, List.length_map, outstanding] at h
    by_contra hflight
    rw [if_neg hflight, List.length_singleton] at h
    omega
  have hunjustified : ∀ k, ¬ s.Justified k := fun k h => h.2 hdone
  have hsocket : (s.conn.request req).1.socket = s.conn.socket := by
    rw [request_eq_addRequest, addRequest]
    split <;> rfl
  have hwired : (s.conn.request req).1.wired = s.conn.wired := by
    rw [request_eq_addRequest, addRequest]
    split <;> rfl
  have hcurrent : ¬ (s.conn.request req).1.currentRequest = .RequestInvalid := by
    rw [(request_asks s.conn req).1]
    exact requestId_ne_invalid req
  have hwiredOf : ∀ i k, s.timerStart = some (i, k) →
      i ≤ s.asked.length + 1 ∧ k ∈ s.conn.wired := by
    intro i k hk
    obtain ⟨hle, hmem⟩ := hs.start_wired i k hk
    exact ⟨by omega, hmem⟩
  refine ⟨hanswered, ?_, ?_, ?_⟩ <;>
    simp only [record, hsocket, hwired, List.length_append, List.length_singleton]
  · exact hs.bound_wired
  · intro i k
    split
    · next socket hstarts =>
      rintro ⟨⟩
      refine ⟨le_rfl, hs.bound_wired k ?_⟩
      split at hstarts
      · exact hstarts
      · cases hstarts
    · exact hwiredOf i k
  · intro hrunning k hk
    simp only [Justified, hk]
    cases henabledTimer : s.conn.requestTimeoutEnabled with
    | true => simp [hcurrent]
    | false =>
      -- A timer that was running before had been left running.
      have hrunning : s.conn.requestTimer = true := by
        rw [request_eq_addRequest, addRequest] at hrunning
        simpa [hk, henabledTimer] using hrunning
      have hdisturbed := (hs.judged hrunning k hk).not.mp (hunjustified k)
      have hstale : ¬ s.timerStart = some (s.asked.length + 1, k) := by
        intro hstarted
        have := (hs.start_wired _ _ hstarted).1
        omega
      simp [hstale, hdisturbed, disturbs]

theorem timerSound_invariant : system.Invariant TimerSound where
  init := by
    rintro _ ⟨agent, logicConfiguration, requestTimeout, rfl⟩
    refine ⟨rfl, ?_, ?_, ?_⟩
    · rintro k ⟨⟩
    · rintro i k ⟨⟩
    · rintro ⟨⟩
  step s l t hs hstep := by
    have hanswered := (answered_step hs.answered hstep).1
    obtain ⟨henabled, conn, effects, hact, rfl⟩ := next_eq_some hstep
    by_cases hplain : isPlain l.event = true
    · exact timerSound_plain hs hact hplain hanswered
    · obtain ⟨event, sync, random⟩ := l
      cases event with
      | addRequest req =>
        obtain ⟨rfl, rfl⟩ := Prod.mk.inj (Except.ok.inj hact)
        exact timerSound_addRequest hs req (by simpa [enabled] using henabled) hanswered
      | setSocket socket =>
        cases hact
        exact timerSound_bind hs (by simpa [enabled] using henabled) rfl rfl
          (fun req h => by cases h) rfl hanswered
      | reconnect socket lastRoundEventSeq =>
        obtain ⟨replayed, -, hreconnect⟩ := Except.bind_eq_ok.mp hact
        cases hreconnect
        exact timerSound_bind hs (by simpa [enabled] using henabled) rfl rfl
          (fun req h => by cases h) rfl hanswered
      | _ => exact absurd rfl hplain

/-- A time-out that sets an error sets it on the socket its request was sent to, and
that request is still in flight. -/
def Judges (s : Session) (l : Step) : Prop :=
  l.event = .requestTimeout → ∀ conn effects, act s.conn l = .ok (conn, effects) →
    Effect.setError ∈ effects → ∃ socket, s.conn.socket = some socket ∧ s.Justified socket

/-- Where the timer runs out on a bound socket, nothing but the client has come
between since it was last started. -/
def Undisturbed (s : Session) (l : Step) : Prop :=
  l.event = .requestTimeout → s.conn.socket.isSome = true → s.disturbed = false

instance (s : Session) : (l : Step) → Decidable (s.Undisturbed l)
  | ⟨.requestTimeout, _, _⟩ =>
    decidable_of_iff (s.conn.socket.isSome = true → s.disturbed = false)
      ⟨fun h _ => h, fun h => h rfl⟩
  | ⟨.addRequest _, _, _⟩ | ⟨.packetReceived _, _, _⟩ | ⟨.peerWentSilent, _, _⟩
  | ⟨.socketDisconnected, _, _⟩ | ⟨.setSocket _, _, _⟩ | ⟨.reconnect _ _, _, _⟩
  | ⟨.executeDefaultReply, _, _⟩ => .isTrue nofun

theorem judges_iff_undisturbed {s t : Session} {l : Step} (hs : s.TimerSound)
    (hstep : s.next l = some t) : s.Judges l ↔ s.Undisturbed l := by
  obtain ⟨henabled, conn, effects, hact, -⟩ := next_eq_some hstep
  by_cases hevent : l.event = .requestTimeout
  · have hrunning : s.conn.requestTimer = true := by simpa [enabled, hevent] using henabled
    have herror := setError_mem_requestTimeoutOver l.sync l.random s.conn
    have heffects : (requestTimeoutOver l.sync l.random s.conn).2 = effects := by
      unfold act at hact
      simp only [hevent] at hact
      exact congrArg Prod.snd (Except.ok.inj hact)
    rw [heffects] at herror
    constructor
    · intro hjudges _ hsome
      obtain ⟨socket, hsocket, hjustified⟩ := hjudges hevent conn effects hact (herror.mpr hsome)
      exact (hs.judged hrunning socket hsocket).mp hjustified
    · intro hundisturbed _ conn' effects' hact' hmem
      cases hact.symm.trans hact'
      have hsome := herror.mp hmem
      obtain ⟨socket, hsocket⟩ := Option.isSome_iff_exists.mp hsome
      exact ⟨socket, hsocket, (hs.judged hrunning socket hsocket).mpr (hundisturbed hevent hsome)⟩
  · exact iff_of_true (fun h => absurd h hevent) fun h => absurd h hevent

/-- A run's time-outs all judge the request they were started for, if and only if
none of them finds the request or the socket disturbed since. -/
theorem requestTimeout_judges {start s : Session} {steps : List Step} (hstart : system.init start) :
    (system.guarded Judges).Run start steps s ↔ (system.guarded Undisturbed).Run start steps s :=
  TransitionSystem.Run.guarded_congr (fun _ _ _ hs hstep =>
    judges_iff_undisturbed (timerSound_invariant.of_reachable hs) hstep) (.init hstart)

/-- A client that does not answer in time is dropped for the request it was sent. -/
theorem requestTimeout_judges_one_request : ∃ steps s, steps.length = 3 ∧
    (system.guarded Judges).Run (new ⟨"a", "A", StateMaskOnline⟩ .defaults 20) steps s := by
  have hrun : (([⟨.setSocket 0, false, .Rock⟩, ⟨.addRequest (.action 1), false, .Rock⟩,
      ⟨.requestTimeout, true, .Rock⟩] : List Step).foldlM
        (fun (s : Session) l => if s.Undisturbed l then s.next l else none) (new ⟨"a", "A", StateMaskOnline⟩ .defaults 20)).isSome = true := by decide +kernel
  obtain ⟨s, hs⟩ := Option.isSome_iff_exists.mp hrun
  refine ⟨_, s, rfl, (requestTimeout_judges ⟨_, _, _, rfl⟩).mpr (.foldlM (fun s l t hstep => ?_) hs)⟩
  split at hstep
  · next hguard => exact ⟨hguard, hstep⟩
  · cases hstep

/-- The timer of a request that a drop has answered drops the client once it is back. -/
theorem requestTimeout_misjudges :
    ∃ s l t, system.Reachable s ∧ system.step s l t ∧ ¬ s.Judges l := by
  obtain ⟨s, hs, hend⟩ := exists_run
    [⟨.setSocket 0, false, .Rock⟩, ⟨.addRequest (.action 1), false, .Rock⟩,
      ⟨.socketDisconnected, false, .Rock⟩, ⟨.reconnect 1 0, false, .Rock⟩]
    (fun s => s.conn.requestTimer && s.conn.socket.isSome && s.disturbed)
    ⟨"a", "A", StateMaskOnline⟩ .defaults 20 (by decide +kernel)
  simp only [Bool.and_eq_true] at hend
  obtain ⟨⟨hrunning, hbound⟩, hdisturbed⟩ := hend
  have hstep : s.next ⟨.requestTimeout, false, .Rock⟩ = some _ := if_pos hrunning
  refine ⟨s, _, _, hs, hstep, fun hjudges => ?_⟩
  have hundisturbed := (judges_iff_undisturbed (timerSound_invariant.of_reachable hs) hstep).mp
    hjudges rfl hbound
  rw [hundisturbed] at hdisturbed
  cases hdisturbed

end Session

end QMdmmNetworking
