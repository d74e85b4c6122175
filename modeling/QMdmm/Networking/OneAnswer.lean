import QMdmm.Networking.Session

namespace QMdmmNetworking

open QMdmmCore Data Protocol

namespace ServerConnectionP

/-- What a slot may do about the request in flight: leave it alone, or answer it
once with a reply of its own kind. -/
def Settles (before after : ServerConnectionP) (effects : List Effect) : Prop :=
  after.currentRequest = before.currentRequest ∧ repliesOf effects = [] ∨
  before.currentRequest ≠ .RequestInvalid ∧ after.currentRequest = .RequestInvalid ∧
    ∃ reply, repliesOf effects = [reply] ∧ reply.requestId = before.currentRequest

variable {before middle after : ServerConnectionP} {effects rest : List Effect}

/-- What is answered is not in flight any more, so it is not answered again. -/
theorem Settles.trans (h : Settles before middle effects) (h' : Settles middle after rest) :
    Settles before after (effects ++ rest) := by
  obtain ⟨hkeep, hnone⟩ | ⟨hasked, hdone, reply, hreply, hkind⟩ := h
  · obtain ⟨hkeep', hnone'⟩ | ⟨hasked', hdone', reply, hreply, hkind⟩ := h'
    · exact .inl ⟨hkeep'.trans hkeep, by rw [repliesOf_append, hnone, hnone']; rfl⟩
    · rw [hkeep] at hasked' hkind
      exact .inr ⟨hasked', hdone', reply, by rw [repliesOf_append, hnone, hreply]; rfl, hkind⟩
  · obtain ⟨hkeep', hnone'⟩ | ⟨hasked', -⟩ := h'
    · exact .inr ⟨hasked, hkeep'.trans hdone, reply,
        by rw [repliesOf_append, hreply, hnone']; rfl, hkind⟩
    · exact absurd hdone hasked'

theorem exists_defaultReply (self : ServerConnectionP) (random : RockPaperScissors)
    {requestId : RequestId} (hasked : requestId ≠ .RequestInvalid) :
    ∃ reply, repliesOf (self.defaultReply random requestId) = [reply] ∧
      reply.requestId = requestId := by
  cases requestId with
  | RequestInvalid => exact absurd rfl hasked
  | RequestRockPaperScissors => exact ⟨_, rfl, rfl⟩
  | RequestActionOrder => exact ⟨_, rfl, rfl⟩
  | RequestAction => exact ⟨_, rfl, rfl⟩
  | RequestUpgrade => exact ⟨_, rfl, rfl⟩

theorem requestId_of_decodeReply {self : ServerConnectionP} {value : QJsonValue}
    {requestId : RequestId} {reply : Reply}
    (h : self.decodeReply value requestId = some (some reply)) : reply.requestId = requestId := by
  cases requestId with
  | RequestInvalid => cases h
  | RequestRockPaperScissors =>
    obtain ⟨-, rps, -, rfl⟩ := Request.decodeRockPaperScissorsReply_eq_some.mp (Option.some.inj h)
    rfl
  | RequestActionOrder =>
    obtain ⟨arr, -, -, -, rfl⟩ := Request.decodeActionOrderReply_eq_some.mp (Option.some.inj h)
    rfl
  | RequestAction =>
    obtain ⟨act, -, -, -, -, rfl⟩ := Request.decodeActionReply_eq_some.mp (Option.some.inj h)
    rfl
  | RequestUpgrade =>
    obtain ⟨arr, items, -, -, -, -, rfl⟩ :=
      Request.decodeUpgradeReply_eq_some.mp (Option.some.inj h)
    rfl

theorem settles_executeDefaultReply (self : ServerConnectionP) (random : RockPaperScissors) :
    Settles self (self.executeDefaultReply random).1 (self.executeDefaultReply random).2 := by
  by_cases hasked : self.currentRequest = .RequestInvalid
  · exact .inl ⟨hasked.symm, by rw [executeDefaultReply, hasked]; rfl⟩
  · exact .inr ⟨hasked, rfl, self.exists_defaultReply random hasked⟩

theorem settles_onSocketDisconnected (self : ServerConnectionP) (random : RockPaperScissors) :
    Settles self (self.onSocketDisconnected random).1 (self.onSocketDisconnected random).2 :=
  Settles.trans (show Settles self self (self.socket.toList.map .deleteLater) from
      .inl ⟨rfl, repliesOf_deleteLater _⟩)
    (settles_executeDefaultReply { self with
      socket := none
      heartbeatDeadline := false
      agent := { self.agent with
        state := (self.agent.state.setFlag StateMaskOnline false).setFlag StateMaskTrust false } }
      random)

theorem settles_setError (sync : Bool) (random : RockPaperScissors) (self : ServerConnectionP) :
    Settles self (self.setError sync random).1 (self.setError sync random).2 := by
  cases sync with
  | false => exact .inl ⟨rfl, rfl⟩
  | true => exact settles_onSocketDisconnected self random

theorem settles_abnormalOver (sync : Bool) (random : RockPaperScissors)
    (self : ServerConnectionP) :
    Settles self (self.abnormalOver sync random).1 (self.abnormalOver sync random).2 :=
  (settles_setError sync random self).trans (settles_executeDefaultReply _ random)

theorem settles_replyReceivedOver (sync : Bool) (random : RockPaperScissors)
    {self : ServerConnectionP} {requestId : RequestId} (hrequest : self.currentRequest = requestId)
    (value : QJsonValue) :
    Settles self (self.replyReceivedOver sync random requestId value).1
      (self.replyReceivedOver sync random requestId value).2 := by
  unfold replyReceivedOver
  split
  · exact settles_executeDefaultReply { self with requestTimer := false } random
  · dsimp only
    split
    · next hdecode =>
      -- There is a decoder for every request but the invalid one.
      have hinvalid : self.currentRequest = .RequestInvalid := by
        rw [hrequest]
        cases requestId with
        | RequestInvalid => rfl
        | _ => cases hdecode
      obtain ⟨hkeep, hnone⟩ | ⟨hasked, -⟩ := settles_setError sync random
        { self with requestTimer := false, currentRequest := .RequestInvalid }
      · exact .inl ⟨hkeep.trans hinvalid.symm, hnone⟩
      · exact absurd rfl hasked
    · next hdecode =>
      have hasked : requestId ≠ .RequestInvalid := by
        rintro rfl
        cases hdecode
      obtain ⟨hkeep, hnone⟩ | ⟨hasked', -⟩ := settles_setError sync random
        { self with requestTimer := false, currentRequest := .RequestInvalid }
      · obtain ⟨reply, hreply, hkind⟩ := exists_defaultReply (setError sync random
          { self with requestTimer := false, currentRequest := .RequestInvalid }).1 random hasked
        refine .inr ⟨by rw [hrequest]; exact hasked, hkeep, reply, ?_, by rw [hrequest, hkind]⟩
        rw [repliesOf_append, hnone, hreply]
        rfl
      · exact absurd rfl hasked'
    · next reply hdecode =>
      have hkind := requestId_of_decodeReply hdecode
      refine .inr ⟨?_, rfl, reply, rfl, hkind.trans hrequest.symm⟩
      rw [hrequest]
      rintro rfl
      cases hdecode

theorem settles_packetReceivedOver (sync : Bool) (random : RockPaperScissors)
    (self : ServerConnectionP) (packet : Packet) :
    Settles self (self.packetReceivedOver sync random packet).1
      (self.packetReceivedOver sync random packet).2 := by
  have habnormal := settles_abnormalOver sync random { self with heartbeatDeadline := true }
  unfold packetReceivedOver
  split
  · exact .inl ⟨rfl, rfl⟩
  · dsimp only
    split
    · split
      · exact .inl ⟨rfl, rfl⟩
      · exact .inl ⟨rfl, rfl⟩
      · exact settles_setError sync random { self with heartbeatDeadline := true }
      · split
        · exact .inl ⟨rfl, rfl⟩
        · exact habnormal
    · split
      · next hrequest =>
        exact @settles_replyReceivedOver sync random { self with heartbeatDeadline := true } _
          hrequest packet.value
      · exact habnormal
    · exact habnormal

theorem settles_requestTimeoutOver (sync : Bool) (random : RockPaperScissors)
    (self : ServerConnectionP) :
    Settles self (self.requestTimeoutOver sync random).1
      (self.requestTimeoutOver sync random).2 := by
  unfold requestTimeoutOver
  dsimp only
  split
  · exact settles_abnormalOver sync random { self with requestTimer := false }
  · exact settles_executeDefaultReply { self with requestTimer := false } random

theorem settles_peerWentSilentOver (sync : Bool) (random : RockPaperScissors)
    (self : ServerConnectionP) :
    Settles self (self.peerWentSilentOver sync random).1
      (self.peerWentSilentOver sync random).2 := by
  unfold peerWentSilentOver
  dsimp only
  split
  · exact settles_abnormalOver sync random { self with heartbeatDeadline := false }
  · exact settles_executeDefaultReply { self with heartbeatDeadline := false } random

theorem repliesOf_send (self : ServerConnectionP) (packet : Packet) :
    repliesOf (self.send packet) = [] := by
  unfold send
  split <;> rfl

theorem settles_setSocket (self : ServerConnectionP) (socket : Socket) :
    Settles self (self.setSocket socket).1 (self.setSocket socket).2 :=
  .inl ⟨rfl, repliesOf_deleteLater _⟩

theorem settles_reconnect {self : ServerConnectionP} {socket : Socket} {lastRoundEventSeq : Int}
    (h : self.reconnect socket lastRoundEventSeq = .ok (after, effects)) :
    Settles self after effects := by
  obtain ⟨replayed, hreplay, h⟩ := Except.bind_eq_ok.mp h
  cases h
  refine (settles_setSocket self socket).trans (.inl ⟨rfl, ?_⟩)
  unfold replayMissedRoundEvents at hreplay
  split at hreplay
  · cases hreplay
  · cases hreplay
    generalize List.drop _ _ = packets
    induction packets with
    | nil => rfl
    | cons packet rest ih => rw [List.flatMap_cons, repliesOf_append, repliesOf_send, ih]; rfl

/-- A request is put in flight; nothing is answered. -/
theorem request_asks (self : ServerConnectionP) (req : Request) :
    (self.request req).1.currentRequest = req.requestId ∧ repliesOf (self.request req).2 = [] := by
  rw [request_eq_addRequest, addRequest]
  split <;> exact ⟨rfl, rfl⟩

end ServerConnectionP

namespace Session

open ServerConnectionP

/-- The request in flight, if there is one. -/
def outstanding (s : Session) : List RequestId :=
  if s.conn.currentRequest = .RequestInvalid then [] else [s.conn.currentRequest]

/-- The replies answer the requests in order, each with its own kind, up to the one
in flight. -/
def Answered (s : Session) : Prop :=
  s.asked = s.replies.map Reply.requestId ++ s.outstanding

theorem settles_of_ok {conn conn' : ServerConnectionP} {effects : List Effect}
    {x : ServerConnectionP × List Effect} (h : Settles conn x.1 x.2)
    (heq : (.ok x : Except Logic.Fault _) = .ok (conn', effects)) : Settles conn conn' effects := by
  rw [Except.ok.inj heq] at h
  exact h

/-- What one event may do about the request in flight. -/
theorem settles_act {conn conn' : ServerConnectionP} {l : Step} {effects : List Effect}
    (hact : act conn l = .ok (conn', effects)) (hother : ∀ req, l.event ≠ .addRequest req) :
    Settles conn conn' effects := by
  unfold act at hact
  split at hact
  · next req hevent => exact absurd hevent (hother req)
  · next packet _ => exact settles_of_ok (settles_packetReceivedOver l.sync l.random conn packet) hact
  · exact settles_of_ok (settles_requestTimeoutOver l.sync l.random conn) hact
  · exact settles_of_ok (settles_peerWentSilentOver l.sync l.random conn) hact
  · exact settles_of_ok (settles_onSocketDisconnected conn l.random) hact
  · next socket _ => exact settles_of_ok (settles_setSocket conn socket) hact
  · exact settles_reconnect hact
  · exact settles_of_ok (settles_executeDefaultReply
      { conn with singleShots := conn.singleShots - 1 } l.random) hact

theorem requestId_ne_invalid (req : Request) : req.requestId ≠ .RequestInvalid := by
  cases req <;> exact nofun

theorem asked_record (s : Session) {event : Event} (conn : ServerConnectionP)
    (effects : List Effect) (hother : ∀ req, event ≠ .addRequest req) :
    (s.record event conn effects).asked = s.asked := by
  cases event with
  | addRequest req => exact absurd rfl (hother req)
  | _ => rfl

theorem answered_step {s t : Session} {l : Step} (hs : s.Answered) (hstep : s.next l = some t) :
    t.Answered ∧ (t.replies = s.replies ∨
      s.conn.currentRequest ≠ .RequestInvalid ∧ t.conn.currentRequest = .RequestInvalid ∧
        ∃ reply, t.replies = s.replies ++ [reply] ∧ reply.requestId = s.conn.currentRequest) := by
  obtain ⟨henabled, conn, effects, hact, rfl⟩ := next_eq_some hstep
  by_cases hrequest : ∃ req, l.event = .addRequest req
  · obtain ⟨req, hevent⟩ := hrequest
    rw [hevent] at henabled ⊢
    have hlength : s.asked.length = s.replies.length := by simpa [enabled] using henabled
    -- Every request has been answered, so none is in flight.
    have hnone : s.outstanding = [] := by
      have h := congrArg List.length hs
      rw [List.length_append, List.length_map] at h
      exact List.length_eq_zero_iff.mp (by omega)
    unfold act at hact
    simp only [hevent] at hact
    obtain ⟨hcurrent, hreplies⟩ := request_asks s.conn req
    rw [Except.ok.inj hact] at hcurrent hreplies
    dsimp only at hcurrent hreplies
    constructor
    · unfold Answered at hs ⊢
      rw [hnone, List.append_nil] at hs
      simp only [record, hs, hreplies, List.append_nil, outstanding, hcurrent,
        requestId_ne_invalid, if_false]
    · left
      simp only [record, hreplies, List.append_nil]
  · push Not at hrequest
    have hasked := asked_record s conn effects hrequest
    obtain ⟨hkeep, hnone⟩ | ⟨hflight, hdone, reply, hreply, hkind⟩ := settles_act hact hrequest
    · have hreplies : (s.record l.event conn effects).replies = s.replies := by
        simp only [record, hnone, List.append_nil]
      refine ⟨?_, .inl hreplies⟩
      unfold Answered at hs ⊢
      rw [hasked, hreplies, hs]
      simp only [outstanding, record, hkeep]
    · have hreplies : (s.record l.event conn effects).replies = s.replies ++ [reply] := by
        simp only [record, hreply]
      refine ⟨?_, .inr ⟨hflight, hdone, reply, hreplies, hkind⟩⟩
      unfold Answered at hs ⊢
      rw [hasked, hreplies, hs, List.map_append]
      simp only [outstanding, hflight, if_false, record, hdone, if_true, List.map_cons,
        List.map_nil, hkind, List.append_nil]

theorem answered_invariant : system.Invariant Answered where
  init := by
    rintro _ ⟨agent, logicConfiguration, requestTimeout, rfl⟩
    rfl
  step _ _ _ hs hstep := (answered_step hs hstep).1

/-- In every run, the replies answer the requests one to one and in order, each
with its own kind; a step hands over one reply at most, and only while a request is
in flight, which it then no longer is. -/
theorem one_answer {s : Session} (hs : system.Reachable s) :
    s.Answered ∧ ∀ l t, system.step s l t → t.replies = s.replies ∨
      s.conn.currentRequest ≠ .RequestInvalid ∧ t.conn.currentRequest = .RequestInvalid ∧
        ∃ reply, t.replies = s.replies ++ [reply] ∧ reply.requestId = s.conn.currentRequest := by
  have hanswered := answered_invariant.of_reachable hs
  exact ⟨hanswered, fun l t hstep => (answered_step hanswered hstep).2⟩

/-- A run from a new connection, as computed. -/
theorem exists_run (steps : List Step) (P : Session → Bool)
    (agent : Agent) (logicConfiguration : LogicConfiguration) (requestTimeout : Int)
    (hrun : (steps.foldlM next (new agent logicConfiguration requestTimeout)).any P = true) :
    ∃ s, system.Reachable s ∧ P s = true := by
  cases hlast : steps.foldlM next (new agent logicConfiguration requestTimeout) with
  | none => simp [hlast] at hrun
  | some last =>
    rw [hlast] at hrun
    exact ⟨last, .foldlM (fun _ _ _ hstep => hstep)
      (.init ⟨agent, logicConfiguration, requestTimeout, rfl⟩) hlast, hrun⟩

/-- One request is answered by a drop within the time-out, one by the client. -/
theorem one_answer_two_requests : ∃ s, system.Reachable s ∧ s.replies.length = 2 ∧ s.Answered := by
  obtain ⟨s, hs, hend⟩ := exists_run
    [⟨.setSocket 0, false, .Rock⟩, ⟨.addRequest (.action 1), false, .Rock⟩,
      ⟨.requestTimeout, true, .Rock⟩, ⟨.reconnect 1 0, false, .Rock⟩,
      ⟨.addRequest (.upgrade 2), false, .Rock⟩,
      ⟨.packetReceived (.ofRequest .TypeReply .RequestUpgrade (.array [.ofInt 0, .ofInt 1])), true,
        .Rock⟩]
    (fun s => s.replies.length = 2) ⟨"a", "A", StateMaskOnline⟩ .defaults 20 (by decide +kernel)
  exact ⟨s, hs, of_decide_eq_true hend, (one_answer hs).1⟩

end Session

end QMdmmNetworking
