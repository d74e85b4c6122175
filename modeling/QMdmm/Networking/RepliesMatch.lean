import QMdmm.Networking.InFlightServer

namespace QMdmmNetworking

open QMdmmCore Data Protocol

namespace Exchange

section

variable {self : Exchange} {result : ClientP × List ClientEffect}

theorem Inv.step {event : Event} {self' : Exchange} (h : self.Inv)
    (horder : self.inOrder event = true) (hstep : self.handle event = some self') :
    self'.Inv := by
  cases event with
  | connectToHost known initialState =>
    cases hstep
    exact h.connects known rfl
  | disconnectFromHost =>
    cases hstep
    exact h.talks ClientP.talks_disconnectFromHost
  | clientReads =>
    rw [handle, Exchange.clientReads] at hstep
    split at hstep
    · cases hstep
    · next socket hsocket =>
      split at hstep
      · cases hstep
      · next packet rest hdown =>
        obtain ⟨result, hresult, rfl⟩ := Option.map_eq_some_iff.mp hstep
        have hok := (ClientP.received_of_handle hresult).2
        obtain ⟨htype, htalks⟩ | ⟨htype, hsame, hcurrent, hsilent⟩ :=
          ClientP.socketPacketReceived_talks hok
        · exact (h.reads hdown htype).talks htalks
        · exact h.takesUp hsocket hdown htype hsame (hcurrent (by rw [hsocket]; rfl)) hsilent
  | socketGone =>
    obtain ⟨result, hresult, rfl⟩ := Option.map_eq_some_iff.mp hstep
    obtain ⟨-, hresult⟩ := Option.ite_none_right_eq_some.mp hresult
    cases hresult
    exact h.talks ClientP.talks_handleSocketGone
  | socketDeleted =>
    obtain ⟨result, hresult, rfl⟩ := Option.map_eq_some_iff.mp hstep
    obtain ⟨-, hresult⟩ := Option.ite_none_left_eq_some.mp hresult
    cases hresult
    exact h.talks ⟨.inl rfl, .inr rfl, fun packet hpacket => absurd hpacket List.not_mem_nil⟩
  | reconnectTimeout known =>
    obtain ⟨result, hresult, rfl⟩ := Option.map_eq_some_iff.mp hstep
    obtain ⟨-, hresult⟩ := Option.ite_none_right_eq_some.mp hresult
    cases hresult
    exact h.connects known (by cases known <;> rfl)
  | setState state =>
    cases hstep
    exact h.talks ((ClientP.handles_setState state).talks)
  | answer reply =>
    cases hstep
    exact h.answers (ClientP.sends_reply (.inl (ClientP.answer_eq_sendReply reply)))
  | giveUp =>
    cases hstep
    exact h.answers (ClientP.sends_reply (.inr rfl))
  | serverReads socket signedIn sync random => exact h.serverReads horder hstep
  | own seat l => exact h.own hstep
  | notify seat notification =>
    obtain ⟨session, hseat, rfl⟩ := Option.map_eq_some_iff.mp hstep
    have hmem := List.mem_of_getElem? hseat
    have hnotifies := ServerConnectionP.notifies_notify session.conn notification
    have houtstanding : Session.outstanding
        { session with conn := (session.conn.notify notification).1 } = session.outstanding := by
      rw [Session.outstanding, Session.outstanding, hnotifies.currentRequest]
    have hanswered := h.answered session hmem
    rw [Session.Answered, ← houtstanding] at hanswered
    exact h.sends hseat hanswered hnotifies.socket houtstanding
      (fun packet hpacket => (hnotifies.roundEventLog packet hpacket).elim
        (h.roundEventLog session hmem packet) id) hnotifies.packets
  | clearRoundEventLog seat =>
    obtain ⟨session, hseat, rfl⟩ := Option.map_eq_some_iff.mp hstep
    exact h.sends hseat (h.answered session (List.mem_of_getElem? hseat)) rfl rfl
      (fun packet hpacket => absurd hpacket List.not_mem_nil)
      (fun packet hpacket => absurd hpacket List.not_mem_nil)

theorem inv_invariant : (system.guarded fun self event => self.inOrder event = true).Invariant
    Inv := by
  refine TransitionSystem.Invariant.guarded ?_ fun _ _ _ horder hinv hstep => hinv.step horder hstep
  rintro _ ⟨versionNumber, logicConfiguration, requestTimeout, objectName, screenName, rfl⟩
  refine ⟨fun _ h => absurd h List.not_mem_nil, fun _ h => absurd h List.not_mem_nil,
    fun _ _ _ h => (by cases h), fun _ _ => ⟨rfl, rfl⟩, fun _ h => (by cases h),
    fun _ h => (by cases h), fun _ _ h => absurd h List.not_mem_nil, fun _ _ _ => rfl,
    fun _ _ _ h => (by cases h), rfl⟩

/-- In every run in which no reply arrives over a connection that is out of order, every
reply names the request in flight when it arrives. -/
theorem replies_match {room : Exchange}
    (hroom : (system.guarded fun self event => self.inOrder event = true).Reachable room) :
    room.mismatched = false :=
  (inv_invariant.of_reachable hroom).matched

end

/-- The client connects, signs in and is asked to act. -/
def askedToAct : List Event :=
  [.connectToHost true StateMaskOnline, .clientReads, .serverReads 0 .added false .Rock,
    .own 0 ⟨.addRequest (.action 1), false, .Rock⟩, .clientReads]

/-- It answers at once. -/
def answersInTime : List Event :=
  askedToAct ++ [.answer (.action .DoNothing "" 0), .serverReads 0 .refused false .Rock]

/-- It is dropped first, comes back and answers then. -/
def answersLate : List Event :=
  askedToAct ++ [.own 0 ⟨.socketDisconnected, false, .Rock⟩, .socketGone, .reconnectTimeout true,
    .clientReads, .serverReads 1 (.reconnected 0) false .Rock, .answer (.action .DoNothing "" 0),
    .serverReads 1 .refused false .Rock]

theorem replies_match_in_time : ∃ room,
    (system.guarded fun self event => self.inOrder event = true).Reachable room ∧
      room.seats.map (·.replies.length) = [1] ∧ room.mismatched = false := by
  obtain ⟨room, hroom, hanswered⟩ := TransitionSystem.exists_reachable_foldlM
    (fun self event self' (hstep : handle self event = some self') =>
      show system.step self event self' from hstep)
    (P := fun room => room.seats.map (·.replies.length) == [1])
    ⟨"0", .v1, 20, "a", "A", rfl⟩
    (show (answersInTime.foldlM (fun self event => if inOrder self event then handle self event
      else none) (new "0" .v1 20 "a" "A")).any _ = true by decide +kernel)
  exact ⟨room, hroom, by simpa using hanswered, replies_match hroom⟩

/-- The drop answered the request, and left the client with it. -/
theorem replies_match_fails : ¬ ∀ room, system.Reachable room → room.mismatched = false := by
  intro hall
  have hrun : (answersLate.foldlM handle (new "0" .v1 20 "a" "A")).any (·.mismatched) = true := by
    decide +kernel
  cases hlast : answersLate.foldlM handle (new "0" .v1 20 "a" "A") with
  | none =>
    rw [hlast] at hrun
    cases hrun
  | some room =>
    have hroom : system.Reachable room :=
      .foldlM (fun _ _ _ hstep => hstep) (.init ⟨"0", .v1, 20, "a", "A", rfl⟩) hlast
    rw [hlast, Option.any_some, hall room hroom] at hrun
    cases hrun

end Exchange

end QMdmmNetworking
