import QMdmm.Networking.Exchange

namespace QMdmmNetworking

open QMdmmCore Data Protocol

namespace ServerConnectionP

/-- What a slot leaves alone that neither binds a socket nor sends: the log, and the
socket but for its loss. -/
structure Quiet (before after : ServerConnectionP) (effects : List Effect) : Prop where
  socket : after.socket = none ∨ after.socket = before.socket
  roundEventLog : after.roundEventLog = before.roundEventLog
  silent : effects.filterMap Effect.packet = []

variable {before middle after : ServerConnectionP} {effects rest : List Effect}

theorem Quiet.trans (h : Quiet before middle effects) (h' : Quiet middle after rest) :
    Quiet before after (effects ++ rest) where
  socket := h'.socket.elim .inl fun heq => h.socket.imp heq.trans heq.trans
  roundEventLog := h'.roundEventLog.trans h.roundEventLog
  silent := by rw [List.filterMap_append, h.silent, h'.silent]; rfl

/-- A timer or the request is no matter. -/
theorem Quiet.of_eq (h : Quiet middle after effects) (hsocket : middle.socket = before.socket)
    (hlog : middle.roundEventLog = before.roundEventLog) : Quiet before after effects :=
  (show Quiet before middle [] from ⟨.inr hsocket, hlog, rfl⟩).trans h

variable (sync : Bool) (random : RockPaperScissors) (self : ServerConnectionP)

theorem quiet_executeDefaultReply :
    Quiet self (self.executeDefaultReply random).1 (self.executeDefaultReply random).2 :=
  ⟨.inr rfl, rfl, Observed.defaultReply_packets self random _⟩

theorem quiet_onSocketDisconnected :
    Quiet self (self.onSocketDisconnected random).1 (self.onSocketDisconnected random).2 :=
  ⟨.inl rfl, rfl, Observed.onSocketDisconnected_packets self random⟩

theorem quiet_setError :
    Quiet self (self.setError sync random).1 (self.setError sync random).2 := by
  cases sync with
  | false => exact ⟨.inr rfl, rfl, rfl⟩
  | true => exact ⟨.inl rfl, rfl, (quiet_onSocketDisconnected random self).silent⟩

theorem quiet_abnormalOver :
    Quiet self (self.abnormalOver sync random).1 (self.abnormalOver sync random).2 :=
  (quiet_setError sync random self).trans (quiet_executeDefaultReply random _)

theorem quiet_replyReceivedOver (requestId : RequestId) (value : QJsonValue) :
    Quiet self (self.replyReceivedOver sync random requestId value).1
      (self.replyReceivedOver sync random requestId value).2 := by
  unfold replyReceivedOver
  split
  · exact (quiet_executeDefaultReply random { self with requestTimer := false }).of_eq rfl rfl
  · dsimp only
    have herror := (quiet_setError sync random
      { self with requestTimer := false, currentRequest := .RequestInvalid }).of_eq
        rfl rfl
    split
    · exact ⟨herror.socket, herror.roundEventLog, herror.silent⟩
    · refine ⟨herror.socket, herror.roundEventLog, ?_⟩
      rw [List.filterMap_append, herror.silent, Observed.defaultReply_packets]
      rfl
    · exact ⟨.inr rfl, rfl, rfl⟩

theorem quiet_packetReceivedOver (packet : Packet) :
    Quiet self (self.packetReceivedOver sync random packet).1
      (self.packetReceivedOver sync random packet).2 := by
  have hof {result : ServerConnectionP × List Effect}
      (h : Quiet { self with heartbeatDeadline := true } result.1 result.2) :
      Quiet self result.1 result.2 := h.of_eq rfl rfl
  unfold packetReceivedOver
  split
  · exact ⟨.inr rfl, rfl, rfl⟩
  · dsimp only
    split
    · split
      · exact ⟨.inr rfl, rfl, rfl⟩
      · exact ⟨.inr rfl, rfl, rfl⟩
      · exact hof (quiet_setError sync random _)
      · split
        · exact ⟨.inr rfl, rfl, rfl⟩
        · exact hof (quiet_abnormalOver sync random _)
    · split
      · exact hof (quiet_replyReceivedOver sync random _ _ _)
      · exact hof (quiet_abnormalOver sync random _)
    · exact hof (quiet_abnormalOver sync random _)

theorem quiet_requestTimeoutOver :
    Quiet self (self.requestTimeoutOver sync random).1
      (self.requestTimeoutOver sync random).2 := by
  unfold requestTimeoutOver
  dsimp only
  split
  · exact (quiet_abnormalOver sync random { self with requestTimer := false }).of_eq rfl rfl
  · exact (quiet_executeDefaultReply random { self with requestTimer := false }).of_eq rfl rfl

theorem quiet_peerWentSilentOver :
    Quiet self (self.peerWentSilentOver sync random).1
      (self.peerWentSilentOver sync random).2 := by
  unfold peerWentSilentOver
  dsimp only
  split
  · exact (quiet_abnormalOver sync random { self with heartbeatDeadline := false }).of_eq rfl rfl
  · exact (quiet_executeDefaultReply random { self with heartbeatDeadline := false }).of_eq rfl rfl

/-- A notify for the server is none of the connection's business. -/
theorem currentRequest_packetReceivedOver_toServer {packet : Packet}
    (htype : packet.type = .TypeNotify) (hid : packet.notifyId.toServer = true) :
    (self.packetReceivedOver sync random packet).1.currentRequest = self.currentRequest := by
  unfold packetReceivedOver
  rw [htype]
  split
  · rfl
  · cases hnotify : packet.notifyId <;> rw [hnotify] at hid <;> first | rfl | cases hid

/-- What goes out besides requests, and what of it is logged. -/
structure Notifies (before after : ServerConnectionP) (effects : List Effect) : Prop where
  socket : after.socket = before.socket
  currentRequest : after.currentRequest = before.currentRequest
  roundEventLog : ∀ packet ∈ after.roundEventLog,
    packet ∈ before.roundEventLog ∨ packet.type = .TypeNotify
  packets : ∀ packet ∈ effects.filterMap Effect.packet, packet.type = .TypeNotify

theorem packets_send {packet sent : Packet}
    (h : sent ∈ (self.send packet).filterMap Effect.packet) : sent = packet := by
  rw [send] at h
  split at h
  · exact List.mem_singleton.mp h
  · cases h

theorem notifies_notify (n : Notification) :
    Notifies self (self.notify n).1 (self.notify n).2 := by
  have hplain {packet : Packet} (htype : packet.type = .TypeNotify) :
      Notifies self self (self.send packet) :=
    ⟨rfl, rfl, fun _ => .inl, fun _ hsent => by rwa [self.packets_send hsent]⟩
  have hround {packet : Packet} (htype : packet.type = .TypeNotify) :
      Notifies self (self.sendRoundEvent packet).1 (self.sendRoundEvent packet).2 := by
    refine ⟨rfl, rfl, fun logged hlogged => ?_, (hplain htype).packets⟩
    exact (List.mem_append.mp hlogged).imp id fun hnew => by rwa [List.mem_singleton.mp hnew]
  cases n with
  | rockPaperScissors _ | actionOrder _ | action _ _ _ _ | upgrade _ => exact hround rfl
  | _ => exact hplain rfl

/-- A round event that is sent again is a logged one. -/
theorem notifies_reconnect {socket : Socket} {lastRoundEventSeq : Int}
    (hlog : ∀ packet ∈ self.roundEventLog, packet.type = .TypeNotify)
    (h : self.reconnect socket lastRoundEventSeq = .ok (after, effects)) :
    after.socket = some socket ∧ after.currentRequest = self.currentRequest ∧
      after.roundEventLog = self.roundEventLog ∧
      ∀ packet ∈ effects.filterMap Effect.packet, packet.type = .TypeNotify := by
  obtain ⟨replayed, hreplay, h⟩ := Except.bind_eq_ok.mp h
  cases h
  refine ⟨rfl, rfl, rfl, fun packet hpacket => ?_⟩
  have hdelete : (self.socket.toList.map Effect.deleteLater).filterMap Effect.packet = [] := by
    cases self.socket <;> rfl
  rw [List.filterMap_append, hdelete, List.nil_append] at hpacket
  unfold replayMissedRoundEvents at hreplay
  split at hreplay
  · cases hreplay
  · cases hreplay
    obtain ⟨effect, heffect, hsent⟩ := List.mem_filterMap.mp hpacket
    obtain ⟨logged, hlogged, hsend⟩ := List.mem_flatMap.mp heffect
    have hmem := List.mem_filterMap.mpr ⟨effect, hsend, hsent⟩
    rw [packets_send _ hmem]
    exact hlog logged (List.mem_of_mem_drop hlogged)

end ServerConnectionP

namespace Session

theorem quiet_of_ok {conn conn' : ServerConnectionP} {effects : List Effect}
    {x : ServerConnectionP × List Effect} (h : ServerConnectionP.Quiet conn x.1 x.2)
    (heq : (.ok x : Except Logic.Fault _) = .ok (conn', effects)) :
    ServerConnectionP.Quiet conn conn' effects := by
  rwa [Except.ok.inj heq] at h

/-- Only requests are sent without being told to, and only sign-ins bind. -/
theorem quiet_act {conn conn' : ServerConnectionP} {l : Step} {effects : List Effect}
    (hact : act conn l = .ok (conn', effects)) (hown : l.event.own = true)
    (hother : ∀ req, l.event ≠ .addRequest req) : ServerConnectionP.Quiet conn conn' effects := by
  unfold act at hact
  split at hact
  · next req hevent => exact absurd hevent (hother req)
  · next packet hevent =>
    rw [hevent] at hown
    cases hown
  · exact quiet_of_ok (ServerConnectionP.quiet_requestTimeoutOver l.sync l.random conn) hact
  · exact quiet_of_ok (ServerConnectionP.quiet_peerWentSilentOver l.sync l.random conn) hact
  · exact quiet_of_ok (ServerConnectionP.quiet_onSocketDisconnected l.random conn) hact
  · next socket hevent =>
    rw [hevent] at hown
    cases hown
  · next socket lastRoundEventSeq hevent =>
    rw [hevent] at hown
    cases hown
  · exact quiet_of_ok ((ServerConnectionP.quiet_executeDefaultReply l.random
      { conn with singleShots := conn.singleShots - 1 }).of_eq rfl rfl) hact

end Session

namespace ClientP

/-- What the client does in anything but answering and connecting: it may forget the
request it has and lose its socket, and it only speaks to the server. -/
structure Talks (client : ClientP) (result : ClientP × List ClientEffect) : Prop where
  socket : result.1.socket = none ∨ result.1.socket = client.socket
  current : result.1.currentRequest = .RequestInvalid ∨
    result.1.currentRequest = client.currentRequest
  toServer : ∀ packet ∈ result.2.filterMap ClientEffect.packet,
    packet.type = .TypeNotify ∧ packet.notifyId.toServer = true

variable {self self' : ClientP} {effects : List ClientEffect}

theorem Talks.silent {result : ClientP × List ClientEffect}
    (hsocket : result.1.socket = self.socket) (hcurrent : result.1.currentRequest = self.currentRequest)
    (hsilent : result.2.filterMap ClientEffect.packet = []) : Talks self result :=
  ⟨.inr hsocket, .inr hcurrent, fun _ hpacket => by rw [hsilent] at hpacket; cases hpacket⟩

/-- A client that declares its state talks to the server. -/
theorem Handles.talks {result : ClientP × List ClientEffect} (h : Handles self result) :
    Talks self result := by
  refine ⟨.inr h.socket, .inr h.currentRequest, fun packet hpacket => ?_⟩
  obtain ⟨state, rfl⟩ := h.declares packet hpacket
  exact ⟨rfl, rfl⟩

theorem talks_disconnectFromHost : Talks self self.disconnectFromHost := by
  refine ⟨.inr rfl, .inl rfl, fun packet hpacket => ?_⟩
  unfold disconnectFromHost at hpacket
  dsimp only at hpacket
  split at hpacket <;> cases hpacket

theorem Reacts.talks {packet : Packet} {result : ClientP × List ClientEffect}
    (h : Reacts self packet result) : Talks self result := by
  have hsignsIn : self.signInPacket.type = .TypeNotify ∧ self.signInPacket.notifyId.toServer = true :=
    ⟨rfl, rfl⟩
  cases h with
  | handles hhandles => exact hhandles.talks
  | hangsUp hresult =>
    rw [hresult]
    exact talks_disconnectFromHost
  | greeted _ _ hresult | welcomed hresult =>
    rw [hresult]
    exact ⟨.inr rfl, .inr rfl, fun sent hsent => by rwa [List.mem_singleton.mp hsent]⟩

/-- A request is taken up; anything else is talk. -/
theorem socketPacketReceived_talks {packet : Packet}
    (h : self.socketPacketReceived packet = .ok (self', effects)) :
    packet.type ≠ .TypeRequest ∧ Talks self (self', effects) ∨
      packet.type = .TypeRequest ∧ self'.socket = self.socket ∧
        (self.socket.isSome = true → self'.currentRequest = packet.requestId) ∧
        effects.filterMap ClientEffect.packet = [] := by
  by_cases hrequest : packet.type = .TypeRequest
  · refine .inr ⟨hrequest, ?_⟩
    unfold socketPacketReceived at h
    split at h
    · next hnone =>
      cases h
      refine ⟨rfl, fun hsome => ?_, rfl⟩
      rw [Option.isNone_iff_eq_none.mp hnone] at hsome
      cases hsome
    · rw [hrequest] at h
      have hkeeps := @keeps_requestReceived self packet.requestId packet.value
      rw [show self.requestReceived packet.requestId packet.value = (self', effects) from
        Except.ok.inj h] at hkeeps
      exact ⟨hkeeps.socket, fun _ => hkeeps.currentRequest, hkeeps.silent⟩
  · obtain hreacts | ⟨htype, -⟩ := socketPacketReceived_cases h
    · exact .inl ⟨hrequest, hreacts.talks⟩
    · exact absurd htype hrequest

theorem talks_handleSocketGone : Talks self self.handleSocketGone := by
  have hschedule (client : ClientP) : client.scheduleReconnect.1.socket = client.socket ∧
      client.scheduleReconnect.1.currentRequest = client.currentRequest ∧
      client.scheduleReconnect.2.filterMap ClientEffect.packet = [] := by
    unfold scheduleReconnect
    split <;> exact ⟨rfl, rfl, rfl⟩
  unfold handleSocketGone
  split
  · exact .silent rfl rfl rfl
  · dsimp only
    split
    · obtain ⟨hsocket, hcurrent, hsilent⟩ := hschedule { self with attached := false }
      exact .silent hsocket hcurrent hsilent
    · obtain ⟨hsocket, hcurrent, hsilent⟩ := hschedule
        { self with attached := false, reconnectInProgress := true, reconnectAttempts := 0 }
      exact .silent hsocket hcurrent hsilent

/-- An answer goes out for the request the client has, and is the end of it. -/
theorem sends_reply {result : ClientP × List ClientEffect}
    (h : (∃ requestId ≠ .RequestInvalid, ∃ value, result = self.sendReply requestId value) ∨
      result = self.sendRequestGivenUp) :
    result = (self, []) ∨ self.currentRequest ≠ .RequestInvalid ∧ self.socket.isSome = true ∧
      result.1 = { self with currentRequest := .RequestInvalid } ∧
      ∃ value, result.2 = [.sendPacket (.ofRequest .TypeReply self.currentRequest value)] := by
  obtain ⟨requestId, hvalid, value, rfl⟩ | rfl := h
  · unfold sendReply
    split
    · next hasked =>
      obtain ⟨hsocket, rfl⟩ := hasked
      exact .inr ⟨hvalid, hsocket, rfl, value, rfl⟩
    · exact .inl rfl
  · unfold sendRequestGivenUp
    split
    · next hasked => exact .inr ⟨hasked.2, hasked.1, rfl, .null, rfl⟩
    · exact .inl rfl

theorem answer_eq_sendReply (reply : Reply) :
    ∃ requestId ≠ .RequestInvalid, ∃ value, self.answer reply = self.sendReply requestId value := by
  cases reply with
  | rockPaperScissors rps => exact ⟨_, RequestId.noConfusion, _, rfl⟩
  | actionOrder order => exact ⟨_, RequestId.noConfusion, _, rfl⟩
  | action act toPlayer toPlace => exact ⟨_, RequestId.noConfusion, _, rfl⟩
  | upgrade items => exact ⟨_, RequestId.noConfusion, _, rfl⟩

end ClientP

end QMdmmNetworking
