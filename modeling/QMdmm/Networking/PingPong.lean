import QMdmm.Networking.Heartbeat
import QMdmm.Networking.RequestTimer
import QMdmm.Networking.Talks

/-- A whole number is no other after rounding. -/
theorem QJsonValue.toLongLong_ofInt (n : Nat) :
    (QJsonValue.ofInt n).toLongLong = some (n : Int) := by
  have hround : ⌊((n : Int) : ℚ) + 1 / 2⌋ = n := by
    rw [Int.floor_eq_iff]
    constructor <;> push_cast <;> linarith
  have hpos : (0 : ℚ) ≤ ((n : Int) : ℚ) := by positivity
  simp only [QJsonValue.ofInt, QJsonValue.toLongLong, if_pos hpos, hround]

namespace QMdmmNetworking

open QMdmmCore Data Protocol

/-- No ping is among what a client sends. -/
def PingFree (effects : List ClientEffect) : Prop :=
  ∀ packet ∈ effects.filterMap ClientEffect.packet, isPing packet = false

/-- No pong is among what a connection sends, or keeps to send it again. -/
def PongFree (conn : ServerConnectionP) (effects : List Effect) : Prop :=
  (∀ packet ∈ conn.roundEventLog, isPong packet = false) ∧
    ∀ packet ∈ effects.filterMap Effect.packet, isPong packet = false

namespace ClientP

variable {self self' : ClientP} {effects : List ClientEffect}

theorem pingFree_of_nil (h : effects.filterMap ClientEffect.packet = []) : PingFree effects := by
  intro packet hpacket
  rw [h] at hpacket
  cases hpacket

theorem pingFree_one {packet : Packet} {rest : List ClientEffect} (h : isPing packet = false)
    (hrest : rest.filterMap ClientEffect.packet = []) : PingFree (.sendPacket packet :: rest) := by
  intro sent hsent
  obtain rfl | hsent := List.mem_cons.mp hsent
  · exact h
  · rw [hrest] at hsent
    cases hsent

theorem Handles.pingFree {result : ClientP × List ClientEffect} (h : Handles self result) :
    PingFree result.2 := by
  intro packet hpacket
  obtain ⟨state, rfl⟩ := h.declares packet hpacket
  rfl

theorem pingFree_disconnectFromHost : PingFree self.disconnectFromHost.2 := by
  apply pingFree_of_nil
  unfold disconnectFromHost
  dsimp only
  split <;> rfl

theorem pingFree_socketPacketReceived {packet : Packet}
    (h : self.socketPacketReceived packet = .ok (self', effects)) : PingFree effects := by
  obtain hreacts | ⟨-, -, hleaves⟩ := socketPacketReceived_cases h
  · cases hreacts with
    | handles hhandles => exact hhandles.pingFree
    | hangsUp hresult =>
      rw [show effects = self.disconnectFromHost.2 from congrArg Prod.snd hresult]
      exact pingFree_disconnectFromHost
    | greeted _ _ hresult | welcomed hresult =>
      rw [show effects = _ from congrArg Prod.snd hresult]
      exact pingFree_one rfl rfl
  · exact hleaves.pingFree

theorem pingFree_sendReply (requestId : RequestId) (value : QJsonValue) :
    PingFree (self.sendReply requestId value).2 := by
  unfold sendReply
  split
  · exact pingFree_one rfl rfl
  · exact pingFree_of_nil rfl

theorem pingFree_sendRequestGivenUp : PingFree self.sendRequestGivenUp.2 := by
  unfold sendRequestGivenUp
  split
  · exact pingFree_one rfl rfl
  · exact pingFree_of_nil rfl

theorem pingFree_sendSpeak (content : String) : PingFree (self.sendSpeak content).2 := by
  unfold sendSpeak
  split
  · exact pingFree_one rfl rfl
  · exact pingFree_of_nil rfl

theorem pingFree_sendOperate : PingFree self.sendOperate.2 := by
  unfold sendOperate
  split
  · exact pingFree_one rfl rfl
  · exact pingFree_of_nil rfl

theorem scheduleReconnect_packets :
    self.scheduleReconnect.2.filterMap ClientEffect.packet = [] := by
  unfold scheduleReconnect
  split <;> rfl

theorem pingFree_handleSocketGone : PingFree self.handleSocketGone.2 := by
  unfold handleSocketGone
  dsimp only
  split
  · exact pingFree_of_nil rfl
  · split
    · exact pingFree_of_nil scheduleReconnect_packets
    · exact pingFree_of_nil scheduleReconnect_packets

end ClientP

namespace ServerConnectionP

variable {self self' : ServerConnectionP} {effects : List Effect}

theorem pongFree_of_quiet (hlog : ∀ packet ∈ self.roundEventLog, isPong packet = false)
    (h : Quiet self self' effects) : PongFree self' effects := by
  refine ⟨?_, fun packet hpacket => ?_⟩
  · rwa [h.roundEventLog]
  · rw [h.silent] at hpacket
    cases hpacket

theorem pongFree_notify (hlog : ∀ packet ∈ self.roundEventLog, isPong packet = false)
    (n : Notification) : PongFree (self.notify n).1 (self.notify n).2 := by
  have hplain {packet : Packet} (h : isPong packet = false) : PongFree self (self.send packet) :=
    ⟨hlog, fun _ hsent => by rwa [self.packets_send hsent]⟩
  have hround {packet : Packet} (h : isPong packet = false) :
      PongFree (self.sendRoundEvent packet).1 (self.sendRoundEvent packet).2 := by
    refine ⟨fun logged hlogged => ?_, (hplain h).2⟩
    obtain hold | hnew := List.mem_append.mp hlogged
    · exact hlog logged hold
    · rwa [List.mem_singleton.mp hnew]
  cases n with
  | rockPaperScissors _ | actionOrder _ | action _ _ _ _ | upgrade _ => exact hround rfl
  | _ => exact hplain rfl

theorem pongFree_request (hlog : ∀ packet ∈ self.roundEventLog, isPong packet = false)
    (req : Request) : PongFree (self.request req).1 (self.request req).2 := by
  rw [request_eq_addRequest, addRequest]
  dsimp only
  split
  · refine ⟨hlog, fun packet hpacket => ?_⟩
    rw [List.mem_singleton.mp hpacket]
    rfl
  · exact ⟨hlog, fun packet hpacket => absurd hpacket List.not_mem_nil⟩

theorem pongFree_act (hlog : ∀ packet ∈ self.roundEventLog, isPong packet = false)
    {l : Session.Step} (h : Session.act self l = .ok (self', effects)) :
    PongFree self' effects := by
  have hof {result : ServerConnectionP × List Effect} (hfree : PongFree result.1 result.2)
      (h : Except.ok result = (Except.ok (self', effects) : Except Logic.Fault _)) :
      PongFree self' effects := by
    rwa [Except.ok.inj h] at hfree
  cases hevent : l.event with
  | addRequest req =>
    simp only [Session.act, hevent] at h
    exact hof (pongFree_request hlog req) h
  | packetReceived packet =>
    simp only [Session.act, hevent] at h
    exact hof (pongFree_of_quiet hlog (quiet_packetReceivedOver l.sync l.random self packet)) h
  | setSocket socket =>
    simp only [Session.act, hevent] at h
    refine hof ⟨hlog, fun packet hpacket => ?_⟩ h
    cases hsocket : self.socket <;> simp [setSocket, hsocket, Effect.packet] at hpacket
  | reconnect socket lastRoundEventSeq =>
    simp only [Session.act, hevent] at h
    obtain ⟨rfl, hlogged⟩ := Observed.reconnect_eq_ok h
    exact ⟨hlog, fun packet hpacket => hlog packet (hlogged packet hpacket)⟩
  | requestTimeout | peerWentSilent | socketDisconnected | executeDefaultReply =>
    refine pongFree_of_quiet hlog (Session.quiet_act h ?_ ?_)
    · rw [hevent]
      rfl
    · rw [hevent]
      intro req heq
      cases heq

end ServerConnectionP

namespace PingingClient

variable {self : PingingClient} {result : PingingClient × List ClientEffect} {now next : Nat}

/-- What a slot may do to a client that neither connects nor hears of a pong: it measures
on, or it lets go of the connection. -/
inductive Slot (client client' : PingingClient) : Prop where
  | goesOn (socket : client'.client.socket = client.client.socket)
      (attached : client'.client.attached = true → client.client.attached = true)
      (heartbeatTimer : client'.heartbeatTimer = client.heartbeatTimer)
      (pongDeadline : client'.pongDeadline = client.pongDeadline)
      (newest : client'.newestAnsweredPing = client.newestAnsweredPing)
      (window : client'.firstPingInDeadlineWindow = client.firstPingInDeadlineWindow)
  | letsGo (socket : client'.client.socket = none ∨ client'.client.socket = client.client.socket)
      (attached : client'.client.attached = false)
      (newest : client'.newestAnsweredPing = -1 ∨
        client'.newestAnsweredPing = client.newestAnsweredPing)

theorem Slot.same (client : PingingClient) : Slot client client := .goesOn rfl id rfl rfl rfl rfl

theorem Slot.of_undisturbed {client : ClientP} {result : ClientP × List ClientEffect}
    (h : ClientP.Undisturbed self.client result) (hclient : result.1 = client) :
    Slot self { self with client := client } := by
  subst hclient
  exact .goesOn h.socket h.attached rfl rfl rfl rfl

theorem handleSocketGone_client (hsocket : self.client.socket ≠ none) :
    self.handleSocketGone.1.client.attached = false ∧
      self.handleSocketGone.1.client.socket = self.client.socket ∧
      self.handleSocketGone.1.newestAnsweredPing = -1 := by
  have hsome : ¬ self.client.socket.isNone = true := by rwa [Option.isNone_iff_eq_none]
  unfold handleSocketGone ClientP.handleSocketGone ClientP.scheduleReconnect
  rw [if_neg hsome]
  dsimp only
  rw [if_neg hsome]
  refine ⟨?_, ?_, rfl⟩
  · split <;> split <;> rfl
  · split <;> split <;> rfl

/-- The client lets go of a socket that is gone, if it still has it. -/
theorem slot_handleSocketGone : Slot self self.handleSocketGone.1 := by
  by_cases hsocket : self.client.socket = none
  · have hsame : self.handleSocketGone.1 = self := by
      unfold handleSocketGone
      rw [hsocket]
      rfl
    rw [hsame]
    exact .goesOn rfl id rfl rfl rfl rfl
  · obtain ⟨hattached, hsame, hnewest⟩ := handleSocketGone_client hsocket
    exact .letsGo (.inr hsame) hattached (.inl hnewest)

theorem pongDeadlinePassed_of_asked (hasked : self.asked now = true) :
    self.pongDeadlinePassed now = handleSocketGone { self with pongDeadline := none } :=
  if_pos hasked

theorem pongDeadlinePassed_of_not_asked (hasked : self.asked now = false) :
    self.pongDeadlinePassed now = (armPongDeadline now { self with pongDeadline := none }, []) :=
  if_neg (Bool.eq_false_iff.mp hasked)

/-- The slots of the operation side, and those of a socket that is gone. -/
theorem handle_cases {event : ClientEvent} (hown : event.own = true)
    (h : self.handle now next event = some result) :
    Slot self result.1 ∧ PingFree result.2 := by
  cases event with
  | connectToHost _ _ _ | reconnectTimeout _ _ | packetReceived _ => cases hown
  | socketGone =>
    obtain ⟨-, hgone⟩ := Option.ite_none_right_eq_some.mp h
    cases hgone
    refine ⟨slot_handleSocketGone, ?_⟩
    have hfree : PingFree self.client.handleSocketGone.2 :=
      ClientP.pingFree_handleSocketGone
    unfold handleSocketGone
    dsimp only
    split <;> exact hfree
  | disconnectFromHost =>
    cases h
    exact ⟨.letsGo (.inr rfl) rfl (.inl rfl), ClientP.pingFree_disconnectFromHost⟩
  | socketDeleted =>
    obtain ⟨after, hafter, rfl⟩ := Option.map_eq_some_iff.mp h
    simp only [ClientP.handle] at hafter
    split at hafter
    · cases hafter
    · next hattached =>
      cases hafter
      exact ⟨.letsGo (.inl rfl) (Bool.eq_false_of_not_eq_true hattached) (.inr rfl),
        ClientP.pingFree_of_nil rfl⟩
  | answer reply =>
    cases h
    cases reply <;> exact ⟨.of_undisturbed (ClientP.undisturbed_sendReply _ _) rfl,
      ClientP.pingFree_sendReply _ _⟩
  | giveUp =>
    cases h
    exact ⟨.of_undisturbed ClientP.undisturbed_sendRequestGivenUp rfl,
      ClientP.pingFree_sendRequestGivenUp⟩
  | speak content =>
    cases h
    exact ⟨.of_undisturbed (ClientP.undisturbed_sendSpeak content) rfl,
      ClientP.pingFree_sendSpeak content⟩
  | operate =>
    cases h
    exact ⟨.of_undisturbed ClientP.undisturbed_sendOperate rfl, ClientP.pingFree_sendOperate⟩
  | setState state =>
    cases h
    have hhandles := @ClientP.handles_setState self.client state
    exact ⟨.of_undisturbed hhandles.toUndisturbed rfl, hhandles.pingFree⟩

/-- What is no pong is heard as it is without any measuring. -/
theorem socketPacketReceived_cases {packet : Packet} (hpong : isPong packet = false)
    (h : self.socketPacketReceived now packet = some result) :
    Slot self result.1 ∧ PingFree result.2 := by
  obtain ⟨after, hafter, rfl⟩ := Option.map_eq_some_iff.mp h
  obtain ⟨-, hreceived⟩ := ClientP.received_of_handle hafter
  simp only [hpong, Bool.false_eq_true, if_false]
  refine ⟨?_, ClientP.pingFree_socketPacketReceived hreceived⟩
  have hsocket : after.1.socket = self.client.socket ∧
      (after.1.attached = true → self.client.attached = true) := by
    obtain hreacts | ⟨-, -, hleaves⟩ := ClientP.socketPacketReceived_cases hreceived
    · cases hreacts with
      | handles h => exact ⟨h.socket, h.attached⟩
      | hangsUp hresult =>
        rw [Prod.mk.eta] at hresult
        rw [hresult]
        exact ⟨rfl, fun h => absurd h Bool.false_ne_true⟩
      | greeted _ _ hresult | welcomed hresult =>
        rw [Prod.mk.eta] at hresult
        rw [hresult]
        exact ⟨rfl, id⟩
    · exact ⟨hleaves.socket, hleaves.attached⟩
  cases hattached : after.1.attached with
  | true => exact .goesOn hsocket.1 hsocket.2 rfl rfl rfl rfl
  | false => exact .letsGo (.inr hsocket.1) hattached (.inl rfl)

/-- A pong is a matter of the measuring alone. -/
theorem socketPacketReceived_pong {packet : Packet} (hpong : isPong packet = true)
    (h : self.socketPacketReceived now packet = some result) :
    self.client.attached = true ∧ result = self.notifyPongServer now packet.value := by
  obtain ⟨after, hafter, rfl⟩ := Option.map_eq_some_iff.mp h
  obtain ⟨hattached, hreceived⟩ := ClientP.received_of_handle hafter
  have hclient : after.1 = self.client := by
    simp only [isPong, Bool.and_eq_true, decide_eq_true_eq] at hpong
    unfold ClientP.socketPacketReceived at hreceived
    split at hreceived
    · exact (congrArg Prod.fst (Except.ok.inj hreceived)).symm
    · rw [hpong.1, hpong.2] at hreceived
      exact (congrArg Prod.fst (Except.ok.inj hreceived)).symm.trans
        (ClientP.notifyPongServer_same packet.value)
  simp only [hpong, if_true, hclient]
  exact ⟨hattached, trivial⟩

end PingingClient

namespace WatchedConnection

variable {self self' : WatchedConnection} {now : Nat} {l : Session.Step} {effects : List Effect}

/-- The events that the peer shows itself by. -/
def heard : Session.Event → Bool
  | .packetReceived _ | .setSocket _ | .reconnect _ _ => true
  | _ => false

/-- What a slot may do to the socket and the deadline of a connection. -/
inductive Slot (now : Nat) (event : Session.Event) (before after : WatchedConnection) : Prop where
  | binds (socket : Socket)
      (hevent : event = .setSocket socket ∨
        ∃ lastRoundEventSeq, event = .reconnect socket lastRoundEventSeq)
      (hsocket : after.conn.socket = some socket)
      (hwired : after.conn.wired = before.conn.wired ++ [socket])
      (hdeadline : after.heartbeatDeadline = some now)
  | closes (hsocket : after.conn.socket = none) (hwired : after.conn.wired = before.conn.wired)
      (hdeadline : after.heartbeatDeadline = none)
  | hears (packet : Packet) (hevent : event = .packetReceived packet)
      (hsocket : after.conn.socket = before.conn.socket)
      (hwired : after.conn.wired = before.conn.wired)
      (hdeadline : after.heartbeatDeadline = some now)
  | stays (hevent : heard event = false)
      (hsocket : after.conn.socket = before.conn.socket)
      (hwired : after.conn.wired = before.conn.wired)
      (hdeadline : event = .peerWentSilent ∧ after.heartbeatDeadline = none ∨
        after.heartbeatDeadline = before.heartbeatDeadline)

theorem slot_act (h : self.act now l = .ok (self', effects)) : Slot now l.event self self' := by
  obtain ⟨⟨conn, sent⟩, hact, h⟩ := Except.bind_eq_ok.mp h
  cases h
  obtain ⟨event, sync, random⟩ := l
  have hplain (hplain : Session.isPlain event = true) : conn.wired = self.conn.wired ∧
      (conn.socket = none ∨ conn.socket = self.conn.socket) := by
    have hleaves := Session.leaves_act hact hplain
    exact ⟨hleaves.wired, hleaves.socket⟩
  cases event with
  | setSocket socket =>
    cases hact
    exact .binds socket (.inl rfl) rfl rfl rfl
  | reconnect socket lastRoundEventSeq =>
    obtain ⟨rfl, -⟩ := Observed.reconnect_eq_ok hact
    exact .binds socket (.inr ⟨_, rfl⟩) rfl rfl rfl
  | packetReceived packet =>
    obtain ⟨hwired, hsocket⟩ := hplain rfl
    cases hnone : conn.socket with
    | none => exact .closes hnone hwired (by simp [deadlineAfter, hnone])
    | some bound =>
      refine .hears packet rfl (hsocket.resolve_left ?_) hwired (by simp [deadlineAfter, hnone])
      rw [hnone]
      exact Option.some_ne_none bound
  | addRequest req =>
    have hsame : conn.socket = self.conn.socket ∧ conn.wired = self.conn.wired := by
      have hrequest := Except.ok.inj hact
      rw [ServerConnectionP.request_eq_addRequest, ServerConnectionP.addRequest] at hrequest
      split at hrequest <;> cases hrequest <;> exact ⟨rfl, rfl⟩
    cases hnone : conn.socket with
    | none => exact .closes hnone hsame.2 (by simp [deadlineAfter, hnone])
    | some bound =>
      exact .stays rfl hsame.1 hsame.2
        (.inr (by simp [deadlineAfter, hnone]))
  | peerWentSilent =>
    obtain ⟨hwired, hsocket⟩ := hplain rfl
    cases hnone : conn.socket with
    | none => exact .closes hnone hwired rfl
    | some bound =>
      refine .stays rfl (hsocket.resolve_left ?_) hwired
        (.inl ⟨rfl, rfl⟩)
      rw [hnone]
      exact Option.some_ne_none bound
  | requestTimeout | socketDisconnected | executeDefaultReply =>
    obtain ⟨hwired, hsocket⟩ := hplain rfl
    cases hnone : conn.socket with
    | none => exact .closes hnone hwired (by simp [deadlineAfter, hnone])
    | some bound =>
      refine .stays rfl (hsocket.resolve_left ?_) hwired
        (.inr (by simp [deadlineAfter, hnone]))
      rw [hnone]
      exact Option.some_ne_none bound

theorem pongFree_act (hlog : ∀ packet ∈ self.conn.roundEventLog, isPong packet = false)
    (h : self.act now l = .ok (self', effects)) : PongFree self'.conn effects := by
  obtain ⟨⟨conn, sent⟩, hact, h⟩ := Except.bind_eq_ok.mp h
  cases h
  exact ServerConnectionP.pongFree_act hlog hact

end WatchedConnection

end QMdmmNetworking
