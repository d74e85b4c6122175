import QMdmm.Networking.PingPong

namespace QMdmmNetworking

open QMdmmCore Data Protocol

/-- The ping a packet is, by its stamp. -/
def pingStamp (sent : Nat × Packet) : Option Int :=
  if isPing sent.2 then sent.2.value.toLongLong else none

/-- The ping a packet answers. -/
def pongStamp (sent : Nat × Packet) : Option Int :=
  if isPong sent.2 then sent.2.value.toLongLong else none

@[simp] theorem pingStamp_pingPacket (at' sentAt : Nat) :
    pingStamp (at', pingPacket sentAt) = some (sentAt : Int) := QJsonValue.toLongLong_ofInt sentAt

@[simp] theorem pongStamp_pongPacket (at' sentAt : Nat) :
    pongStamp (at', pongPacket (.ofInt sentAt)) = some (sentAt : Int) :=
  QJsonValue.toLongLong_ofInt sentAt

namespace Wire

/-- The pings that are yet to be heard of, in the order in which that is to be. -/
def stamps (wire : Wire) : List Int := wire.down.filterMap pongStamp ++ wire.up.filterMap pingStamp

/-- Pings carry the time they were sent at, and pongs that of a ping. -/
structure Honest (now : Nat) (wire : Wire) : Prop where
  up : ∀ sent ∈ wire.up, sent.1 ≤ now ∧ (isPing sent.2 = true → sent.2 = pingPacket sent.1)
  down : ∀ sent ∈ wire.down, sent.1 ≤ now ∧
    (isPong sent.2 = true → ∃ sentAt ≤ sent.1, sent.2 = pongPacket (.ofInt sentAt))

end Wire

namespace Heartbeat

variable {now : Nat} {wire : Wire} {packets : List Packet} {sent : Nat × Packet}
  {rest : List (Nat × Packet)}

theorem mem_sent {at' : Nat} (h : sent ∈ packets.map fun packet => (at', packet)) :
    sent.1 = at' ∧ sent.2 ∈ packets := by
  obtain ⟨packet, hpacket, rfl⟩ := List.mem_map.mp h
  exact ⟨rfl, hpacket⟩

theorem honest_sendUp (h : wire.Honest now) (hfree : ∀ packet ∈ packets, isPing packet = false) :
    (sendUp now packets wire).Honest now := by
  refine ⟨fun sent hsent => ?_, h.down⟩
  obtain hold | hnew := List.mem_append.mp hsent
  · exact h.up sent hold
  · obtain ⟨hnow, hpacket⟩ := mem_sent hnew
    refine ⟨hnow.le, fun hping => ?_⟩
    rw [hfree _ hpacket] at hping
    cases hping

theorem honest_ping (h : wire.Honest now) : (sendUp now [pingPacket now] wire).Honest now := by
  refine ⟨fun sent hsent => ?_, h.down⟩
  obtain hold | hnew := List.mem_append.mp hsent
  · exact h.up sent hold
  · rw [List.map_singleton, List.mem_singleton] at hnew
    rw [hnew]
    exact ⟨Nat.le_refl now, fun _ => rfl⟩

theorem honest_sendDown (h : wire.Honest now) (hfree : ∀ packet ∈ packets, isPong packet = false) :
    (sendDown now packets wire).Honest now := by
  refine ⟨h.up, fun sent hsent => ?_⟩
  obtain hold | hnew := List.mem_append.mp hsent
  · exact h.down sent hold
  · obtain ⟨hnow, hpacket⟩ := mem_sent hnew
    refine ⟨hnow.le, fun hpong => ?_⟩
    rw [hfree _ hpacket] at hpong
    cases hpong

/-- What the server answers a ping with is its pong. -/
theorem honest_answer (h : wire.Honest now) (hup : wire.up = sent :: rest) :
    (answer now sent.2 { wire with up := rest }).Honest now := by
  obtain ⟨hnow, hping⟩ := h.up sent (hup ▸ List.mem_cons_self)
  have hrest : Wire.Honest now { wire with up := rest } :=
    ⟨fun other hother => h.up other (hup ▸ List.mem_cons_of_mem _ hother), h.down⟩
  unfold answer
  split
  · next hpings =>
    refine ⟨hrest.up, fun other hother => ?_⟩
    obtain hold | hnew := List.mem_append.mp hother
    · exact h.down other hold
    · rw [List.map_singleton, List.mem_singleton] at hnew
      rw [hnew]
      exact ⟨Nat.le_refl now, fun _ => ⟨sent.1, hnow, by rw [hping hpings]; rfl⟩⟩
  · exact hrest

theorem stamps_sendUp (hfree : ∀ packet ∈ packets, isPing packet = false) :
    (sendUp now packets wire).stamps = wire.stamps := by
  have hnone : (packets.map fun packet => (now, packet)).filterMap pingStamp = [] := by
    rw [List.filterMap_eq_nil_iff]
    intro sent hsent
    rw [pingStamp, hfree _ (mem_sent hsent).2]
    rfl
  simp only [Wire.stamps, sendUp, List.filterMap_append, hnone, List.append_nil]

theorem stamps_ping : (sendUp now [pingPacket now] wire).stamps = wire.stamps ++ [(now : Int)] := by
  simp [Wire.stamps, sendUp, List.filterMap_append]

theorem stamps_sendDown (hfree : ∀ packet ∈ packets, isPong packet = false) :
    (sendDown now packets wire).stamps = wire.stamps := by
  have hnone : (packets.map fun packet => (now, packet)).filterMap pongStamp = [] := by
    rw [List.filterMap_eq_nil_iff]
    intro sent hsent
    rw [pongStamp, hfree _ (mem_sent hsent).2]
    rfl
  simp only [Wire.stamps, sendDown, List.filterMap_append, hnone, List.append_nil]

/-- An answered ping keeps its turn. -/
theorem stamps_answer (hup : wire.up = sent :: rest) :
    (answer now sent.2 { wire with up := rest }).stamps = wire.stamps := by
  unfold answer
  split
  · next hping =>
    have hpong : pongStamp (now, pongPacket sent.2.value) = pingStamp sent := by
      rw [pingStamp, if_pos hping]
      rfl
    simp [Wire.stamps, sendDown, hup, List.filterMap_append, List.filterMap_cons, hpong]
    cases pingStamp sent <;> simp
  · next hping =>
    have hnone : pingStamp sent = none := if_neg hping
    simp [Wire.stamps, hup, hnone]

open PingingClient WatchedConnection

variable {self self' : Heartbeat}

/-- A slot that sends nothing. -/
theorem fromClient_wires {result : PingingClient × List ClientEffect}
    (hsilent : result.2.filterMap ClientEffect.packet = []) :
    (self.fromClient result).wires = self.wires := by
  funext other
  simp [fromClient, onWireOf, sendUp, hsilent]

theorem stamps_fromClient {result : PingingClient × List ClientEffect} (hfree : PingFree result.2)
    (socket : Socket) :
    ((self.fromClient result).wires socket).stamps = (self.wires socket).stamps := by
  unfold fromClient onWireOf
  dsimp only
  split
  · exact stamps_sendUp hfree
  · rfl

theorem stamps_fromServer {result : WatchedConnection × List Effect}
    (hfree : ∀ packet ∈ result.2.filterMap Effect.packet, isPong packet = false)
    (socket : Socket) :
    ((self.fromServer result).wires socket).stamps = (self.wires socket).stamps := by
  unfold fromServer onWireOf
  dsimp only
  split
  · exact stamps_sendDown hfree
  · rfl

@[simp] theorem fromClient_client (result : PingingClient × List ClientEffect) :
    (self.fromClient result).client = result.1 := rfl

@[simp] theorem heartbeatTimeout_client (client : PingingClient) (now next : Nat) :
    (client.heartbeatTimeout now next).1.client = client.client := by
  unfold heartbeatTimeout
  dsimp only
  split <;> rfl

/-- The latest a repeating timer that has just run out may run out again. -/
def pingBy : Nat := heartbeatInterval + timerSlack heartbeatInterval

theorem isNext_iff {next : Nat} : isNext now next = true ↔ now < next ∧ next ≤ now + pingBy := by
  simp only [isNext, pingBy, Bool.and_eq_true, decide_eq_true_eq]

/-- A client with a connection measures it: the pings of the window are on the wire or
have been answered on it, and none that is still out is older than one that is back. -/
structure Measures (now : Nat) (client : PingingClient) (wire : Wire) : Prop where
  heartbeatTimer : ∃ due ≤ now + pingBy, client.heartbeatTimer = some due
  pongDeadline : ∃ started ≤ now, client.pongDeadline = some started
  window : client.firstPingInDeadlineWindow = -1 ∨ client.firstPingInDeadlineWindow ∈ wire.stamps
  ordered : wire.stamps.Pairwise (· ≤ ·)
  bounds : ∀ stamp ∈ wire.stamps, client.newestAnsweredPing ≤ stamp ∧ stamp ≤ now

structure Sound (link : Heartbeat) : Prop where
  made : ∀ socket, link.client.client.socket = some socket → socket < link.made
  bound : ∀ socket, link.server.conn.socket = some socket →
    socket < link.made ∧ socket ∈ link.server.conn.wired
  unopened : ∀ socket, link.made ≤ socket → (link.wires socket).isOpen = false
  roundEventLog : ∀ packet ∈ link.server.conn.roundEventLog, isPong packet = false
  honest : ∀ socket, (link.wires socket).Honest link.now
  newest : link.client.newestAnsweredPing ≤ link.now
  measures : link.client.client.attached = true → ∃ socket,
    link.client.client.socket = some socket ∧ Measures link.now link.client (link.wires socket)

section Measures

variable {client client' : PingingClient} {wire' : Wire}

theorem honest_mono {later : Nat} (h : wire.Honest now) (hle : now ≤ later) :
    wire.Honest later where
  up sent hsent := ⟨(h.up sent hsent).1.trans hle, (h.up sent hsent).2⟩
  down sent hsent := ⟨(h.down sent hsent).1.trans hle, (h.down sent hsent).2⟩

theorem Measures.mono (h : Measures now client wire) {later : Nat} (hle : now ≤ later) :
    Measures later client wire := by
  obtain ⟨due, hdue, htimer⟩ := h.heartbeatTimer
  obtain ⟨started, hstarted, hdeadline⟩ := h.pongDeadline
  refine ⟨⟨due, hdue.trans (Nat.add_le_add_right hle _), htimer⟩,
    ⟨started, hstarted.trans hle, hdeadline⟩, h.window, h.ordered, fun stamp hstamp => ?_⟩
  obtain ⟨hnewest, hnow⟩ := h.bounds stamp hstamp
  exact ⟨hnewest, hnow.trans (Int.ofNat_le.mpr hle)⟩

theorem Measures.of_stamps (h : Measures now client wire) (hstamps : wire'.stamps = wire.stamps) :
    Measures now client wire' := by
  obtain ⟨htimer, hdeadline, hwindow, hordered, hbounds⟩ := h
  rw [← hstamps] at hwindow hordered hbounds
  exact ⟨htimer, hdeadline, hwindow, hordered, hbounds⟩

theorem Measures.slot (h : Measures now client wire) (hslot : Slot client client')
    (hattached : client'.client.attached = true) :
    client'.client.socket = client.client.socket ∧ client.client.attached = true ∧
      Measures now client' wire := by
  cases hslot with
  | goesOn hsocket hbefore htimer hdeadline hnewest hwindow =>
    exact ⟨hsocket, hbefore hattached, htimer ▸ h.heartbeatTimer, hdeadline ▸ h.pongDeadline,
      hwindow ▸ h.window, h.ordered, hnewest ▸ h.bounds⟩
  | letsGo _ hgone => exact absurd (hattached.symm.trans hgone) Bool.noConfusion

/-- A ping is the last to be heard of. -/
theorem Measures.ping (h : Measures now client wire) {next : Nat} (hnext : next ≤ now + pingBy)
    (hnewest : client.newestAnsweredPing ≤ now) :
    Measures now (notePing now { client with heartbeatTimer := some next })
      (sendUp now [pingPacket now] wire) := by
  refine ⟨⟨next, hnext, rfl⟩, h.pongDeadline, ?_, ?_, ?_⟩ <;> rw [stamps_ping]
  · refine .inr (List.mem_append.mpr ?_)
    unfold notePing
    dsimp only
    split
    · exact .inr (List.mem_singleton_self _)
    · next hopened =>
      refine .inl (h.window.resolve_left fun hfirst => hopened ?_)
      omega
  · rw [List.pairwise_append]
    refine ⟨h.ordered, List.pairwise_singleton _ _, fun stamp hstamp last hlast => ?_⟩
    rw [List.mem_singleton.mp hlast]
    exact (h.bounds stamp hstamp).2
  · intro stamp hstamp
    obtain hold | hnew := List.mem_append.mp hstamp
    · exact h.bounds stamp hold
    · rw [List.mem_singleton.mp hnew]
      exact ⟨hnewest, le_rfl⟩

/-- A window that is not judged is followed by another one. -/
theorem Measures.arm (h : Measures now client wire) :
    Measures now (client.armPongDeadline now) wire :=
  ⟨h.heartbeatTimer, ⟨now, le_rfl, rfl⟩, .inl rfl, h.ordered, h.bounds⟩

/-- The pong that is read answers the oldest ping that is out: it is never stale. -/
theorem Measures.pong (h : Measures now client wire) {sentAt : Nat}
    (hdown : wire.down = sent :: rest) (hsent : sent.2 = pongPacket (.ofInt sentAt)) :
    (client.notifyPongServer now sent.2.value).2 = [] ∧
    (client.notifyPongServer now sent.2.value).1.newestAnsweredPing = sentAt ∧
    (client.notifyPongServer now sent.2.value).1.roundTripTime = now - sentAt ∧ sentAt ≤ now ∧
    (client.notifyPongServer now sent.2.value).1.client = client.client ∧
    Measures now (client.notifyPongServer now sent.2.value).1 { wire with down := rest } := by
  have hvalue : sent.2.value.toLongLong = some (sentAt : Int) := by
    rw [hsent]
    exact QJsonValue.toLongLong_ofInt sentAt
  have hstamp : pongStamp sent = some (sentAt : Int) := by
    rw [pongStamp, hvalue, hsent]
    rfl
  have hstamps : wire.stamps = (sentAt : Int) :: Wire.stamps { wire with down := rest } := by
    simp only [Wire.stamps, hdown, List.filterMap_cons_some hstamp, List.cons_append]
  obtain ⟨hnewest, hnow⟩ := h.bounds sentAt (hstamps ▸ List.mem_cons_self)
  have hordered := h.ordered
  rw [hstamps, List.pairwise_cons] at hordered
  simp only [notifyPongServer, hvalue, if_pos (Or.inr hnewest : _ ∨ _)]
  refine ⟨trivial, rfl, rfl, Int.ofNat_le.mp hnow, rfl, h.heartbeatTimer, ⟨now, le_rfl, rfl⟩,
    .inl rfl, hordered.2, fun stamp hmem => ⟨hordered.1 stamp hmem, ?_⟩⟩
  exact (h.bounds stamp (hstamps ▸ List.mem_cons_of_mem _ hmem)).2

/-- A packet that is no pong is no matter. -/
theorem stamps_readDown (hdown : wire.down = sent :: rest) (hpong : isPong sent.2 = false) :
    Wire.stamps { wire with down := rest } = wire.stamps := by
  have hnone : pongStamp sent = none := by
    rw [pongStamp, hpong]
    rfl
  simp only [Wire.stamps, hdown, List.filterMap_cons_none hnone]

/-- A client that has just connected has asked nothing yet. -/
theorem Measures.connected {next : Nat} (hnext : next ≤ now + pingBy)
    (hstamps : wire.stamps = []) : Measures now (client.connected now next true) wire := by
  refine ⟨⟨next, hnext, rfl⟩, ⟨now, le_rfl, rfl⟩, .inl rfl, ?_, ?_⟩ <;> rw [hstamps]
  · exact List.Pairwise.nil
  · exact fun stamp hstamp => absurd hstamp List.not_mem_nil

end Measures

theorem Sound.tick (h : self.Sound) (elapsed : Nat) :
    Sound { self with now := self.now + elapsed } := by
  have hle : self.now ≤ self.now + elapsed := Nat.le_add_right _ _
  refine ⟨h.made, h.bound, h.unopened, h.roundEventLog,
    fun socket => honest_mono (h.honest socket) hle, h.newest.trans (Int.ofNat_le.mpr hle),
    fun hattached => ?_⟩
  obtain ⟨socket, hsocket, hmeasures⟩ := h.measures hattached
  exact ⟨socket, hsocket, hmeasures.mono hle⟩

theorem Sound.slot (h : self.Sound) {result : PingingClient × List ClientEffect}
    (hslot : Slot self.client result.1) (hfree : PingFree result.2) :
    (self.fromClient result).Sound := by
  have hwires (socket : Socket) : ((self.fromClient result).wires socket).Honest self.now ∧
      ((self.fromClient result).wires socket).stamps = (self.wires socket).stamps ∧
      ((self.fromClient result).wires socket).isOpen = (self.wires socket).isOpen := by
    unfold fromClient onWireOf
    dsimp only
    split
    · exact ⟨honest_sendUp (h.honest socket) hfree, stamps_sendUp hfree, rfl⟩
    · exact ⟨h.honest socket, rfl, rfl⟩
  refine ⟨fun socket hsocket => ?_, h.bound, fun socket hfresh => ?_, h.roundEventLog,
    fun socket => (hwires socket).1, ?_, fun hattached => ?_⟩
  · cases hslot with
    | goesOn hsame => exact h.made socket (hsame ▸ hsocket)
    | letsGo hkept =>
      obtain hnone | hsame := hkept
      · cases hnone.symm.trans hsocket
      · exact h.made socket (hsame ▸ hsocket)
  · exact (hwires socket).2.2.trans (h.unopened socket hfresh)
  · change result.1.newestAnsweredPing ≤ self.now
    cases hslot with
    | goesOn _ _ _ _ hnewest => exact hnewest ▸ h.newest
    | letsGo _ _ hnewest =>
      obtain hnone | hsame := hnewest
      · rw [hnone]
        omega
      · exact hsame ▸ h.newest
  · have hbefore : self.client.client.attached = true := by
      cases hslot with
      | goesOn _ hbefore => exact hbefore hattached
      | letsGo _ hgone => exact absurd (hattached.symm.trans hgone) Bool.noConfusion
    obtain ⟨socket, hsocket, hmeasures⟩ := h.measures hbefore
    obtain ⟨hsame, -, hmeasures⟩ := hmeasures.slot hslot hattached
    exact ⟨socket, hsame.trans hsocket, hmeasures.of_stamps (hwires socket).2.1⟩

/-- What leaves the client alone, and every ping its turn. -/
theorem Sound.of_stamps (h : self.Sound) (hnow : self'.now = self.now)
    (hmade : self'.made = self.made) (hclient : self'.client = self.client)
    (hbound : ∀ socket, self'.server.conn.socket = some socket →
      socket < self.made ∧ socket ∈ self'.server.conn.wired)
    (hlog : ∀ packet ∈ self'.server.conn.roundEventLog, isPong packet = false)
    (hwires : ∀ socket, (self'.wires socket).Honest self.now ∧
      (self'.wires socket).stamps = (self.wires socket).stamps ∧
      ((self.wires socket).isOpen = false → (self'.wires socket).isOpen = false)) :
    self'.Sound := by
  refine ⟨?_, ?_, ?_, hlog, ?_, ?_, ?_⟩ <;> simp only [hclient, hnow, hmade]
  · exact h.made
  · exact hbound
  · exact fun socket hfresh => (hwires socket).2.2 (h.unopened socket hfresh)
  · exact fun socket => (hwires socket).1
  · exact h.newest
  · intro hattached
    obtain ⟨socket, hsocket, hmeasures⟩ := h.measures hattached
    exact ⟨socket, hsocket, hmeasures.of_stamps (hwires socket).2.1⟩

theorem heartbeatTimeout_some {client : PingingClient} {socket : Socket}
    (hsocket : client.client.socket = some socket) (now next : Nat) :
    client.heartbeatTimeout now next =
      (notePing now { client with heartbeatTimer := some next },
        [.sendPacket (pingPacket now)]) := by
  unfold heartbeatTimeout
  simp only [hsocket, Option.isNone_some, Bool.false_eq_true, if_false]

theorem wires_ping {socket : Socket} (hsocket : self.client.client.socket = some socket)
    {next : Nat} {other : Socket} :
    (self.fromClient (self.client.heartbeatTimeout self.now next)).wires other =
      if socket = other then sendUp self.now [pingPacket self.now] (self.wires other)
      else self.wires other := by
  simp only [fromClient, onWireOf, heartbeatTimeout_some hsocket, notePing, hsocket,
    Option.some.injEq]
  rfl

/-- A ping goes out, if there is a socket to send it to. -/
theorem Sound.ping (h : self.Sound) {next : Nat} (hnext : next ≤ self.now + pingBy) :
    (self.fromClient (self.client.heartbeatTimeout self.now next)).Sound := by
  cases hsocket : self.client.client.socket with
  | none =>
    have hresult : self.client.heartbeatTimeout self.now next =
        ({ self.client with heartbeatTimer := some next }, []) := by
      unfold heartbeatTimeout
      simp only [hsocket, Option.isNone_none, if_true]
    have hwires : (self.fromClient ({ self.client with heartbeatTimer := some next }, [])).wires =
        self.wires := fromClient_wires rfl
    rw [hresult]
    refine ⟨h.made, h.bound, hwires ▸ h.unopened, h.roundEventLog, hwires ▸ h.honest, h.newest,
      fun hattached => ?_⟩
    obtain ⟨socket, hsome, -⟩ := h.measures hattached
    cases hsocket.symm.trans hsome
  | some socket =>
    have hresult := heartbeatTimeout_some hsocket self.now next
    refine ⟨?_, h.bound, fun other hfresh => ?_, h.roundEventLog, fun other => ?_, ?_,
      fun hattached => ?_⟩
    · rw [fromClient_client, heartbeatTimeout_client]
      exact h.made
    · rw [wires_ping hsocket]
      have hclosed := h.unopened other hfresh
      split <;> exact hclosed
    · rw [wires_ping hsocket]
      split
      · exact honest_ping (h.honest other)
      · exact h.honest other
    · rw [fromClient_client, hresult]
      exact h.newest
    · rw [fromClient_client, heartbeatTimeout_client] at hattached
      obtain ⟨same, hsame, hmeasures⟩ := h.measures hattached
      obtain rfl : socket = same := Option.some.inj (hsocket.symm.trans hsame)
      refine ⟨socket, by rw [fromClient_client, heartbeatTimeout_client, hsocket], ?_⟩
      rw [wires_ping hsocket, if_pos rfl, fromClient_client, hresult]
      exact hmeasures.ping hnext h.newest

/-- The client has taken a packet from its wire. -/
def tookDown (self : Heartbeat) (socket : Socket) (rest : List (Nat × Packet)) : Heartbeat :=
  self.onWire socket fun wire => { wire with down := rest }

theorem tookDown_wires {socket : Socket} {other : Socket} :
    (self.tookDown socket rest).wires other =
      if socket = other then { self.wires other with down := rest } else self.wires other := rfl

theorem clientReads_cases (h : self.clientReads = some self') : ∃ socket sent rest result,
    self.client.client.socket = some socket ∧ (self.wires socket).down = sent :: rest ∧
      self.client.socketPacketReceived self.now sent.2 = some result ∧
      self' = (self.tookDown socket rest).fromClient result := by
  unfold clientReads at h
  split at h
  · cases h
  · next socket hsocket =>
    split at h
    · cases h
    · next at' packet rest hdown =>
      obtain ⟨result, hresult, rfl⟩ := Option.map_eq_some_iff.mp h
      exact ⟨socket, (at', packet), rest, result, hsocket, hdown, hresult, rfl⟩

/-- What the reading of a pong comes to. -/
theorem Sound.pong (h : self.Sound) {socket : Socket} {result : PingingClient × List ClientEffect}
    (hsocket : self.client.client.socket = some socket)
    (hdown : (self.wires socket).down = sent :: rest) (hpong : isPong sent.2 = true)
    (hreads : self.client.socketPacketReceived self.now sent.2 = some result) :
    ((self.tookDown socket rest).fromClient result).Sound ∧
      ∃ sentAt ≤ self.now, sent.2 = pongPacket (.ofInt sentAt) ∧
        result.1.newestAnsweredPing = sentAt ∧ result.1.roundTripTime = self.now - sentAt ∧
        result.1.client = self.client.client := by
  obtain ⟨hattached, rfl⟩ := socketPacketReceived_pong hpong hreads
  obtain ⟨sentAt, -, hsent⟩ := ((h.honest socket).down sent (hdown ▸ List.mem_cons_self)).2 hpong
  obtain ⟨same, hsame, hmeasures⟩ := h.measures hattached
  obtain rfl : socket = same := Option.some.inj (hsocket.symm.trans hsame)
  obtain ⟨hsilent, hnewest, hreading, hnow, hclient, hmeasures⟩ := hmeasures.pong hdown hsent
  generalize self.client.notifyPongServer self.now sent.2.value = result at *
  have hwires (other : Socket) : ((self.tookDown socket rest).fromClient result).wires other =
      if socket = other then { self.wires other with down := rest } else self.wires other := by
    rw [fromClient_wires (hsilent ▸ rfl)]
    rfl
  refine ⟨⟨fun other hother => ?_, h.bound, fun other hfresh => ?_, h.roundEventLog,
    fun other => ?_, ?_, fun _ => ⟨socket, ?_, ?_⟩⟩, sentAt, hnow, hsent, hnewest, hreading,
    hclient⟩
  · exact h.made other (hclient ▸ hother)
  · rw [hwires]
    have hclosed := h.unopened other hfresh
    split <;> exact hclosed
  · rw [hwires]
    have hhonest := h.honest other
    split
    · next heq =>
      subst heq
      exact ⟨hhonest.up, fun sent hsent => hhonest.down sent (hdown ▸ List.mem_cons_of_mem _ hsent)⟩
    · exact hhonest
  · change result.1.newestAnsweredPing ≤ self.now
    rw [hnewest]
    exact Int.ofNat_le.mpr hnow
  · change result.1.client.socket = some socket
    rw [hclient]
    exact hsocket
  · rw [hwires, if_pos rfl]
    exact hmeasures

theorem Sound.tookDown (h : self.Sound) {socket : Socket}
    (hdown : (self.wires socket).down = sent :: rest) (hpong : isPong sent.2 = false) :
    (self.tookDown socket rest).Sound := by
  refine h.of_stamps rfl rfl rfl h.bound h.roundEventLog fun other => ?_
  simp only [Heartbeat.tookDown, onWire]
  split
  · next heq =>
    subst heq
    have hhonest := h.honest socket
    exact ⟨⟨hhonest.up, fun sent hsent =>
      hhonest.down sent (hdown ▸ List.mem_cons_of_mem _ hsent)⟩, stamps_readDown hdown hpong, id⟩
  · exact ⟨h.honest other, rfl, id⟩

/-- The connection is new, and the client starts to measure it. -/
theorem Sound.connects (h : self.Sound) {client : ClientP} {known : Bool} {next : Nat}
    (hsocket : client.socket = some self.made) (hattached : client.attached = known)
    (hnext : next ≤ self.now + pingBy) :
    (self.connects known (PingingClient.connected self.now next known
      { self.client with client := client })).Sound := by
  have hclient : (PingingClient.connected self.now next known
      { self.client with client := client }).client = client := by
    cases known <;> rfl
  refine ⟨fun socket hsome => ?_, fun socket hbound => ?_, fun socket hfresh => ?_, h.roundEventLog,
    fun socket => ?_, ?_, fun hknown => ?_⟩
  · change (PingingClient.connected _ _ _ _).client.socket = some socket at hsome
    rw [hclient, hsocket] at hsome
    cases hsome
    exact Nat.lt_succ_self _
  · exact ⟨Nat.lt_succ_of_lt (h.bound socket hbound).1, (h.bound socket hbound).2⟩
  · change self.made + 1 ≤ socket at hfresh
    simp only [Heartbeat.connects, if_neg (Nat.ne_of_lt hfresh)]
    exact h.unopened socket (Nat.le_of_succ_le hfresh)
  · simp only [Heartbeat.connects]
    split
    · refine ⟨fun sent hsent => absurd hsent List.not_mem_nil, fun sent hsent => ?_⟩
      dsimp only at hsent
      split at hsent
      · rw [List.mem_singleton.mp hsent]
        exact ⟨le_rfl, fun hpong => absurd hpong Bool.false_ne_true⟩
      · cases hsent
    · exact h.honest socket
  · have hnewest := h.newest
    cases known <;> exact hnewest
  · change (PingingClient.connected _ _ _ _).client.attached = true at hknown
    rw [hclient, hattached] at hknown
    subst hknown
    refine ⟨self.made, hsocket, .connected hnext ?_⟩
    simp only [Heartbeat.connects, if_true]
    rfl

/-- What the server sends, but for a pong, is no matter to any wire. -/
theorem Sound.wires_fromServer (h : self.Sound) {result : WatchedConnection × List Effect}
    (hfree : ∀ packet ∈ result.2.filterMap Effect.packet, isPong packet = false)
    (socket : Socket) : ((self.fromServer result).wires socket).Honest self.now ∧
      ((self.fromServer result).wires socket).stamps = (self.wires socket).stamps ∧
      ((self.wires socket).isOpen = false →
        ((self.fromServer result).wires socket).isOpen = false) := by
  unfold fromServer onWireOf
  dsimp only
  split
  · exact ⟨honest_sendDown (h.honest socket) hfree, stamps_sendDown hfree, id⟩
  · exact ⟨h.honest socket, rfl, id⟩

/-- A slot of the connection; what it binds is a connection there is. -/
theorem Sound.act (h : self.Sound) {l : Session.Step} {result : WatchedConnection × List Effect}
    (hact : self.server.act self.now l = .ok result)
    (hmade : ∀ socket, (l.event = .setSocket socket ∨
      ∃ lastRoundEventSeq, l.event = .reconnect socket lastRoundEventSeq) → socket < self.made) :
    (self.fromServer result).Sound := by
  obtain ⟨hlog, hfree⟩ := WatchedConnection.pongFree_act h.roundEventLog hact
  refine h.of_stamps rfl rfl rfl (fun socket hsocket => ?_) hlog fun socket => ?_
  · cases slot_act hact with
    | binds bound hevent hbound hwired =>
      obtain rfl := Option.some.inj (hbound.symm.trans hsocket)
      exact ⟨hmade bound hevent, hwired ▸ List.mem_append_right _ (List.mem_singleton_self _)⟩
    | closes hnone => cases hnone.symm.trans hsocket
    | hears _ _ hsame hwired => exact hwired ▸ h.bound socket (hsame ▸ hsocket)
    | stays _ hsame hwired => exact hwired ▸ h.bound socket (hsame ▸ hsocket)
  · exact h.wires_fromServer hfree socket

/-- The server has taken a packet from a wire, and answered it if it was a ping. -/
def tookUp (self : Heartbeat) (socket : Socket) (sent : Nat × Packet) (rest : List (Nat × Packet)) :
    Heartbeat :=
  self.onWire socket fun wire => answer self.now sent.2 { wire with up := rest }

theorem stamps_tookUp {socket : Socket} (hup : (self.wires socket).up = sent :: rest)
    (other : Socket) :
    ((self.tookUp socket sent rest).wires other).stamps = (self.wires other).stamps := by
  simp only [tookUp, onWire]
  split
  · next heq =>
    subst heq
    exact stamps_answer hup
  · rfl

theorem serverReads_cases {socket : Socket} {sync : Bool} {random : RockPaperScissors}
    (h : self.serverReads socket sync random = some self') : ∃ sent rest,
      (self.wires socket).isOpen = true ∧ (self.wires socket).up = sent :: rest ∧
      ((socket ∉ self.server.conn.wired ∧ self' = self.tookUp socket sent rest) ∨
        socket ∈ self.server.conn.wired ∧ ∃ result,
          self.server.act self.now ⟨.packetReceived sent.2, sync, random⟩ = .ok result ∧
          self' = (self.tookUp socket sent rest).fromServer result) := by
  unfold serverReads at h
  obtain ⟨hopen, h⟩ := Option.ite_none_right_eq_some.mp h
  split at h
  · cases h
  · next at' packet rest hup =>
    refine ⟨(at', packet), rest, hopen, hup, ?_⟩
    split at h
    · next hwired =>
      obtain ⟨result, hresult, rfl⟩ := Option.map_eq_some_iff.mp h
      exact .inr ⟨hwired, result, Except.toOption_eq_some.mp hresult, rfl⟩
    · next hwired =>
      cases h
      exact .inl ⟨hwired, rfl⟩

theorem Sound.tookUp (h : self.Sound) {socket : Socket}
    (hup : (self.wires socket).up = sent :: rest) : (self.tookUp socket sent rest).Sound := by
  refine h.of_stamps rfl rfl rfl h.bound h.roundEventLog fun other => ?_
  simp only [Heartbeat.tookUp, onWire]
  split
  · next heq =>
    subst heq
    refine ⟨honest_answer (h.honest socket) hup, stamps_answer hup, fun hclosed => ?_⟩
    unfold answer
    split <;> exact hclosed
  · exact ⟨h.honest other, rfl, id⟩

/-- A client that takes its connection for gone has none. -/
theorem Sound.handleSocketGone (h : self.Sound) :
    Slot self.client (PingingClient.handleSocketGone { self.client with pongDeadline := none }).1 ∧
      (PingingClient.handleSocketGone { self.client with pongDeadline := none }).1.client.attached =
        false := by
  by_cases hsocket : self.client.client.socket = none
  · have hdetached : self.client.client.attached = false := by
      rw [Bool.eq_false_iff]
      intro hattached
      obtain ⟨socket, hsome, -⟩ := h.measures hattached
      cases hsocket.symm.trans hsome
    have hslot : Slot { self.client with pongDeadline := none } _ := slot_handleSocketGone
    cases hslot with
    | goesOn hsame hattached _ _ hnewest =>
      have hgone := Bool.eq_false_iff.mpr fun hafter =>
        absurd ((hattached hafter).symm.trans hdetached) Bool.noConfusion
      exact ⟨.letsGo (.inr hsame) hgone (.inr hnewest), hgone⟩
    | letsGo hsame hgone hnewest => exact ⟨.letsGo hsame hgone hnewest, hgone⟩
  · have hbound : ({ self.client with pongDeadline := none } : PingingClient).client.socket ≠ none :=
      hsocket
    obtain ⟨hgone, hsame, hnewest⟩ := handleSocketGone_client hbound
    exact ⟨.letsGo (.inr hsame) hgone (.inl hnewest), hgone⟩

/-- A deadline that runs out ends the connection or opens another window. -/
theorem Sound.expires (h : self.Sound) :
    (self.fromClient (self.client.pongDeadlinePassed self.now)).Sound := by
  cases hasked : self.client.asked self.now with
  | true =>
    rw [pongDeadlinePassed_of_asked hasked]
    refine h.slot h.handleSocketGone.1 ?_
    unfold PingingClient.handleSocketGone
    dsimp only
    split <;> exact ClientP.pingFree_handleSocketGone
  | false =>
    rw [pongDeadlinePassed_of_not_asked hasked]
    have hwires : (self.fromClient (PingingClient.armPongDeadline self.now
        { self.client with pongDeadline := none }, [])).wires = self.wires := fromClient_wires rfl
    refine ⟨h.made, h.bound, hwires ▸ h.unopened, h.roundEventLog, hwires ▸ h.honest, h.newest,
      fun hattached => ?_⟩
    obtain ⟨socket, hsocket, hmeasures⟩ := h.measures hattached
    exact ⟨socket, hsocket, hwires ▸ hmeasures.arm⟩

/-- Everything an event can do. -/
inductive Moves (link : Heartbeat) : Event → Heartbeat → Prop where
  | tick (elapsed : Nat) : Moves link (.tick elapsed) { link with now := link.now + elapsed }
  | ping {due next : Nat} (hdue : link.client.heartbeatTimer = some due) (hle : due ≤ link.now)
      (hnext : next ≤ link.now + pingBy) : Moves link (.heartbeatTimeout next)
        (link.fromClient (link.client.heartbeatTimeout link.now next))
  | expires {started : Nat} (hdeadline : link.client.pongDeadline = some started)
      (hout : ranOut pongTimeout started link.now = true) : Moves link .pongDeadlinePassed
        (link.fromClient (link.client.pongDeadlinePassed link.now))
  | pong {socket : Socket} {sent : Nat × Packet} {rest : List (Nat × Packet)}
      {result : PingingClient × List ClientEffect}
      (hsocket : link.client.client.socket = some socket)
      (hdown : (link.wires socket).down = sent :: rest) (hpong : isPong sent.2 = true)
      (hreads : link.client.socketPacketReceived link.now sent.2 = some result) :
      Moves link .clientReads ((link.tookDown socket rest).fromClient result)
  | reads {socket : Socket} {sent : Nat × Packet} {rest : List (Nat × Packet)}
      {result : PingingClient × List ClientEffect}
      (hsocket : link.client.client.socket = some socket)
      (hdown : (link.wires socket).down = sent :: rest) (hpong : isPong sent.2 = false)
      (hslot : Slot link.client result.1) (hfree : PingFree result.2) :
      Moves link .clientReads ((link.tookDown socket rest).fromClient result)
  | connects {event : Event} {client : ClientP} {known : Bool} {next : Nat}
      (hevent : (∃ initialState, event = .connectToHost known initialState next) ∨
        event = .reconnectTimeout known next)
      (hsocket : client.socket = some link.made) (hattached : client.attached = known)
      (hnext : next ≤ link.now + pingBy) : Moves link event (link.connects known
        (PingingClient.connected link.now next known { link.client with client := client }))
  | client {event : ClientEvent} {result : PingingClient × List ClientEffect}
      (hslot : Slot link.client result.1) (hfree : PingFree result.2) :
      Moves link (.client event) (link.fromClient result)
  | serverAnswers {socket : Socket} {sync : Bool} {random : RockPaperScissors} {sent : Nat × Packet}
      {rest : List (Nat × Packet)} (hup : (link.wires socket).up = sent :: rest)
      (hwired : socket ∉ link.server.conn.wired) :
      Moves link (.serverReads socket sync random) (link.tookUp socket sent rest)
  | serverHears {socket : Socket} {sync : Bool} {random : RockPaperScissors} {sent : Nat × Packet}
      {rest : List (Nat × Packet)} {result : WatchedConnection × List Effect}
      (hup : (link.wires socket).up = sent :: rest) (hwired : socket ∈ link.server.conn.wired)
      (hact : link.server.act link.now ⟨.packetReceived sent.2, sync, random⟩ = .ok result) :
      Moves link (.serverReads socket sync random)
        ((link.tookUp socket sent rest).fromServer result)
  | server {l : Session.Step} {result : WatchedConnection × List Effect}
      (hruns : link.runs l.event = true) (hact : link.server.act link.now l = .ok result) :
      Moves link (.server l) (link.fromServer result)
  | notify (notification : Notification) : Moves link (.notify notification)
      (link.fromServer (⟨(link.server.conn.notify notification).1, link.server.heartbeatDeadline⟩,
        (link.server.conn.notify notification).2))
  | serverNotes {event : Event} {conn : ServerConnectionP}
      (hevent : event = .clearRoundEventLog ∨ ∃ state, event = .stateChange state)
      (hsocket : conn.socket = link.server.conn.socket) (hwired : conn.wired = link.server.conn.wired)
      (hlog : ∀ packet ∈ conn.roundEventLog, packet ∈ link.server.conn.roundEventLog) :
      Moves link event (link.withConn conn)
  | serverCloses (socket : Socket) : Moves link (.serverCloses socket)
      (link.onWire socket fun wire => { wire with isOpen := false })

theorem handle_moves {event : Event} (h : self.handle event = some self') :
    Moves self event self' := by
  cases event with
  | tick elapsed =>
    cases h
    exact .tick elapsed
  | heartbeatTimeout next =>
    obtain ⟨hguard, h⟩ := Option.ite_none_right_eq_some.mp h
    cases h
    rw [Bool.and_eq_true] at hguard
    obtain ⟨due, hdue, hle⟩ := (Option.any_eq_true _ _).mp hguard.1
    exact .ping hdue (of_decide_eq_true hle) (isNext_iff.mp hguard.2).2
  | pongDeadlinePassed =>
    obtain ⟨hguard, h⟩ := Option.ite_none_right_eq_some.mp h
    cases h
    obtain ⟨started, hdeadline, hout⟩ := (Option.any_eq_true _ _).mp hguard
    exact .expires hdeadline hout
  | clientReads =>
    obtain ⟨socket, sent, rest, result, hsocket, hdown, hreads, rfl⟩ := clientReads_cases h
    cases hpong : isPong sent.2 with
    | true => exact .pong hsocket hdown hpong hreads
    | false =>
      obtain ⟨hslot, hfree⟩ := socketPacketReceived_cases hpong hreads
      exact .reads hsocket hdown hpong hslot hfree
  | connectToHost known initialState next =>
    obtain ⟨hnext, h⟩ := Option.ite_none_right_eq_some.mp h
    cases h
    exact .connects (.inl ⟨initialState, rfl⟩) rfl rfl (isNext_iff.mp hnext).2
  | reconnectTimeout known next =>
    obtain ⟨hnext, h⟩ := Option.ite_none_right_eq_some.mp h
    obtain ⟨result, hresult, rfl⟩ := Option.map_eq_some_iff.mp h
    obtain ⟨after, hafter, rfl⟩ := Option.map_eq_some_iff.mp hresult
    obtain ⟨-, hafter⟩ := Option.ite_none_right_eq_some.mp hafter
    cases hafter
    refine .connects (.inr rfl) ?_ ?_ (isNext_iff.mp hnext).2 <;> cases known <;> rfl
  | client event =>
    obtain ⟨hown, h⟩ := Option.ite_none_right_eq_some.mp h
    obtain ⟨result, hresult, rfl⟩ := Option.map_eq_some_iff.mp h
    obtain ⟨hslot, hfree⟩ := PingingClient.handle_cases hown hresult
    exact .client hslot hfree
  | serverReads socket sync random =>
    obtain ⟨sent, rest, -, hup, ⟨hwired, rfl⟩ | ⟨hwired, result, hact, rfl⟩⟩ := serverReads_cases h
    · exact .serverAnswers hup hwired
    · exact .serverHears hup hwired hact
  | server l =>
    obtain ⟨hruns, h⟩ := Option.ite_none_right_eq_some.mp h
    obtain ⟨result, hresult, rfl⟩ := Option.map_eq_some_iff.mp h
    exact .server hruns (Except.toOption_eq_some.mp hresult)
  | notify notification =>
    cases h
    exact .notify notification
  | clearRoundEventLog =>
    cases h
    exact .serverNotes (.inl rfl) rfl rfl fun _ hpacket => absurd hpacket List.not_mem_nil
  | stateChange state =>
    cases h
    exact .serverNotes (.inr ⟨state, rfl⟩) rfl rfl fun _ => id
  | serverCloses socket =>
    cases h
    exact .serverCloses socket

theorem Sound.notify (h : self.Sound) (notification : Notification) :
    (self.fromServer (⟨(self.server.conn.notify notification).1, self.server.heartbeatDeadline⟩,
      (self.server.conn.notify notification).2)).Sound := by
  have hnotify := self.server.conn.notifies_notify notification
  obtain ⟨hlog, hfree⟩ := ServerConnectionP.pongFree_notify h.roundEventLog notification
  have hwired : (self.server.conn.notify notification).1.wired = self.server.conn.wired := by
    cases notification <;> rfl
  refine h.of_stamps rfl rfl rfl (fun socket hsocket => ?_) hlog fun socket => ?_
  · change socket < self.made ∧ socket ∈ (self.server.conn.notify notification).1.wired
    rw [hwired]
    exact h.bound socket (hnotify.socket ▸ hsocket)
  · exact h.wires_fromServer hfree socket

/-- A connection that the server has yet to close is one there is. -/
theorem Sound.lt_made (h : self.Sound) {socket : Socket}
    (hopen : (self.wires socket).isOpen = true) : socket < self.made := by
  by_contra hfresh
  rw [h.unopened socket (Nat.not_lt.mp hfresh)] at hopen
  cases hopen

theorem Sound.handle (h : self.Sound) {event : Event} (hstep : self.handle event = some self') :
    self'.Sound := by
  cases handle_moves hstep with
  | tick elapsed => exact h.tick elapsed
  | ping _ _ hnext => exact h.ping hnext
  | expires => exact h.expires
  | pong hsocket hdown hpong hreads => exact (h.pong hsocket hdown hpong hreads).1
  | reads hsocket hdown hpong hslot hfree =>
    have hread := h.tookDown hdown hpong
    exact hread.slot hslot hfree
  | connects _ hsocket hattached hnext => exact h.connects hsocket hattached hnext
  | client hslot hfree => exact h.slot hslot hfree
  | serverAnswers hup => exact h.tookUp hup
  | serverHears hup _ hact =>
    refine (h.tookUp hup).act hact fun bound hevent => ?_
    obtain hevent | ⟨_, hevent⟩ := hevent <;> cases hevent
  | server hruns hact =>
    refine h.act hact fun socket hevent => h.lt_made ?_
    obtain hevent | ⟨_, hevent⟩ := hevent <;>
      · rw [hevent] at hruns
        exact (Bool.and_eq_true _ _ ▸ hruns).1
  | notify notification => exact h.notify notification
  | serverNotes _ hsocket hwired hlog =>
    refine h.of_stamps rfl rfl rfl (fun socket hbound => ?_)
      (fun packet hpacket => h.roundEventLog packet (hlog packet hpacket))
      fun socket => ⟨h.honest socket, rfl, id⟩
    exact hwired ▸ h.bound socket (hsocket ▸ hbound)
  | serverCloses socket =>
    refine h.of_stamps rfl rfl rfl h.bound h.roundEventLog fun other => ?_
    simp only [onWire]
    split
    · exact ⟨⟨(h.honest other).up, (h.honest other).down⟩, rfl, fun _ => rfl⟩
    · exact ⟨h.honest other, rfl, id⟩

theorem sound_invariant : system.Invariant Sound where
  init self hinit := by
    obtain ⟨versionNumber, now, objectName, screenName, agent, logicConfiguration, requestTimeout,
      rfl⟩ := hinit
    refine ⟨fun _ hsocket => ?_, fun _ hsocket => ?_, fun _ _ => rfl, fun _ hpacket => ?_,
      fun _ => ⟨fun _ hsent => ?_, fun _ hsent => ?_⟩, ?_, fun hattached => ?_⟩
    · cases hsocket
    · cases hsocket
    · cases hpacket
    · cases hsent
    · cases hsent
    · change (-1 : Int) ≤ now
      omega
    · cases hattached
  step _ _ _ h hstep := h.handle hstep

end Heartbeat

end QMdmmNetworking
