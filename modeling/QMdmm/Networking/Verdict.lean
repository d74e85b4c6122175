import QMdmm.Networking.Measures

namespace QMdmmNetworking

open QMdmmCore Data Protocol

namespace Heartbeat

open PingingClient WatchedConnection

variable {now : Nat} {wire : Wire} {self self' : Heartbeat} {out : List Int}

/-- A ping that is yet to be heard of is on its way, or its pong is. -/
theorem mem_stamps (h : wire.Honest now) {stamp : Int} (hstamp : stamp ∈ wire.stamps) :
    ∃ sentAt : Nat, stamp = sentAt ∧ ((sentAt, pingPacket sentAt) ∈ wire.up ∨
      ∃ answeredAt ≥ sentAt, (answeredAt, pongPacket (.ofInt sentAt)) ∈ wire.down) := by
  obtain hdown | hup := List.mem_append.mp hstamp
  · obtain ⟨sent, hsent, hof⟩ := List.mem_filterMap.mp hdown
    obtain ⟨hpong, hvalue⟩ := Option.ite_none_right_eq_some.mp hof
    obtain ⟨sentAt, hle, hpacket⟩ := (h.down sent hsent).2 hpong
    rw [hpacket] at hvalue
    have hstamp := hvalue.symm.trans (QJsonValue.toLongLong_ofInt sentAt)
    exact ⟨sentAt, Option.some.inj hstamp, .inr ⟨sent.1, hle, hpacket ▸ hsent⟩⟩
  · obtain ⟨sent, hsent, hof⟩ := List.mem_filterMap.mp hup
    obtain ⟨hping, hvalue⟩ := Option.ite_none_right_eq_some.mp hof
    have hpacket := (h.up sent hsent).2 hping
    rw [hpacket] at hvalue
    have hstamp := hvalue.symm.trans (QJsonValue.toLongLong_ofInt sent.1)
    exact ⟨sent.1, Option.some.inj hstamp, .inl (hpacket ▸ hsent)⟩

/-- A deadline that ends the connection had asked. -/
theorem asked_of_expires (hattached : self.client.client.attached = true)
    (hstep : self.handle .pongDeadlinePassed = some self')
    (hgone : self'.client.client.attached = false) : self.client.asked self.now = true := by
  obtain ⟨-, hstep⟩ := Option.ite_none_right_eq_some.mp hstep
  cases hstep
  by_contra hnot
  change (self.client.pongDeadlinePassed self.now).1.client.attached = false at hgone
  rw [pongDeadlinePassed_of_not_asked (Bool.not_eq_true _ ▸ hnot)] at hgone
  exact absurd (hattached.symm.trans hgone) Bool.noConfusion

/-- The ping that the next packet the client reads is the answer to. -/
def answered (self : Heartbeat) : Option Int :=
  self.client.client.socket.bind fun socket => (self.wires socket).down.head?.bind pongStamp

/-- The pings that the client has sent over the connection it has, in order, but for those
whose pongs it has read. -/
def noteOut (self : Heartbeat) (event : Event) (_ : Heartbeat) (out : List Int) : List Int :=
  match event with
  | .heartbeatTimeout _ =>
    if self.client.client.socket.isSome then out ++ [(self.now : Int)] else out
  | .connectToHost _ _ _ | .reconnectTimeout _ _ => []
  | .clientReads => self.answered.elim out out.erase
  | _ => out

/-- What is out is what the wire of the client still holds, in the same order. -/
def Traces (link : Heartbeat) (out : List Int) : Prop :=
  link.client.client.attached = true → ∀ socket, link.client.client.socket = some socket →
    (link.wires socket).stamps = out

/-- A step that neither connects, nor pings, nor reads a pong. -/
theorem Traces.of_stamps (h : Traces self out)
    (hclient : self'.client.client.attached = true → self.client.client.attached = true ∧
      self'.client.client.socket = self.client.client.socket)
    (hstamps : ∀ socket, (self'.wires socket).stamps = (self.wires socket).stamps) :
    Traces self' out := by
  intro hattached socket hsocket
  obtain ⟨hbefore, hsame⟩ := hclient hattached
  rw [hstamps, h hbefore socket (hsame ▸ hsocket)]

theorem Traces.slot (h : Traces self out) {result : PingingClient × List ClientEffect}
    (hslot : Slot self.client result.1) (hfree : PingFree result.2) :
    Traces (self.fromClient result) out := by
  refine h.of_stamps (fun hattached => ?_) (stamps_fromClient hfree)
  cases hslot with
  | goesOn hsame hbefore => exact ⟨hbefore hattached, hsame⟩
  | letsGo _ hgone => exact absurd (hattached.symm.trans hgone) Bool.noConfusion

theorem Traces.ping (h : Traces self out) {next : Nat} :
    Traces (self.fromClient (self.client.heartbeatTimeout self.now next))
      (noteOut self (.heartbeatTimeout next) self' out) := by
  intro hattached socket hsocket
  rw [fromClient_client, heartbeatTimeout_client] at hattached hsocket
  rw [wires_ping hsocket, if_pos rfl, stamps_ping, h hattached socket hsocket, noteOut, hsocket]
  rfl

/-- The deadline sends nothing. -/
theorem Traces.expires (h : Traces self out) (hsound : self.Sound) :
    Traces (self.fromClient (self.client.pongDeadlinePassed self.now)) out := by
  cases hasked : self.client.asked self.now with
  | true =>
    intro hattached
    rw [pongDeadlinePassed_of_asked hasked] at hattached
    exact absurd (hattached.symm.trans hsound.handleSocketGone.2) Bool.noConfusion
  | false =>
    rw [pongDeadlinePassed_of_not_asked hasked]
    exact h.of_stamps (fun hattached => ⟨hattached, rfl⟩)
      (stamps_fromClient (ClientP.pingFree_of_nil rfl))

/-- The pong that is read answers the ping that has been out for longest. -/
theorem Traces.oldest (h : Traces self out) (hattached : self.client.client.attached = true)
    {socket : Socket} (hsocket : self.client.client.socket = some socket) {sent : Nat × Packet}
    {rest : List (Nat × Packet)} (hdown : (self.wires socket).down = sent :: rest) {stamp : Int}
    (hstamp : pongStamp sent = some stamp) :
    out = stamp :: Wire.stamps { self.wires socket with down := rest } := by
  rw [← h hattached socket hsocket]
  simp only [Wire.stamps, hdown, List.filterMap_cons_some hstamp, List.cons_append]

theorem pongStamp_of_eq {sent : Nat × Packet} {sentAt : Nat}
    (hsent : sent.2 = pongPacket (.ofInt sentAt)) : pongStamp sent = some (sentAt : Int) := by
  rw [pongStamp, hsent]
  exact QJsonValue.toLongLong_ofInt sentAt

theorem Traces.pong (h : Traces self out) (hsound : self.Sound) {socket : Socket}
    {sent : Nat × Packet} {rest : List (Nat × Packet)} {result : PingingClient × List ClientEffect}
    (hsocket : self.client.client.socket = some socket)
    (hdown : (self.wires socket).down = sent :: rest) (hpong : isPong sent.2 = true)
    (hreads : self.client.socketPacketReceived self.now sent.2 = some result) :
    Traces ((self.tookDown socket rest).fromClient result) (noteOut self .clientReads self' out) := by
  obtain ⟨-, sentAt, -, hsent, -, -, hclient⟩ := hsound.pong hsocket hdown hpong hreads
  obtain ⟨hattached, rfl⟩ := socketPacketReceived_pong hpong hreads
  have hstamp := pongStamp_of_eq hsent
  have hold := h.oldest hattached hsocket hdown hstamp
  have hanswered : self.answered = some (sentAt : Int) := by
    rw [answered, hsocket, Option.bind_some, hdown]
    exact hstamp
  have hfree : PingFree (self.client.notifyPongServer self.now sent.2.value).2 := by
    rw [hsent]
    simp only [notifyPongServer, pongPacket, Packet.ofNotify, QJsonValue.toLongLong_ofInt]
    exact ClientP.pingFree_of_nil rfl
  intro _ other hother
  rw [fromClient_client, hclient, hsocket] at hother
  cases hother
  rw [stamps_fromClient hfree, tookDown_wires, if_pos rfl, noteOut, hanswered, Option.elim_some,
    hold, List.erase_cons_head]

/-- A packet that is no pong leaves what is out as it is. -/
theorem Traces.reads (h : Traces self out) {socket : Socket} {sent : Nat × Packet}
    {rest : List (Nat × Packet)} {result : PingingClient × List ClientEffect}
    (hsocket : self.client.client.socket = some socket)
    (hdown : (self.wires socket).down = sent :: rest) (hpong : isPong sent.2 = false)
    (hslot : Slot self.client result.1) (hfree : PingFree result.2) :
    Traces ((self.tookDown socket rest).fromClient result) (noteOut self .clientReads self' out) := by
  have hanswered : self.answered = none := by
    rw [answered, hsocket, Option.bind_some, hdown, List.head?_cons, Option.bind_some, pongStamp,
      hpong]
    rfl
  have htook : Traces (self.tookDown socket rest) out := by
    refine h.of_stamps (fun hattached => ⟨hattached, rfl⟩) fun other => ?_
    rw [tookDown_wires]
    split
    · next heq =>
      subst heq
      exact stamps_readDown hdown hpong
    · rfl
  rw [noteOut, hanswered]
  exact htook.slot hslot hfree

theorem Traces.connects {client : ClientP} {known : Bool} {next : Nat}
    (hsocket : client.socket = some self.made) :
    Traces (self.connects known (PingingClient.connected self.now next known
      { self.client with client := client })) [] := by
  have hclient : (PingingClient.connected self.now next known
      { self.client with client := client }).client = client := by
    cases known <;> rfl
  intro _ socket hsome
  change (PingingClient.connected _ _ _ _).client.socket = some socket at hsome
  rw [hclient, hsocket] at hsome
  cases hsome
  simp only [Heartbeat.connects, if_true]
  cases known <;> rfl

/-- The slots of the server answer pings, and keep their order. -/
theorem Traces.server (h : Traces self out) (hclient : self'.client = self.client)
    (hstamps : ∀ socket, (self'.wires socket).stamps = (self.wires socket).stamps) :
    Traces self' out :=
  h.of_stamps (fun hattached => ⟨hclient ▸ hattached, by rw [hclient]⟩) hstamps

theorem Traces.moves {event : Event} (h : Traces self out) (hsound : self.Sound)
    (hmoves : Moves self event self') : Traces self' (noteOut self event self' out) := by
  cases hmoves with
  | tick => exact h.server rfl fun _ => rfl
  | ping => exact h.ping
  | expires => exact h.expires hsound
  | pong hsocket hdown hpong hreads => exact h.pong hsound hsocket hdown hpong hreads
  | reads hsocket hdown hpong hslot hfree => exact h.reads hsocket hdown hpong hslot hfree
  | connects hevent hsocket =>
    obtain ⟨_, rfl⟩ | rfl := hevent <;> exact .connects hsocket
  | client hslot hfree => exact h.slot hslot hfree
  | serverAnswers hup => exact h.server rfl (stamps_tookUp hup)
  | serverHears hup _ hact =>
    obtain ⟨-, hfree⟩ := WatchedConnection.pongFree_act hsound.roundEventLog hact
    exact h.server rfl fun socket =>
      (stamps_fromServer hfree socket).trans (stamps_tookUp hup socket)
  | server _ hact =>
    obtain ⟨-, hfree⟩ := WatchedConnection.pongFree_act hsound.roundEventLog hact
    exact h.server rfl (stamps_fromServer hfree)
  | notify notification =>
    obtain ⟨-, hfree⟩ := ServerConnectionP.pongFree_notify hsound.roundEventLog notification
    exact h.server rfl (stamps_fromServer hfree)
  | serverNotes hevent =>
    obtain rfl | ⟨_, rfl⟩ := hevent <;> exact h.server rfl fun _ => rfl
  | serverCloses socket =>
    refine h.server rfl fun other => ?_
    simp only [onWire]
    split <;> rfl

theorem traces_invariant :
    (system.recorded [] noteOut).Invariant fun r => r.1.Sound ∧ Traces r.1 r.2 where
  init r hinit := by
    refine ⟨sound_invariant.init r.1 hinit.1, fun hattached => ?_⟩
    obtain ⟨_, _, _, _, _, _, _, hnew⟩ := hinit.1
    rw [hnew] at hattached
    cases hattached
  step r event r' h hstep := by
    refine ⟨h.1.handle hstep.1, ?_⟩
    rw [hstep.2]
    exact h.2.moves h.1 (handle_moves hstep.1)

/-- A client that gives a server up has waited an interval for the answer to a ping that
it has sent over this very connection, and that is still out: it is on its way, or its
pong is. And a pong that is read answers the ping that has been out for longest, and what
is read of it is the round trip of that ping. -/
theorem verdict_is_right {r : Heartbeat × List Int}
    (hreach : (system.recorded [] noteOut).Reachable r) :
    (∀ self', r.1.client.client.attached = true → r.1.handle .pongDeadlinePassed = some self' →
      self'.client.client.attached = false →
      ∃ (socket : Socket) (sentAt : Nat), r.1.client.client.socket = some socket ∧
        (sentAt : Int) ∈ r.2 ∧ sentAt + heartbeatInterval ≤ r.1.now ∧
        ((sentAt, pingPacket sentAt) ∈ (r.1.wires socket).up ∨ ∃ answeredAt ≥ sentAt,
          (answeredAt, pongPacket (.ofInt sentAt)) ∈ (r.1.wires socket).down)) ∧
    (∀ socket sent rest self', r.1.client.client.socket = some socket →
      (r.1.wires socket).down = sent :: rest → isPong sent.2 = true →
      r.1.handle .clientReads = some self' →
      ∃ sentAt ≤ r.1.now, ∃ later, r.2 = (sentAt : Int) :: later ∧
        (∀ other ∈ later, (sentAt : Int) ≤ other) ∧
        sent.2 = pongPacket (.ofInt sentAt) ∧
        self'.client.newestAnsweredPing = sentAt ∧
        self'.client.roundTripTime = r.1.now - sentAt ∧
        self'.client.client = r.1.client.client) := by
  obtain ⟨hsound, htraces⟩ := traces_invariant.of_reachable hreach
  constructor
  · intro self' hattached hstep hgone
    have hasked := asked_of_expires hattached hstep hgone
    simp only [asked, Bool.and_eq_true, decide_eq_true_eq] at hasked
    obtain ⟨socket, hsocket, hmeasures⟩ := hsound.measures hattached
    have hwindow := hmeasures.window.resolve_left fun hfirst => by omega
    obtain ⟨sentAt, hfirst, hout⟩ := mem_stamps (hsound.honest socket) hwindow
    have hmember : (sentAt : Int) ∈ r.2 := by
      rw [← htraces hattached socket hsocket, ← hfirst]
      exact hwindow
    refine ⟨socket, sentAt, hsocket, hmember, ?_, hout⟩
    omega
  · intro socket sent rest self' hsocket hdown hpong hreads
    obtain ⟨same, sent', rest', result, hsame, hdown', hreceived, rfl⟩ := clientReads_cases hreads
    obtain rfl : socket = same := Option.some.inj (hsocket.symm.trans hsame)
    obtain ⟨rfl, rfl⟩ := List.cons.inj (hdown.symm.trans hdown')
    obtain ⟨-, sentAt, hnow, hsent, hread⟩ := hsound.pong hsocket hdown hpong hreceived
    obtain ⟨hattached, -⟩ := socketPacketReceived_pong hpong hreceived
    have hold := htraces.oldest hattached hsocket hdown (pongStamp_of_eq hsent)
    obtain ⟨_, hsame', hmeasures⟩ := hsound.measures hattached
    have hordered := hmeasures.ordered
    rw [← Option.some.inj (hsocket.symm.trans hsame'), htraces hattached socket hsocket, hold]
      at hordered
    exact ⟨sentAt, hnow, _, hold, (List.pairwise_cons.mp hordered).1, hsent, hread⟩

/-- A run that can be computed. -/
theorem exists_run (guard : Heartbeat → Bool) (events : List Event) (P : Heartbeat → Bool)
    (h : (events.foldlM (fun link event => if guard link then link.handle event else none)
      (new "" 0 (.new "A" "A") (.new ⟨"A", "A", 0⟩ .defaults 20))).any P = true) :
    ∃ link, (system.guarded fun link _ => guard link = true).Reachable link ∧ P link = true :=
  TransitionSystem.exists_reachable_foldlM (fun _ _ _ hstep => hstep)
    ⟨_, _, _, _, _, _, _, rfl⟩ h

/-- The client has sent two pings, and the server has read the first of them. -/
def twoPings : List Event := [
  .connectToHost true StateMaskOnline 30000, .clientReads, .tick 30000, .heartbeatTimeout 60000,
  .tick 30000, .heartbeatTimeout 90000, .serverReads 0 true .Rock, .serverReads 0 true .Rock]

/-- The client has read its pong; from then on the server reads nothing. -/
def stuckServer : List Event := twoPings ++ [
  .clientReads, .tick 30000, .heartbeatTimeout 120000, .tick 60000]

/-- A run that can be computed, with what is out at its end. -/
theorem exists_out (events : List Event) (P : Heartbeat × List Int → Bool)
    (h : (events.foldlM (TransitionSystem.withRecord handle noteOut)
      (new "" 0 (.new "A" "A") (.new ⟨"A", "A", 0⟩ .defaults 20), [])).any P = true) :
    ∃ r, (system.recorded [] noteOut).Reachable r ∧ P r = true :=
  TransitionSystem.exists_recorded_foldlM (fun _ _ _ hstep => hstep)
    (show system.init _ from ⟨_, _, _, _, _, _, _, rfl⟩) h

/-- The pong is that of the first ping while the second is out as well; and then a ping
that the server does not read is the end of it. -/
theorem verdict_is_right_stuck :
    (∃ r self' later, (system.recorded [] noteOut).Reachable r ∧
      r.1.handle .clientReads = some self' ∧ r.2 = 30000 :: later ∧ later = [60000] ∧
      self'.client.roundTripTime = 30000) ∧
    ∃ r self', (system.recorded [] noteOut).Reachable r ∧
      r.1.handle .pongDeadlinePassed = some self' ∧ self'.client.client.attached = false ∧
      ∃ sentAt ∈ r.2, sentAt + heartbeatInterval ≤ r.1.now := by
  constructor
  · obtain ⟨r, hreach, hr⟩ := exists_out twoPings (fun r => r.1.client.client.socket == some 0 &&
      (r.1.wires 0).down.head?.any (fun sent => isPong sent.2) && r.2 == [30000, 60000] &&
      r.1.now == 60000 && (r.1.handle .clientReads).isSome) (by decide +kernel)
    simp only [Bool.and_eq_true, beq_iff_eq] at hr
    obtain ⟨⟨⟨⟨hsocket, hhead⟩, hout⟩, hnow⟩, hreads⟩ := hr
    obtain ⟨self', hstep⟩ := Option.isSome_iff_exists.mp hreads
    obtain ⟨sent, hsent, hpong⟩ := (Option.any_eq_true _ _).mp hhead
    obtain ⟨rest, hdown⟩ := List.head?_eq_some_iff.mp hsent
    obtain ⟨sentAt, -, later, hold, -, -, -, hreading, -⟩ :=
      (verdict_is_right hreach).2 0 sent rest self' hsocket hdown hpong hstep
    rw [hout] at hold
    obtain ⟨hfirst, hlater⟩ := List.cons.inj hold
    rw [← hfirst, hnow] at hreading
    exact ⟨r, self', later, hreach, hstep, hlater ▸ hout, hlater.symm, hreading⟩
  · obtain ⟨r, hreach, hr⟩ := exists_out stuckServer (fun r => r.1.client.client.attached &&
      (r.1.handle .pongDeadlinePassed).any fun self' => !self'.client.client.attached)
      (by decide +kernel)
    rw [Bool.and_eq_true] at hr
    obtain ⟨self', hstep, hgone⟩ := (Option.any_eq_true _ _).mp hr.2
    have hgone : self'.client.client.attached = false := by simpa using hgone
    obtain ⟨_, sentAt, -, hout, hwaited, -⟩ :=
      (verdict_is_right hreach).1 self' hr.1 hstep hgone
    exact ⟨r, self', hreach, hstep, hgone, sentAt, hout, Int.ofNat_le.mpr hwaited⟩

end Heartbeat

end QMdmmNetworking
