import QMdmm.Networking.Verdict

namespace QMdmmNetworking

open QMdmmCore Data Protocol

namespace Heartbeat

open PingingClient WatchedConnection

variable {late delay : Nat} {self self' : Heartbeat}

/-- Nothing is overdue: the pings are sent `late` at most, and what travels over the
connection of the client is read after `delay` at most, while the server keeps it. -/
def inTime (late delay : Nat) (self : Heartbeat) : Bool :=
  self.client.heartbeatTimer.all (fun due => self.now ≤ due + late) &&
    self.client.client.socket.all fun socket =>
      !(self.wires socket).isOpen ||
        ((self.wires socket).up ++ (self.wires socket).down).all fun sent =>
          self.now ≤ sent.1 + delay

/-- The runs in which nothing is ever overdue when something happens. -/
def timely (late delay : Nat) : TransitionSystem Heartbeat Event :=
  system.guarded fun self _ => self.inTime late delay = true

theorem due_of_inTime (h : self.inTime late delay = true) {due : Nat}
    (hdue : self.client.heartbeatTimer = some due) : self.now ≤ due + late := by
  rw [inTime, hdue, Bool.and_eq_true] at h
  exact of_decide_eq_true h.1

theorem sent_of_inTime (h : self.inTime late delay = true) {socket : Socket}
    (hsocket : self.client.client.socket = some socket) (hopen : (self.wires socket).isOpen = true)
    {sent : Nat × Packet}
    (hsent : sent ∈ (self.wires socket).up ∨ sent ∈ (self.wires socket).down) :
    self.now ≤ sent.1 + delay := by
  rw [inTime, hsocket, Bool.and_eq_true] at h
  have hall : ((self.wires socket).up ++ (self.wires socket).down).all
      (fun sent => decide (self.now ≤ sent.1 + delay)) = true := by
    simpa only [Option.all_some, hopen, Bool.not_true, Bool.false_or] using h.2
  exact of_decide_eq_true (List.all_eq_true.mp hall sent (List.mem_append.mpr hsent))

/-- The server will hear of the client in time: something is on its way, or a ping is
about to be sent. -/
def WillSpeak (late : Nat) (client : PingingClient) (wire : Wire) (started : Nat) : Prop :=
  (∃ sent ∈ wire.up, sent.1 ≤ started + pingBy + late) ∨
    ∃ due ≤ started + pingBy, client.heartbeatTimer = some due

/-- The client will hear of the server in time: the ping that is judged is on its way, or
its pong has been sent in time. -/
def WillAnswer (delay : Nat) (client : PingingClient) (wire : Wire) : Prop :=
  client.firstPingInDeadlineWindow = -1 ∨ ∃ sentAt : Nat,
    client.firstPingInDeadlineWindow = sentAt ∧ ((sentAt, pingPacket sentAt) ∈ wire.up ∨
      ∃ answeredAt ≤ sentAt + delay, (answeredAt, pongPacket (.ofInt sentAt)) ∈ wire.down)

/-- A connection that both ends have, and both hear of each other. -/
structure Alive (late delay : Nat) (link : Heartbeat) : Prop where
  sound : link.Sound
  server : ∀ socket started, link.client.client.attached = true →
    link.client.client.socket = some socket → link.server.conn.socket = some socket →
    (link.wires socket).isOpen = true → link.server.heartbeatDeadline = some started →
    WillSpeak late link.client (link.wires socket) started
  client : ∀ socket, link.client.client.attached = true →
    link.client.client.socket = some socket → (link.wires socket).isOpen = true →
    WillAnswer delay link.client (link.wires socket)

/-- What a wire keeps while nothing but other packets is read from it. -/
structure Kept (wire wire' : Wire) : Prop where
  up : ∀ sent ∈ wire.up, sent ∈ wire'.up
  down : ∀ sent ∈ wire.down, isPong sent.2 = true → sent ∈ wire'.down
  isOpen : wire'.isOpen = true → wire.isOpen = true

theorem Kept.rfl (wire : Wire) : Kept wire wire := ⟨fun _ => id, fun _ hsent _ => hsent, id⟩

theorem Kept.trans {wire middle wire' : Wire} (h : Kept wire middle) (h' : Kept middle wire') :
    Kept wire wire' :=
  ⟨fun sent hsent => h'.up sent (h.up sent hsent),
    fun sent hsent hpong => h'.down sent (h.down sent hsent hpong) hpong,
    fun hopen => h.isOpen (h'.isOpen hopen)⟩

theorem kept_fromClient (self : Heartbeat) (result : PingingClient × List ClientEffect)
    (socket : Socket) : Kept (self.wires socket) ((self.fromClient result).wires socket) := by
  unfold fromClient onWireOf
  dsimp only
  split
  · exact ⟨fun _ => List.mem_append_left _, fun _ hsent _ => hsent, id⟩
  · exact .rfl _

theorem kept_fromServer (self : Heartbeat) (result : WatchedConnection × List Effect)
    (socket : Socket) : Kept (self.wires socket) ((self.fromServer result).wires socket) := by
  unfold fromServer onWireOf
  dsimp only
  split
  · exact ⟨fun _ hsent => hsent, fun _ hsent _ => List.mem_append_left _ hsent, id⟩
  · exact .rfl _

theorem kept_tookDown {socket : Socket} {sent : Nat × Packet} {rest : List (Nat × Packet)}
    (hdown : (self.wires socket).down = sent :: rest) (hpong : isPong sent.2 = false)
    (other : Socket) : Kept (self.wires other) ((self.tookDown socket rest).wires other) := by
  simp only [tookDown, onWire]
  split
  · next heq =>
    subst heq
    refine ⟨fun _ => id, fun kept hkept hpongs => ?_, id⟩
    rw [hdown] at hkept
    obtain rfl | hrest := List.mem_cons.mp hkept
    · exact absurd (hpongs.symm.trans hpong) Bool.noConfusion
    · exact hrest
  · exact .rfl _

section Wires

variable {client client' : PingingClient} {wire wire' : Wire} {started : Nat}

theorem WillSpeak.kept (h : WillSpeak late client wire started)
    (htimer : client'.heartbeatTimer = client.heartbeatTimer)
    (hup : ∀ sent ∈ wire.up, sent ∈ wire'.up) : WillSpeak late client' wire' started := by
  obtain ⟨sent, hsent, hle⟩ | ⟨due, hle, hdue⟩ := h
  · exact .inl ⟨sent, hup sent hsent, hle⟩
  · exact .inr ⟨due, hle, htimer.trans hdue⟩

theorem WillAnswer.kept (h : WillAnswer delay client wire)
    (hwindow : client'.firstPingInDeadlineWindow = client.firstPingInDeadlineWindow)
    (hkept : Kept wire wire') : WillAnswer delay client' wire' := by
  rw [WillAnswer, hwindow]
  refine h.imp_right fun ⟨sentAt, hfirst, hout⟩ => ⟨sentAt, hfirst, ?_⟩
  obtain hping | ⟨answeredAt, hle, hpong⟩ := hout
  · exact .inl (hkept.up _ hping)
  · exact .inr ⟨answeredAt, hle, hkept.down _ hpong rfl⟩

end Wires

/-- A connection that has just heard of its client will do so again. -/
theorem Sound.willSpeak (h : self.Sound) {socket : Socket}
    (hattached : self.client.client.attached = true) :
    WillSpeak late self.client (self.wires socket) self.now := by
  obtain ⟨_, -, hmeasures⟩ := h.measures hattached
  exact .inr hmeasures.heartbeatTimer

/-- A step that neither pings nor answers a ping. -/
theorem Alive.kept (h : self.Alive late delay) (hsound : self'.Sound)
    (hslot : Slot self.client self'.client)
    (hkept : ∀ socket, Kept (self.wires socket) (self'.wires socket))
    (hserver : ∀ started, self'.server.heartbeatDeadline = some started → started = self'.now ∨
      self.server.heartbeatDeadline = some started ∧
        self'.server.conn.socket = self.server.conn.socket) : self'.Alive late delay := by
  cases hslot with
  | letsGo _ hgone =>
    exact ⟨hsound, fun _ _ hattached => absurd (hattached.symm.trans hgone) Bool.noConfusion,
      fun _ hattached => absurd (hattached.symm.trans hgone) Bool.noConfusion⟩
  | goesOn hsame hbefore htimer _ _ hwindow =>
    refine ⟨hsound, fun socket started hattached hsocket hbound hopen hdeadline => ?_,
      fun socket hattached hsocket hopen => ?_⟩
    · obtain rfl | ⟨hstarted, hconn⟩ := hserver started hdeadline
      · exact hsound.willSpeak hattached
      · exact (h.server socket started (hbefore hattached) (hsame.symm.trans hsocket)
          (hconn.symm.trans hbound) ((hkept socket).isOpen hopen) hstarted).kept htimer
          (hkept socket).up
    · exact (h.client socket (hbefore hattached) (hsame.symm.trans hsocket)
        ((hkept socket).isOpen hopen)).kept hwindow (hkept socket)

/-- A ping that is sent in time is something to be heard of in time. -/
theorem Alive.ping (h : self.Alive late delay) {due next : Nat}
    (hdue : self.client.heartbeatTimer = some due) (hle : self.now ≤ due + late)
    (hsound : (self.fromClient (self.client.heartbeatTimeout self.now next)).Sound) :
    (self.fromClient (self.client.heartbeatTimeout self.now next)).Alive late delay := by
  have hclient : (self.client.heartbeatTimeout self.now next).1.client = self.client.client := by
    unfold heartbeatTimeout
    dsimp only
    split <;> rfl
  have hsent {socket : Socket} (hsocket : self.client.client.socket = some socket) :
      (self.now, pingPacket self.now) ∈
        ((self.fromClient (self.client.heartbeatTimeout self.now next)).wires socket).up := by
    have hpacket : (self.client.heartbeatTimeout self.now next).2 =
        [.sendPacket (pingPacket self.now)] := by
      unfold heartbeatTimeout
      simp only [hsocket, Option.isNone_some, Bool.false_eq_true, if_false]
    simp only [fromClient, onWireOf, hclient, hsocket, if_true, hpacket, sendUp]
    exact List.mem_append_right _ (List.mem_singleton_self _)
  have hkept := kept_fromClient self (self.client.heartbeatTimeout self.now next)
  refine ⟨hsound, fun socket started hattached hsocket hbound hopen hdeadline => ?_,
    fun socket hattached hsocket hopen => ?_⟩
  · change (self.client.heartbeatTimeout self.now next).1.client.attached = true at hattached
    change (self.client.heartbeatTimeout self.now next).1.client.socket = some socket at hsocket
    rw [hclient] at hattached hsocket
    obtain ⟨sent, hold, hearly⟩ | ⟨before, hby, hbefore⟩ := h.server socket started hattached
      hsocket hbound ((hkept socket).isOpen hopen) hdeadline
    · exact .inl ⟨sent, (hkept socket).up sent hold, hearly⟩
    · refine .inl ⟨_, hsent hsocket, ?_⟩
      obtain rfl := Option.some.inj (hdue.symm.trans hbefore)
      dsimp only
      omega
  · change (self.client.heartbeatTimeout self.now next).1.client.attached = true at hattached
    change (self.client.heartbeatTimeout self.now next).1.client.socket = some socket at hsocket
    rw [hclient] at hattached hsocket
    have hfirst : (self.client.heartbeatTimeout self.now next).1.firstPingInDeadlineWindow =
        if self.client.firstPingInDeadlineWindow < 0 then (self.now : Int)
        else self.client.firstPingInDeadlineWindow := by
      unfold heartbeatTimeout
      simp only [hsocket, Option.isNone_some, Bool.false_eq_true, if_false]
      rfl
    obtain hnone | ⟨sentAt, hopened, hout⟩ :=
      h.client socket hattached hsocket ((hkept socket).isOpen hopen)
    · refine .inr ⟨self.now, ?_, .inl (hsent hsocket)⟩
      exact hfirst.trans (if_pos (by omega))
    · refine .inr ⟨sentAt, ?_, ?_⟩
      · rw [← hopened]
        exact hfirst.trans (if_neg (by omega))
      · obtain hping | ⟨answeredAt, hle, hpong⟩ := hout
        · exact .inl ((hkept socket).up _ hping)
        · exact .inr ⟨answeredAt, hle, (hkept socket).down _ hpong rfl⟩

/-- A window that is opened again asks nothing yet. -/
theorem Alive.reopens (h : self.Alive late delay) (hsound : self'.Sound)
    (hwindow : self'.client.firstPingInDeadlineWindow = -1)
    (hclient : self'.client.client = self.client.client)
    (htimer : self'.client.heartbeatTimer = self.client.heartbeatTimer)
    (hserver : self'.server = self.server)
    (hup : ∀ socket, (self'.wires socket).up = (self.wires socket).up)
    (hopens : ∀ socket, (self'.wires socket).isOpen = (self.wires socket).isOpen) :
    self'.Alive late delay := by
  refine ⟨hsound, fun socket started hattached hsocket hbound hopen hdeadline => ?_,
    fun socket hattached hsocket hopen => .inl hwindow⟩
  rw [hclient] at hattached hsocket
  rw [hserver] at hbound hdeadline
  rw [hopens] at hopen
  refine (h.server socket started hattached hsocket hbound hopen hdeadline).kept htimer ?_
  rw [hup]
  exact fun _ => id

theorem Alive.expires (h : self.Alive late delay)
    (hsound : (self.fromClient (self.client.pongDeadlinePassed self.now)).Sound) :
    (self.fromClient (self.client.pongDeadlinePassed self.now)).Alive late delay := by
  cases hasked : self.client.asked self.now with
  | true =>
    have hgone : (self.client.pongDeadlinePassed self.now).1.client.attached ≠ true := by
      rw [pongDeadlinePassed_of_asked hasked, h.sound.handleSocketGone.2]
      exact Bool.false_ne_true
    exact ⟨hsound, fun _ _ hattached => absurd hattached hgone,
      fun _ hattached => absurd hattached hgone⟩
  | false =>
    rw [pongDeadlinePassed_of_not_asked hasked] at hsound ⊢
    refine h.reopens hsound rfl rfl rfl rfl (fun socket => ?_) fun socket => ?_ <;>
      rw [fromClient_wires rfl]

theorem Alive.pong (h : self.Alive late delay) {socket : Socket} {sent : Nat × Packet}
    {rest : List (Nat × Packet)} {result : PingingClient × List ClientEffect}
    (hsocket : self.client.client.socket = some socket)
    (hdown : (self.wires socket).down = sent :: rest) (hpong : isPong sent.2 = true)
    (hreads : self.client.socketPacketReceived self.now sent.2 = some result) :
    ((self.tookDown socket rest).fromClient result).Alive late delay := by
  obtain ⟨hsound, sentAt, -, hsent, -, -, -⟩ := h.sound.pong hsocket hdown hpong hreads
  obtain ⟨-, rfl⟩ := socketPacketReceived_pong hpong hreads
  have hvalue : sent.2.value.toLongLong = some (sentAt : Int) := by
    rw [hsent]
    exact QJsonValue.toLongLong_ofInt sentAt
  have hresult : self.client.notifyPongServer self.now sent.2.value =
      ((self.client.notifyPongServer self.now sent.2.value).1, []) := by
    simp only [notifyPongServer, hvalue]
  rw [hresult] at hsound ⊢
  refine h.reopens hsound ?_ ?_ ?_ rfl (fun other => ?_) fun other => ?_
  · simp only [fromClient, onWireOf, notifyPongServer, hvalue, armPongDeadline]
  · simp only [fromClient, onWireOf, notifyPongServer, hvalue, armPongDeadline]
    split <;> rfl
  · simp only [fromClient, onWireOf, notifyPongServer, hvalue, armPongDeadline]
    split <;> rfl
  · rw [fromClient_wires rfl]
    simp only [tookDown, onWire]
    split <;> rfl
  · rw [fromClient_wires rfl]
    simp only [tookDown, onWire]
    split <;> rfl

theorem Alive.connects (h : self.Alive late delay) {client : ClientP} {known : Bool} {next : Nat}
    (hsocket : client.socket = some self.made) (hattached : client.attached = known)
    (hsound : (self.connects known (PingingClient.connected self.now next known
      { self.client with client := client })).Sound) :
    (self.connects known (PingingClient.connected self.now next known
      { self.client with client := client })).Alive late delay := by
  cases known with
  | false =>
    exact ⟨hsound, fun _ _ hknown => absurd (hknown.symm.trans hattached) Bool.noConfusion,
      fun _ hknown => absurd (hknown.symm.trans hattached) Bool.noConfusion⟩
  | true =>
    refine ⟨hsound, fun socket started _ hsome hbound _ _ => ?_, fun socket _ _ _ => .inl rfl⟩
    -- The server is not bound to a connection that has just been made.
    have hmade := (h.sound.bound socket hbound).1
    change client.socket = some socket at hsome
    rw [hsocket] at hsome
    cases hsome
    exact absurd hmade (Nat.lt_irrefl _)

/-- A ping that is read in time is answered in time. -/
theorem WillAnswer.tookUp {socket : Socket} {sent : Nat × Packet} {rest : List (Nat × Packet)}
    (h : WillAnswer delay self.client (self.wires socket))
    (hup : (self.wires socket).up = sent :: rest) (hintime : self.now ≤ sent.1 + delay) :
    WillAnswer delay self.client ((self.tookUp socket sent rest).wires socket) := by
  refine h.imp_right fun ⟨sentAt, hfirst, hout⟩ => ⟨sentAt, hfirst, ?_⟩
  simp only [Heartbeat.tookUp, onWire, if_true, answer]
  obtain hping | ⟨answeredAt, hle, hpong⟩ := hout
  · rw [hup] at hping
    obtain rfl | hrest := List.mem_cons.mp hping
    · refine .inr ⟨self.now, hintime, List.mem_append_right _ (List.mem_singleton_self _)⟩
    · refine .inl ?_
      split <;> exact hrest
  · refine .inr ⟨answeredAt, hle, ?_⟩
    split
    · exact List.mem_append_left _ hpong
    · exact hpong

theorem Alive.tookUp (h : self.Alive late delay) {socket : Socket} {sent : Nat × Packet}
    {rest : List (Nat × Packet)} (hintime : self.inTime late delay = true)
    (hup : (self.wires socket).up = sent :: rest) (other : Socket)
    (hattached : self.client.client.attached = true)
    (hsocket : self.client.client.socket = some other)
    (hopen : ((self.tookUp socket sent rest).wires other).isOpen = true) :
    WillAnswer delay self.client ((self.tookUp socket sent rest).wires other) := by
  by_cases heq : socket = other
  · subst heq
    have hopen : (self.wires socket).isOpen = true := by
      simp only [Heartbeat.tookUp, onWire, if_true, answer] at hopen
      split at hopen <;> exact hopen
    exact (h.client socket hattached hsocket hopen).tookUp hup
      (sent_of_inTime hintime hsocket hopen (.inl (hup ▸ List.mem_cons_self)))
  · simp only [Heartbeat.tookUp, onWire, if_neg heq] at hopen ⊢
    exact h.client other hattached hsocket hopen

theorem kept_serverCloses (self : Heartbeat) (socket other : Socket) : Kept (self.wires other)
    ((self.onWire socket fun wire => { wire with isOpen := false }).wires other) := by
  simp only [onWire]
  split
  · exact ⟨fun _ => id, fun _ hsent _ => hsent, fun hopen => absurd hopen Bool.false_ne_true⟩
  · exact .rfl _

/-- What the server reads of another connection than the one it is bound to. -/
theorem Alive.serverAnswers (h : self.Alive late delay) {socket : Socket} {sent : Nat × Packet}
    {rest : List (Nat × Packet)} (hintime : self.inTime late delay = true)
    (hup : (self.wires socket).up = sent :: rest) (hwired : socket ∉ self.server.conn.wired) :
    (self.tookUp socket sent rest).Alive late delay := by
  refine ⟨h.sound.tookUp hup, fun other started hattached hsocket hbound hopen hdeadline => ?_,
    fun other hattached hsocket hopen => h.tookUp hintime hup other hattached hsocket hopen⟩
  have hother : socket ≠ other := by
    rintro rfl
    exact hwired (h.sound.bound socket hbound).2
  simp only [Heartbeat.tookUp, onWire, if_neg hother] at hopen ⊢
  exact h.server other started hattached hsocket hbound hopen hdeadline

/-- A packet that the server reads starts its deadline over. -/
theorem Alive.serverHears (h : self.Alive late delay) {socket : Socket} {sent : Nat × Packet}
    {rest : List (Nat × Packet)} {sync : Bool} {random : RockPaperScissors}
    {result : WatchedConnection × List Effect} (hintime : self.inTime late delay = true)
    (hup : (self.wires socket).up = sent :: rest)
    (hact : self.server.act self.now ⟨.packetReceived sent.2, sync, random⟩ = .ok result)
    (hsound : ((self.tookUp socket sent rest).fromServer result).Sound) :
    ((self.tookUp socket sent rest).fromServer result).Alive late delay := by
  have hkept := kept_fromServer (self.tookUp socket sent rest) result
  refine ⟨hsound, fun other started hattached hsocket _ _ hdeadline => ?_,
    fun other hattached hsocket hopen => ?_⟩
  · have hstarted : started = self.now := by
      change result.1.heartbeatDeadline = some started at hdeadline
      cases WatchedConnection.slot_act hact with
      | binds _ _ _ _ hnow => exact Option.some.inj (hdeadline.symm.trans hnow)
      | closes _ _ hnone => cases hnone.symm.trans hdeadline
      | hears _ _ _ _ hnow => exact Option.some.inj (hdeadline.symm.trans hnow)
      | stays hother => cases hother
    rw [hstarted]
    exact hsound.willSpeak hattached
  · have hout := h.tookUp hintime hup other hattached hsocket ((hkept other).isOpen hopen)
    exact hout.kept rfl (hkept other)

theorem Alive.handle (h : self.Alive late delay) (hintime : self.inTime late delay = true)
    {event : Event} (hstep : self.handle event = some self') : self'.Alive late delay := by
  have hsound := h.sound.handle hstep
  cases handle_moves hstep with
  | tick elapsed =>
    exact h.kept hsound (.same _) (fun _ => .rfl _) fun started hstarted => .inr ⟨hstarted, rfl⟩
  | ping hdue => exact h.ping hdue (due_of_inTime hintime hdue) hsound
  | expires => exact h.expires hsound
  | pong hsocket hdown hpong hreads => exact h.pong hsocket hdown hpong hreads
  | reads hsocket hdown hpong hslot =>
    refine h.kept hsound hslot (fun socket => ?_) fun started hstarted => .inr ⟨hstarted, rfl⟩
    exact (kept_tookDown hdown hpong socket).trans (kept_fromClient _ _ socket)
  | connects _ hsocket hattached => exact h.connects hsocket hattached hsound
  | client hslot =>
    exact h.kept hsound hslot (kept_fromClient self _) fun started hstarted => .inr ⟨hstarted, rfl⟩
  | serverAnswers hup hwired => exact h.serverAnswers hintime hup hwired
  | serverHears hup _ hact => exact h.serverHears hintime hup hact hsound
  | server _ hact =>
    refine h.kept hsound (.same _) (kept_fromServer self _) fun started hstarted => ?_
    cases WatchedConnection.slot_act hact with
    | binds _ _ _ _ hnow => exact .inl (Option.some.inj (hstarted.symm.trans hnow))
    | closes _ _ hnone => cases hnone.symm.trans hstarted
    | hears _ _ _ _ hnow => exact .inl (Option.some.inj (hstarted.symm.trans hnow))
    | stays _ hsame _ hdeadline =>
      obtain ⟨-, hnone⟩ | hdeadline := hdeadline
      · cases hnone.symm.trans hstarted
      · exact .inr ⟨hdeadline.symm.trans hstarted, hsame⟩
  | notify notification =>
    have hnotify := self.server.conn.notifies_notify notification
    exact h.kept hsound (.same _) (kept_fromServer self _) fun started hstarted =>
      .inr ⟨hstarted, hnotify.socket⟩
  | serverNotes _ hsocket =>
    exact h.kept hsound (.same _) (fun _ => .rfl _) fun started hstarted =>
      .inr ⟨hstarted, hsocket⟩
  | serverCloses socket =>
    exact h.kept hsound (.same _) (kept_serverCloses self socket) fun started hstarted =>
      .inr ⟨hstarted, rfl⟩

theorem alive_invariant : (timely late delay).Invariant (Alive late delay) := by
  refine TransitionSystem.Invariant.guarded (fun self hinit => ?_) fun _ _ _ hintime h hstep =>
    h.handle hintime hstep
  have hsound := sound_invariant.init self hinit
  obtain ⟨_, _, _, _, _, _, _, rfl⟩ := hinit
  refine ⟨hsound, fun _ _ hattached => ?_, fun _ hattached => ?_⟩ <;> cases hattached

section Bounds

variable {client : PingingClient} {wire : Wire} {now started : Nat}

theorem WillSpeak.not_ranOut (h : WillSpeak late client wire started)
    (hdue : ∀ due, client.heartbeatTimer = some due → now ≤ due + late)
    (hup : ∀ sent ∈ wire.up, now ≤ sent.1 + delay) (hbound : late + delay < 54000) :
    ranOut silenceTimeout started now = false := by
  have hsoon : now < started + (silenceTimeout - timerSlack silenceTimeout) := by
    have hpingBy : pingBy = 31500 := rfl
    have htimeout : silenceTimeout - timerSlack silenceTimeout = 85500 := rfl
    obtain ⟨sent, hsent, hle⟩ | ⟨due, hle, htimer⟩ := h
    · have hread := hup sent hsent
      omega
    · have hping := hdue due htimer
      omega
  exact decide_eq_false (Nat.not_le.mpr hsoon)

theorem WillAnswer.not_asked (h : WillAnswer delay client wire)
    (hup : ∀ sent ∈ wire.up, now ≤ sent.1 + delay)
    (hdown : ∀ sent ∈ wire.down, now ≤ sent.1 + delay) (hbound : 2 * delay < heartbeatInterval) :
    client.asked now = false := by
  rw [asked, Bool.and_eq_false_iff, decide_eq_false_iff_not, decide_eq_false_iff_not]
  obtain hnone | ⟨sentAt, hfirst, hout⟩ := h
  · left
    omega
  · right
    rw [hfirst]
    obtain hping | ⟨answeredAt, hanswered, hpong⟩ := hout
    · have hread := hup _ hping
      dsimp only at hread
      omega
    · have hread := hdown _ hpong
      dsimp only at hread
      omega

end Bounds

/-- While the timer of the client and what reads the wires keep up, neither end gives the
other up, however unluckily the timers fall: the deadline of the server cannot run out,
and that of the client lets the connection be. -/
theorem live_peers_stay (hserver : late + delay < 54000) (hclient : 2 * delay < heartbeatInterval)
    (hreach : (timely late delay).Reachable self) (hintime : self.inTime late delay = true)
    {socket : Socket} (hattached : self.client.client.attached = true)
    (hsocket : self.client.client.socket = some socket)
    (hopen : (self.wires socket).isOpen = true) :
    (self.server.conn.socket = some socket → ∀ sync random,
      self.handle (.server ⟨.peerWentSilent, sync, random⟩) = none) ∧
    ∀ self', self.handle .pongDeadlinePassed = some self' →
      self'.client.client = self.client.client ∧ self'.client.pongDeadline = some self.now := by
  have halive := alive_invariant.of_reachable hreach
  have hup (sent : Nat × Packet) (hsent : sent ∈ (self.wires socket).up) :
      self.now ≤ sent.1 + delay := sent_of_inTime hintime hsocket hopen (.inl hsent)
  have hdown (sent : Nat × Packet) (hsent : sent ∈ (self.wires socket).down) :
      self.now ≤ sent.1 + delay := sent_of_inTime hintime hsocket hopen (.inr hsent)
  constructor
  · intro hbound sync random
    have hruns : self.runs .peerWentSilent = false := by
      change self.server.heartbeatDeadline.any _ = false
      cases hdeadline : self.server.heartbeatDeadline with
      | none => rfl
      | some started =>
        have hspeak := halive.server socket started hattached hsocket hbound hopen hdeadline
        exact hspeak.not_ranOut (fun _ => due_of_inTime hintime) hup hserver
    simp only [Heartbeat.handle, hruns, Bool.false_eq_true, if_false]
  · intro self' hstep
    have hanswer := halive.client socket hattached hsocket hopen
    have hasked := hanswer.not_asked hup hdown hclient
    obtain ⟨-, hstep⟩ := Option.ite_none_right_eq_some.mp hstep
    cases hstep
    rw [pongDeadlinePassed_of_not_asked hasked]
    exact ⟨rfl, rfl⟩

/-- The client was suspended, and its deadline runs out before the pong is there. -/
def lateClient : List Event := [
  .connectToHost true StateMaskOnline 30000, .clientReads,
  .server ⟨.setSocket 0, true, .Rock⟩, .serverReads 0 true .Rock, .tick 80000,
  .heartbeatTimeout 110000, .tick 3500, .serverReads 0 true .Rock, .tick 2000]

theorem live_peers_stay_late : ∃ link self', (timely 50000 3500).Reachable link ∧
    link.handle .pongDeadlinePassed = some self' ∧
    (∀ sync random, link.handle (.server ⟨.peerWentSilent, sync, random⟩) = none) ∧
    self'.client.client.attached = true := by
  obtain ⟨link, hreach, hlink⟩ := exists_run (inTime 50000 3500) lateClient
    (fun link => link.inTime 50000 3500 && link.client.client.attached &&
      decide (link.client.client.socket = some 0) && (link.wires 0).isOpen &&
      decide (link.server.conn.socket = some 0) && (link.handle .pongDeadlinePassed).isSome)
    (by decide +kernel)
  simp only [Bool.and_eq_true, decide_eq_true_eq] at hlink
  obtain ⟨⟨⟨⟨⟨hintime, hattached⟩, hsocket⟩, hopen⟩, hbound⟩, hfires⟩ := hlink
  obtain ⟨self', hstep⟩ := Option.isSome_iff_exists.mp hfires
  obtain ⟨hserver, hclient⟩ := live_peers_stay (by decide) (by decide) hreach hintime hattached
    hsocket hopen
  refine ⟨link, self', hreach, hstep, hserver hbound, ?_⟩
  rw [(hclient self' hstep).1]
  exact hattached

end Heartbeat

end QMdmmNetworking
