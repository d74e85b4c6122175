import QMdmm.Networking.Verdict

namespace QMdmmNetworking

open QMdmmCore Data Protocol

namespace Heartbeat

open PingingClient WatchedConnection

variable {late : Nat} {self self' : Heartbeat}

/-- A single-shot timer that was started then is at most `late` overdue. -/
def served (late interval now started : Nat) : Bool :=
  now ≤ started + (interval + timerSlack interval) + late

/-- The timers of both ends run out `late` too late at most, whatever they read. -/
def ticking (late : Nat) (self : Heartbeat) : Bool :=
  self.client.heartbeatTimer.all (fun due => self.now ≤ due + late) &&
    self.client.pongDeadline.all (served late pongTimeout self.now) &&
    self.server.heartbeatDeadline.all (served late silenceTimeout self.now)

/-- When an end last had a sign of the other, and whether the server has given its peer up
since. -/
structure LastHeard where
  client : Nat
  server : Nat
  givenUp : Bool

/-- The client is about to read a pong. -/
def readsPong (self : Heartbeat) : Bool :=
  self.client.client.socket.any fun socket =>
    (self.wires socket).down.head?.any fun sent => isPong sent.2

/-- The client goes by pongs, and the server by any packet at all; a connection that is
made or bound is as good. -/
def LastHeard.note (self : Heartbeat) (event : Event) (_ : Heartbeat) (last : LastHeard) :
    LastHeard :=
  match event with
  | .clientReads => if self.readsPong then { last with client := self.now } else last
  | .connectToHost known _ _ | .reconnectTimeout known _ =>
    if known then { last with client := self.now } else last
  | .serverReads socket _ _ =>
    if socket ∈ self.server.conn.wired then { last with server := self.now, givenUp := false }
    else last
  | .server l =>
    if WatchedConnection.heard l.event then { last with server := self.now, givenUp := false }
    else { last with givenUp := last.givenUp || l.event matches .peerWentSilent }
  | _ => last

/-- The runs in which the timers keep up, with when the ends last heard of each other. -/
def watched (late : Nat) : TransitionSystem (Heartbeat × LastHeard) Event :=
  (system.guarded fun self _ => self.ticking late = true).recorded ⟨0, 0, false⟩ LastHeard.note

theorem due_of_ticking (h : self.ticking late = true) {due : Nat}
    (hdue : self.client.heartbeatTimer = some due) : self.now ≤ due + late := by
  rw [ticking, hdue, Bool.and_eq_true, Bool.and_eq_true] at h
  exact of_decide_eq_true h.1.1

theorem pongDeadline_of_ticking (h : self.ticking late = true) {started : Nat}
    (hdeadline : self.client.pongDeadline = some started) : self.now ≤ started + 94500 + late := by
  rw [ticking, hdeadline, Bool.and_eq_true, Bool.and_eq_true] at h
  exact of_decide_eq_true h.1.2

theorem heartbeatDeadline_of_ticking (h : self.ticking late = true) {started : Nat}
    (hdeadline : self.server.heartbeatDeadline = some started) :
    self.now ≤ started + 94500 + late := by
  rw [ticking, hdeadline, Bool.and_eq_true, Bool.and_eq_true] at h
  exact of_decide_eq_true h.2

/-- The window the client is in was opened by the last sign of the server, and its first
ping was or will be in time to be judged by it. -/
structure Asking (late : Nat) (client : PingingClient) (heard : Nat) : Prop where
  pongDeadline : client.pongDeadline = some heard
  window : (client.firstPingInDeadlineWindow = -1 ∧
      ∃ due ≤ heard + pingBy, client.heartbeatTimer = some due) ∨
    0 ≤ client.firstPingInDeadlineWindow ∧
      client.firstPingInDeadlineWindow ≤ heard + pingBy + late

/-- A connection of the server with a socket has a deadline, unless it has run out. -/
def Listening (server : WatchedConnection) (last : LastHeard) : Prop :=
  server.conn.socket.isSome = true → server.heartbeatDeadline = some last.server ∨
    server.heartbeatDeadline = none ∧ last.givenUp = true

structure Watches (late : Nat) (link : Heartbeat) (last : LastHeard) : Prop where
  sound : link.Sound
  client : link.client.client.attached = true → Asking late link.client last.client
  server : Listening link.server last

section Steps

variable {client client' : PingingClient} {now heard : Nat}

theorem Asking.slot (h : client.client.attached = true → Asking late client heard)
    (hslot : Slot client client') (hattached : client'.client.attached = true) :
    Asking late client' heard := by
  cases hslot with
  | letsGo _ hgone => exact absurd (hattached.symm.trans hgone) Bool.noConfusion
  | goesOn _ hbefore htimer hdeadline _ hwindow =>
    obtain ⟨hstarted, hopened⟩ := h (hbefore hattached)
    exact ⟨hdeadline.trans hstarted, by rwa [hwindow, htimer]⟩

theorem Asking.ping (h : Asking late client heard) {due next : Nat}
    (hdue : client.heartbeatTimer = some due) (hle : now ≤ due + late) :
    Asking late (notePing now { client with heartbeatTimer := some next }) heard := by
  refine ⟨h.pongDeadline, .inr ?_⟩
  unfold notePing
  dsimp only
  obtain ⟨hnone, due', hby, hdue'⟩ | ⟨hopened, hearly⟩ := h.window
  · obtain rfl := Option.some.inj (hdue.symm.trans hdue')
    rw [if_pos (by omega)]
    omega
  · rw [if_neg (by omega)]
    exact ⟨hopened, hearly⟩

/-- The window is long enough for its first ping to be judged. -/
theorem Asking.asked (h : Asking late client heard) (hlate : late ≤ 24000)
    (hdue : ∀ due, client.heartbeatTimer = some due → now ≤ due + late)
    (hout : ranOut pongTimeout heard now = true) : client.asked now = true := by
  have hpassed : heard + 85500 ≤ now := of_decide_eq_true hout
  have hpingBy : pingBy = 31500 := rfl
  have hinterval : heartbeatInterval = 30000 := rfl
  rw [PingingClient.asked, Bool.and_eq_true, decide_eq_true_eq, decide_eq_true_eq]
  obtain ⟨-, due, hby, htimer⟩ | hopened := h.window
  · have hserved := hdue due htimer
    omega
  · omega

theorem Asking.expires (h : Asking late self.client heard) (hlate : late ≤ 24000)
    (hsound : self.Sound) (hticking : self.ticking late = true)
    (hout : ranOut pongTimeout heard self.now = true) :
    (self.client.pongDeadlinePassed self.now).1.client.attached = false := by
  have hasked := h.asked hlate (fun _ => due_of_ticking hticking) hout
  rw [pongDeadlinePassed_of_asked hasked]
  exact hsound.handleSocketGone.2

theorem Listening.server {l : Session.Step} {result : WatchedConnection × List Effect}
    {last : LastHeard} (h : Listening self.server last)
    (hact : self.server.act self.now l = .ok result) :
    Listening result.1 (LastHeard.note self (.server l) self' last) := by
  intro hsome
  cases WatchedConnection.slot_act hact with
  | binds socket hevent _ _ hnow =>
    obtain hevent | ⟨_, hevent⟩ := hevent <;>
      exact .inl (by simp [LastHeard.note, WatchedConnection.heard, hevent, hnow])
  | closes hnone => simp [hnone] at hsome
  | hears packet hevent _ _ hnow =>
    exact .inl (by simp [LastHeard.note, WatchedConnection.heard, hevent, hnow])
  | stays hother hsame _ hdeadline =>
    simp only [LastHeard.note, hother, Bool.false_eq_true, if_false]
    obtain ⟨hsilent, hnone⟩ | hdeadline := hdeadline
    · exact .inr ⟨hnone, by simp [hsilent]⟩
    · rw [hdeadline]
      refine (h (hsame ▸ hsome)).imp_right fun ⟨hnone, hgivenUp⟩ => ⟨hnone, ?_⟩
      rw [hgivenUp, Bool.true_or]

theorem Listening.hears {sent : Nat × Packet} {sync : Bool} {random : RockPaperScissors}
    {socket : Socket} {result : WatchedConnection × List Effect} {last : LastHeard}
    (hwired : socket ∈ self.server.conn.wired)
    (hact : self.server.act self.now ⟨.packetReceived sent.2, sync, random⟩ = .ok result) :
    Listening result.1 (LastHeard.note self (.serverReads socket sync random) self' last) := by
  intro hsome
  simp only [LastHeard.note, if_pos hwired]
  cases WatchedConnection.slot_act hact with
  | binds _ hevent => obtain hevent | ⟨_, hevent⟩ := hevent <;> cases hevent
  | closes hnone => simp [hnone] at hsome
  | hears _ _ _ _ hnow => exact .inl hnow
  | stays hother => cases hother

end Steps

theorem note_reads {socket : Socket} {sent : Nat × Packet} {rest : List (Nat × Packet)}
    {last : LastHeard} (hsocket : self.client.client.socket = some socket)
    (hdown : (self.wires socket).down = sent :: rest) :
    LastHeard.note self .clientReads self' last =
      if isPong sent.2 then { last with client := self.now } else last := by
  simp only [LastHeard.note, readsPong, hsocket, hdown, Option.any_some, List.head?_cons]

theorem note_serverReads {socket : Socket} {sync : Bool} {random : RockPaperScissors}
    {last : LastHeard} :
    (LastHeard.note self (.serverReads socket sync random) self' last).client = last.client := by
  unfold LastHeard.note
  dsimp only
  split <;> rfl

theorem note_server {l : Session.Step} {last : LastHeard} :
    (LastHeard.note self (.server l) self' last).client = last.client := by
  unfold LastHeard.note
  dsimp only
  split <;> rfl

theorem note_serverNotes {event : Event} {last : LastHeard}
    (hevent : event = .clearRoundEventLog ∨ ∃ state, event = .stateChange state) :
    LastHeard.note self event self' last = last := by
  obtain rfl | ⟨_, rfl⟩ := hevent <;> rfl

/-- A connection that is made is one that the client has just heard of. -/
theorem note_connects {event : Event} {known : Bool} {next : Nat} {last : LastHeard}
    (hevent : (∃ initialState, event = .connectToHost known initialState next) ∨
      event = .reconnectTimeout known next) :
    LastHeard.note self event self' last =
      if known then { last with client := self.now } else last := by
  obtain ⟨_, rfl⟩ | rfl := hevent <;> rfl

theorem Watches.asking {last : LastHeard} (h : Watches late self last) (hlate : late ≤ 24000)
    (hticking : self.ticking late = true) {event : Event} (hmoves : Moves self event self')
    (hsound : self'.Sound) (hattached : self'.client.client.attached = true) :
    Asking late self'.client (LastHeard.note self event self' last).client := by
  cases hmoves with
  | tick | notify | serverCloses => exact h.client hattached
  | serverNotes hevent =>
    rw [note_serverNotes hevent]
    exact h.client hattached
  | serverAnswers =>
    rw [note_serverReads]
    exact h.client hattached
  | serverHears =>
    rw [note_serverReads]
    exact h.client hattached
  | server =>
    rw [note_server]
    exact h.client hattached
  | @ping due next hdue =>
    have hle := due_of_ticking hticking hdue
    change (self.client.heartbeatTimeout self.now next).1.client.attached = true at hattached
    change Asking late (self.client.heartbeatTimeout self.now next).1 last.client
    unfold heartbeatTimeout at hattached ⊢
    dsimp only at hattached ⊢
    split
    · next hnone =>
      rw [if_pos hnone] at hattached
      obtain ⟨socket, hsocket, -⟩ := h.sound.measures hattached
      rw [hsocket] at hnone
      cases hnone
    · next hsome =>
      rw [if_neg hsome] at hattached
      exact (h.client hattached).ping hdue hle
  | @expires started hdeadline hout =>
    change (self.client.pongDeadlinePassed self.now).1.client.attached = true at hattached
    cases hasked : self.client.asked self.now with
    | true =>
      rw [pongDeadlinePassed_of_asked hasked, h.sound.handleSocketGone.2] at hattached
      cases hattached
    | false =>
      -- A window that is not judged would be one without a ping in time.
      rw [pongDeadlinePassed_of_not_asked hasked] at hattached
      have hasking := h.client hattached
      obtain rfl := Option.some.inj (hdeadline.symm.trans hasking.pongDeadline)
      rw [hasking.asked hlate (fun _ => due_of_ticking hticking) hout] at hasked
      cases hasked
  | @pong socket sent rest result hsocket hdown hpong hreads =>
    rw [note_reads hsocket hdown, if_pos hpong]
    obtain ⟨-, sentAt, -, hsent, -⟩ := h.sound.pong hsocket hdown hpong hreads
    obtain ⟨hbefore, rfl⟩ := socketPacketReceived_pong hpong hreads
    obtain ⟨_, -, hmeasures⟩ := h.sound.measures hbefore
    have hvalue : sent.2.value.toLongLong = some (sentAt : Int) := by
      rw [hsent]
      exact QJsonValue.toLongLong_ofInt sentAt
    change Asking late (self.client.notifyPongServer self.now sent.2.value).1 self.now
    simp only [notifyPongServer, hvalue]
    refine ⟨rfl, .inl ⟨rfl, ?_⟩⟩
    simp only [armPongDeadline, apply_ite PingingClient.heartbeatTimer, ite_self]
    exact hmeasures.heartbeatTimer
  | reads hsocket hdown hpong hslot =>
    rw [note_reads hsocket hdown, hpong]
    exact Asking.slot h.client hslot hattached
  | @connects _ client known next hevent hsocket hknown hnext =>
    rw [note_connects hevent]
    cases known with
    | true => exact ⟨rfl, .inl ⟨rfl, next, hnext, rfl⟩⟩
    | false => exact absurd (hattached.symm.trans hknown) Bool.noConfusion
  | client hslot => exact Asking.slot h.client hslot hattached

theorem Watches.listening {last : LastHeard} (h : Watches late self last) {event : Event}
    (hmoves : Moves self event self') :
    Listening self'.server (LastHeard.note self event self' last) := by
  cases hmoves with
  | tick | ping | expires | client | serverCloses => exact h.server
  | serverNotes hevent hsocket =>
    rw [note_serverNotes hevent]
    exact fun hsome => h.server (hsocket ▸ hsome)
  | notify notification =>
    have hnotify := self.server.conn.notifies_notify notification
    intro hsome
    exact h.server (hnotify.socket ▸ hsome)
  | pong hsocket hdown hpong =>
    rw [note_reads hsocket hdown, if_pos hpong]
    exact h.server
  | reads hsocket hdown hpong =>
    rw [note_reads hsocket hdown, hpong]
    exact h.server
  | @connects _ _ known _ hevent =>
    rw [note_connects hevent]
    cases known <;> exact h.server
  | serverAnswers _ hwired =>
    simp only [LastHeard.note, if_neg hwired]
    exact h.server
  | serverHears _ hwired hact => exact Listening.hears hwired hact
  | server _ hact => exact h.server.server hact

theorem watches_invariant (hlate : late ≤ 24000) :
    (watched late).Invariant fun recorded => Watches late recorded.1 recorded.2 where
  init recorded hinit := by
    obtain ⟨hinit, hlast⟩ := hinit
    have hsound := sound_invariant.init _ hinit
    obtain ⟨_, _, _, _, _, _, _, hself⟩ := hinit
    refine ⟨hsound, fun hattached => ?_, fun hsome => ?_⟩
    · rw [hself] at hattached
      cases hattached
    · rw [hself] at hsome
      cases hsome
  step recorded event recorded' h hstep := by
    obtain ⟨⟨hticking, hstep⟩, hlast⟩ := hstep
    have hsound := h.sound.handle hstep
    have hmoves := handle_moves hstep
    rw [hlast]
    exact ⟨hsound, h.asking hlate hticking hmoves hsound, h.listening hmoves⟩

/-- Neither end holds on to a peer that is gone: a client without a pong, and a server
without a packet, for the three intervals, a twentieth of it for the timer, and as much as
the timer was late, has given the other up. And no deadline of a client gives a peer more. -/
theorem silence_is_noticed (hlate : late ≤ 24000) {last : LastHeard}
    (hreach : (watched late).Reachable (self, last)) (hticking : self.ticking late = true) :
    (self.client.client.attached = true → self.now ≤ last.client + 94500 + late ∧
      ∀ self', self.handle .pongDeadlinePassed = some self' →
        self'.client.client.attached = false) ∧
    (self.server.conn.socket.isSome = true → last.givenUp = false →
      self.now ≤ last.server + 94500 + late) := by
  have hwatches := (watches_invariant hlate).of_reachable hreach
  refine ⟨fun hattached => ?_, fun hsome hkept => ?_⟩
  · have hasking := hwatches.client hattached
    refine ⟨pongDeadline_of_ticking hticking hasking.pongDeadline, fun self' hstep => ?_⟩
    obtain ⟨hout, hstep⟩ := Option.ite_none_right_eq_some.mp hstep
    cases hstep
    rw [hasking.pongDeadline] at hout
    exact hasking.expires hlate hwatches.sound hticking hout
  · obtain hdeadline | ⟨-, hgivenUp⟩ := hwatches.server hsome
    · exact heartbeatDeadline_of_ticking hticking hdeadline
    · exact absurd (hgivenUp.symm.trans hkept) Bool.noConfusion

/-- A run that can be computed, with its record. -/
theorem exists_watched (late : Nat) (events : List Event) (P : Heartbeat × LastHeard → Bool)
    (h : (events.foldlM (TransitionSystem.withRecord
      (fun self event => if self.ticking late then self.handle event else none) LastHeard.note)
      (new "" 0 (.new "A" "A") (.new ⟨"A", "A", 0⟩ .defaults 20), ⟨0, 0, false⟩)).any P = true) :
    ∃ recorded, (watched late).Reachable recorded ∧ P recorded = true := by
  refine TransitionSystem.exists_recorded_foldlM (fun self event self' hstep => ?_)
    (show (system.guarded fun self _ => self.ticking late = true).init _ from
      ⟨_, _, _, _, _, _, _, rfl⟩) h
  exact Option.ite_none_right_eq_some.mp hstep

/-- The server reads nothing any more, and is still there. -/
def silentServer : List Event := [
  .connectToHost true StateMaskOnline 30000, .clientReads, .server ⟨.setSocket 0, true, .Rock⟩,
  .tick 30000, .heartbeatTimeout 60000, .tick 30000, .heartbeatTimeout 90000, .tick 26000]

theorem silence_is_noticed_silent : ∃ link last self', (watched 0).Reachable (link, last) ∧
    link.handle .pongDeadlinePassed = some self' ∧ self'.client.client.attached = false ∧
    link.now ≤ last.client + 94500 ∧ link.server.conn.socket.isSome = true ∧
    link.now ≤ last.server + 94500 := by
  obtain ⟨⟨link, last⟩, hreach, hlink⟩ := exists_watched 0 silentServer
    (fun recorded => recorded.1.ticking 0 && recorded.1.client.client.attached &&
      recorded.1.server.conn.socket.isSome && !recorded.2.givenUp &&
      (recorded.1.handle .pongDeadlinePassed).isSome)
    (by decide +kernel)
  simp only [Bool.and_eq_true, Bool.not_eq_true'] at hlink
  obtain ⟨⟨⟨⟨hticking, hattached⟩, hsome⟩, hkept⟩, hfires⟩ := hlink
  obtain ⟨self', hstep⟩ := Option.isSome_iff_exists.mp hfires
  obtain ⟨hclient, hserver⟩ := silence_is_noticed (Nat.zero_le 24000) hreach hticking
  obtain ⟨hnow, hends⟩ := hclient hattached
  exact ⟨link, last, self', hreach, hstep, hends self' hstep, hnow, hsome, hserver hsome hkept⟩

end Heartbeat

end QMdmmNetworking
