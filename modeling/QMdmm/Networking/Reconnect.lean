import QMdmm.Networking.Reactions
import QMdmm.Support.TransitionSystem

namespace QMdmmNetworking

open QMdmmCore Data Protocol

/-- What happens to a client. A socket reports that it is gone, or its pongs stay
out, only while the client is attached to it; `known` is whether the host names a
transport. -/
inductive ClientEvent where
  | connectToHost (socket : Socket) (known : Bool) (initialState : AgentState)
  | disconnectFromHost
  | packetReceived (packet : Packet)
  | socketGone
  | socketDeleted
  | reconnectTimeout (socket : Socket) (known : Bool)
  | answer (reply : Reply)
  | giveUp
  | speak (content : String)
  | operate
  | setState (state : AgentState)

namespace ClientP

/-- What the client does, unless the event cannot happen or faults. -/
def handle (self : ClientP) : ClientEvent → Option (ClientP × List ClientEffect)
  | .connectToHost socket known initialState =>
    some ((self.connectToHost socket known initialState).2, [])
  | .disconnectFromHost => some self.disconnectFromHost
  | .packetReceived packet =>
    if self.attached then (self.socketPacketReceived packet).toOption else none
  | .socketGone => if self.attached then some self.handleSocketGone else none
  | .socketDeleted => if self.attached then none else some ({ self with socket := none }, [])
  | .reconnectTimeout socket known =>
    if self.reconnectTimer then some (self.reconnectTimeout socket known) else none
  | .answer reply => some (self.answer reply)
  | .giveUp => some self.sendRequestGivenUp
  | .speak content => some (self.sendSpeak content)
  | .operate => some self.sendOperate
  | .setState state => some (self.setState state)

end ClientP

/-- What an observer counts since the last `connectToHost`: the connections that the
client has tried to make by itself, whether the last of them has been greeted, and
whether the client has reported that it gives up. -/
structure Attempts where
  made : Nat
  greeted : Bool
  reported : Bool

namespace Attempts

def ofEvent (attempts : Attempts) : ClientEvent → Attempts
  | .connectToHost _ _ _ => ⟨0, false, false⟩
  | .reconnectTimeout _ _ => { attempts with made := attempts.made + 1, greeted := false }
  | .packetReceived packet =>
    { attempts with
      greeted := attempts.greeted || decide (attempts.made ≠ 0 ∧ ClientP.Greets packet) }
  | _ => attempts

def note (attempts : Attempts) (event : ClientEvent) (effects : List ClientEffect) : Attempts :=
  { attempts.ofEvent event with
    reported := (attempts.ofEvent event).reported || effects.any ClientEffect.givesUp }

end Attempts

namespace ClientP

variable {self self' : ClientP} {effects : List ClientEffect}

def act (s : ClientP × Attempts) (event : ClientEvent) : Option (ClientP × Attempts) :=
  (s.1.handle event).map fun result => (result.1, s.2.note event result.2)

/-- A client from its construction on, with its attempts counted. -/
def system : TransitionSystem (ClientP × Attempts) ClientEvent where
  init s := ∃ objectName screenName, s = (.new objectName screenName, ⟨0, false, false⟩)
  step s event t := act s event = some t

theorem received_of_handle {packet : Packet} {result : ClientP × List ClientEffect}
    (h : self.handle (.packetReceived packet) = some result) :
    self.attached = true ∧ self.socketPacketReceived packet = .ok (result.1, result.2) := by
  obtain ⟨hattached, hreceived⟩ := Option.ite_none_right_eq_some.mp h
  refine ⟨hattached, ?_⟩
  cases hresult : self.socketPacketReceived packet with
  | error fault =>
    rw [hresult] at hreceived
    cases hreceived
  | ok after =>
    rw [hresult] at hreceived
    exact congrArg Except.ok (Option.some.inj hreceived)

theorem undisturbed_sendReply (requestId : RequestId) (value : QJsonValue) :
    Undisturbed self (self.sendReply requestId value) := by
  unfold sendReply
  split <;> exact ⟨rfl, rfl, rfl, rfl, id, rfl⟩

theorem undisturbed_sendRequestGivenUp : Undisturbed self self.sendRequestGivenUp := by
  unfold sendRequestGivenUp
  split <;> exact ⟨rfl, rfl, rfl, rfl, id, rfl⟩

theorem undisturbed_sendSpeak (content : String) : Undisturbed self (self.sendSpeak content) := by
  unfold sendSpeak
  split <;> exact ⟨rfl, rfl, rfl, rfl, id, rfl⟩

theorem undisturbed_sendOperate : Undisturbed self self.sendOperate := by
  unfold sendOperate
  split <;> exact ⟨rfl, rfl, rfl, rfl, id, rfl⟩

/-- The attempts are those of the counter while the client is reconnecting; a
connection that stands otherwise was asked for, or has been greeted. -/
structure Retrying (client : ClientP) (attempts : Attempts) : Prop where
  socket : client.attached = true → client.socket.isSome = true
  bound : attempts.made ≤ MaxReconnectAttempts
  timer : client.reconnectTimer = true → client.attached = false ∧ client.reconnectInProgress = true ∧
    client.reconnectAttempts < MaxReconnectAttempts
  progress : client.reconnectInProgress = true → attempts.made = client.reconnectAttempts
  idle : client.attached = true → client.reconnectInProgress = false →
    attempts.made = 0 ∨ attempts.greeted = true
  reported : attempts.reported = true → client.attached = false ∧ client.reconnectTimer = false

/-- A client that has a connection, or is to make one, has not given up. -/
theorem Retrying.unreported {attempts : Attempts} (h : Retrying self attempts)
    (hgoing : self.attached = true ∨ self.reconnectTimer = true) : attempts.reported = false := by
  rw [← Bool.not_eq_true]
  intro hreported
  obtain ⟨hattached, htimer⟩ := h.reported hreported
  simp [hattached, htimer] at hgoing

theorem Retrying.undisturbed {attempts after : Attempts} {result : ClientP × List ClientEffect}
    (h : Retrying self attempts) (hundisturbed : Undisturbed self result)
    (hmade : after.made = attempts.made)
    (hgreeted : attempts.greeted = true → after.greeted = true)
    (hreported : after.reported = attempts.reported) : Retrying result.1 after where
  socket hattached := by
    rw [hundisturbed.socket]
    exact h.socket (hundisturbed.attached hattached)
  bound := hmade ▸ h.bound
  timer htimer := by
    rw [hundisturbed.timer] at htimer
    obtain ⟨hattached, hprogress, hattempts⟩ := h.timer htimer
    rw [hundisturbed.progress, hundisturbed.attempts]
    refine ⟨?_, hprogress, hattempts⟩
    rw [← Bool.not_eq_true]
    intro hafter
    rw [hundisturbed.attached hafter] at hattached
    cases hattached
  progress hprogress := by
    rw [hundisturbed.progress] at hprogress
    rw [hmade, hundisturbed.attempts]
    exact h.progress hprogress
  idle hattached hprogress := by
    rw [hundisturbed.progress] at hprogress
    obtain hzero | hbefore := h.idle (hundisturbed.attached hattached) hprogress
    · exact .inl (hmade ▸ hzero)
    · exact .inr (hgreeted hbefore)
  reported hafter := by
    rw [hreported] at hafter
    obtain ⟨hattached, htimer⟩ := h.reported hafter
    refine ⟨?_, hundisturbed.timer.trans htimer⟩
    rw [← Bool.not_eq_true]
    intro hnow
    rw [hundisturbed.attached hnow] at hattached
    cases hattached

/-- A connection that was not greeted on the way back is lost: there is another
attempt, or the client gives up. -/
theorem Retrying.socketGone {attempts : Attempts} (h : Retrying self attempts)
    (hattached : self.attached = true) (hgreeted : attempts.greeted = false) :
    Retrying self.handleSocketGone.1 (attempts.note .socketGone self.handleSocketGone.2) ∧
      (attempts.made = MaxReconnectAttempts →
        (attempts.note .socketGone self.handleSocketGone.2).reported = true) := by
  have hsome : self.socket.isNone = false := by
    rw [Option.isNone_eq_false_iff]
    exact h.socket hattached
  have hunreported := h.unreported (.inl hattached)
  have hbound := h.bound
  unfold handleSocketGone
  rw [if_neg (by simp [hsome])]
  by_cases hprogress : self.reconnectInProgress = true
  · have hmade := h.progress hprogress
    rw [if_pos hprogress]
    unfold scheduleReconnect
    by_cases hlast : self.reconnectAttempts ≥ MaxReconnectAttempts
    · dsimp only
      rw [if_pos hlast]
      refine ⟨?_, fun _ => by simp [Attempts.note, ClientEffect.givesUp]⟩
      constructor <;> simp [Attempts.note, Attempts.ofEvent, hbound]
    · dsimp only
      rw [if_neg hlast]
      have hless : self.reconnectAttempts < MaxReconnectAttempts := Nat.lt_of_not_le hlast
      refine ⟨?_, fun hmax => by omega⟩
      constructor <;> simp [Attempts.note, Attempts.ofEvent, hprogress, hmade, hunreported,
        ClientEffect.givesUp, hless, hless.le]
  · rw [Bool.not_eq_true] at hprogress
    have hzero : attempts.made = 0 := by
      obtain hzero | hyes := h.idle hattached hprogress
      · exact hzero
      · rw [hgreeted] at hyes
        cases hyes
    have hfirst : ¬ 0 ≥ MaxReconnectAttempts := by decide
    rw [if_neg (by simp [hprogress])]
    unfold scheduleReconnect
    dsimp only
    rw [if_neg hfirst]
    refine ⟨?_, fun hmax => by rw [hzero] at hmax; cases hmax⟩
    constructor <;> simp [Attempts.note, Attempts.ofEvent, hzero, hunreported, ClientEffect.givesUp]
    exact Nat.pos_of_ne_zero (by decide)

/-- The timer ran out: one more attempt, of those there were left. -/
theorem Retrying.reconnectTimeout {attempts : Attempts} (h : Retrying self attempts)
    (htimer : self.reconnectTimer = true) (socket : Socket) (known : Bool) :
    Retrying (self.reconnectTimeout socket known).1
      (attempts.note (.reconnectTimeout socket known) (self.reconnectTimeout socket known).2) := by
  obtain ⟨hattached, hprogress, hless⟩ := h.timer htimer
  have hmade := h.progress hprogress
  have hunreported := h.unreported (.inr htimer)
  unfold ClientP.reconnectTimeout connectSocket
  cases known with
  | true =>
    constructor <;> simp [Attempts.note, Attempts.ofEvent, hmade, hprogress, hunreported]
    omega
  | false =>
    constructor <;> simp [Attempts.note, Attempts.ofEvent, hmade]
    omega

theorem Retrying.packetReceived {attempts : Attempts} {packet : Packet}
    (h : Retrying self attempts) (hattached : self.attached = true)
    (hreceived : self.socketPacketReceived packet = .ok (self', effects)) :
    Retrying self' (attempts.note (.packetReceived packet) effects) := by
  have hbound := h.bound
  have hunreported := h.unreported (.inl hattached)
  have hkeeps (hundisturbed : Undisturbed self (self', effects)) :
      Retrying self' (attempts.note (.packetReceived packet) effects) := by
    refine @Retrying.undisturbed _ _ _ (self', effects) h hundisturbed rfl ?_ ?_
    · intro hgreeted
      simp [Attempts.note, Attempts.ofEvent, hgreeted]
    · have hquiet := hundisturbed.quiet
      simp only [Attempts.note, Attempts.ofEvent] at hquiet ⊢
      rw [hquiet, Bool.or_false]
  obtain hreacts | ⟨-, -, hleaves⟩ := socketPacketReceived_cases hreceived
  swap
  · exact hkeeps ⟨hleaves.timer, hleaves.attempts, hleaves.progress, hleaves.socket,
      hleaves.attached, hleaves.quiet⟩
  cases hreacts with
  | handles hhandles => exact hkeeps hhandles.toUndisturbed
  | welcomed hresult =>
    cases hresult
    exact hkeeps ⟨rfl, rfl, rfl, rfl, id, rfl⟩
  | hangsUp hresult =>
    cases hresult
    constructor <;> simp [Attempts.note, Attempts.ofEvent, hbound]
  | greeted hgreets hprogress hresult =>
    cases hresult
    constructor <;>
      simp [Attempts.note, Attempts.ofEvent, hbound, hgreets, hunreported, ClientEffect.givesUp]
    · exact fun _ => h.socket hattached
    · intro _
      by_cases hzero : attempts.made = 0
      · exact .inl hzero
      · exact .inr (.inr hzero)

theorem Retrying.handle {attempts : Attempts} {event : ClientEvent} (h : Retrying self attempts)
    (hgreeted : event = .socketGone → attempts.greeted = false)
    (hhandle : self.handle event = some (self', effects)) :
    Retrying self' (attempts.note event effects) := by
  have hbound := h.bound
  have hkeeps {result : ClientP × List ClientEffect} (hundisturbed : Undisturbed self result)
      (hresult : some result = some (self', effects)) (hevent : attempts.ofEvent event = attempts) :
      Retrying self' (attempts.note event effects) := by
    obtain rfl := Option.some.inj hresult
    have hquiet := hundisturbed.quiet
    apply h.undisturbed hundisturbed
    · simp [Attempts.note, hevent]
    · simp [Attempts.note, hevent]
    · simp only [Attempts.note, hevent] at hquiet ⊢
      rw [hquiet, Bool.or_false]
  cases event with
  | connectToHost socket known initialState =>
    cases hhandle
    constructor <;> simp [Attempts.note, Attempts.ofEvent, connectToHost, connectSocket]
  | disconnectFromHost =>
    cases hhandle
    constructor <;> simp [Attempts.note, Attempts.ofEvent, hbound]
  | packetReceived packet =>
    obtain ⟨hattached, hresult⟩ := received_of_handle hhandle
    exact h.packetReceived hattached hresult
  | socketGone =>
    obtain ⟨hattached, hresult⟩ := Option.ite_none_right_eq_some.mp hhandle
    have hgone := (h.socketGone hattached (hgreeted rfl)).1
    rwa [Option.some.inj hresult] at hgone
  | socketDeleted =>
    obtain ⟨hattached, hresult⟩ := Option.ite_none_left_eq_some.mp hhandle
    cases hresult
    constructor <;> simp [Attempts.note, Attempts.ofEvent, hbound]
    · simpa using hattached
    · exact h.timer
    · exact h.progress
    · exact h.idle
    · exact h.reported
  | reconnectTimeout socket known =>
    obtain ⟨htimer, hresult⟩ := Option.ite_none_right_eq_some.mp hhandle
    have htimeout := h.reconnectTimeout htimer socket known
    rwa [Option.some.inj hresult] at htimeout
  | answer reply =>
    cases reply with
    | rockPaperScissors | actionOrder | action | upgrade =>
      exact hkeeps (undisturbed_sendReply _ _) hhandle rfl
  | giveUp => exact hkeeps undisturbed_sendRequestGivenUp hhandle rfl
  | speak content => exact hkeeps (undisturbed_sendSpeak content) hhandle rfl
  | operate => exact hkeeps undisturbed_sendOperate hhandle rfl
  | setState state => exact hkeeps (handles_setState state).toUndisturbed hhandle rfl

/-- No connection is lost that the client made by itself and the server greeted. -/
def KeepsGreeted (s : ClientP × Attempts) (event : ClientEvent) : Prop :=
  event = .socketGone → s.2.greeted = false

def keepsGreeted (s : ClientP × Attempts) : ClientEvent → Bool
  | .socketGone => !s.2.greeted
  | _ => true

theorem keepsGreeted_sound {s : ClientP × Attempts} {event : ClientEvent}
    (h : keepsGreeted s event = true) : KeepsGreeted s event := by
  rintro rfl
  simpa [keepsGreeted] using h

theorem retrying_invariant :
    (system.guarded KeepsGreeted).Invariant fun s => Retrying s.1 s.2 := by
  refine .guarded ?_ fun s event t hkeeps h hstep => ?_
  · rintro _ ⟨objectName, screenName, rfl⟩
    constructor <;> simp [ClientP.new]
  · obtain ⟨⟨after, effects⟩, hhandle, rfl⟩ := Option.map_eq_some_iff.mp hstep
    exact h.handle hkeeps hhandle

/-- A client that has given up does nothing more by itself. -/
theorem Retrying.stays {s t : ClientP × Attempts} {event : ClientEvent} (h : Retrying s.1 s.2)
    (hreported : s.2.reported = true)
    (hevent : ∀ socket known initialState, event ≠ .connectToHost socket known initialState)
    (hstep : system.step s event t) :
    t.2.reported = true ∧ t.2.made = s.2.made ∧ t.1.attached = false := by
  obtain ⟨hattached, htimer⟩ := h.reported hreported
  obtain ⟨⟨after, effects⟩, hhandle, rfl⟩ := Option.map_eq_some_iff.mp hstep
  cases event with
  | connectToHost socket known initialState => exact absurd rfl (hevent socket known initialState)
  | packetReceived | socketGone =>
    rw [ClientP.handle, hattached] at hhandle
    cases hhandle
  | reconnectTimeout =>
    rw [ClientP.handle, htimer] at hhandle
    cases hhandle
  | disconnectFromHost =>
    cases hhandle
    simp [Attempts.note, Attempts.ofEvent, hreported]
  | socketDeleted =>
    rw [ClientP.handle, hattached] at hhandle
    cases hhandle
    simp [Attempts.note, Attempts.ofEvent, hreported]
  | answer | giveUp | speak | operate | setState =>
    have hafter := h.handle (fun hgone => by cases hgone) hhandle
    refine ⟨?_, rfl, (hafter.reported ?_).1⟩ <;>
      simp [Attempts.note, Attempts.ofEvent, hreported]

/-- As long as no connection of its own that the server greeted is lost, a client makes
at most five attempts to reconnect; it reports the failure of the last one, and from
then on only `connectToHost` makes it connect again. -/
theorem reconnecting_finite {s : ClientP × Attempts}
    (hreach : (system.guarded KeepsGreeted).Reachable s) :
    s.2.made ≤ MaxReconnectAttempts ∧
    (∀ t, s.2.made = MaxReconnectAttempts → s.2.greeted = false → system.step s .socketGone t →
      t.2.reported = true) ∧
    (s.2.reported = true → s.1.attached = false ∧ ∀ event t,
      (∀ socket known initialState, event ≠ .connectToHost socket known initialState) →
      system.step s event t →
        t.2.reported = true ∧ t.2.made = s.2.made ∧ t.1.attached = false) := by
  have hinv := retrying_invariant.of_reachable hreach
  refine ⟨hinv.bound, fun t hmax hgreeted hstep => ?_, fun hreported => ?_⟩
  · obtain ⟨⟨after, effects⟩, hhandle, rfl⟩ := Option.map_eq_some_iff.mp hstep
    obtain ⟨hattached, hresult⟩ := Option.ite_none_right_eq_some.mp hhandle
    have hlast := (hinv.socketGone hattached hgreeted).2 hmax
    rwa [Option.some.inj hresult] at hlast
  · exact ⟨(hinv.reported hreported).1, fun event t hevent hstep =>
      hinv.stays hreported hevent hstep⟩

/-- The server greets whoever connects. -/
def greeting : Packet :=
  .ofNotify .NotifyVersion (.object [
    ("versionNumber", .string "0.1.0"), ("protocolVersion", .ofInt protocolVersion)])

/-- The client connects, and its connection is lost. -/
def firstLoss : List ClientEvent := [.connectToHost 0 true 0, .socketGone]

/-- A connection of the client's own is greeted, and closed. -/
def greetedAttempt : List ClientEvent :=
  [.reconnectTimeout 1 true, .packetReceived greeting, .socketGone]

def failedAttempt : List ClientEvent := [.reconnectTimeout 1 true, .socketGone]

/-- A server that closes what it greets is tried a sixth time, and there is no end to it. -/
theorem reconnecting_finite_fails : ∃ s t events, system.init s ∧ system.Run s events t ∧
    (∀ packet, .packetReceived packet ∈ events → Greets packet) ∧
    t.2.made = 6 ∧ t.2.reported = false ∧ t.1.reconnectTimer = true := by
  have hrun : ((firstLoss ++ (List.replicate 6 greetedAttempt).flatten).foldlM act
      (ClientP.new "a" "A", (⟨0, false, false⟩ : Attempts))).any (fun t : ClientP × Attempts =>
        decide (t.2.made = 6 ∧ t.2.reported = false ∧ t.1.reconnectTimer = true)) = true := by
    decide +kernel
  obtain ⟨t, hlast, hend⟩ := (Option.any_eq_true _ _).mp hrun
  refine ⟨_, t, _, ⟨"a", "A", rfl⟩, .foldlM (fun _ _ _ hact => hact) hlast, ?_,
    of_decide_eq_true hend⟩
  intro packet hpacket
  have hgreeting : packet = greeting := by
    simpa [firstLoss, greetedAttempt] using hpacket
  rw [hgreeting]
  decide

/-- Five attempts fail, and that is reported. -/
theorem reconnecting_finite_five : ∃ s, (system.guarded KeepsGreeted).Reachable s ∧
    s.2.made = MaxReconnectAttempts ∧ s.2.reported = true ∧
    ∀ event t, (∀ socket known initialState, event ≠ .connectToHost socket known initialState) →
      system.step s event t → t.2.made = s.2.made := by
  have hrun : ((firstLoss ++ (List.replicate 5 failedAttempt).flatten).foldlM
      (fun s event => if keepsGreeted s event then act s event else none)
      (ClientP.new "a" "A", (⟨0, false, false⟩ : Attempts))).any (fun t : ClientP × Attempts =>
        decide (t.2.made = MaxReconnectAttempts ∧ t.2.reported = true)) = true := by
    decide +kernel
  obtain ⟨s, hreach, hend⟩ := TransitionSystem.exists_reachable_foldlM
    (fun _ _ _ hact => hact) (show system.init _ from ⟨"a", "A", rfl⟩) hrun
  obtain ⟨hmade, hreported⟩ := of_decide_eq_true hend
  have hreach := hreach.guarded_mono fun _ _ => keepsGreeted_sound
  refine ⟨s, hreach, hmade, hreported, fun event t hevent hstep => ?_⟩
  exact (((reconnecting_finite hreach).2.2 hreported).2 event t hevent hstep).2.1

end ClientP

end QMdmmNetworking
