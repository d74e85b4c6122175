import QMdmm.Networking.Seats

namespace QMdmmNetworking

open QMdmmCore Data Protocol

/-- The flag of an agent says whether its connection has a socket, and of all sockets
that have ever been bound to the connection only that one may still be up. -/
structure Seat.Sound (sockets : List Socket) (made : Nat) (seat : Seat) : Prop where
  flag : seat.registered = true → seat.online = seat.conn.socket.isSome
  bound : ∀ socket, seat.conn.socket = some socket → socket ∈ seat.conn.wired ∧ socket ∈ sockets
  wired : ∀ socket ∈ seat.conn.wired, socket < made ∧
    (socket ∈ sockets → seat.conn.socket = some socket)

namespace Seat.Sound

variable {sockets : List Socket} {made made' : Nat} {seat : Seat}

theorem mono (h : Seat.Sound sockets made seat) (hmade : made ≤ made') :
    Seat.Sound sockets made' seat :=
  ⟨h.flag, h.bound, fun socket hsocket =>
    ⟨Nat.lt_of_lt_of_le (h.wired socket hsocket).1 hmade, (h.wired socket hsocket).2⟩⟩

theorem newConnection (h : Seat.Sound sockets made seat) :
    Seat.Sound (sockets ++ [made]) (made + 1) seat where
  flag := h.flag
  bound socket hsocket := ⟨(h.bound socket hsocket).1, List.mem_append_left _ (h.bound socket hsocket).2⟩
  wired socket hsocket := by
    obtain ⟨hlt, honly⟩ := h.wired socket hsocket
    refine ⟨Nat.lt_succ_of_lt hlt, fun hmem => ?_⟩
    rcases List.mem_append.mp hmem with hmem | hmem
    · exact honly hmem
    · exact absurd (List.mem_singleton.mp hmem) (Nat.ne_of_lt hlt)

theorem setState (h : Seat.Sound sockets made seat) {state : AgentState}
    (hsocket : seat.conn.socket.isSome = true)
    (hstate : seat.registered = true → state.online = true) :
    Seat.Sound sockets made (seat.setState state) :=
  ⟨fun hregistered => (hstate hregistered).trans hsocket.symm, h.bound, h.wired⟩

/-- A seat without a socket takes any socket that is up. -/
theorem reconnected (h : Seat.Sound sockets made seat) (hnone : seat.conn.socket = none)
    {socket : Socket} (hsocket : socket ∈ sockets) (hmade : socket < made) :
    Seat.Sound sockets made (seat.reconnected socket) where
  flag _ := AgentState.online_setFlag_online _ true
  bound bound hbound := by
    cases hbound
    exact ⟨List.mem_append_right _ (List.mem_singleton_self _), hsocket⟩
  wired wired hwired := by
    rcases List.mem_append.mp hwired with hwired | hwired
    · refine ⟨(h.wired wired hwired).1, fun hmem => ?_⟩
      cases hnone.symm.trans ((h.wired wired hwired).2 hmem)
    · rw [List.mem_singleton.mp hwired]
      exact ⟨hmade, fun _ => rfl⟩

theorem signedIn {ob : SignIn} {logicConfiguration : LogicConfiguration} {requestTimeout : Int}
    {registered : Bool} {socket : Socket}
    (hsocket : socket ∈ sockets) (hmade : socket < made)
    (honline : registered = true → ob.agentState.online = true) :
    Seat.Sound sockets made (.signedIn ob logicConfiguration requestTimeout socket registered) where
  flag := honline
  bound bound hbound := by
    cases hbound
    exact ⟨List.mem_singleton_self _, hsocket⟩
  wired wired hwired := by
    rw [List.mem_singleton.mp hwired]
    exact ⟨hmade, fun _ => rfl⟩

/-- The socket that is gone was the last one that was up. -/
theorem dropped (h : Seat.Sound sockets made seat) {socket : Socket} (hsocket : socket ∈ sockets)
    (hwired : socket ∈ seat.conn.wired) (random : RockPaperScissors) :
    Seat.Sound (sockets.filter (· ≠ socket)) made (seat.dropped random) where
  flag _ := by
    have hoffline : (seat.dropped random).online =
        ((seat.conn.agent.state.setFlag StateMaskOnline false).setFlag StateMaskTrust false).online :=
      rfl
    rw [hoffline, AgentState.online_setFlag_trust, AgentState.online_setFlag_online]
    rfl
  bound bound hbound := by cases hbound
  wired other hother := by
    refine ⟨(h.wired other hother).1, fun hmem => ?_⟩
    obtain ⟨hup, hne⟩ := List.mem_filter.mp hmem
    have hsame := ((h.wired other hother).2 hup).symm.trans ((h.wired socket hwired).2 hsocket)
    exact absurd (Option.some.inj hsame) (of_decide_eq_true hne)

theorem other (h : Seat.Sound sockets made seat) {socket : Socket}
    (hwired : socket ∉ seat.conn.wired) :
    Seat.Sound (sockets.filter (· ≠ socket)) made seat where
  flag := h.flag
  bound bound hbound := by
    obtain ⟨hmem, hup⟩ := h.bound bound hbound
    refine ⟨hmem, List.mem_filter.mpr ⟨hup, decide_eq_true ?_⟩⟩
    rintro rfl
    exact hwired hmem
  wired other hother :=
    ⟨(h.wired other hother).1, fun hmem => (h.wired other hother).2 (List.mem_filter.mp hmem).1⟩

/-- The deleted socket was not bound. -/
theorem socketDeleted (h : Seat.Sound sockets made seat) {socket : Socket}
    (hsocket : socket ∉ sockets) :
    Seat.Sound (sockets.filter (· ≠ socket)) made
      { seat with
        conn := { seat.conn with
          socket := seat.conn.socket.filter (· ≠ socket)
          wired := seat.conn.wired.filter (· ≠ socket) } } := by
  have hkept : seat.conn.socket.filter (· ≠ socket) = seat.conn.socket := by
    cases hbound : seat.conn.socket with
    | none => rfl
    | some bound =>
      refine if_pos (decide_eq_true ?_)
      rintro rfl
      exact hsocket (h.bound bound hbound).2
  have hsockets : sockets.filter (· ≠ socket) = sockets := by
    refine List.filter_eq_self.mpr fun other hother => decide_eq_true ?_
    rintro rfl
    exact hsocket hother
  rw [hkept, hsockets]
  refine ⟨h.flag, fun bound hbound => ?_, fun wired hwired => ?_⟩
  · obtain ⟨hmem, hup⟩ := h.bound bound hbound
    refine ⟨List.mem_filter.mpr ⟨hmem, decide_eq_true ?_⟩, hup⟩
    rintro rfl
    exact hsocket hup
  · exact h.wired wired (List.mem_filter.mp hwired).1

end Seat.Sound

namespace ServerP

/-- Every seat is sound, and a socket that is to be deleted is not up. -/
structure SeatsSound (server : ServerP) : Prop where
  seats : ∀ seat ∈ server.seats, seat.Sound server.sockets server.made
  sockets : ∀ socket ∈ server.sockets, socket < server.made
  doomed : ∀ socket ∈ server.doomed, socket < server.made ∧ socket ∉ server.sockets

/-- Where the state of a registered agent is declared, it is declared online. -/
def declaresOnline (self : ServerP) : Event → Bool
  | .signIn _ packetValue =>
    (SignIn.ofValue packetValue).all fun ob =>
      !self.admits ob.playerName || ob.agentState.online
  | .stateChange socket packetValue =>
    let vmanaged := packetValue.toObject.value "agentState"
    !vmanaged.isDouble || (self.boundTo socket).all fun seat =>
      !seat.registered || (AgentState.ofInt (vmanaged.toInt 0)).online
  | _ => true

theorem SeatsSound.signIn {self self' : ServerP} {socket : Socket} {packetValue : QJsonValue}
    (h : SeatsSound self) (hsocket : socket ∈ self.sockets)
    (hdeclares : self.declaresOnline (.signIn socket packetValue) = true)
    (hsignIn : self.signIn socket packetValue = .ok self') : SeatsSound self' := by
  rcases signIn_cases hsignIn with ⟨-, rfl⟩ | ⟨ob, hob, hcases⟩
  · exact h
  rw [declaresOnline, hob] at hdeclares
  have hmade := h.sockets socket hsocket
  cases hcases with
  | refused _ hsame =>
    rw [hsame]
    exact h
  | reconnected seat hrefuses hexisting hseats hsockets hsame hdoomed =>
    obtain ⟨hseat, hagent, hoffline⟩ := mem_of_existing hexisting
    have hsound := h.seats seat hseat
    have hnone : seat.conn.socket = none := by
      rw [hsound.flag (Seat.isAgent_iff.mp hagent).1] at hoffline
      exact Option.isSome_eq_false_iff.mp hoffline |> Option.isNone_iff_eq_none.mp
    refine ⟨fun other hother => ?_, ?_, ?_⟩
    · rw [hsockets, hsame]
      rcases hseats.mem_or_eq hother with hold | rfl
      · exact h.seats other hold
      · exact hsound.reconnected hnone hsocket hmade
    · rw [hsockets, hsame]
      exact h.sockets
    · rw [hsockets, hsame, hdoomed, Seat.bindings, hnone, Option.toList_none, List.append_nil]
      exact h.doomed
  | added registered pre post hrefuses hexisting hadmits hbefore hafter hsockets hle hdoomed =>
    refine ⟨fun other hother => ?_, fun other hother => ?_, fun other hother => ?_⟩
    · rw [hsockets]
      rw [hafter, List.mem_append, List.mem_cons] at hother
      have hold : other ∈ pre ++ post → other.Sound self.sockets self'.made := fun hmem =>
        (h.seats other (hbefore ▸ hmem)).mono hle
      rcases hother with hpre | rfl | hpost
      · exact hold (List.mem_append_left _ hpre)
      · refine .signedIn hsocket (Nat.lt_of_lt_of_le hmade hle) fun hregistered => ?_
        rw [Option.all_some, hadmits hregistered] at hdeclares
        exact hdeclares
      · exact hold (List.mem_append_right _ hpost)
    · rw [hsockets] at hother
      exact Nat.lt_of_lt_of_le (h.sockets other hother) hle
    · rw [hdoomed] at hother
      rw [hsockets]
      exact ⟨Nat.lt_of_lt_of_le (h.doomed other hother).1 hle, (h.doomed other hother).2⟩

theorem SeatsSound.stateChange {self : ServerP} (h : SeatsSound self) {socket : Socket}
    {packetValue : QJsonValue}
    (hdeclares : self.declaresOnline (.stateChange socket packetValue) = true) :
    SeatsSound (self.stateChange socket packetValue) := by
  rcases stateChange_cases self socket packetValue with
    hsame | ⟨seat, runners, hdouble, hbound, hafter, hseats⟩
  · rwa [hsame]
  · rw [hafter]
    refine ⟨fun other hother => ?_, h.sockets, h.doomed⟩
    rcases hseats.mem_or_eq hother with hold | rfl
    · exact h.seats other hold
    · have hsocket : seat.conn.socket = some socket := by
        have hfound := List.find?_some hbound
        exact of_decide_eq_true hfound
      refine (h.seats seat hseats.mem).setState (by rw [hsocket]; rfl) fun hregistered => ?_
      rw [declaresOnline, hbound] at hdeclares
      simpa [hdouble, hregistered] using hdeclares

theorem sockets_socketDisconnected (self : ServerP) (socket : Socket) (random : RockPaperScissors) :
    (self.socketDisconnected socket random).sockets = self.sockets.filter (· ≠ socket) ∧
      (self.socketDisconnected socket random).made = self.made ∧
      (self.socketDisconnected socket random).doomed =
        self.doomed ++ self.seats.filterMap fun seat =>
          if socket ∈ seat.conn.wired then seat.conn.socket else none := by
  rw [socketDisconnected]
  refine ⟨?_, ?_, ?_⟩
  · rw [foldl_logicRunnerGameOver (g := sockets) fun _ _ => rfl]
  · rw [foldl_logicRunnerGameOver (g := made) fun _ _ => rfl]
  · rw [foldl_logicRunnerGameOver (g := doomed) fun _ _ => rfl]
    rfl

theorem SeatsSound.socketDisconnected {self : ServerP} (h : SeatsSound self) {socket : Socket}
    (hsocket : socket ∈ self.sockets) (random : RockPaperScissors) :
    SeatsSound (self.socketDisconnected socket random) := by
  obtain ⟨hsockets, hmade, hdoomed⟩ := sockets_socketDisconnected self socket random
  refine ⟨fun seat hseat => ?_, fun other hother => ?_, fun other hother => ?_⟩
  · rw [hsockets, hmade]
    rw [seats_socketDisconnected] at hseat
    obtain ⟨runner, hrunner, hseat⟩ := List.mem_flatMap.mp hseat
    have hold : ∀ old ∈ runner.children, old.Sound self.sockets self.made := fun old hmem =>
      h.seats old (List.mem_flatMap.mpr ⟨runner, hrunner, hmem⟩)
    rcases LogicRunner.mem_dropSeats hseat with hnil | ⟨old, hmem, hwired, rfl⟩ | ⟨hmem, hother⟩
    · cases hnil
    · exact (hold old hmem).dropped hsocket hwired random
    · exact (hold seat hmem).other hother
  · rw [hsockets] at hother
    rw [hmade]
    exact h.sockets other (List.mem_filter.mp hother).1
  · rw [hdoomed] at hother
    rw [hsockets, hmade]
    rcases List.mem_append.mp hother with hold | hnew
    · exact ⟨(h.doomed other hold).1, fun hmem => (h.doomed other hold).2 (List.mem_filter.mp hmem).1⟩
    · -- Only the socket that is gone was bound to a connection that it reached.
      obtain ⟨seat, hseat, hbound⟩ := List.mem_filterMap.mp hnew
      split at hbound
      · next hwired =>
        have hsame : other = socket := Option.some.inj
          (hbound.symm.trans (((h.seats seat hseat).wired socket hwired).2 hsocket))
        rw [hsame]
        exact ⟨h.sockets socket hsocket, fun hmem =>
          of_decide_eq_true (List.mem_filter.mp hmem).2 rfl⟩
      · cases hbound

theorem SeatsSound.socketDeleted {self : ServerP} (h : SeatsSound self) {socket : Socket}
    (hsocket : socket ∈ self.doomed) : SeatsSound (self.socketDeleted socket) := by
  refine ⟨fun seat hseat => ?_, fun other hother => ?_, fun other hother => ?_⟩
  · rw [seats_socketDeleted] at hseat
    obtain ⟨old, hold, rfl⟩ := List.mem_map.mp hseat
    exact (h.seats old hold).socketDeleted (h.doomed socket hsocket).2
  · exact h.sockets other (List.mem_filter.mp hother).1
  · obtain ⟨hlt, hdown⟩ := h.doomed other (List.mem_filter.mp hother).1
    exact ⟨hlt, fun hmem => hdown (List.mem_filter.mp hmem).1⟩

theorem SeatsSound.handle {self self' : ServerP} {event : Event} (h : SeatsSound self)
    (hdeclares : self.declaresOnline event = true) (hevent : self.handle event = some self') :
    SeatsSound self' := by
  cases handle_cases hevent with
  | newConnection =>
    refine ⟨fun seat hseat => (h.seats seat hseat).newConnection, fun socket hsocket => ?_,
      fun socket hsocket => ?_⟩
    · rcases List.mem_append.mp hsocket with hold | hnew
      · exact Nat.lt_succ_of_lt (h.sockets socket hold)
      · rw [List.mem_singleton.mp hnew]
        exact Nat.lt_succ_self _
    · obtain ⟨hlt, hdown⟩ := h.doomed socket hsocket
      refine ⟨Nat.lt_succ_of_lt hlt, fun hmem => ?_⟩
      rcases List.mem_append.mp hmem with hold | hnew
      · exact hdown hold
      · exact Nat.ne_of_lt hlt (List.mem_singleton.mp hnew)
  | signIn hsocket hsignIn => exact h.signIn hsocket hdeclares hsignIn
  | stateChange => exact h.stateChange hdeclares
  | socketDisconnected hsocket => exact h.socketDisconnected hsocket _
  | gameOver =>
    refine ⟨fun seat hseat => ?_, h.sockets, h.doomed⟩
    rw [seats_logicRunnerGameOver] at hseat
    exact h.seats seat hseat
  | runnerDeleted =>
    exact ⟨fun seat hseat => h.seats seat ((seats_runnerDeleted self _).subset hseat), h.sockets,
      h.doomed⟩
  | socketDeleted hsocket => exact h.socketDeleted hsocket

theorem seatsSound_invariant :
    (system.guarded fun self event => self.declaresOnline event = true).Invariant SeatsSound := by
  refine .guarded ?_ fun self event self' hdeclares hself hevent => hself.handle hdeclares hevent
  rintro self ⟨_, _, _, _, rfl⟩
  exact ⟨fun _ hseat => (List.not_mem_nil hseat).elim, fun _ hsocket =>
    (List.not_mem_nil hsocket).elim, fun _ hsocket => (List.not_mem_nil hsocket).elim⟩

/-- A seat that is online is not taken by anybody else's sign-in. -/
theorem mem_signIn_of_online {self self' : ServerP} {socket : Socket} {packetValue : QJsonValue}
    {seat : Seat} (hseat : seat ∈ self.seats) (honline : seat.online = true)
    (hsignIn : self.signIn socket packetValue = .ok self') : seat ∈ self'.seats := by
  rcases signIn_cases hsignIn with ⟨-, rfl⟩ | ⟨ob, hob, hcases⟩
  · exact hseat
  cases hcases with
  | refused _ hsame => rwa [hsame]
  | reconnected offline hrefuses hexisting hseats =>
    refine hseats.mem_of_ne hseat ?_
    rintro rfl
    rw [(mem_of_existing hexisting).2.2] at honline
    cases honline
  | added registered pre post hrefuses hexisting hadmits hbefore hafter =>
    rw [hbefore] at hseat
    rw [hafter]
    simp only [List.mem_append, List.mem_cons] at hseat ⊢
    tauto

theorem exists_reconnect (conn : ServerConnectionP) (socket : Socket) {lastRoundEventSeq : Int}
    (hseq : 0 ≤ lastRoundEventSeq) :
    ∃ result, conn.reconnect socket lastRoundEventSeq = .ok result := by
  simp [ServerConnectionP.reconnect, ServerConnectionP.replayMissedRoundEvents,
    Int.not_lt.mpr hseq]

/-- A sequence number that is not negative never ends the process. -/
theorem exists_signIn (self : ServerP) (socket : Socket) {packetValue : QJsonValue} {ob : SignIn}
    (hob : SignIn.ofValue packetValue = some ob) (hseq : 0 ≤ ob.lastRoundEventSeq) :
    ∃ self', self.signIn socket packetValue = .ok self' := by
  rw [ServerP.signIn, hob]
  dsimp only
  split
  · next seat hexisting =>
    obtain ⟨⟨conn, effects⟩, hconn⟩ := exists_reconnect seat.conn socket hseq
    rw [hconn]
    exact ⟨_, rfl⟩
  · split
    · split
      · exact ⟨_, rfl⟩
      · exact ⟨_, rfl⟩
    · exact ⟨_, rfl⟩

/-- A seat that is not online is found by a sign-in under its name, or another of that
name that is not online. -/
theorem exists_existing {self : ServerP} (hnames : RoomNames self) {seat : Seat}
    (hseat : seat ∈ self.seats) (hregistered : seat.registered = true)
    (hoffline : seat.online = false) :
    ∃ existing, self.existing seat.playerName = some existing := by
  obtain ⟨runner, hrunner, hchild⟩ := List.mem_flatMap.mp hseat
  have hagent := hnames.agent hrunner hchild hregistered
  refine Option.isSome_iff_exists.mp ?_
  rw [existing, List.findSome?_isSome_iff]
  exact ⟨runner, hrunner, by simp [hagent, hoffline]⟩

/-- What a sign-in has found is what it reconnects. -/
theorem reseats_of_existing {self self' : ServerP} {seat : Seat} {socket : Socket}
    {packetValue : QJsonValue} {ob : SignIn} (hob : SignIn.ofValue packetValue = some ob)
    (hexisting : self.existing ob.playerName = some seat)
    (hsignIn : self.signIn socket packetValue = .ok self') :
    Reseats self.seats self'.seats seat (seat.reconnected socket) := by
  rcases signIn_cases hsignIn with ⟨hnone, -⟩ | ⟨ob', hob', hcases⟩
  · cases hnone.symm.trans hob
  cases hob'.symm.trans hob
  cases hcases with
  | refused hrefuses => simp [refuses, hexisting] at hrefuses
  | reconnected seat' _ hexisting' hseats =>
    cases hexisting'.symm.trans hexisting
    exact hseats
  | added _ _ _ _ hnone => cases hnone.symm.trans hexisting

/-- A sign-in under the name of a seat that is not online reconnects that seat, or
another of the name that is not online. -/
theorem reseats_of_offline {self : ServerP} (hnames : RoomNames self) {seat : Seat}
    (hseat : seat ∈ self.seats) (hregistered : seat.registered = true)
    (hoffline : seat.online = false) (socket : Socket) {packetValue : QJsonValue} {ob : SignIn}
    (hob : SignIn.ofValue packetValue = some ob) (hname : ob.playerName = seat.playerName)
    (hseq : 0 ≤ ob.lastRoundEventSeq) :
    ∃ existing self', existing.isAgent seat.playerName = true ∧ existing.online = false ∧
      self.signIn socket packetValue = .ok self' ∧
      Reseats self.seats self'.seats existing (existing.reconnected socket) := by
  obtain ⟨existing, hexisting⟩ := exists_existing hnames hseat hregistered hoffline
  obtain ⟨-, hsame, hexistingOffline⟩ := mem_of_existing hexisting
  obtain ⟨self', hsignIn⟩ := exists_signIn self socket hob hseq
  rw [← hname] at hexisting
  exact ⟨existing, self', hsame, hexistingOffline, hsignIn,
    reseats_of_existing hob hexisting hsignIn⟩

/-- In every run in which registered agents are only declared online, the flag says who
has a socket. So no sign-in takes a seat from a connected player, a room that counts
who is online counts who is connected, and a seat without a socket is reconnected by
a sign-in under its name. -/
theorem online_iff_bound {self : ServerP}
    (hself : (system.guarded fun self event => self.declaresOnline event = true).Reachable self) :
    (∀ seat ∈ self.seats, seat.registered = true →
      (seat.online = true ↔ seat.conn.socket.isSome = true) ∧
      (seat.conn.socket.isSome = true → ∀ socket packetValue self',
        self.signIn socket packetValue = .ok self' → seat ∈ self'.seats) ∧
      (seat.conn.socket = none → ∀ socket packetValue ob,
        SignIn.ofValue packetValue = some ob → ob.playerName = seat.playerName →
        0 ≤ ob.lastRoundEventSeq →
        ∃ existing self', existing.isAgent seat.playerName = true ∧
          existing.conn.socket = none ∧ self.signIn socket packetValue = .ok self' ∧
          Reseats self.seats self'.seats existing (existing.reconnected socket))) ∧
    ∀ runner ∈ self.runners,
      (runner.children.filter fun seat => seat.registered && seat.online) =
        runner.children.filter fun seat => seat.registered && seat.conn.socket.isSome := by
  have hsound := seatsSound_invariant.of_reachable hself
  have hnames := roomNames_invariant.of_reachable hself.of_guarded
  refine ⟨fun seat hseat hregistered => ?_, fun runner hrunner => ?_⟩
  · have hflag := (hsound.seats seat hseat).flag hregistered
    refine ⟨by rw [hflag], fun hbound socket packetValue self' hsignIn => ?_,
      fun hnone socket packetValue ob hob hname hseq => ?_⟩
    · exact mem_signIn_of_online hseat (hflag.trans hbound) hsignIn
    · obtain ⟨existing, self', hsame, hoffline, hsignIn, hseats⟩ := reseats_of_offline hnames hseat
        hregistered (by rw [hflag, hnone]; rfl) socket hob hname hseq
      refine ⟨existing, self', hsame, ?_, hsignIn, hseats⟩
      have hflag' := (hsound.seats existing hseats.mem).flag (Seat.isAgent_iff.mp hsame).1
      rw [hoffline] at hflag'
      exact Option.isNone_iff_eq_none.mp (Option.isSome_eq_false_iff.mp hflag'.symm)
  · refine List.filter_congr fun seat hseat => ?_
    cases hregistered : seat.registered with
    | false => rfl
    | true =>
      exact (hsound.seats seat (List.mem_flatMap.mpr ⟨runner, hrunner, hseat⟩)).flag hregistered

/-- Of two players in a room one drops and comes back under its name. -/
theorem online_iff_bound_reconnect :
    ∃ self : ServerP, self.runners.length = 1 ∧ self.seats.length = 2 ∧
      (∀ seat ∈ self.seats, seat.conn.socket.isSome = true) ∧
      ∀ seat ∈ self.seats, seat.registered = true → seat.online = true := by
  obtain ⟨self, hself, hend⟩ := exists_run (G := declaresOnline)
    [.newConnection, .newConnection, .signIn 0 (signInValue "A" 16), .signIn 1 (signInValue "B" 17),
      .stateChange 0 (.object [("agentState", .ofInt 24)]), .socketDisconnected 0 .Rock,
      .socketDeleted 0, .newConnection, .signIn 3 (signInValue "A" 0)]
    (fun self => decide (self.runners.length = 1 ∧ self.seats.length = 2 ∧
      ∀ seat ∈ self.seats, seat.conn.socket.isSome = true)) .defaults 2 0 20 (by decide +kernel)
  obtain ⟨hrooms, hseats, hbound⟩ := of_decide_eq_true hend
  exact ⟨self, hrooms, hseats, hbound, fun seat hseat hregistered =>
    (((online_iff_bound hself).1 seat hseat hregistered).1).mpr (hbound seat hseat)⟩

/-- The seat that a sign-in under this name takes, though it has a socket. -/
theorem exists_takeable {self : ServerP} {playerName : String}
    (h : (self.existing playerName).any (fun seat => seat.conn.socket.isSome) = true) :
    ∃ seat ∈ self.seats, seat.registered = true ∧ seat.online = false ∧
      seat.conn.socket.isSome = true ∧ self.existing playerName = some seat := by
  obtain ⟨seat, hexisting, hbound⟩ := (Option.any_eq_true _ _).mp h
  obtain ⟨hseat, hagent, hoffline⟩ := mem_of_existing hexisting
  exact ⟨seat, hseat, (Seat.isAgent_iff.mp hagent).1, hoffline, hbound, hexisting⟩

/-- A client that signs in with the state 0, or declares it, is connected all the same,
and its seat is the one that the next sign-in under its name takes. -/
theorem online_iff_bound_fails :
    (∃ self : ServerP, system.Reachable self ∧ ∃ seat ∈ self.seats, seat.registered = true ∧
      seat.online = false ∧ seat.conn.socket.isSome = true ∧ self.existing "A" = some seat) ∧
    ∃ self self' : ServerP, system.Reachable self ∧
      (∀ seat ∈ self.seats, seat.registered = true → seat.online = seat.conn.socket.isSome) ∧
      self.handle (.stateChange 0 (.object [("agentState", .ofInt 0)])) = some self' ∧
      ∃ seat ∈ self'.seats, seat.registered = true ∧ seat.online = false ∧
        seat.conn.socket.isSome = true ∧ self'.existing "A" = some seat := by
  constructor
  · obtain ⟨self, hself, hend⟩ := exists_run (G := fun _ _ => true)
      [.newConnection, .signIn 0 (signInValue "A" 0)]
      (fun self => (self.existing "A").any fun seat => seat.conn.socket.isSome) .defaults 2 0 20
      (by decide +kernel)
    exact ⟨self, hself.of_guarded, exists_takeable hend⟩
  · obtain ⟨self, hself, hend⟩ := exists_run (G := fun _ _ => true)
      [.newConnection, .signIn 0 (signInValue "A" 16)]
      (fun self => decide (∀ seat ∈ self.seats, seat.registered = true →
        seat.online = seat.conn.socket.isSome) &&
        (self.handle (.stateChange 0 (.object [("agentState", .ofInt 0)]))).any fun self' =>
          (self'.existing "A").any fun seat => seat.conn.socket.isSome) .defaults 2 0 20 (by decide +kernel)
    obtain ⟨hsound, hchanged⟩ := Bool.and_eq_true_iff.mp hend
    obtain ⟨self', hself', htakeable⟩ := (Option.any_eq_true _ _).mp hchanged
    exact ⟨self, self', hself.of_guarded, of_decide_eq_true hsound, hself',
      exists_takeable htakeable⟩

end ServerP

end QMdmmNetworking
