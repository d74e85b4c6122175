import QMdmm.Networking.Seats

namespace QMdmmNetworking

open QMdmmCore Data Protocol

namespace ServerP

/-- No two agents have a name, and no two connections a socket. -/
structure OneToOne (server : ServerP) : Prop where
  names : (server.seats.flatMap Seat.names).Nodup
  bindings : (server.seats.flatMap Seat.bindings).Nodup

/-- The socket is not bound to any connection but the one the sign-in reconnects. -/
def socketIsFree (self : ServerP) (socket : Socket) (playerName : String) : Bool :=
  (self.existing playerName).any (fun seat => seat.conn.socket = some socket) ||
    self.seats.all fun seat => seat.conn.socket ≠ some socket

def nameIsFree (self : ServerP) (playerName : String) : Bool :=
  self.seats.all fun seat => !seat.isAgent playerName

/-- A sign-in that gets a connection comes from a socket that is not bound yet, and
one that gets an agent registered comes under a name that no room has. -/
def takesOneSeat (self : ServerP) : Event → Bool
  | .signIn socket packetValue =>
    (SignIn.ofValue packetValue).all fun ob =>
      (self.refuses ob.playerName || self.socketIsFree socket ob.playerName) &&
        (!self.admits ob.playerName || self.nameIsFree ob.playerName)
  | _ => true

theorem not_mem_names {self : ServerP} {playerName : String}
    (h : self.nameIsFree playerName = true) : ∀ seat ∈ self.seats, playerName ∉ seat.names := by
  intro seat hseat hmem
  have hfree := List.all_eq_true.mp h seat hseat
  rw [Seat.mem_names.mp hmem] at hfree
  cases hfree

theorem not_mem_bindings {self : ServerP} {socket : Socket} {playerName : String}
    (h : self.socketIsFree socket playerName = true) :
    (∃ seat, self.existing playerName = some seat ∧ seat.bindings = [socket]) ∨
      ∀ seat ∈ self.seats, socket ∉ seat.bindings := by
  rcases Bool.or_eq_true_iff.mp h with hexisting | hfree
  · cases hseat : self.existing playerName with
    | none => simp [hseat] at hexisting
    | some seat =>
      rw [hseat] at hexisting
      have hsocket : seat.conn.socket = some socket := of_decide_eq_true hexisting
      exact .inl ⟨seat, rfl, by rw [Seat.bindings, hsocket]; rfl⟩
  · refine .inr fun seat hseat hmem => ?_
    have hne := of_decide_eq_true (List.all_eq_true.mp hfree seat hseat)
    exact hne (Option.mem_toList.mp hmem)

theorem OneToOne.sublist {self self' : ServerP} (h : OneToOne self)
    (hnames : (self'.seats.flatMap Seat.names).Sublist (self.seats.flatMap Seat.names))
    (hbindings : (self'.seats.flatMap Seat.bindings).Sublist (self.seats.flatMap Seat.bindings)) :
    OneToOne self' :=
  ⟨h.names.sublist hnames, h.bindings.sublist hbindings⟩

theorem OneToOne.signIn {self self' : ServerP} {socket : Socket} {packetValue : QJsonValue}
    (h : OneToOne self) (htakes : self.takesOneSeat (.signIn socket packetValue) = true)
    (hsignIn : self.signIn socket packetValue = .ok self') : OneToOne self' := by
  rcases signIn_cases hsignIn with ⟨-, rfl⟩ | ⟨ob, hob, hcases⟩
  · exact h
  rw [takesOneSeat, hob] at htakes
  obtain ⟨hsocket, hname⟩ := Bool.and_eq_true_iff.mp htakes
  cases hcases with
  | refused _ hsame =>
    rw [hsame]
    exact h
  | reconnected seat hrefuses hexisting hseats =>
    rw [hrefuses, Bool.false_or] at hsocket
    refine ⟨hseats.nodup h.names (.inl rfl), hseats.nodup h.bindings ?_⟩
    rcases not_mem_bindings hsocket with ⟨bound, hbound, hbindings⟩ | hfree
    · cases hexisting.symm.trans hbound
      exact .inl hbindings.symm
    · exact .inr ⟨socket, rfl, hfree⟩
  | added registered pre post hrefuses hexisting hadmits hbefore hafter =>
    rw [hrefuses, Bool.false_or] at hsocket
    have hnames := h.names
    have hbindings := h.bindings
    rw [hbefore] at hnames hbindings
    refine ⟨hafter ▸ nodup_insert hnames ?_, hafter ▸ nodup_insert hbindings (.inr ?_)⟩
    · cases registered with
      | false => exact .inl rfl
      | true =>
        rw [hadmits rfl, Bool.not_true, Bool.false_or] at hname
        exact .inr ⟨ob.playerName, rfl, hbefore ▸ not_mem_names hname⟩
    · rcases not_mem_bindings hsocket with ⟨bound, hbound, -⟩ | hfree
      · cases hexisting.symm.trans hbound
      · exact ⟨socket, rfl, hbefore ▸ hfree⟩

theorem OneToOne.stateChange {self : ServerP} (h : OneToOne self) (socket : Socket)
    (packetValue : QJsonValue) : OneToOne (self.stateChange socket packetValue) := by
  rcases stateChange_cases self socket packetValue with hsame | ⟨seat, runners, -, -, hafter, hseats⟩
  · rwa [hsame]
  · rw [hafter]
    exact ⟨hseats.nodup h.names (.inl rfl), hseats.nodup h.bindings (.inl rfl)⟩

theorem OneToOne.socketDisconnected {self : ServerP} (h : OneToOne self) (socket : Socket)
    (random : RockPaperScissors) : OneToOne (self.socketDisconnected socket random) := by
  have hdropped {β : Type} (g : Seat → List β)
      (hg : ∀ seat : Seat, (g (seat.dropped random)).Sublist (g seat)) :
      ((self.socketDisconnected socket random).seats.flatMap g).Sublist (self.seats.flatMap g) := by
    rw [seats_socketDisconnected, seats, List.flatMap_assoc, List.flatMap_assoc]
    exact .flatMap_right _ fun runner _ => LogicRunner.dropSeats_sublist g hg [] runner.children
  exact h.sublist (hdropped Seat.names fun _ => .refl _)
    (hdropped Seat.bindings fun _ => List.nil_sublist _)

theorem OneToOne.socketDeleted {self : ServerP} (h : OneToOne self) (socket : Socket) :
    OneToOne (self.socketDeleted socket) := by
  refine h.sublist ?_ ?_
  · rw [seats_socketDeleted, List.flatMap_map]
    exact .refl _
  · rw [seats_socketDeleted, List.flatMap_map]
    refine .flatMap_right _ fun seat _ => ?_
    rw [Seat.bindings, Seat.bindings]
    cases seat.conn.socket with
    | none => exact .refl _
    | some bound =>
      rw [Option.filter_some]
      split
      · exact .refl _
      · exact List.nil_sublist _

theorem OneToOne.handle {self self' : ServerP} {event : Event} (h : OneToOne self)
    (htakes : self.takesOneSeat event = true) (hevent : self.handle event = some self') :
    OneToOne self' := by
  cases handle_cases hevent with
  | newConnection => exact ⟨h.names, h.bindings⟩
  | signIn _ hsignIn => exact h.signIn htakes hsignIn
  | stateChange => exact h.stateChange _ _
  | socketDisconnected => exact h.socketDisconnected _ _
  | gameOver => exact h.sublist (by rw [seats_logicRunnerGameOver]) (by rw [seats_logicRunnerGameOver])
  | runnerDeleted =>
    have hseats := seats_runnerDeleted self
    exact h.sublist ((hseats _).flatMap _) ((hseats _).flatMap _)
  | socketDeleted => exact h.socketDeleted _

theorem oneToOne_invariant :
    (system.guarded fun self event => self.takesOneSeat event = true).Invariant OneToOne := by
  refine .guarded ?_ fun self event self' htakes hself hevent => hself.handle htakes hevent
  rintro self ⟨_, _, _, _, rfl⟩
  exact ⟨List.nodup_nil, List.nodup_nil⟩

/-- The names of the registered agents that are online. -/
def onlineNames (self : ServerP) : List String :=
  (self.seats.filter fun seat => seat.registered && seat.online).map Seat.playerName

/-- The sockets of all connections, once for each connection. -/
def boundSockets (self : ServerP) : List Socket := self.seats.flatMap Seat.bindings

theorem onlineNames_sublist (self : ServerP) :
    self.onlineNames.Sublist (self.seats.flatMap Seat.names) := by
  rw [onlineNames]
  induction self.seats with
  | nil => exact .refl _
  | cons seat seats ih =>
    rw [List.filter_cons, List.flatMap_cons]
    split
    · next honline =>
      rw [Bool.and_eq_true_iff] at honline
      rw [Seat.names, if_pos honline.1, List.map_cons]
      exact ih.cons_cons _
    · exact ih.trans (List.sublist_append_right _ _)

/-- In every run in which no sign-in takes a second seat, names and sockets are one
to one over all rooms. -/
theorem one_seat {self : ServerP}
    (hself : (system.guarded fun self event => self.takesOneSeat event = true).Reachable self) :
    self.onlineNames.Nodup ∧ self.boundSockets.Nodup := by
  have honeToOne := oneToOne_invariant.of_reachable hself
  exact ⟨honeToOne.names.sublist self.onlineNames_sublist, honeToOne.bindings⟩

/-- Four players in two rooms, one of whom has come back. -/
theorem one_seat_two_rooms :
    ∃ self : ServerP, self.onlineNames.length = 4 ∧ self.boundSockets.length = 4 ∧
      self.runners.length = 2 ∧ self.onlineNames.Nodup ∧ self.boundSockets.Nodup := by
  obtain ⟨self, hself, hend⟩ := exists_run (G := takesOneSeat)
    [.newConnection, .newConnection, .newConnection, .newConnection, .newConnection,
      .signIn 0 (signInValue "A" 16), .signIn 1 (signInValue "B" 16),
      .socketDisconnected 0 .Rock, .signIn 2 (signInValue "C" 16),
      .signIn 3 (signInValue "A" 16), .signIn 4 (signInValue "D" 16)]
    (fun self => decide (self.onlineNames.length = 4 ∧ self.boundSockets.length = 4 ∧
      self.runners.length = 2)) .defaults 2 0 20 (by decide +kernel)
  obtain ⟨honline, hbound, hrooms⟩ := of_decide_eq_true hend
  exact ⟨self, honline, hbound, hrooms, one_seat hself⟩

/-- A name of a full room can be signed in under again: the new agent goes to another
room. And a socket that has signed in can sign in again. -/
theorem one_seat_fails :
    (∃ self : ServerP, system.Reachable self ∧ ¬ self.onlineNames.Nodup) ∧
      ∃ self : ServerP, system.Reachable self ∧ ¬ self.boundSockets.Nodup := by
  constructor
  · obtain ⟨self, hself, hend⟩ := exists_run (G := fun _ _ => true)
      [.newConnection, .newConnection, .newConnection, .signIn 0 (signInValue "A" 16),
        .signIn 1 (signInValue "B" 16), .signIn 2 (signInValue "A" 16)]
      (fun self => decide (¬ self.onlineNames.Nodup)) .defaults 2 0 20 (by decide +kernel)
    exact ⟨self, hself.of_guarded, of_decide_eq_true hend⟩
  · obtain ⟨self, hself, hend⟩ := exists_run (G := fun _ _ => true)
      [.newConnection, .signIn 0 (signInValue "A" 16), .signIn 0 (signInValue "B" 16)]
      (fun self => decide (¬ self.boundSockets.Nodup)) .defaults 2 0 20 (by decide +kernel)
    exact ⟨self, hself.of_guarded, of_decide_eq_true hend⟩

end ServerP

end QMdmmNetworking
