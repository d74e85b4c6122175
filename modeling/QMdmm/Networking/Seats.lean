import Mathlib.Data.List.Flatten
import QMdmm.Networking.Server

namespace QMdmmNetworking

open QMdmmCore Data Protocol

namespace Seat

/-- The name an agent takes up. -/
def names (self : Seat) : List String := if self.registered then [self.playerName] else []

/-- The socket a connection is bound to. -/
def bindings (self : Seat) : List Socket := self.conn.socket.toList

/-- What is left of a seat whose socket has disconnected. -/
def dropped (random : RockPaperScissors) (self : Seat) : Seat :=
  { self with conn := (self.conn.onSocketDisconnected random).1 }

/-- A seat whose peer has come back on a new socket. -/
def reconnected (socket : Socket) (self : Seat) : Seat :=
  Seat.setState { self with conn := (self.conn.setSocket socket).1 }
    (self.conn.agent.state.setFlag StateMaskOnline true)

/-- The seat of a new agent. -/
def signedIn (ob : SignIn) (logicConfiguration : LogicConfiguration) (requestTimeout : Int)
    (socket : Socket) (registered : Bool) : Seat :=
  ⟨((ServerConnectionP.new ⟨ob.playerName, ob.screenName, ob.agentState⟩ logicConfiguration
    requestTimeout).setSocket socket).1, registered⟩

@[simp] theorem names_setState (self : Seat) (state : AgentState) :
    (self.setState state).names = self.names := rfl

@[simp] theorem bindings_setState (self : Seat) (state : AgentState) :
    (self.setState state).bindings = self.bindings := rfl

@[simp] theorem names_dropped (self : Seat) (random : RockPaperScissors) :
    (self.dropped random).names = self.names := rfl

@[simp] theorem bindings_dropped (self : Seat) (random : RockPaperScissors) :
    (self.dropped random).bindings = [] := rfl

@[simp] theorem names_reconnected (self : Seat) (socket : Socket) :
    (self.reconnected socket).names = self.names := rfl

@[simp] theorem bindings_reconnected (self : Seat) (socket : Socket) :
    (self.reconnected socket).bindings = [socket] := rfl

theorem isAgent_iff {self : Seat} {playerName : String} :
    self.isAgent playerName = true ↔ self.registered = true ∧ self.playerName = playerName := by
  simp [isAgent]

theorem names_eq_of_isAgent {self : Seat} {playerName : String}
    (hagent : self.isAgent playerName = true) : self.names = [playerName] := by
  obtain ⟨hregistered, hname⟩ := isAgent_iff.mp hagent
  rw [names, if_pos hregistered, hname]

theorem mem_names {self : Seat} {playerName : String} :
    playerName ∈ self.names ↔ self.isAgent playerName = true := by
  rw [isAgent_iff, names]
  by_cases hregistered : self.registered = true <;> simp [hregistered, eq_comm]

end Seat

namespace LogicRunner

/-- What is replaced by `replaceF` is the first thing there is a replacement for. -/
theorem replaceF_append_cons {α : Type} {f : α → Option α} {pre post : List α} {a b : α}
    (hpre : ∀ x ∈ pre, f x = none) (ha : f a = some b) :
    (pre ++ a :: post).replaceF f = pre ++ b :: post := by
  induction pre with
  | nil => exact List.replaceF_cons_of_some f ha
  | cons x pre ih =>
    rw [List.cons_append, List.replaceF_cons_of_none f (hpre x List.mem_cons_self),
      ih fun y hy => hpre y (List.mem_cons_of_mem _ hy), List.cons_append]

theorem mem_replaceF {α : Type} {f : α → Option α} {l : List α} {b : α} (h : b ∈ l.replaceF f) :
    b ∈ l ∨ ∃ a ∈ l, f a = some b := by
  induction l with
  | nil => cases h
  | cons a l ih =>
    cases ha : f a with
    | none =>
      rw [List.replaceF_cons_of_none f ha] at h
      rcases List.mem_cons.mp h with rfl | hmem
      · exact .inl List.mem_cons_self
      · rcases ih hmem with hold | ⟨c, hc, hb⟩
        · exact .inl (List.mem_cons_of_mem _ hold)
        · exact .inr ⟨c, List.mem_cons_of_mem _ hc, hb⟩
    | some c =>
      rw [List.replaceF_cons_of_some f ha] at h
      rcases List.mem_cons.mp h with rfl | hmem
      · exact .inr ⟨a, List.mem_cons_self, ha⟩
      · exact .inl (List.mem_cons_of_mem _ hmem)

theorem agent_eq_none {self : LogicRunner} {playerName : String} :
    self.agent playerName = none ↔ ∀ seat ∈ self.children, playerName ∉ seat.names := by
  simp only [agent, List.find?_eq_none, Seat.mem_names]

/-- What the seats of a room take up does not grow when a socket disconnects. -/
theorem dropSeats_sublist {β : Type} (g : Seat → List β) {n : Int} {socket : Socket}
    {random : RockPaperScissors} (hg : ∀ seat : Seat, (g (seat.dropped random)).Sublist (g seat))
    (done rest : List Seat) :
    ((dropSeats n socket random done rest).flatMap g).Sublist ((done ++ rest).flatMap g) := by
  induction rest generalizing done with
  | nil => simp [dropSeats]
  | cons seat rest ih =>
    have hrest : ((done ++ rest).flatMap g).Sublist ((done ++ seat :: rest).flatMap g) := by
      simp only [List.flatMap_append, List.flatMap_cons]
      exact (List.sublist_append_right _ _).append_left _
    have hdropped : ((done ++ [seat.dropped random] ++ rest).flatMap g).Sublist
        ((done ++ seat :: rest).flatMap g) := by
      simp only [List.flatMap_append, List.flatMap_cons, List.flatMap_nil, List.append_nil,
        List.append_assoc]
      exact ((hg seat).append_right _).append_left _
    rw [dropSeats]
    split
    · dsimp only
      split
      · exact (ih done).trans hrest
      · exact (ih (done ++ [seat.dropped random])).trans hdropped
    · have hkept := ih (done ++ [seat])
      rwa [List.append_assoc, List.singleton_append] at hkept

/-- A seat that is left was there before: its socket has disconnected, or another. -/
theorem mem_dropSeats {n : Int} {socket : Socket} {random : RockPaperScissors}
    {done rest : List Seat} {seat : Seat} (hseat : seat ∈ dropSeats n socket random done rest) :
    seat ∈ done ∨ (∃ old ∈ rest, socket ∈ old.conn.wired ∧ seat = old.dropped random) ∨
      (seat ∈ rest ∧ socket ∉ seat.conn.wired) := by
  induction rest generalizing done with
  | nil => exact .inl hseat
  | cons first rest ih =>
    rw [dropSeats] at hseat
    split at hseat
    · next hwired =>
      dsimp only at hseat
      split at hseat
      · rcases ih hseat with hdone | ⟨old, hold, hold'⟩ | ⟨hrest, hother⟩
        · exact .inl hdone
        · exact .inr (.inl ⟨old, List.mem_cons_of_mem _ hold, hold'⟩)
        · exact .inr (.inr ⟨List.mem_cons_of_mem _ hrest, hother⟩)
      · rcases ih hseat with hdone | ⟨old, hold, hold'⟩ | ⟨hrest, hother⟩
        · rcases List.mem_append.mp hdone with hdone | hdone
          · exact .inl hdone
          · exact .inr (.inl ⟨first, List.mem_cons_self, hwired, List.mem_singleton.mp hdone⟩)
        · exact .inr (.inl ⟨old, List.mem_cons_of_mem _ hold, hold'⟩)
        · exact .inr (.inr ⟨List.mem_cons_of_mem _ hrest, hother⟩)
    · next hother =>
      rcases ih hseat with hdone | ⟨old, hold, hold'⟩ | ⟨hrest, hother'⟩
      · rcases List.mem_append.mp hdone with hdone | hdone
        · exact .inl hdone
        · rw [List.mem_singleton.mp hdone]
          exact .inr (.inr ⟨List.mem_cons_self, hother⟩)
      · exact .inr (.inl ⟨old, List.mem_cons_of_mem _ hold, hold'⟩)
      · exact .inr (.inr ⟨List.mem_cons_of_mem _ hrest, hother'⟩)

end LogicRunner

namespace ServerP

/-- The seats of all rooms. -/
def seats (self : ServerP) : List Seat := self.runners.flatMap (·.children)

/-- One seat of the server is replaced by another. -/
inductive Reseats (before after : List Seat) (seat seat' : Seat) : Prop where
  | intro (pre post : List Seat) (hbefore : before = pre ++ seat :: post)
      (hafter : after = pre ++ seat' :: post)

theorem Reseats.nodup {β : Type} {before after : List Seat} {seat seat' : Seat} {g : Seat → List β}
    (h : Reseats before after seat seat') (hbefore : (before.flatMap g).Nodup)
    (hsame : g seat' = g seat ∨ ∃ b, g seat' = [b] ∧ ∀ other ∈ before, b ∉ g other) :
    (after.flatMap g).Nodup := by
  obtain ⟨pre, post, rfl, rfl⟩ := h
  simp only [List.flatMap_append, List.flatMap_cons] at hbefore ⊢
  rcases hsame with hsame | ⟨b, hb, hfresh⟩
  · rwa [hsame]
  · have hout : ((pre.flatMap g) ++ post.flatMap g).Nodup :=
      hbefore.sublist ((List.sublist_append_right _ _).append_left _)
    rw [hb, List.singleton_append, List.nodup_middle, List.nodup_cons]
    refine ⟨fun hmem => ?_, hout⟩
    rcases List.mem_append.mp hmem with hmem | hmem
    · obtain ⟨other, hother, hbother⟩ := List.mem_flatMap.mp hmem
      exact hfresh other (List.mem_append_left _ hother) hbother
    · obtain ⟨other, hother, hbother⟩ := List.mem_flatMap.mp hmem
      exact hfresh other (List.mem_append_right _ (List.mem_cons_of_mem _ hother)) hbother

theorem Reseats.mem {before after : List Seat} {seat seat' : Seat}
    (h : Reseats before after seat seat') : seat ∈ before := by
  obtain ⟨pre, post, rfl, -⟩ := h
  exact List.mem_append_right _ List.mem_cons_self

theorem Reseats.mem_or_eq {before after : List Seat} {seat seat' other : Seat}
    (h : Reseats before after seat seat') (hother : other ∈ after) :
    other ∈ before ∨ other = seat' := by
  obtain ⟨pre, post, rfl, rfl⟩ := h
  simp only [List.mem_append, List.mem_cons] at hother ⊢
  tauto

theorem Reseats.mem_of_ne {before after : List Seat} {seat seat' other : Seat}
    (h : Reseats before after seat seat') (hother : other ∈ before) (hne : other ≠ seat) :
    other ∈ after := by
  obtain ⟨pre, post, rfl, rfl⟩ := h
  simp only [List.mem_append, List.mem_cons] at hother ⊢
  tauto

/-- What a new seat takes up is only taken once, if it was free. -/
theorem nodup_insert {β : Type} {g : Seat → List β} {pre post : List Seat} {seat : Seat}
    (h : ((pre ++ post).flatMap g).Nodup)
    (hseat : g seat = [] ∨ ∃ b, g seat = [b] ∧ ∀ other ∈ pre ++ post, b ∉ g other) :
    ((pre ++ seat :: post).flatMap g).Nodup := by
  rw [List.flatMap_append] at h
  rw [List.flatMap_append, List.flatMap_cons]
  rcases hseat with hnone | ⟨b, hb, hfree⟩
  · rwa [hnone, List.nil_append]
  · rw [hb, List.singleton_append, List.nodup_middle, List.nodup_cons]
    refine ⟨fun hmem => ?_, h⟩
    rw [← List.flatMap_append] at hmem
    obtain ⟨other, hother, hbother⟩ := List.mem_flatMap.mp hmem
    exact hfree other hother hbother

/-- The first seat that is looked for, replaced. -/
theorem Reseats.of_find? {p : Seat → Prop} [DecidablePred p] {f : Seat → Seat} {seats : List Seat}
    {seat : Seat} (h : seats.find? (fun seat => decide (p seat)) = some seat) :
    Reseats seats (seats.replaceF fun seat => if p seat then some (f seat) else none) seat
      (f seat) := by
  obtain ⟨hseat, pre, post, rfl, hpre⟩ := List.find?_eq_some_iff_append.mp h
  refine ⟨pre, post, rfl, LogicRunner.replaceF_append_cons (fun other hother => if_neg ?_)
    (if_pos (of_decide_eq_true hseat))⟩
  simpa using hpre other hother

/-- A runner that is replaced for the sake of one seat. -/
theorem Reseats.flatMap {runners runners' pre post : List LogicRunner} {runner runner' : LogicRunner}
    {seat seat' : Seat} (hbefore : runners = pre ++ runner :: post)
    (hafter : runners' = pre ++ runner' :: post)
    (h : Reseats runner.children runner'.children seat seat') :
    Reseats (runners.flatMap (·.children)) (runners'.flatMap (·.children)) seat seat' := by
  obtain ⟨pre', post', hbefore', hafter'⟩ := h
  refine ⟨pre.flatMap (·.children) ++ pre', post' ++ post.flatMap (·.children), ?_, ?_⟩
  · simp [hbefore, hbefore']
  · simp [hafter, hafter']

/-- No room is left for a new agent. -/
def refuses (self : ServerP) (playerName : String) : Bool :=
  (self.existing playerName).isNone && (self.needsRoom && self.atMaximumRooms)

/-- A sign-in under this name makes a new agent, and it is registered. -/
def admits (self : ServerP) (playerName : String) : Bool :=
  (self.existing playerName).isNone &&
    if self.needsRoom then !self.atMaximumRooms
    else self.recruiting.all fun runner => (runner.agent playerName).isNone

/-- What a sign-in does. -/
inductive SignsIn (self : ServerP) (socket : Socket) (ob : SignIn) (self' : ServerP) : Prop where
  | refused (hrefuses : self.refuses ob.playerName = true) (hsame : self' = self)
  | reconnected (seat : Seat) (hrefuses : self.refuses ob.playerName = false)
      (hexisting : self.existing ob.playerName = some seat)
      (hseats : Reseats self.seats self'.seats seat (seat.reconnected socket))
      (hsockets : self'.sockets = self.sockets) (hmade : self'.made = self.made)
      (hdoomed : self'.doomed = self.doomed ++ seat.bindings)
  | added (registered : Bool) (pre post : List Seat)
      (hrefuses : self.refuses ob.playerName = false)
      (hexisting : self.existing ob.playerName = none)
      (hadmits : registered = true → self.admits ob.playerName = true)
      (hbefore : self.seats = pre ++ post)
      (hafter : self'.seats = pre ++ .signedIn ob self.logicConfiguration self.requestTimeout socket registered :: post)
      (hsockets : self'.sockets = self.sockets) (hmade : self.made ≤ self'.made)
      (hdoomed : self'.doomed = self.doomed)

theorem existing_eq_some {self : ServerP} {playerName : String} {seat : Seat}
    (h : self.existing playerName = some seat) :
    ∃ pre runner post, self.runners = pre ++ runner :: post ∧
      runner.agent playerName = some seat ∧ seat.online = false ∧
      ∀ other ∈ pre, ∀ seat, other.agent playerName = some seat → seat.online = true := by
  obtain ⟨pre, runner, post, hrunners, hrunner, hpre⟩ := List.findSome?_eq_some_iff.mp h
  obtain ⟨hagent, honline⟩ := Option.filter_eq_some_iff.mp hrunner
  refine ⟨pre, runner, post, hrunners, hagent, by simpa using honline, fun other hother seat hseat => ?_⟩
  simpa [hseat] using hpre other hother

theorem mem_of_existing {self : ServerP} {playerName : String} {seat : Seat}
    (h : self.existing playerName = some seat) :
    seat ∈ self.seats ∧ seat.isAgent playerName = true ∧ seat.online = false := by
  obtain ⟨pre, runner, post, hrunners, hagent, honline, -⟩ := existing_eq_some h
  refine ⟨List.mem_flatMap.mpr ⟨runner, ?_, List.mem_of_find?_eq_some hagent⟩,
    List.find?_some hagent, honline⟩
  rw [hrunners]
  exact List.mem_append_right _ List.mem_cons_self

/-- Reconnecting replaces the seat that `existing` has found. -/
theorem reseats_reconnectAgent {self : ServerP} {playerName : String} {seat : Seat}
    (h : self.existing playerName = some seat) (conn : ServerConnectionP) :
    Reseats self.seats
      ((self.runners.replaceF (·.reconnectAgent playerName conn)).flatMap (·.children)) seat
      (Seat.setState { seat with conn := conn }
        (conn.agent.state.setFlag StateMaskOnline true)) := by
  obtain ⟨pre, runner, post, hrunners, hagent, honline, hpre⟩ := existing_eq_some h
  have hnone : ∀ other ∈ pre, other.reconnectAgent playerName conn = none := by
    intro other hother
    rw [LogicRunner.reconnectAgent]
    split
    · rfl
    · next seat hseat => exact if_pos (hpre other hother seat hseat)
  have hsome := LogicRunner.reconnectAgent.eq_def playerName conn runner
  simp only [hagent, honline, Bool.false_eq_true, if_false] at hsome
  refine .flatMap hrunners (hrunners ▸ LogicRunner.replaceF_append_cons hnone hsome) ?_
  have hfind : runner.children.find? (fun seat => decide (seat.isAgent playerName = true)) =
      some seat := by
    simpa [LogicRunner.agent] using hagent
  exact .of_find? (f := fun seat => Seat.setState { seat with conn := conn } _) hfind

/-- The new agent goes to the current runner. -/
theorem runners_addAgent {self : ServerP} {runner : LogicRunner}
    (h : self.recruiting = some runner) (socket : Socket) (ob : SignIn) :
    self.current = some runner.pointer ∧ ∃ pre post, self.runners = pre ++ runner :: post ∧
      (self.addAgent socket ob).runners = pre ++ runner.addAgent
        (Seat.signedIn ob self.logicConfiguration self.requestTimeout socket true).conn ::
          post := by
  obtain ⟨pointer, hcurrent, hfind⟩ := Option.bind_eq_some_iff.mp h
  obtain ⟨hpointer, pre, post, hrunners, hpre⟩ := List.find?_eq_some_iff_append.mp hfind
  have hpointer : runner.pointer = pointer := of_decide_eq_true hpointer
  have hother : ∀ other ∈ pre, self.current ≠ some other.pointer := by
    intro other hother hsame
    have hne := hpre other hother
    rw [hcurrent] at hsame
    simp [Option.some.inj hsame] at hne
  refine ⟨by rw [hcurrent, hpointer], pre, post, hrunners, ?_⟩
  rw [addAgent]
  dsimp only
  rw [hrunners]
  exact LogicRunner.replaceF_append_cons (fun other hmem => if_neg (hother other hmem))
    (if_pos (by rw [hcurrent, hpointer]))

theorem seats_addAgent {self : ServerP} {runner : LogicRunner}
    (h : self.recruiting = some runner) (socket : Socket) (ob : SignIn) :
    ∃ pre post, self.seats = pre ++ post ∧ (self.addAgent socket ob).seats =
      pre ++ .signedIn ob self.logicConfiguration self.requestTimeout socket
        (runner.agent ob.playerName).isNone :: post := by
  obtain ⟨-, pre, post, hrunners, hadded⟩ := runners_addAgent h socket ob
  refine ⟨(pre ++ [runner]).flatMap (·.children), post.flatMap (·.children), ?_, ?_⟩
  · simp [seats, hrunners]
  · rw [seats, hadded]
    simp [LogicRunner.addAgent, Seat.signedIn, ServerConnectionP.new, ServerConnectionP.setSocket]

/-- What `sendPacket` is emitted for are packets only. -/
theorem filterMap_send {β : Type} {g : Effect → Option β}
    (hg : ∀ packet, g (.sendPacket packet) = none) (conn : ServerConnectionP)
    (packets : List Packet) : (packets.flatMap conn.send).filterMap g = [] := by
  rw [List.filterMap_eq_nil_iff]
  intro effect heffect
  obtain ⟨packet, -, hsent⟩ := List.mem_flatMap.mp heffect
  rw [ServerConnectionP.send] at hsent
  split at hsent
  · rw [List.mem_singleton.mp hsent]
    exact hg packet
  · cases hsent

/-- A reconnect binds the new socket, and what it deletes is the old one. -/
theorem doomed_reconnect {conn conn' : ServerConnectionP} {effects : List Effect} {socket : Socket}
    {lastRoundEventSeq : Int} (h : conn.reconnect socket lastRoundEventSeq = .ok (conn', effects))
    (self : ServerP) :
    conn' = (conn.setSocket socket).1 ∧
      (self.deleteLater effects).doomed = self.doomed ++ conn.socket.toList := by
  obtain ⟨missed, hmissed, heq⟩ := Except.bind_eq_ok.mp h
  obtain ⟨rfl, rfl⟩ := Prod.mk.inj (Except.ok.inj heq)
  refine ⟨rfl, ?_⟩
  rw [ServerConnectionP.replayMissedRoundEvents] at hmissed
  split at hmissed
  · cases hmissed
  · cases hmissed
    rw [deleteLater]
    dsimp only
    rw [List.filterMap_append, filterMap_send (fun _ => rfl), List.append_nil]
    cases conn.socket <;> rfl

theorem recruiting_openRoom (self : ServerP) : ∃ runner, self.openRoom.recruiting = some runner := by
  refine Option.isSome_iff_exists.mp ?_
  simp [recruiting, openRoom]

theorem signIn_cases {self self' : ServerP} {socket : Socket} {packetValue : QJsonValue}
    (h : self.signIn socket packetValue = .ok self') :
    (SignIn.ofValue packetValue = none ∧ self' = self) ∨
      ∃ ob, SignIn.ofValue packetValue = some ob ∧ SignsIn self socket ob self' := by
  rw [signIn] at h
  split at h
  · next hvalue => exact .inl ⟨hvalue, (Except.ok.inj h).symm⟩
  next ob hvalue =>
  refine .inr ⟨ob, hvalue, ?_⟩
  split at h
  · next seat hexisting =>
    obtain ⟨⟨conn, effects⟩, hconn, h⟩ := Except.bind_eq_ok.mp h
    cases h
    obtain ⟨rfl, hdoomed⟩ := doomed_reconnect hconn { self with
      runners := self.runners.replaceF (·.reconnectAgent ob.playerName conn) }
    exact .reconnected seat (by simp [refuses, hexisting]) hexisting
      (reseats_reconnectAgent hexisting _) rfl rfl hdoomed
  next hexisting =>
  split at h
  · next hneeds =>
    split at h
    · next hmax =>
      exact .refused (by simp [refuses, hexisting, hneeds, hmax]) (Except.ok.inj h).symm
    · next hmax =>
      obtain ⟨runner, hrunner⟩ := recruiting_openRoom self
      obtain ⟨pre, post, hbefore, hafter⟩ := seats_addAgent hrunner socket ob
      cases h
      refine .added _ pre post (by simp [refuses, hmax]) hexisting (fun _ => ?_) ?_ hafter rfl
        (Nat.le_succ _) rfl
      · simp [admits, hexisting, hneeds, hmax]
      · simpa [seats, openRoom] using hbefore
  · next hneeds =>
    obtain ⟨runner, hrunner, -⟩ : ∃ runner, self.recruiting = some runner ∧ True := by
      cases hrecruiting : self.recruiting with
      | none => simp [needsRoom, hrecruiting] at hneeds
      | some runner => exact ⟨runner, rfl, trivial⟩
    obtain ⟨pre, post, hbefore, hafter⟩ := seats_addAgent hrunner socket ob
    cases h
    refine .added _ pre post (by simp [refuses, hneeds]) hexisting (fun hnone => ?_)
      hbefore hafter rfl le_rfl rfl
    simpa [admits, hexisting, hneeds, hrunner] using hnone

/-- The seat whose connection a socket is bound to: the first one. -/
def boundTo (self : ServerP) (socket : Socket) : Option Seat :=
  self.seats.find? fun seat => decide (seat.conn.socket = some socket)

/-- A declaration changes the state of the agent the socket is bound to. -/
theorem stateChange_cases (self : ServerP) (socket : Socket) (packetValue : QJsonValue) :
    self.stateChange socket packetValue = self ∨ ∃ seat runners,
      (packetValue.toObject.value "agentState").isDouble = true ∧
      self.boundTo socket = some seat ∧
      self.stateChange socket packetValue = { self with runners := runners } ∧
      Reseats self.seats (runners.flatMap (·.children)) seat
        (seat.setState (.ofInt ((packetValue.toObject.value "agentState").toInt 0))) := by
  rw [stateChange]
  split
  swap
  · exact .inl rfl
  next hdouble =>
  generalize (packetValue.toObject.value "agentState").toInt 0 = n
  cases hbound : self.boundTo socket with
  | none =>
    left
    rw [List.replaceF_of_forall_none fun runner hrunner => ?_]
    refine if_neg fun hany => ?_
    obtain ⟨seat, hseat, hsocket⟩ := List.any_eq_true.mp hany
    exact List.find?_eq_none.mp hbound seat (List.mem_flatMap.mpr ⟨runner, hrunner, hseat⟩) hsocket
  | some seat =>
    right
    rw [boundTo, seats, List.find?_flatMap] at hbound
    obtain ⟨pre, runner, post, hrunners, hfind, hpre⟩ := List.findSome?_eq_some_iff.mp hbound
    have hsocket := List.find?_some hfind
    have hbound : runner.children.any (fun seat => decide (seat.conn.socket = some socket)) = true :=
      List.any_eq_true.mpr ⟨seat, List.mem_of_find?_eq_some hfind, hsocket⟩
    have hother : ∀ other ∈ pre,
        ¬ other.children.any (fun seat => decide (seat.conn.socket = some socket)) = true := by
      intro other hother hany
      obtain ⟨seat, hseat, hsocket⟩ := List.any_eq_true.mp hany
      exact List.find?_eq_none.mp (hpre other hother) seat hseat hsocket
    refine ⟨seat, _, hdouble, rfl, rfl, ?_⟩
    apply Reseats.flatMap hrunners
    · rw [hrunners]
      exact LogicRunner.replaceF_append_cons (fun other hmem => if_neg (hother other hmem))
        (if_pos hbound)
    · exact .of_find? hfind

/-- A game that is over changes no room, only what becomes of its runner. -/
theorem rooms_logicRunnerGameOver (self : ServerP) (pointer : Nat) :
    (self.logicRunnerGameOver pointer).runners.map (fun runner => (runner.pointer, runner.children)) =
      self.runners.map fun runner => (runner.pointer, runner.children) := by
  rw [logicRunnerGameOver, List.map_map]
  refine List.map_congr_left fun runner _ => ?_
  dsimp only [Function.comp_apply]
  split <;> rfl

theorem children_logicRunnerGameOver (self : ServerP) (pointer : Nat) :
    (self.logicRunnerGameOver pointer).runners.map (·.children) =
      self.runners.map (·.children) := by
  have hrooms := congrArg (List.map Prod.snd) (self.rooms_logicRunnerGameOver pointer)
  rwa [List.map_map, List.map_map] at hrooms

@[simp] theorem seats_logicRunnerGameOver (self : ServerP) (pointer : Nat) :
    (self.logicRunnerGameOver pointer).seats = self.seats :=
  congrArg List.flatten (self.children_logicRunnerGameOver pointer)

/-- What a game that is over changes nothing about. -/
theorem foldl_logicRunnerGameOver {β : Type} {g : ServerP → β}
    (hg : ∀ self pointer, g (logicRunnerGameOver self pointer) = g self) (pointers : List Nat)
    (self : ServerP) : g (pointers.foldl logicRunnerGameOver self) = g self := by
  induction pointers generalizing self with
  | nil => rfl
  | cons pointer pointers ih => rw [List.foldl_cons, ih, hg]

theorem seats_socketDisconnected (self : ServerP) (socket : Socket) (random : RockPaperScissors) :
    (self.socketDisconnected socket random).seats = self.runners.flatMap fun runner =>
      LogicRunner.dropSeats self.playerNumPerRoom socket random [] runner.children := by
  rw [socketDisconnected]
  rw [foldl_logicRunnerGameOver seats_logicRunnerGameOver, seats, List.flatMap_map]
  rfl

theorem seats_runnerDeleted (self : ServerP) (pointer : Nat) :
    (self.runnerDeleted pointer).seats.Sublist self.seats :=
  List.filter_sublist.flatMap _

theorem seats_socketDeleted (self : ServerP) (socket : Socket) :
    (self.socketDeleted socket).seats = self.seats.map fun seat =>
      { seat with
        conn := { seat.conn with
          socket := seat.conn.socket.filter (· ≠ socket)
          wired := seat.conn.wired.filter (· ≠ socket) } } := by
  simp only [seats, socketDeleted, List.flatMap_map, List.map_flatMap]

/-- Within a room no two agents have a name. -/
def RoomNames (server : ServerP) : Prop :=
  ∀ runner ∈ server.runners, (runner.children.flatMap Seat.names).Nodup

theorem RoomNames.of_children {self self' : ServerP} (h : RoomNames self)
    (hsame : self'.runners.map (·.children) = self.runners.map (·.children)) : RoomNames self' := by
  intro runner' hrunner'
  have hmem := List.mem_map_of_mem (f := (·.children)) hrunner'
  rw [hsame] at hmem
  obtain ⟨runner, hrunner, hchildren⟩ := List.mem_map.mp hmem
  exact hchildren ▸ h runner hrunner

theorem RoomNames.addAgent {self : ServerP} (h : RoomNames self) (socket : Socket) (ob : SignIn) :
    RoomNames (self.addAgent socket ob) := by
  intro runner' hrunner'
  rcases LogicRunner.mem_replaceF hrunner' with hold | ⟨runner, hrunner, hadded⟩
  · exact h runner' hold
  · obtain ⟨-, hsome⟩ := Option.ite_none_right_eq_some.mp hadded
    cases hsome
    have hnames := h runner hrunner
    rw [← List.append_nil runner.children] at hnames
    refine nodup_insert hnames ?_
    rw [List.append_nil]
    by_cases hagent : runner.agent ob.playerName = none
    · have hnone : (runner.agent ob.playerName).isNone = true := Option.isNone_iff_eq_none.mpr hagent
      exact .inr ⟨ob.playerName, if_pos hnone, LogicRunner.agent_eq_none.mp hagent⟩
    · exact .inl (if_neg (mt Option.isNone_iff_eq_none.mp hagent))

/-- A seat that is replaced by one of the same agent takes up the same name. -/
theorem names_replaceF {p : Seat → Prop} [DecidablePred p] {f : Seat → Seat} {seats : List Seat}
    (hnames : ∀ seat ∈ seats, p seat → (f seat).names = seat.names) :
    (seats.replaceF fun seat => if p seat then some (f seat) else none).flatMap Seat.names =
      seats.flatMap Seat.names := by
  induction seats with
  | nil => rfl
  | cons seat rest ih =>
    set g := fun seat => if p seat then some (f seat) else none
    by_cases hp : p seat
    · have hsome : g seat = some (f seat) := if_pos hp
      rw [List.replaceF_cons_of_some g hsome, List.flatMap_cons, List.flatMap_cons,
        hnames seat List.mem_cons_self hp]
    · have hnone : g seat = none := if_neg hp
      rw [List.replaceF_cons_of_none g hnone, List.flatMap_cons, List.flatMap_cons,
        ih fun other hother => hnames other (List.mem_cons_of_mem _ hother)]

/-- A reconnected agent keeps its name and its room. -/
theorem names_reconnectAgent {playerName : String} {conn : ServerConnectionP}
    {runner runner' : LogicRunner} (hconn : conn.agent.objectName = playerName)
    (h : runner.reconnectAgent playerName conn = some runner') :
    runner'.pointer = runner.pointer ∧
      runner'.children.flatMap Seat.names = runner.children.flatMap Seat.names := by
  rw [LogicRunner.reconnectAgent] at h
  split at h
  · cases h
  · obtain ⟨-, hsome⟩ := Option.ite_none_left_eq_some.mp h
    cases hsome
    refine ⟨rfl, names_replaceF fun seat _ hseat => ?_⟩
    rw [Seat.names_eq_of_isAgent hseat, ← hconn]
    exact if_pos (Seat.isAgent_iff.mp hseat).1

theorem RoomNames.reconnectAgent {self : ServerP} (h : RoomNames self) {conn : ServerConnectionP}
    {playerName : String} (hconn : conn.agent.objectName = playerName) :
    ∀ runner' ∈ self.runners.replaceF (·.reconnectAgent playerName conn),
      (runner'.children.flatMap Seat.names).Nodup := by
  intro runner' hrunner'
  rcases LogicRunner.mem_replaceF hrunner' with hold | ⟨runner, hrunner, hsome⟩
  · exact h runner' hold
  · rw [(names_reconnectAgent hconn hsome).2]
    exact h runner hrunner

theorem RoomNames.signIn {self self' : ServerP} {socket : Socket} {packetValue : QJsonValue}
    (h : RoomNames self) (hsignIn : self.signIn socket packetValue = .ok self') :
    RoomNames self' := by
  rw [ServerP.signIn] at hsignIn
  split at hsignIn
  · cases hsignIn
    exact h
  next ob hvalue =>
  split at hsignIn
  · next seat hexisting =>
    obtain ⟨⟨conn, effects⟩, hconn, hsignIn⟩ := Except.bind_eq_ok.mp hsignIn
    cases hsignIn
    obtain ⟨rfl, -⟩ := doomed_reconnect hconn self
    exact h.reconnectAgent (Seat.isAgent_iff.mp (mem_of_existing hexisting).2.1).2
  next hexisting =>
  split at hsignIn
  · split at hsignIn
    · cases hsignIn
      exact h
    · cases hsignIn
      refine RoomNames.addAgent (fun runner hrunner => ?_) socket ob
      rcases List.mem_append.mp hrunner with hold | hnew
      · exact h runner hold
      · rw [List.mem_singleton.mp hnew]
        exact List.nodup_nil
  · cases hsignIn
    exact h.addAgent socket ob

/-- The state of an agent is no part of what the rooms are about. -/
theorem names_stateChange {self : ServerP} {socket : Socket} {packetValue : QJsonValue}
    {runner' : LogicRunner} (hrunner' : runner' ∈ (self.stateChange socket packetValue).runners) :
    ∃ runner ∈ self.runners, runner'.pointer = runner.pointer ∧
      runner'.children.flatMap Seat.names = runner.children.flatMap Seat.names := by
  rw [ServerP.stateChange] at hrunner'
  split at hrunner'
  swap
  · exact ⟨runner', hrunner', rfl, rfl⟩
  rcases LogicRunner.mem_replaceF hrunner' with hold | ⟨runner, hrunner, hchanged⟩
  · exact ⟨runner', hold, rfl, rfl⟩
  · obtain ⟨-, hsome⟩ := Option.ite_none_right_eq_some.mp hchanged
    cases hsome
    exact ⟨runner, hrunner, rfl, names_replaceF fun _ _ _ => rfl⟩

theorem RoomNames.stateChange {self : ServerP} (h : RoomNames self) (socket : Socket)
    (packetValue : QJsonValue) : RoomNames (self.stateChange socket packetValue) := by
  intro runner' hrunner'
  obtain ⟨runner, hrunner, -, hnames⟩ := names_stateChange hrunner'
  rw [hnames]
  exact h runner hrunner

theorem RoomNames.socketDisconnected {self : ServerP} (h : RoomNames self) (socket : Socket)
    (random : RockPaperScissors) : RoomNames (self.socketDisconnected socket random) := by
  have hdropped : RoomNames { self with
      runners := self.runners.map (self.dropRunner socket random) } := by
    intro runner' hrunner'
    obtain ⟨runner, hrunner, rfl⟩ := List.mem_map.mp hrunner'
    exact (h runner hrunner).sublist
      (LogicRunner.dropSeats_sublist Seat.names (fun _ => .refl _) [] runner.children)
  exact hdropped.of_children (foldl_logicRunnerGameOver
    (g := fun self => self.runners.map (·.children)) children_logicRunnerGameOver _ _)

theorem RoomNames.handle {self self' : ServerP} {event : Event} (h : RoomNames self)
    (hevent : self.handle event = some self') : RoomNames self' := by
  cases handle_cases hevent with
  | newConnection => exact h
  | signIn _ hsignIn => exact h.signIn hsignIn
  | stateChange => exact h.stateChange _ _
  | socketDisconnected => exact h.socketDisconnected _ _
  | gameOver => exact h.of_children (children_logicRunnerGameOver _ _)
  | runnerDeleted => exact fun runner hrunner => h runner (List.mem_filter.mp hrunner).1
  | socketDeleted =>
    intro runner' hrunner'
    obtain ⟨runner, hrunner, rfl⟩ := List.mem_map.mp hrunner'
    rw [List.flatMap_map]
    exact h runner hrunner

theorem roomNames_invariant : system.Invariant RoomNames where
  init self hself := by
    obtain ⟨_, _, _, _, rfl⟩ := hself
    exact fun runner hrunner => (List.not_mem_nil hrunner).elim
  step self event self' hself hevent := hself.handle hevent

/-- Every registered agent is found by its name in its room. -/
theorem RoomNames.agent {self : ServerP} (h : RoomNames self) {runner : LogicRunner}
    (hrunner : runner ∈ self.runners) {seat : Seat} (hseat : seat ∈ runner.children)
    (hregistered : seat.registered = true) : runner.agent seat.playerName = some seat := by
  obtain ⟨pre, post, hchildren⟩ := List.mem_iff_append.mp hseat
  have hagent : seat.isAgent seat.playerName = true := Seat.isAgent_iff.mpr ⟨hregistered, rfl⟩
  rw [LogicRunner.agent, List.find?_eq_some_iff_append]
  refine ⟨hagent, pre, post, hchildren, fun other hother => ?_⟩
  have hnames := h runner hrunner
  rw [hchildren, List.flatMap_append, List.flatMap_cons, Seat.names_eq_of_isAgent hagent,
    List.singleton_append, List.nodup_middle, List.nodup_cons] at hnames
  refine Bool.not_eq_true' _ ▸ Bool.eq_false_iff.mpr fun hsame => hnames.1 ?_
  exact List.mem_append_left _ (List.mem_flatMap.mpr ⟨other, hother, Seat.mem_names.mpr hsame⟩)

end ServerP

end QMdmmNetworking
