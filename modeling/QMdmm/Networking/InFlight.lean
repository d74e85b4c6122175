import QMdmm.Networking.Talks

namespace QMdmmNetworking

open QMdmmCore Data Protocol

namespace Exchange

/-- What is under way on a connection is the request in flight of its seat, and once:
while nobody has signed in over it, nothing. -/
structure Inv (room : Exchange) : Prop where
  answered : ∀ session ∈ room.seats, session.Answered
  roundEventLog : ∀ session ∈ room.seats, ∀ packet ∈ session.conn.roundEventLog,
    packet.type = .TypeNotify
  bound : ∀ (seat : Nat) session socket, room.seats[seat]? = some session →
    session.conn.socket = some socket → (room.lines socket).seat = some seat
  made : ∀ socket, room.made ≤ socket →
    (room.lines socket).up = [] ∧ (room.lines socket).seat = none
  client : ∀ socket, room.client.socket = some socket → socket < room.made
  heldOver : ∀ socket, room.heldOver = some socket → socket < room.made
  up : ∀ socket, ∀ packet ∈ (room.lines socket).up,
    packet.type = .TypeReply ∨ packet.type = .TypeNotify ∧ packet.notifyId.toServer = true
  unseated : ∀ socket, (room.lines socket).seat = none → (room.lines socket).stale = false →
    room.underWay socket = []
  inOrder : ∀ (seat : Nat) session socket, room.seats[seat]? = some session →
    session.conn.socket = some socket → (room.lines socket).stale = false →
    (room.lines socket).defaulted = false → (room.underWay socket).Subperm session.outstanding
  matched : room.mismatched = false

theorem idsOf_append (type : PacketType) (packets more : List Packet) :
    idsOf type (packets ++ more) = idsOf type packets ++ idsOf type more := by
  simp only [idsOf, List.filter_append, List.map_append]

theorem idsOf_eq_nil {type : PacketType} {packets : List Packet}
    (h : ∀ packet ∈ packets, packet.type ≠ type) : idsOf type packets = [] := by
  rw [idsOf, List.filter_eq_nil_iff.mpr fun packet hpacket => by simpa using h packet hpacket]
  rfl

theorem idsOf_sublist (type : PacketType) {packets more : List Packet}
    (h : packets.Sublist more) : (idsOf type packets).Sublist (idsOf type more) :=
  (h.filter _).map _

variable {self : Exchange} {result : ClientP × List ClientEffect}

@[simp] theorem onLine_lines (socket other : Socket) (change : Line → Line) :
    (self.onLine socket change).lines other =
      if other = socket then change (self.lines socket) else self.lines other :=
  Function.update_apply _ _ _ _

theorem reads_lines (socket : Socket) (packet : Packet) (rest : List Packet) (other : Socket) :
    (self.reads socket packet rest).lines other =
      if other = socket then { self.lines socket with down := rest } else self.lines other :=
  Function.update_apply _ _ _ _

theorem fromClient_lines (other : Socket) : (self.fromClient result).lines other =
    if result.1.socket = some other then
      { self.lines other with
        up := (self.lines other).up ++ result.2.filterMap ClientEffect.packet }
    else self.lines other := by
  unfold fromClient
  cases hsocket : result.1.socket with
  | none => rfl
  | some socket =>
    by_cases hother : socket = other
    · subst hother
      simp
    · simp [hother, Ne.symm hother]

theorem fromClient_fields : (self.fromClient result).client = result.1 ∧
    (self.fromClient result).seats = self.seats ∧ (self.fromClient result).made = self.made ∧
    (self.fromClient result).heldOver = self.heldOver ∧
    (self.fromClient result).mismatched = self.mismatched := by
  unfold fromClient
  dsimp only
  split <;> exact ⟨rfl, rfl, rfl, rfl, rfl⟩

theorem fromSeat_lines (seat : Nat) (session : Session) (effects : List Effect) (other : Socket) :
    (self.fromSeat seat session effects).lines other =
      if session.conn.socket = some other then
        { self.lines other with
          down := (self.lines other).down ++ effects.filterMap Effect.packet }
      else self.lines other := by
  unfold fromSeat
  cases hsocket : session.conn.socket with
  | none => rfl
  | some socket =>
    by_cases hother : socket = other
    · subst hother
      simp
    · simp [hother, Ne.symm hother]

theorem fromSeat_fields (seat : Nat) (session : Session) (effects : List Effect) :
    (self.fromSeat seat session effects).client = self.client ∧
    (self.fromSeat seat session effects).seats = self.seats.set seat session ∧
    (self.fromSeat seat session effects).made = self.made ∧
    (self.fromSeat seat session effects).heldOver = self.heldOver ∧
    (self.fromSeat seat session effects).mismatched = self.mismatched := by
  unfold fromSeat
  dsimp only
  split <;> exact ⟨rfl, rfl, rfl, rfl, rfl⟩

/-- What the client may do to what is under way: nothing is added to it, unless the
connection is no longer in order. -/
structure Shrinks (room room' : Exchange) : Prop where
  seats : room'.seats = room.seats
  made : room'.made = room.made
  mismatched : room'.mismatched = room.mismatched
  client : ∀ socket, room'.client.socket = some socket → socket < room.made
  heldOver : ∀ socket, room'.heldOver = some socket → socket < room.made
  seat : ∀ socket, (room'.lines socket).seat = (room.lines socket).seat
  defaulted : ∀ socket, (room'.lines socket).defaulted = (room.lines socket).defaulted
  up : ∀ socket, ∀ packet ∈ (room'.lines socket).up, packet ∈ (room.lines socket).up ∨
    socket < room.made ∧
      (packet.type = .TypeReply ∨ packet.type = .TypeNotify ∧ packet.notifyId.toServer = true)
  underWay : ∀ socket, (room'.lines socket).stale = false →
    (room.lines socket).stale = false ∧ (room'.underWay socket).Subperm (room.underWay socket)

theorem Inv.shrinks {self' : Exchange} (h : self.Inv) (hshrinks : Shrinks self self') :
    self'.Inv where
  answered := hshrinks.seats ▸ h.answered
  roundEventLog := hshrinks.seats ▸ h.roundEventLog
  bound seat session socket hseat hsocket := by
    rw [hshrinks.seats] at hseat
    rw [hshrinks.seat]
    exact h.bound seat session socket hseat hsocket
  made socket hmade := by
    rw [hshrinks.made] at hmade
    obtain ⟨hup, hseat⟩ := h.made socket hmade
    refine ⟨List.eq_nil_iff_forall_not_mem.mpr fun packet hpacket => ?_, (hshrinks.seat socket).trans hseat⟩
    obtain hbefore | ⟨hless, -⟩ := hshrinks.up socket packet hpacket
    · rw [hup] at hbefore
      cases hbefore
    · exact absurd hless (Nat.not_lt.mpr hmade)
  client socket hsocket := hshrinks.made.symm ▸ hshrinks.client socket hsocket
  heldOver socket hsocket := hshrinks.made.symm ▸ hshrinks.heldOver socket hsocket
  up socket packet hpacket :=
    (hshrinks.up socket packet hpacket).elim (h.up socket packet) fun hnew => hnew.2
  unseated socket hseat hstale := by
    obtain ⟨hbefore, hunder⟩ := hshrinks.underWay socket hstale
    rw [h.unseated socket ((hshrinks.seat socket).symm.trans hseat) hbefore] at hunder
    exact List.subperm_nil.mp hunder
  inOrder seat session socket hseat hsocket hstale hdefaulted := by
    rw [hshrinks.seats] at hseat
    rw [hshrinks.defaulted] at hdefaulted
    obtain ⟨hbefore, hunder⟩ := hshrinks.underWay socket hstale
    exact hunder.trans (h.inOrder seat session socket hseat hsocket hbefore hdefaulted)
  matched := hshrinks.mismatched.trans h.matched

/-- A line that only carries more talk, of a client that has not taken anything up. -/
theorem underWay_talks (htalks : ClientP.Talks self.client result) (socket : Socket) :
    ((self.fromClient result).underWay socket).Subperm (self.underWay socket) := by
  have hhand : ((self.fromClient result).inHand socket).Sublist (self.inHand socket) := by
    obtain ⟨hclient, -, -, hheld, -⟩ := @fromClient_fields self result
    unfold inHand
    rw [hclient, hheld]
    split
    · next hasked =>
      obtain ⟨hsocket, hover, hcurrent⟩ := hasked
      obtain hnone | hsame := htalks.socket
      · rw [hnone] at hsocket
        cases hsocket
      obtain hinvalid | hkept := htalks.current
      · exact absurd hinvalid hcurrent
      rw [if_pos ⟨hsame.symm.trans hsocket, hover, hkept ▸ hcurrent⟩, hkept]
    · exact List.nil_sublist _
  have htalk : idsOf .TypeReply (result.2.filterMap ClientEffect.packet) = [] :=
    idsOf_eq_nil fun packet hpacket => by rw [(htalks.toServer packet hpacket).1]; decide
  unfold underWay
  rw [fromClient_lines]
  split
  · rw [idsOf_append, htalk, List.append_nil]
    exact (((List.Sublist.refl _).append hhand).append (.refl _)).subperm
  · exact (((List.Sublist.refl _).append hhand).append (.refl _)).subperm

theorem Inv.talks (h : self.Inv) (htalks : ClientP.Talks self.client result) :
    (self.fromClient result).Inv := by
  obtain ⟨hclient, hseats, hmade, hheld, hmismatched⟩ := @fromClient_fields self result
  have hsocket : ∀ socket, result.1.socket = some socket → socket < self.made := by
    intro socket hsocket
    obtain hnone | hsame := htalks.socket
    · rw [hnone] at hsocket
      cases hsocket
    · exact h.client socket (hsame.symm.trans hsocket)
  have hline (socket : Socket) :
      ((self.fromClient result).lines socket).seat = (self.lines socket).seat ∧
      ((self.fromClient result).lines socket).defaulted = (self.lines socket).defaulted ∧
      ((self.fromClient result).lines socket).stale = (self.lines socket).stale := by
    rw [fromClient_lines]
    split <;> exact ⟨rfl, rfl, rfl⟩
  refine h.shrinks ⟨hseats, hmade, hmismatched, hclient.symm ▸ hsocket, hheld.symm ▸ h.heldOver,
    fun socket => (hline socket).1, fun socket => (hline socket).2.1, fun socket packet hpacket => ?_,
    fun socket hstale => ⟨(hline socket).2.2.symm.trans hstale, underWay_talks htalks socket⟩⟩
  rw [fromClient_lines] at hpacket
  split at hpacket
  · next hsame =>
    obtain hbefore | hnew := List.mem_append.mp hpacket
    · exact .inl hbefore
    · exact .inr ⟨hsocket socket hsame, .inr (htalks.toServer packet hnew)⟩
  · exact .inl hpacket

/-- A packet that is no request is read. -/
theorem Inv.reads (h : self.Inv) {socket : Socket} {packet : Packet} {rest : List Packet}
    (hdown : (self.lines socket).down = packet :: rest) (htype : packet.type ≠ .TypeRequest) :
    (self.reads socket packet rest).Inv := by
  have hheld : (self.reads socket packet rest).heldOver = self.heldOver := if_neg htype
  have hlines := @reads_lines self socket packet rest
  have hhand (other : Socket) :
      (self.reads socket packet rest).inHand other = self.inHand other := by
    unfold inHand
    rw [hheld]
    rfl
  refine h.shrinks ⟨rfl, rfl, rfl, h.client, hheld ▸ h.heldOver, fun other => ?_, fun other => ?_,
    fun other packet hpacket => .inl ?_, fun other hstale => ?_⟩
  · rw [hlines]
    split
    · next heq => rw [heq]
    · rfl
  · rw [hlines]
    split
    · next heq => rw [heq]
    · rfl
  · rw [hlines] at hpacket
    split at hpacket
    · next heq => rwa [heq]
    · exact hpacket
  · rw [hlines] at hstale
    unfold underWay
    rw [hlines, hhand]
    split at hstale
    · next heq =>
      subst heq
      refine ⟨hstale, ?_⟩
      rw [if_pos rfl, hdown]
      have hless := idsOf_sublist .TypeRequest (List.sublist_cons_self packet rest)
      exact ((hless.append (.refl _)).append (.refl _)).subperm
    · next hne =>
      rw [if_neg hne]
      exact ⟨hstale, .refl _⟩

/-- A request is taken up: it is in hand now. -/
theorem Inv.takesUp (h : self.Inv) {socket : Socket} {packet : Packet} {rest : List Packet}
    (hclient : self.client.socket = some socket)
    (hdown : (self.lines socket).down = packet :: rest) (htype : packet.type = .TypeRequest)
    (hsocket : result.1.socket = self.client.socket)
    (hcurrent : result.1.currentRequest = packet.requestId)
    (hsilent : result.2.filterMap ClientEffect.packet = []) :
    ((self.reads socket packet rest).fromClient result).Inv := by
  obtain ⟨hafter, hseats, hmade, hheld, hmismatched⟩ :=
    @fromClient_fields (self.reads socket packet rest) result
  have hover : (self.reads socket packet rest).heldOver = some socket := if_pos htype
  have hlines (other : Socket) : ((self.reads socket packet rest).fromClient result).lines other =
      if other = socket then { self.lines socket with down := rest } else self.lines other := by
    rw [fromClient_lines, hsilent, List.append_nil, ite_self, reads_lines]
  have hless : socket < self.made := h.client socket hclient
  refine h.shrinks ⟨hseats, hmade, hmismatched, fun other hother => ?_, fun other hother => ?_,
    fun other => ?_, fun other => ?_, fun other packet hpacket => .inl ?_, fun other hstale => ?_⟩
  · rw [hafter, hsocket] at hother
    exact h.client other hother
  · rw [hheld, hover] at hother
    exact Option.some.inj hother ▸ hless
  · rw [hlines]
    split
    · next heq => rw [heq]
    · rfl
  · rw [hlines]
    split
    · next heq => rw [heq]
    · rfl
  · rw [hlines] at hpacket
    split at hpacket
    · next heq => rwa [heq]
    · exact hpacket
  · rw [hlines] at hstale
    unfold underWay
    rw [hlines]
    split at hstale
    · next heq =>
      subst heq
      refine ⟨hstale, ?_⟩
      have hhand : (((self.reads other packet rest).fromClient result).inHand other).Sublist
          [packet.requestId] := by
        unfold inHand
        rw [hafter, hcurrent]
        split
        · exact .refl _
        · exact List.nil_sublist _
      have hids : idsOf .TypeRequest (packet :: rest) =
          packet.requestId :: idsOf .TypeRequest rest := by
        simp [idsOf, htype]
      rw [if_pos rfl, hdown, hids]
      -- The request moves from the line to the hand of the client.
      have hmoved : (idsOf .TypeRequest rest ++
          ((self.reads other packet rest).fromClient result).inHand other).Subperm
          (packet.requestId :: idsOf .TypeRequest rest ++ self.inHand other) := by
        refine ((List.Sublist.refl _).append hhand).subperm.trans ?_
        refine List.perm_append_comm.subperm.trans ?_
        exact (List.sublist_append_left _ _).subperm
      exact (List.subperm_append_right _).mpr hmoved
    · next hne =>
      rw [if_neg hne]
      refine ⟨hstale, ?_⟩
      have hhand : ((self.reads socket packet rest).fromClient result).inHand other = [] := by
        refine if_neg fun hasked => ?_
        rw [hafter, hsocket, hclient] at hasked
        exact hne (Option.some.inj hasked.1).symm
      rw [hhand, List.append_nil]
      exact ((List.sublist_append_left _ _).append (.refl _)).subperm

theorem answers_lines (other : Socket) : (self.answers result).lines other =
    if result.1.socket = some other then
      { self.lines other with
        up := (self.lines other).up ++ result.2.filterMap ClientEffect.packet
        stale := (self.lines other).stale ||
          (!(result.2.filterMap ClientEffect.packet).isEmpty && self.heldOver != some other) }
    else self.lines other := by
  unfold answers
  cases hsocket : result.1.socket with
  | none => simp [fromClient_lines, hsocket]
  | some socket =>
    rw [onLine_lines, fromClient_lines, fromClient_lines, hsocket]
    by_cases hother : other = socket
    · subst hother
      simp
    · simp [hother, Ne.symm hother]

theorem answers_fields : (self.answers result).client = result.1 ∧
    (self.answers result).seats = self.seats ∧ (self.answers result).made = self.made ∧
    (self.answers result).heldOver = self.heldOver ∧
    (self.answers result).mismatched = self.mismatched := by
  unfold answers
  split <;> exact fromClient_fields

/-- A reply goes out: the request it answers is not in hand any more. -/
theorem Inv.answers (h : self.Inv)
    (hsends : result = (self.client, []) ∨ self.client.currentRequest ≠ .RequestInvalid ∧
      self.client.socket.isSome = true ∧
      result.1 = { self.client with currentRequest := .RequestInvalid } ∧
      ∃ value, result.2 = [.sendPacket (.ofRequest .TypeReply self.client.currentRequest value)]) :
    (self.answers result).Inv := by
  obtain ⟨hafter, hseats, hmade, hheld, hmismatched⟩ := @answers_fields self result
  have hsocket : result.1.socket = self.client.socket := by
    obtain rfl | ⟨-, -, hresult, -⟩ := hsends
    · rfl
    · rw [hresult]
  have hline (other : Socket) :
      ((self.answers result).lines other).seat = (self.lines other).seat ∧
      ((self.answers result).lines other).defaulted = (self.lines other).defaulted := by
    rw [answers_lines]
    split <;> exact ⟨rfl, rfl⟩
  refine h.shrinks ⟨hseats, hmade, hmismatched, fun other hother => ?_, hheld.symm ▸ h.heldOver,
    fun other => (hline other).1, fun other => (hline other).2, fun other packet hpacket => ?_,
    fun other hstale => ?_⟩
  · rw [hafter, hsocket] at hother
    exact h.client other hother
  · rw [answers_lines] at hpacket
    split at hpacket
    · next hother =>
      obtain hbefore | hnew := List.mem_append.mp hpacket
      · exact .inl hbefore
      · refine .inr ⟨h.client other (hsocket.symm.trans hother), .inl ?_⟩
        obtain rfl | ⟨-, -, -, value, hreply⟩ := hsends
        · cases hnew
        · rw [hreply] at hnew
          obtain rfl := List.mem_singleton.mp hnew
          rfl
    · exact .inl hpacket
  · rw [answers_lines] at hstale
    obtain rfl | ⟨hvalid, -, hresult, value, hreply⟩ := hsends
    · have hhand : (self.answers (self.client, [])).inHand other = self.inHand other := by
        unfold inHand
        rw [hafter, hheld]
      unfold underWay
      rw [hhand, answers_lines]
      split at hstale
      · next hother =>
        rw [if_pos hother]
        exact ⟨by simpa using hstale, by simp only [List.filterMap_nil, List.append_nil]; rfl⟩
      · next hother =>
        rw [if_neg hother]
        exact ⟨hstale, .refl _⟩
    · have hhand : (self.answers result).inHand other = [] := by
        refine if_neg fun hasked => hasked.2.2 ?_
        rw [hafter, hresult]
      unfold underWay
      rw [hhand, List.append_nil, answers_lines]
      split at hstale
      · next hother =>
        have hboth : (self.lines other).stale = false ∧ self.heldOver = some other := by
          simpa [hreply, ClientEffect.packet] using hstale
        have hbefore : self.inHand other = [self.client.currentRequest] :=
          if_pos ⟨hsocket.symm.trans hother, hboth.2, hvalid⟩
        have hids : idsOf .TypeReply (result.2.filterMap ClientEffect.packet) =
            [self.client.currentRequest] := by
          rw [hreply]
          rfl
        rw [if_pos hother, idsOf_append, hids, hbefore]
        refine ⟨hboth.1, ?_⟩
        -- The request moves from the hand of the client to the line.
        rw [List.append_assoc]
        exact ((List.Perm.refl _).append List.perm_append_comm).subperm
      · next hother =>
        rw [if_neg hother]
        exact ⟨hstale, ((List.sublist_append_left _ _).append (.refl _)).subperm⟩

/-- A new connection carries nothing but a greeting. -/
theorem Inv.connects (h : self.Inv) (known : Bool) (hsocket : result.1.socket = some self.made) :
    (self.connects known result).Inv := by
  have hlines (other : Socket) : (self.connects known result).lines other =
      if other = self.made then
        ⟨if known then [versionPacket self.versionNumber] else [], [], none, false, false⟩
      else self.lines other :=
    Function.update_apply _ _ _ _
  have hnew : (self.connects known result).underWay self.made = [] := by
    have hhand : (self.connects known result).inHand self.made = [] :=
      if_neg fun hasked => absurd (h.heldOver _ hasked.2.1) (Nat.lt_irrefl _)
    unfold underWay
    rw [hhand, hlines, if_pos rfl]
    cases known <;> rfl
  have hold {other : Socket} (hother : other ≠ self.made) :
      ((self.connects known result).underWay other).Subperm (self.underWay other) := by
    have hhand : (self.connects known result).inHand other = [] := by
      refine if_neg fun hasked => hother ?_
      exact Option.some.inj (hasked.1.symm.trans hsocket)
    unfold underWay
    rw [hhand, hlines, if_neg hother, List.append_nil]
    exact ((List.sublist_append_left _ _).append (.refl _)).subperm
  have hbound {seat : Nat} {session : Session} {socket : Socket}
      (hseat : self.seats[seat]? = some session) (hconn : session.conn.socket = some socket) :
      socket ≠ self.made := by
    rintro rfl
    have hnone := (h.made self.made (Nat.le_refl _)).2
    rw [h.bound seat session self.made hseat hconn] at hnone
    cases hnone
  refine ⟨h.answered, h.roundEventLog, fun seat session socket hseat hconn => ?_,
    fun socket hmade => ?_, fun socket hclient => ?_, fun socket hheld => ?_,
    fun socket packet hpacket => ?_, fun socket hseat hstale => ?_,
    fun seat session socket hseat hconn hstale hdefaulted => ?_, h.matched⟩
  · rw [hlines, if_neg (hbound hseat hconn)]
    exact h.bound seat session socket hseat hconn
  · have hless : self.made < socket := hmade
    rw [hlines, if_neg (Nat.ne_of_gt hless)]
    exact h.made socket (Nat.le_of_lt hless)
  · obtain rfl : self.made = socket := Option.some.inj (hsocket.symm.trans hclient)
    exact Nat.lt_succ_self _
  · exact Nat.lt_succ_of_lt (h.heldOver socket hheld)
  · rw [hlines] at hpacket
    split at hpacket
    · cases hpacket
    · exact h.up socket packet hpacket
  · by_cases hother : socket = self.made
    · rw [hother, hnew]
    · rw [hlines, if_neg hother] at hseat hstale
      have hunder := hold hother
      rw [h.unseated socket hseat hstale] at hunder
      exact List.subperm_nil.mp hunder
  · have hother := hbound hseat hconn
    rw [hlines, if_neg hother] at hstale hdefaulted
    exact (hold hother).trans (h.inOrder seat session socket hseat hconn hstale hdefaulted)

end Exchange

end QMdmmNetworking
