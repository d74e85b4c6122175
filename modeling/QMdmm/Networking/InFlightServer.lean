import QMdmm.Networking.InFlight

namespace QMdmmNetworking

open QMdmmCore Data Protocol

namespace Exchange

variable {self : Exchange} {result : ClientP × List ClientEffect}

/-- A seat does something: it keeps to its own connections, and on the one it is bound to
there is nothing under way but its request in flight. -/
theorem Inv.moves {self' : Exchange} {seat : Nat} {session session' : Session} (h : self.Inv)
    (hseat : self.seats[seat]? = some session) (hseats : self'.seats = self.seats.set seat session')
    (hmade : self'.made = self.made) (hclient : self'.client = self.client)
    (hheld : self'.heldOver = self.heldOver) (hanswered : session'.Answered)
    (hlog : ∀ packet ∈ session'.conn.roundEventLog, packet.type = .TypeNotify)
    (hothers : ∀ socket, self'.lines socket = self.lines socket ∨
      (self'.lines socket).seat = some seat ∧ socket < self.made ∧
        ∀ other, (self.lines socket).seat = some other → other = seat)
    (hup : ∀ socket, ∀ packet ∈ (self'.lines socket).up, packet ∈ (self.lines socket).up)
    (hbound : ∀ socket, session'.conn.socket = some socket →
      (self'.lines socket).seat = some seat ∧
        ((self'.lines socket).stale = false → (self'.lines socket).defaulted = false →
          (self'.underWay socket).Subperm session'.outstanding))
    (hmatched : self'.mismatched = false) : self'.Inv := by
  have hless : seat < self.seats.length := (List.getElem?_eq_some_iff.mp hseat).1
  have hmem : ∀ other ∈ self'.seats, other = session' ∨ other ∈ self.seats := by
    intro other hother
    rw [hseats] at hother
    exact (List.mem_or_eq_of_mem_set hother).symm
  have hcases {other : Nat} {after : Session} (hother : self'.seats[other]? = some after) :
      other = seat ∧ after = session' ∨ other ≠ seat ∧ self.seats[other]? = some after := by
    rw [hseats] at hother
    by_cases heq : other = seat
    · rw [heq, List.getElem?_set_self hless] at hother
      exact .inl ⟨heq, (Option.some.inj hother).symm⟩
    · rw [List.getElem?_set_ne (Ne.symm heq)] at hother
      exact .inr ⟨heq, hother⟩
  have hunder {socket : Socket} (hline : self'.lines socket = self.lines socket) :
      self'.underWay socket = self.underWay socket := by
    unfold underWay inHand
    rw [hline, hclient, hheld]
  -- The connections of the other seats are as they were.
  have hkept {other : Nat} {after : Session} {socket : Socket} (hother : other ≠ seat)
      (hafter : self.seats[other]? = some after) (hsocket : after.conn.socket = some socket) :
      self'.lines socket = self.lines socket := by
    obtain hline | ⟨-, -, hown⟩ := hothers socket
    · exact hline
    · exact absurd (hown other (h.bound other after socket hafter hsocket)) hother
  refine ⟨fun other hother => ?_, fun other hother => ?_, fun other after socket hother hsocket => ?_,
    fun socket hsocket => ?_, fun socket hsocket => ?_, fun socket hsocket => ?_,
    fun socket packet hpacket => h.up socket packet (hup socket packet hpacket),
    fun socket hnone hstale => ?_, fun other after socket hother hsocket hstale hdefaulted => ?_,
    hmatched⟩
  · obtain rfl | hbefore := hmem other hother
    · exact hanswered
    · exact h.answered other hbefore
  · obtain rfl | hbefore := hmem other hother
    · exact hlog
    · exact h.roundEventLog other hbefore
  · obtain ⟨rfl, rfl⟩ | ⟨hne, hbefore⟩ := hcases hother
    · exact (hbound socket hsocket).1
    · rw [hkept hne hbefore hsocket]
      exact h.bound other after socket hbefore hsocket
  · rw [hmade] at hsocket
    obtain hline | ⟨-, hlow, -⟩ := hothers socket
    · rw [hline]
      exact h.made socket hsocket
    · exact absurd hlow (Nat.not_lt.mpr hsocket)
  · rw [hmade]
    exact h.client socket (hclient ▸ hsocket)
  · rw [hmade]
    exact h.heldOver socket (hheld ▸ hsocket)
  · obtain hline | ⟨hsome, -, -⟩ := hothers socket
    · rw [hline] at hnone hstale
      rw [hunder hline]
      exact h.unseated socket hnone hstale
    · rw [hsome] at hnone
      cases hnone
  · obtain ⟨rfl, rfl⟩ | ⟨hne, hbefore⟩ := hcases hother
    · exact (hbound socket hsocket).2 hstale hdefaulted
    · have hline := hkept hne hbefore hsocket
      rw [hline] at hstale hdefaulted
      rw [hunder hline]
      exact h.inOrder other after socket hbefore hsocket hstale hdefaulted

theorem underWay_of_sent {self' : Exchange} {socket : Socket} {sent : List Packet}
    (hclient : self'.client = self.client) (hheld : self'.heldOver = self.heldOver)
    (hdown : (self'.lines socket).down = (self.lines socket).down ++ sent)
    (hup : (self'.lines socket).up = (self.lines socket).up) :
    self'.underWay socket = idsOf .TypeRequest (self.lines socket).down ++
      idsOf .TypeRequest sent ++ self.inHand socket ++ idsOf .TypeReply (self.lines socket).up := by
  unfold underWay inHand
  rw [hclient, hheld, hdown, hup, idsOf_append]

/-- The connection that a seat is bound to is its own. -/
theorem Inv.bound_line {seat : Nat} {session : Session} {socket : Socket} (h : self.Inv)
    (hseat : self.seats[seat]? = some session) (hsocket : session.conn.socket = some socket) :
    (self.lines socket).seat = some seat ∧ socket < self.made ∧
      ∀ other, (self.lines socket).seat = some other → other = seat := by
  have hline := h.bound seat session socket hseat hsocket
  refine ⟨hline, Nat.lt_of_not_le fun hle => ?_, fun other hother => ?_⟩
  · rw [(h.made socket hle).2] at hline
    cases hline
  · exact Option.some.inj (hother.symm.trans hline)

/-- A seat only sends, and no request. -/
theorem Inv.sends {seat : Nat} {session session' : Session} {effects : List Effect} (h : self.Inv)
    (hseat : self.seats[seat]? = some session) (hanswered : session'.Answered)
    (hsocket : session'.conn.socket = session.conn.socket)
    (houtstanding : session'.outstanding = session.outstanding)
    (hlog : ∀ packet ∈ session'.conn.roundEventLog, packet.type = .TypeNotify)
    (hpackets : ∀ packet ∈ effects.filterMap Effect.packet, packet.type = .TypeNotify) :
    (self.fromSeat seat session' effects).Inv := by
  obtain ⟨hclient, hseats, hmade, hheld, hmismatched⟩ := @fromSeat_fields self seat session' effects
  have hnone : idsOf .TypeRequest (effects.filterMap Effect.packet) = [] :=
    idsOf_eq_nil fun packet hpacket => by rw [hpackets packet hpacket]; decide
  refine h.moves hseat hseats hmade hclient hheld hanswered hlog (fun socket => ?_)
    (fun socket packet hpacket => ?_) (fun socket hafter => ?_) (hmismatched.trans h.matched)
  · rw [fromSeat_lines]
    split
    · next hafter => exact .inr (h.bound_line hseat (hsocket.symm.trans hafter))
    · exact .inl rfl
  · rw [fromSeat_lines] at hpacket
    split at hpacket <;> exact hpacket
  · have hbefore := hsocket.symm.trans hafter
    rw [fromSeat_lines, if_pos hafter]
    refine ⟨h.bound seat session socket hseat hbefore, fun hstale hdefaulted => ?_⟩
    rw [underWay_of_sent hclient hheld (by rw [fromSeat_lines, if_pos hafter])
      (by rw [fromSeat_lines, if_pos hafter]), hnone, List.append_nil, houtstanding]
    exact h.inOrder seat session socket hseat hbefore hstale hdefaulted

theorem outstanding_eq {session : Session} (hanswered : session.Answered)
    (hlength : session.asked.length = session.replies.length) : session.outstanding = [] := by
  have h := congrArg List.length hanswered
  rw [List.length_append, List.length_map] at h
  exact List.length_eq_zero_iff.mp (by omega)

theorem request_keeps (conn : ServerConnectionP) (req : Request) :
    (conn.request req).1.socket = conn.socket ∧
      (conn.request req).1.roundEventLog = conn.roundEventLog := by
  rw [ServerConnectionP.request_eq_addRequest, ServerConnectionP.addRequest]
  dsimp only
  split <;> exact ⟨rfl, rfl⟩

theorem idsOf_request {conn : ServerConnectionP} (hsocket : conn.socket.isSome = true)
    (req : Request) :
    idsOf .TypeRequest ((conn.request req).2.filterMap Effect.packet) = [req.requestId] := by
  rw [ServerConnectionP.request_eq_addRequest, ServerConnectionP.addRequest]
  dsimp only
  rw [if_pos hsocket]
  rfl

/-- Whatever a seat does on its own, its socket is the one before or lost, and its log
stays. -/
theorem own_keeps {conn conn' : ServerConnectionP} {l : Session.Step} {effects : List Effect}
    (hact : Session.act conn l = .ok (conn', effects)) (hown : l.event.own = true) :
    (conn'.socket = none ∨ conn'.socket = conn.socket) ∧
      conn'.roundEventLog = conn.roundEventLog := by
  by_cases hrequest : ∃ req, l.event = .addRequest req
  · obtain ⟨req, hreq⟩ := hrequest
    simp only [Session.act, hreq] at hact
    obtain rfl : (conn.request req).1 = conn' := congrArg Prod.fst (Except.ok.inj hact)
    obtain ⟨hsocket, hlog⟩ := request_keeps conn req
    exact ⟨.inr hsocket, hlog⟩
  · push Not at hrequest
    have hquiet := Session.quiet_act hact hown hrequest
    exact ⟨hquiet.socket, hquiet.roundEventLog⟩

/-- What is under way after a seat has done something on its own. -/
theorem Inv.own_flow {seat : Nat} {session after : Session} {l : Session.Step}
    {effects : List Effect} {socket : Socket} (h : self.Inv)
    (hseat : self.seats[seat]? = some session) (hrun : session.run l = some (after, effects))
    (hevent : l.event.own = true) (hbefore : session.conn.socket = some socket)
    (hsocket : after.conn.socket = some socket) (hstale : (self.lines socket).stale = false)
    (hdefaulted : (self.defaults session after socket (self.lines socket)).defaulted = false) :
    (idsOf .TypeRequest (self.lines socket).down ++
      idsOf .TypeRequest (effects.filterMap Effect.packet) ++ self.inHand socket ++
      idsOf .TypeReply (self.lines socket).up).Subperm after.outstanding := by
  have hanswered := h.answered session (List.mem_of_getElem? hseat)
  obtain ⟨henabled, conn, hact, hrecord⟩ := Session.run_eq_some hrun
  have hconn : after.conn = conn := by rw [hrecord]; rfl
  obtain ⟨hundefaulted, hdefault⟩ := Bool.or_eq_false_iff.mp hdefaulted
  have hunder := h.inOrder seat session socket hseat hbefore hstale hundefaulted
  by_cases hrequest : ∃ req, l.event = .addRequest req
  · obtain ⟨req, hreq⟩ := hrequest
    rw [hreq] at henabled
    rw [outstanding_eq hanswered (by simpa [Session.enabled] using henabled),
      List.subperm_nil, underWay, List.append_eq_nil_iff, List.append_eq_nil_iff] at hunder
    obtain ⟨⟨hdown, hhand⟩, hup⟩ := hunder
    simp only [Session.act, hreq] at hact
    have hids := idsOf_request (by rw [hbefore]; rfl) req
    have hcurrent := (ServerConnectionP.request_asks session.conn req).1
    rw [Except.ok.inj hact] at hids hcurrent
    rw [hdown, hhand, hup, hids, Session.outstanding, hconn, hcurrent,
      if_neg (Session.requestId_ne_invalid req)]
    exact .refl _
  · push Not at hrequest
    have hsilent : idsOf .TypeRequest (effects.filterMap Effect.packet) = [] := by
      rw [(Session.quiet_act hact hevent hrequest).silent]
      rfl
    rw [hsilent, List.append_nil]
    obtain ⟨hkeep, -⟩ | ⟨hasked, hdone, -⟩ := Session.settles_act hact hrequest
    · rw [Session.outstanding, hconn, hkeep]
      exact hunder
    · -- A default reply on a connection that is still in order has found nothing out.
      rw [hconn] at hsocket hdefault
      have hnone : self.underWay socket = [] := by
        simpa [hsocket, hasked, hdone] using hdefault
      have hempty : (self.underWay socket).Subperm after.outstanding := by
        rw [hnone]
        exact List.nil_subperm
      exact hempty

/-- What a seat does with its own timers and requests. -/
theorem Inv.own {seat : Nat} {l : Session.Step} {self' : Exchange} (h : self.Inv)
    (hown : self.own seat l = some self') : self'.Inv := by
  obtain ⟨hevent, hown⟩ := Option.ite_none_right_eq_some.mp hown
  obtain ⟨session, hseat, hown⟩ := Option.bind_eq_some_iff.mp hown
  obtain ⟨⟨after, effects⟩, hrun, rfl⟩ := Option.map_eq_some_iff.mp hown
  have hmem := List.mem_of_getElem? hseat
  have hafter := (Session.answered_step (h.answered session hmem) (Session.next_of_run hrun)).1
  obtain ⟨-, conn, hact, hrecord⟩ := Session.run_eq_some hrun
  have hconn : after.conn = conn := by rw [hrecord]; rfl
  obtain ⟨hclient, hseats, hmade, hheld, hmismatched⟩ := @fromSeat_fields self seat after effects
  obtain ⟨hkept, hlog⟩ := own_keeps hact hevent
  rw [← hconn] at hkept hlog
  have hbefore {socket : Socket} (hsocket : after.conn.socket = some socket) :
      session.conn.socket = some socket := by
    obtain hnone | hsame := hkept
    · rw [hnone] at hsocket
      cases hsocket
    · exact hsame.symm.trans hsocket
  refine h.moves hseat hseats hmade hclient hheld hafter
    (fun packet hpacket => h.roundEventLog session hmem packet (hlog ▸ hpacket))
    (fun socket => ?_) (fun socket packet hpacket => ?_) (fun socket hsocket => ?_)
    (hmismatched.trans h.matched)
  · by_cases hsocket : after.conn.socket = some socket
    · right
      dsimp only [defaults]
      rw [fromSeat_lines, if_pos hsocket]
      exact h.bound_line hseat (hbefore hsocket)
    · left
      dsimp only
      rw [fromSeat_lines, if_neg hsocket]
      simp [defaults, hsocket]
  · dsimp only [defaults] at hpacket
    rw [fromSeat_lines] at hpacket
    split at hpacket <;> exact hpacket
  · dsimp only [defaults]
    rw [fromSeat_lines, if_pos hsocket]
    refine ⟨h.bound seat session socket hseat (hbefore hsocket), fun hstale hdefaulted => ?_⟩
    have hflow := h.own_flow hseat hrun hevent (hbefore hsocket) hsocket hstale hdefaulted
    rwa [← underWay_of_sent hclient hheld (by rw [fromSeat_lines, if_pos hsocket])
      (by rw [fromSeat_lines, if_pos hsocket])] at hflow

/-- A new seat, before it is bound. -/
theorem Inv.seats (h : self.Inv) (agent : Agent) (logicConfiguration : LogicConfiguration)
    (requestTimeout : Int) :
    Inv { self with seats := self.seats ++ [.new agent logicConfiguration requestTimeout] } := by
  have hmem : ∀ session ∈ self.seats ++ [.new agent logicConfiguration requestTimeout],
      session ∈ self.seats ∨ session = .new agent logicConfiguration requestTimeout := by
    intro session hsession
    exact (List.mem_append.mp hsession).imp id List.mem_singleton.mp
  have hcases {seat : Nat} {session : Session} {socket : Socket}
      (hseat : (self.seats ++ [.new agent logicConfiguration requestTimeout])[seat]? = some session)
      (hsocket : session.conn.socket = some socket) : self.seats[seat]? = some session := by
    rw [List.getElem?_append] at hseat
    split at hseat
    · exact hseat
    · obtain rfl := List.mem_singleton.mp (List.mem_of_getElem? hseat)
      cases hsocket
  refine ⟨fun session hsession => ?_, fun session hsession => ?_,
    fun seat session socket hseat hsocket =>
      h.bound seat session socket (hcases hseat hsocket) hsocket,
    h.made, h.client, h.heldOver, h.up, h.unseated,
    fun seat session socket hseat hsocket =>
      h.inOrder seat session socket (hcases hseat hsocket) hsocket, h.matched⟩
  · obtain hbefore | rfl := hmem session hsession
    · exact h.answered session hbefore
    · rfl
  · obtain hbefore | rfl := hmem session hsession
    · exact h.roundEventLog session hbefore
    · exact fun packet hpacket => absurd hpacket List.not_mem_nil

/-- A sign-in binds its socket. -/
theorem Inv.binds {seat : Nat} {session : Session} {socket : Socket} {event : Session.Event}
    {state : AgentState} {self' : Exchange} (h : self.Inv)
    (hseat : self.seats[seat]? = some session) (hnone : (self.lines socket).seat = none)
    (hless : socket < self.made)
    (hevent : event = .setSocket socket ∨ ∃ n, event = .reconnect socket n)
    (hbinds : self.binds socket seat session event state = some self') : self'.Inv := by
  obtain ⟨⟨after, effects⟩, hrun, rfl⟩ := Option.map_eq_some_iff.mp hbinds
  have hmem := List.mem_of_getElem? hseat
  have hafter := (Session.answered_step (h.answered session hmem) (Session.next_of_run hrun)).1
  obtain ⟨-, conn, hact, hrecord⟩ := Session.run_eq_some hrun
  have hconn : after.conn = conn := by rw [hrecord]; rfl
  have hlog := h.roundEventLog session hmem
  have hbound : conn.socket = some socket ∧ conn.roundEventLog = session.conn.roundEventLog ∧
      ∀ packet ∈ effects.filterMap Effect.packet, packet.type = .TypeNotify := by
    obtain rfl | ⟨n, rfl⟩ := hevent
    · obtain ⟨rfl, rfl⟩ := Prod.mk.inj (Except.ok.inj hact)
      refine ⟨rfl, rfl, fun packet hpacket => ?_⟩
      cases hsocket : session.conn.socket <;> rw [hsocket] at hpacket <;> cases hpacket
    · obtain ⟨hsocket, -, hkept, hpackets⟩ := ServerConnectionP.notifies_reconnect session.conn hlog hact
      exact ⟨hsocket, hkept, hpackets⟩
  obtain ⟨hsocket, hkept, hpackets⟩ := hbound
  obtain ⟨hclient, hseats, hmade, hheld, hmismatched⟩ := @fromSeat_fields
    (self.onLine socket fun line => { line with seat := some seat }) seat (after.setState state)
    effects
  have hlines (other : Socket) : ((self.onLine socket fun line =>
      { line with seat := some seat }).fromSeat seat (after.setState state) effects).lines other =
      if other = socket then { self.lines socket with
        seat := some seat
        down := (self.lines socket).down ++ effects.filterMap Effect.packet }
      else self.lines other := by
    have hsame : (after.setState state).conn.socket = some socket :=
      (congrArg ServerConnectionP.socket hconn).trans hsocket
    rw [fromSeat_lines, onLine_lines, hsame]
    by_cases hother : other = socket
    · subst hother
      simp
    · simp [hother, Ne.symm hother]
  refine h.moves hseat hseats hmade hclient hheld hafter (fun packet hpacket => ?_)
    (fun other => ?_) (fun other packet hpacket => ?_) (fun other hother => ?_)
    (hmismatched.trans h.matched)
  · refine hlog packet (hkept ▸ ?_)
    rw [← hconn]
    exact hpacket
  · rw [hlines]
    split
    · next heq =>
      subst heq
      exact .inr ⟨rfl, hless, fun seat hsome => by rw [hnone] at hsome; cases hsome⟩
    · exact .inl rfl
  · rw [hlines] at hpacket
    split at hpacket
    · next heq => rwa [heq]
    · exact hpacket
  · obtain rfl : socket = other := by
      have hsame : after.conn.socket = some other := hother
      rw [hconn, hsocket] at hsame
      exact Option.some.inj hsame
    have hnotified : idsOf .TypeRequest (effects.filterMap Effect.packet) = [] :=
      idsOf_eq_nil fun packet hpacket => by rw [hpackets packet hpacket]; decide
    have hline := (hlines socket).trans (if_pos rfl)
    rw [@underWay_of_sent self _ _ _ hclient hheld (by rw [hline]) (by rw [hline]), hline,
      hnotified, List.append_nil]
    refine ⟨rfl, fun hstale _ => ?_⟩
    have hunder : self.underWay socket = [] := h.unseated socket hnone hstale
    have hempty : (self.underWay socket).Subperm (after.setState state).outstanding := by
      rw [hunder]
      exact List.nil_subperm
    exact hempty

theorem Inv.signIn {socket : Socket} {ob : SignIn} {signedIn : SignedIn} {self' : Exchange}
    (h : self.Inv) (hnone : (self.lines socket).seat = none) (hless : socket < self.made)
    (hsignIn : self.signIn socket ob signedIn = some self') : self'.Inv := by
  cases signedIn with
  | refused =>
    cases hsignIn
    exact h
  | added =>
    refine (h.seats ⟨ob.playerName, ob.screenName, ob.agentState⟩ self.logicConfiguration
      self.requestTimeout).binds ?_ hnone hless (.inl rfl) hsignIn
    exact List.getElem?_concat_length
  | reconnected seat =>
    rw [Exchange.signIn] at hsignIn
    split at hsignIn
    · cases hsignIn
    · next session hseat =>
      split at hsignIn
      · cases hsignIn
      · exact h.binds hseat hnone hless (.inr ⟨_, rfl⟩) hsignIn

/-- A packet is taken from a line: a reply is not under way any more. -/
theorem Inv.pops (h : self.Inv) {socket : Socket} {packet : Packet} {rest : List Packet}
    (hup : (self.lines socket).up = packet :: rest) :
    (self.onLine socket fun line => { line with up := rest }).Inv := by
  have hhand (other : Socket) :
      (self.onLine socket fun line => { line with up := rest }).inHand other =
        self.inHand other := rfl
  refine h.shrinks ⟨rfl, rfl, rfl, h.client, h.heldOver, fun other => ?_, fun other => ?_,
    fun other sent hsent => .inl ?_, fun other hstale => ?_⟩
  · rw [onLine_lines]
    split
    · next heq => rw [heq]
    · rfl
  · rw [onLine_lines]
    split
    · next heq => rw [heq]
    · rfl
  · rw [onLine_lines] at hsent
    split at hsent
    · next heq =>
      rw [heq, hup]
      exact List.mem_cons_of_mem packet hsent
    · exact hsent
  · rw [onLine_lines] at hstale
    unfold underWay
    rw [hhand, onLine_lines]
    split at hstale
    · next heq =>
      subst heq
      rw [if_pos rfl, hup]
      refine ⟨hstale, (List.Sublist.append (.refl _) ?_).subperm⟩
      exact idsOf_sublist .TypeReply (List.sublist_cons_self packet rest)
    · next hne =>
      rw [if_neg hne]
      exact ⟨hstale, .refl _⟩

/-- A seat does something that sends nothing. -/
theorem Inv.quiet {seat : Nat} {session after : Session} {effects : List Effect} (h : self.Inv)
    (hseat : self.seats[seat]? = some session) (hanswered : after.Answered)
    (hquiet : ServerConnectionP.Quiet session.conn after.conn effects)
    (hflow : ∀ socket, after.conn.socket = some socket → (self.lines socket).stale = false →
      (self.lines socket).defaulted = false → (self.underWay socket).Subperm after.outstanding) :
    (self.fromSeat seat after effects).Inv := by
  obtain ⟨hclient, hseats, hmade, hheld, hmismatched⟩ := @fromSeat_fields self seat after effects
  have hbefore {socket : Socket} (hsocket : after.conn.socket = some socket) :
      (self.lines socket).seat = some seat := by
    refine h.bound seat session socket hseat ?_
    obtain hnone | hsame := hquiet.socket
    · rw [hnone] at hsocket
      cases hsocket
    · exact hsame.symm.trans hsocket
  have hlines (socket : Socket) :
      (self.fromSeat seat after effects).lines socket = self.lines socket := by
    rw [fromSeat_lines, hquiet.silent, List.append_nil, ite_self]
  refine h.moves hseat hseats hmade hclient hheld hanswered (fun packet hpacket => ?_)
    (fun socket => .inl (hlines socket)) (fun socket packet hpacket => hlines socket ▸ hpacket)
    (fun socket hsocket => ?_) (hmismatched.trans h.matched)
  · rw [hquiet.roundEventLog] at hpacket
    exact h.roundEventLog session (List.mem_of_getElem? hseat) packet hpacket
  · have hunder : (self.fromSeat seat after effects).underWay socket = self.underWay socket := by
      unfold underWay inHand
      rw [hclient, hheld, hlines]
    rw [hlines, hunder]
    exact ⟨hbefore hsocket, hflow socket hsocket⟩

theorem mem_underWay {socket : Socket} {packet : Packet} {rest : List Packet}
    (hup : (self.lines socket).up = packet :: rest) (htype : packet.type = .TypeReply) :
    packet.requestId ∈ self.underWay socket := by
  rw [underWay, hup]
  exact List.mem_append_right _ (by simp [idsOf, htype])

/-- The reply to the one request that is under way leaves nothing under way. -/
theorem underWay_popped {socket : Socket} {packet : Packet} {rest : List Packet}
    (hup : (self.lines socket).up = packet :: rest) (htype : packet.type = .TypeReply)
    (hone : (self.underWay socket).length ≤ 1) :
    (self.onLine socket fun line => { line with up := rest }).underWay socket = [] := by
  have hids : idsOf .TypeReply (packet :: rest) = packet.requestId :: idsOf .TypeReply rest := by
    simp [idsOf, htype]
  rw [underWay, hup, hids] at hone
  simp only [List.length_append, List.length_cons] at hone
  rw [underWay, onLine_lines, if_pos rfl]
  refine List.length_eq_zero_iff.mp ?_
  have hhand : (self.onLine socket fun line => { line with up := rest }).inHand socket =
      self.inHand socket := rfl
  rw [hhand]
  simp only [List.length_append]
  omega

theorem length_outstanding_le (session : Session) : session.outstanding.length ≤ 1 := by
  unfold Session.outstanding
  split
  · exact Nat.zero_le 1
  · exact Nat.le_refl 1

/-- The server reads: where replies are in order, one is to the request in flight. -/
theorem Inv.serverReads {socket : Socket} {signedIn : SignedIn} {sync : Bool}
    {random : RockPaperScissors} {self' : Exchange} (h : self.Inv)
    (horder : self.inOrder (.serverReads socket signedIn sync random) = true)
    (hreads : self.serverReads socket signedIn sync random = some self') : self'.Inv := by
  unfold Exchange.serverReads at hreads
  cases hup : (self.lines socket).up with
  | nil =>
    rw [hup] at hreads
    cases hreads
  | cons packet rest =>
    simp only [hup] at hreads
    have hpops := h.pops hup
    have hless : socket < self.made := Nat.lt_of_not_le fun hle => by
      rw [(h.made socket hle).1] at hup
      cases hup
    have hplain (htype : packet.type = .TypeReply) :
        (self.lines socket).stale = false ∧ (self.lines socket).defaulted = false := by
      simpa [Exchange.inOrder, hup, htype] using horder
    cases hseat : (self.lines socket).seat with
    | none =>
      simp only [hseat] at hreads
      split at hreads
      · obtain ⟨ob, -, hsignIn⟩ := Option.bind_eq_some_iff.mp hreads
        exact hpops.signIn (by rw [onLine_lines, if_pos rfl]; exact hseat) hless hsignIn
      · cases hreads
        -- Over a connection without a seat there is no reply, unless to another one's request.
        have hmatches : mismatches none packet = false := by
          rw [mismatches, Bool.and_eq_false_iff, decide_eq_false_iff_not]
          refine .inl fun htype => ?_
          have hmem := mem_underWay hup htype
          rw [h.unseated socket hseat (hplain htype).1] at hmem
          cases hmem
        refine ⟨hpops.answered, hpops.roundEventLog, hpops.bound, hpops.made, hpops.client,
          hpops.heldOver, hpops.up, hpops.unseated, hpops.inOrder, ?_⟩
        dsimp only
        rw [hmatches, h.matched]
        rfl
    | some seat =>
      simp only [hseat] at hreads
      obtain ⟨session, hfilter, hreads⟩ := Option.bind_eq_some_iff.mp hreads
      obtain ⟨hsession, hbound⟩ := Option.filter_eq_some_iff.mp hfilter
      have hsocket : session.conn.socket = some socket := by simpa using hbound
      obtain ⟨⟨after, effects⟩, hrun, rfl⟩ := Option.map_eq_some_iff.mp hreads
      have hanswered := h.answered session (List.mem_of_getElem? hsession)
      have hafter := (Session.answered_step hanswered (Session.next_of_run hrun)).1
      obtain ⟨-, conn, hact, hrecord⟩ := Session.run_eq_some hrun
      have hconn : after.conn = conn := by rw [hrecord]; rfl
      have hquiet := ServerConnectionP.quiet_packetReceivedOver sync random session.conn packet
      rw [Except.ok.inj hact, ← hconn] at hquiet
      have hsame {other : Socket} (hother : after.conn.socket = some other) : other = socket := by
        obtain hnone | hkept := hquiet.socket
        · rw [hnone] at hother
          cases hother
        · exact Option.some.inj (hother.symm.trans (hkept.trans hsocket))
      have hfirst : packet ∈ (self.lines socket).up := hup ▸ List.mem_cons_self
      have hparts : (∀ other, after.conn.socket = some other →
          ((self.onLine socket fun line => { line with up := rest }).lines other).stale = false →
          ((self.onLine socket fun line => { line with up := rest }).lines other).defaulted = false →
          ((self.onLine socket fun line => { line with up := rest }).underWay other).Subperm
            after.outstanding) ∧ mismatches (some session) packet = false := by
        obtain htype | ⟨htype, htoServer⟩ := h.up socket packet hfirst
        · -- The reply is to the request in flight, and there is no other one under way.
          obtain ⟨hstale, hdefaulted⟩ := hplain htype
          have hunder := h.inOrder seat session socket hsession hsocket hstale hdefaulted
          have hnone := underWay_popped hup htype
            (hunder.length_le.trans (length_outstanding_le session))
          refine ⟨fun other hother _ _ => ?_, ?_⟩
          · rw [hsame hother, hnone]
            exact List.nil_subperm
          · have hmem := hunder.subset (mem_underWay hup htype)
            unfold Session.outstanding at hmem
            split at hmem
            · cases hmem
            · have hrequest : session.conn.currentRequest = packet.requestId :=
                (List.mem_singleton.mp hmem).symm
              simp [mismatches, hrequest]
        · refine ⟨fun other hother hstale hdefaulted => ?_, by simp [mismatches, htype]⟩
          have hkeep : session.conn.currentRequest = after.conn.currentRequest := by
            have hafter : (session.conn.packetReceivedOver sync random packet).1 = after.conn :=
              (congrArg Prod.fst (Except.ok.inj hact)).trans hconn.symm
            rw [← hafter, ServerConnectionP.currentRequest_packetReceivedOver_toServer sync random _
              htype htoServer]
          obtain rfl := hsame hother
          have hflow := hpops.inOrder seat session other hsession hsocket hstale hdefaulted
          rwa [Session.outstanding, hkeep] at hflow
      have hinv : ((self.onLine socket fun line => { line with up := rest }).fromSeat seat
          (after.setState ((declaredState packet).getD after.conn.agent.state)) effects).Inv :=
        hpops.quiet hsession hafter ⟨hquiet.socket, hquiet.roundEventLog, hquiet.silent⟩ hparts.1
      refine ⟨hinv.answered, hinv.roundEventLog, hinv.bound, hinv.made, hinv.client,
        hinv.heldOver, hinv.up, hinv.unseated, hinv.inOrder, ?_⟩
      dsimp only
      rw [hparts.2, h.matched]
      rfl

end Exchange

end QMdmmNetworking
