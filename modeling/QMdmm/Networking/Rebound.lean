import QMdmm.Networking.ObservedServer

namespace QMdmmNetworking

open QMdmmCore Data Protocol

namespace Observed

variable {versionNumber : String} {self : Observed} {stale : List String}

theorem playerAddOf_addedPacket (agent : Agent) :
    playerAddOf (addedPacket agent).value = some (agent.objectName, agent.state) :=
  congrArg (fun read => some (agent.objectName, read)) agent.state.ofInt_wire

theorem hear_addedPacket (agent : Agent) (name : String) (held : Option AgentState) :
    hear name held (addedPacket agent) =
      if agent.objectName = name ∧ held = none then some agent.state else held := by
  have hid : notifies (addedPacket agent) = .NotifyPlayerAdded := rfl
  simp only [hear, hid, playerAddOf_addedPacket]

theorem adopted_addedPacket (agent : Agent) (name : String) :
    adopted name (addedPacket agent) = if agent.objectName = name then some agent.state else none := by
  have hid : notifies (addedPacket agent) = .NotifyPlayerAdded := rfl
  rw [adopted, if_pos hid, playerAddOf_addedPacket]
  rfl

theorem foldl_hear_of_isSome {held : Option AgentState} (hheld : held.isSome = true)
    (agents : List Agent) (name : String) :
    (agents.map addedPacket).foldl (hear name) held = held := by
  induction agents with
  | nil => rfl
  | cons agent rest ih =>
    rw [List.map_cons, List.foldl_cons, hear_addedPacket, if_neg]
    · exact ih
    · rintro ⟨-, rfl⟩
      cases hheld

/-- The snapshot is for those that the client does not know. -/
theorem foldl_hear_added {agents : List Agent} (hnodup : (agents.map (·.objectName)).Nodup)
    {agent : Agent} (hagent : agent ∈ agents) (held : Option AgentState) :
    (agents.map addedPacket).foldl (hear agent.objectName) held = held.or (some agent.state) := by
  induction agents with
  | nil => cases hagent
  | cons head rest ih =>
    obtain ⟨hhead, hrest⟩ := List.nodup_cons.mp hnodup
    rw [List.map_cons, List.foldl_cons, hear_addedPacket]
    obtain rfl | hmember := List.mem_cons.mp hagent
    · cases held with
      | none =>
        rw [if_pos ⟨rfl, rfl⟩]
        exact foldl_hear_of_isSome (Option.isSome_some) rest _
      | some state =>
        rw [if_neg fun h => Option.some_ne_none _ h.2]
        exact foldl_hear_of_isSome (Option.isSome_some) rest _
    · rw [if_neg fun h => hhead (List.mem_map.mpr ⟨agent, hmember, h.1.symm⟩)]
      exact ih hrest hmember

theorem filterMap_adopted_added {agents : List Agent}
    (hnodup : (agents.map (·.objectName)).Nodup) {agent : Agent} (hagent : agent ∈ agents) :
    (agents.map addedPacket).filterMap (adopted agent.objectName) = [agent.state] := by
  induction agents with
  | nil => cases hagent
  | cons head rest ih =>
    obtain ⟨hhead, hrest⟩ := List.nodup_cons.mp hnodup
    rw [List.map_cons, List.filterMap_cons, adopted_addedPacket]
    obtain rfl | hmember := List.mem_cons.mp hagent
    · rw [if_pos rfl]
      refine congrArg (agent.state :: ·) (List.filterMap_eq_nil_iff.mpr fun packet hpacket => ?_)
      obtain ⟨other, hother, rfl⟩ := List.mem_map.mp hpacket
      rw [adopted_addedPacket, if_neg fun h => hhead (List.mem_map.mpr ⟨other, hother, h⟩)]
    · rw [if_neg fun h => hhead (List.mem_map.mpr ⟨agent, hmember, h.symm⟩)]
      exact ih hrest hmember

theorem snapshot_packets {conn : ServerConnectionP} (hsocket : conn.socket.isSome = true)
    (order : List Agent) : (snapshot conn order).filterMap Effect.packet =
      .ofNotify .NotifyLogicConfiguration (.object conn.conf.object) :: order.map addedPacket := by
  have hsend (packet : Packet) : conn.send packet = [.sendPacket packet] := if_pos hsocket
  have hadds : (order.flatMap fun agent => (conn.notify
      (.playerAdd agent.objectName agent.screenName agent.state)).2).filterMap Effect.packet =
      order.map addedPacket := by
    induction order with
    | nil => rfl
    | cons agent rest ih =>
      rw [List.flatMap_cons, List.filterMap_append, ih]
      exact congrArg (· ++ _) (congrArg (List.filterMap Effect.packet) (hsend _))
  rw [snapshot, List.filterMap_append, hadds]
  exact congrArg (· ++ _) (congrArg (List.filterMap Effect.packet) (hsend _))

/-- A reconnect binds the socket, and replays round events. -/
theorem reconnect_eq_ok {conn conn' : ServerConnectionP} {socket : Socket} {lastRoundEventSeq : Int}
    {effects : List Effect} (h : conn.reconnect socket lastRoundEventSeq = .ok (conn', effects)) :
    conn' = { conn with
      socket := some socket, wired := conn.wired ++ [socket], heartbeatDeadline := true } ∧
    ∀ packet ∈ effects.filterMap Effect.packet, packet ∈ conn.roundEventLog := by
  obtain ⟨replayed, hreplayed, h⟩ := Except.bind_eq_ok.mp h
  cases h
  refine ⟨rfl, fun packet hpacket => ?_⟩
  have hdelete : (conn.socket.toList.map Effect.deleteLater).filterMap Effect.packet = [] := by
    cases conn.socket <;> rfl
  simp only [List.filterMap_append, hdelete, List.nil_append] at hpacket
  unfold ServerConnectionP.replayMissedRoundEvents at hreplayed
  split at hreplayed
  · cases hreplayed
  · cases hreplayed
    obtain ⟨effect, heffect, hsome⟩ := List.mem_filterMap.mp hpacket
    obtain ⟨logged, hlogged, hsent⟩ := List.mem_flatMap.mp heffect
    obtain rfl := List.mem_singleton.mp hsent
    cases hsome
    exact List.mem_of_mem_drop hlogged

/-- The connection a sign-in makes of that of an agent that is not online. -/
def rebound (conn : ServerConnectionP) (socket : Socket) : ServerConnectionP :=
  { conn with
    agent := { conn.agent with state := conn.agent.state.setFlag StateMaskOnline true }
    socket := some socket
    wired := conn.wired ++ [socket]
    heartbeatDeadline := true }

/-- What a reconnect has on its way to the client: round events, the rules, and every
player in some order. -/
def Snapshots (room : Observed) (socket : Socket) (packets : List Packet) : Prop :=
  ∃ (game : List Packet) (order : List Agent), (∀ packet ∈ game, OfGame packet) ∧
    order.Perm ((rebound room.conn socket).agent :: room.others) ∧
    packets = game ++ order.map addedPacket

/-- A reconnect rebinds the connection; what it sends arrives if the client still has
the socket. -/
theorem signIn_eq_some {self' : Observed} {socket : Socket} {lastRoundEventSeq : Int}
    {order : List Agent} (hlog : ∀ packet ∈ self.conn.roundEventLog, OfGame packet)
    (h : self.signIn socket lastRoundEventSeq order = some self') :
    ∃ down, self' = { self with conn := rebound self.conn socket, down := down } ∧
      (self.client.socket = some socket →
        ∃ packets, self.Snapshots socket packets ∧ down = self.down ++ packets) ∧
      (self.client.socket ≠ some socket → down = self.down) := by
  obtain ⟨⟨conn, effects⟩, hreconnect, h⟩ := Option.bind_eq_some_iff.mp h
  have hok : self.conn.reconnect socket lastRoundEventSeq = .ok (conn, effects) := by
    cases hresult : self.conn.reconnect socket lastRoundEventSeq with
    | error fault =>
      rw [hresult] at hreconnect
      cases hreconnect
    | ok result =>
      rw [hresult] at hreconnect
      exact congrArg Except.ok (Option.some.inj hreconnect)
  obtain ⟨rfl, hreplayed⟩ := reconnect_eq_ok hok
  obtain ⟨hperm, hsome⟩ := Option.ite_none_right_eq_some.mp h
  refine ⟨(self.fromServer (rebound self.conn socket,
    effects ++ snapshot (rebound self.conn socket) order)).down, (Option.some.inj hsome).symm,
    fun hclient => ?_, fun hclient => if_neg hclient.symm⟩
  refine ⟨_, ⟨effects.filterMap Effect.packet ++
    [.ofNotify .NotifyLogicConfiguration (.object self.conn.conf.object)], order, ?_, hperm, rfl⟩, ?_⟩
  · intro packet hpacket
    obtain hlogged | hconf := List.mem_append.mp hpacket
    · exact hlog packet (hreplayed packet hlogged)
    · rw [List.mem_singleton.mp hconf]
      exact ⟨NotifyId.noConfusion, NotifyId.noConfusion, NotifyId.noConfusion, NotifyId.noConfusion⟩
  · refine (if_pos hclient.symm).trans (congrArg (self.down ++ ·) ?_)
    have hsnapshot := @snapshot_packets (rebound self.conn socket) rfl order
    rw [List.append_assoc]
    exact (List.filterMap_append).trans (congrArg (effects.filterMap Effect.packet ++ ·) hsnapshot)

theorem Snapshots.kept {socket : Socket} {packets : List Packet}
    (h : self.Snapshots socket packets) : ∀ packet ∈ packets,
      notifies packet ≠ .NotifyPlayerRemoved ∧ notifies packet ≠ .NotifyVersion := by
  obtain ⟨game, order, hgame, -, rfl⟩ := h
  intro packet hpacket
  obtain hgamed | hadded := List.mem_append.mp hpacket
  · exact (hgame packet hgamed).2.2
  · obtain ⟨agent, -, rfl⟩ := List.mem_map.mp hadded
    exact ⟨NotifyId.noConfusion, NotifyId.noConfusion⟩

/-- When its sign-in is read, nothing is on its way to a client that still has the socket. -/
theorem Sound.down_of_signIn {socket : Socket} {sent : Socket × Packet} (h : self.Sound)
    (hfind : self.up.find? (fun sent => sent.1 = socket) = some sent)
    (hsign : isSignIn sent.2 = true) (hclient : self.client.socket = some socket) :
    self.down = [] ∧ ((queueOf (self.up.eraseP fun sent => sent.1 = socket) socket).filter
      isSignIn).length = 0 := by
  have hcount : ((queueOf self.up socket).filter isSignIn).length =
      ((queueOf (self.up.eraseP fun sent => sent.1 = socket) socket).filter isSignIn).length + 1 := by
    rw [(queueOf_eraseP hfind).1, List.filter_cons_of_pos hsign, List.length_cons]
  have hnot : socket ∉ self.conn.wired := fun hmember => by
    have hzero := (h.greeted socket hclient hmember).2
    omega
  obtain ⟨hdown, hone⟩ | ⟨-, hzero⟩ := h.greeting socket hclient hnot
  · exact ⟨hdown, by omega⟩
  · omega

theorem Sound.rebinds {socket : Socket} {down : List Packet} (h : self.Sound)
    (hmade : socket < self.made)
    (harrived : self.client.socket = some socket → self.Snapshots socket down ∧
      ((queueOf self.up socket).filter isSignIn).length = 0)
    (hmissed : self.client.socket ≠ some socket → down = self.down) :
    Sound { self with conn := rebound self.conn socket, down := down } := by
  refine ⟨h.names, h.objectName, h.own, h.consistent, h.attached, ?_, ?_, h.socket, h.up, ?_,
    h.roundEventLog, ?_, ?_, h.declared⟩
  · rintro _ ⟨⟩
    exact List.mem_append_right _ (List.mem_singleton_self _)
  · intro other hother
    obtain hwired | hsame := List.mem_append.mp hother
    · exact h.wired other hwired
    · rw [List.mem_singleton.mp hsame]
      exact hmade
  · intro packet hpacket
    by_cases hclient : self.client.socket = some socket
    · exact ((harrived hclient).1.kept packet hpacket).1
    · exact h.kept packet (hmissed hclient ▸ hpacket)
  · intro other hclient hmember
    by_cases hother : other = socket
    · subst hother
      obtain ⟨hsnapshots, hzero⟩ := harrived hclient
      exact ⟨fun packet hpacket => (hsnapshots.kept packet hpacket).2, hzero⟩
    · have hwired : other ∈ self.conn.wired :=
        (List.mem_append.mp hmember).resolve_right fun h => hother (List.mem_singleton.mp h)
      have hclient' : self.client.socket ≠ some socket := fun heq =>
        hother (Option.some.inj (hclient.symm.trans heq))
      rw [hmissed hclient']
      exact h.greeted other hclient hwired
  · intro other hclient hnot
    have hclient' : self.client.socket ≠ some socket := fun heq => hnot
      (Option.some.inj (hclient.symm.trans heq) ▸ List.mem_append_right _ (List.mem_singleton_self _))
    rw [hmissed hclient']
    exact h.greeting other hclient fun hwired => hnot (List.mem_append_left _ hwired)

theorem mem_misheld_iff (hnodup : (self.others.map (·.objectName)).Nodup) {agent : Agent}
    (hagent : agent ∈ self.others) : agent.objectName ∈ self.misheld ↔
      (self.client.held agent.objectName).isSome ∧
        self.client.held agent.objectName ≠ some agent.state := by
  constructor
  · intro hname
    obtain ⟨other, hother, hsame⟩ := List.mem_map.mp hname
    obtain ⟨hmember, htest⟩ := List.mem_filter.mp hother
    have heq : other = agent := List.inj_on_of_nodup_map hnodup hmember hagent hsame
    subst heq
    exact of_decide_eq_true htest
  · intro htest
    exact List.mem_map_of_mem (List.mem_filter.mpr ⟨hagent, decide_eq_true htest⟩)

/-- After the snapshot, the players that the client has known in another state are the
ones it is wrong about. -/
theorem Sound.follows_rebinds {socket : Socket} {down : List Packet} (h : self.Sound)
    (hsnapshots : self.Snapshots socket down) (hclient : self.client.socket = some socket) :
    Follows { self with conn := rebound self.conn socket, down := down } self.misheld socket := by
  obtain ⟨game, order, hgame, hperm, rfl⟩ := hsnapshots
  have horder : (order.map (·.objectName)).Nodup := (hperm.map _).nodup_iff.mpr h.names
  have hview {agent : Agent} (hagent : agent ∈ self.others) :
      view { self with conn := rebound self.conn socket, down := game ++ order.map addedPacket }
        agent.objectName = (self.client.held agent.objectName).or (some agent.state) := by
    have hmember : agent ∈ order := hperm.mem_iff.mpr (List.mem_cons_of_mem _ hagent)
    rw [view, List.foldl_append, foldl_hear_ofGame hgame]
    exact foldl_hear_added horder hmember _
  refine ⟨?_, fun agent hagent hnot => ?_, fun agent hagent hmember => ?_⟩
  · have hself := filterMap_adopted_added horder (hperm.mem_iff.mpr List.mem_cons_self)
    have hname : (rebound self.conn socket).agent.objectName = self.client.objectName :=
      h.objectName.symm
    rw [hname] at hself
    rw [finalState, List.filterMap_append, filterMap_adopted_ofGame hgame, List.nil_append, hself]
    cases hlast : ((queueOf self.up socket).filterMap declaredState).getLast? with
    | none => exact .inr rfl
    | some state => exact .inl (h.declared socket hclient state hlast)
  · rw [hview hagent]
    rw [mem_misheld_iff h.others_nodup hagent] at hnot
    cases hheld : self.client.held agent.objectName with
    | none => rfl
    | some state =>
      rw [hheld] at hnot
      simpa using hnot
  · rw [hview hagent]
    obtain ⟨hsome, hne⟩ := (mem_misheld_iff h.others_nodup hagent).mp hmember
    obtain ⟨state, hstate⟩ := Option.isSome_iff_exists.mp hsome
    rw [hstate] at hne ⊢
    exact ⟨state, rfl, fun heq => hne (congrArg some heq)⟩

/-- The client comes back. -/
theorem Inv.signsIn {socket : Socket} {sent : Socket × Packet} {lastRoundEventSeq : Int}
    {order : List Agent} {after : Observed} (h : self.Inv stale)
    (hfind : self.up.find? (fun sent => sent.1 = socket) = some sent)
    (hsign : isSignIn sent.2 = true)
    (hafter : signIn { self with up := self.up.eraseP fun sent => sent.1 = socket } socket
      lastRoundEventSeq order = some after) :
    after.Inv after.misheld ∧ after.conn.wired ≠ self.conn.wired := by
  have hsound := h.sound.reads hfind
  have hmade : socket < self.made := by
    have hsocket : sent.1 = socket := by simpa using List.find?_some hfind
    exact hsocket ▸ h.sound.up sent (List.mem_of_find?_eq_some hfind)
  obtain ⟨down, rfl, harrived, hmissed⟩ := signIn_eq_some hsound.roundEventLog hafter
  have hsnapshots (hclient : self.client.socket = some socket) : Snapshots
      { self with up := self.up.eraseP fun sent => sent.1 = socket } socket down ∧
      ((queueOf (self.up.eraseP fun sent => sent.1 = socket) socket).filter isSignIn).length = 0 := by
    obtain ⟨hnil, hzero⟩ := h.sound.down_of_signIn hfind hsign hclient
    obtain ⟨packets, hpackets, hdown⟩ := harrived hclient
    have hsame : down = packets := hdown.trans (congrArg (· ++ packets) hnil)
    exact ⟨hsame ▸ hpackets, hzero⟩
  refine ⟨⟨hsound.rebinds hmade hsnapshots hmissed, fun name hname => ?_, fun other hconnected => ?_⟩,
    fun hwired => ?_⟩
  · obtain ⟨agent, hagent, hsame⟩ := List.mem_map.mp hname
    exact ⟨agent, (List.mem_filter.mp hagent).1, hsame⟩
  · obtain rfl : socket = other := Option.some.inj hconnected.conn
    exact hsound.follows_rebinds (hsnapshots hconnected.client).1 hconnected.client
  · have hlength : (self.conn.wired ++ [socket]).length = self.conn.wired.length :=
      congrArg List.length hwired
    rw [List.length_append] at hlength
    exact absurd hlength (Nat.succ_ne_self _)

end Observed

end QMdmmNetworking
