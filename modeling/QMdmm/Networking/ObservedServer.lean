import QMdmm.Networking.Observed

namespace QMdmmNetworking

open QMdmmCore Data Protocol

namespace Observed

variable {versionNumber : String} {self : Observed} {stale : List String}

theorem foldl_hear_ofGame {packets : List Packet} (hgame : ∀ packet ∈ packets, OfGame packet)
    (playerName : String) (held : Option AgentState) :
    packets.foldl (hear playerName) held = held := by
  induction packets with
  | nil => rfl
  | cons packet rest ih =>
    obtain ⟨hchange, hadd, -⟩ := hgame packet List.mem_cons_self
    rw [List.foldl_cons, ClientP.hear_of_ne hchange hadd]
    exact ih fun packet hpacket => hgame packet (List.mem_cons_of_mem _ hpacket)

theorem filterMap_adopted_ofGame {packets : List Packet} (hgame : ∀ packet ∈ packets, OfGame packet)
    (playerName : String) : packets.filterMap (adopted playerName) = [] :=
  List.filterMap_eq_nil_iff.mpr fun packet hpacket => if_neg (hgame packet hpacket).2.1

/-- What the game sends is of no matter to who is in which state. -/
theorem Inv.game {result : ServerConnectionP × List Effect} (h : self.Inv stale)
    (hagent : result.1.agent = self.conn.agent) (hsocket : result.1.socket = self.conn.socket)
    (hwired : result.1.wired = self.conn.wired)
    (hlog : ∀ packet ∈ result.1.roundEventLog, OfGame packet)
    (hpackets : ∀ packet ∈ result.2.filterMap Effect.packet, OfGame packet) :
    (self.fromServer result).Inv stale := by
  have hsound := h.sound
  have hfinal (socket : Socket) :
      (self.fromServer result).finalState socket = self.finalState socket := by
    rw [finalState, finalState, fromServer, hagent]
  have hmem : ∀ packet ∈ (self.fromServer result).down, packet ∈ self.down ∨ OfGame packet := by
    intro packet hpacket
    simp only [fromServer] at hpacket
    split at hpacket
    · exact (List.mem_append.mp hpacket).imp id (hpackets packet)
    · exact .inl hpacket
  have hview (playerName : String) :
      (self.fromServer result).view playerName = self.view playerName := by
    simp only [view, fromServer]
    split
    · rw [List.foldl_append, foldl_hear_ofGame hpackets]
    · rfl
  have hadopted : (self.fromServer result).down.filterMap (adopted self.client.objectName) =
      self.down.filterMap (adopted self.client.objectName) := by
    simp only [fromServer]
    split
    · rw [List.filterMap_append, filterMap_adopted_ofGame hpackets, List.append_nil]
    · rfl
  refine ⟨⟨?_, ?_, hsound.own, hsound.consistent, hsound.attached, ?_, ?_, hsound.socket, hsound.up,
    ?_, hlog, ?_, ?_, hsound.declared⟩, h.names, fun socket hconnected => ?_⟩
  · simp only [everyone, fromServer, hagent]
    exact hsound.names
  · simp only [fromServer, hagent]
    exact hsound.objectName
  · simp only [fromServer, hsocket, hwired]
    exact hsound.bound
  · simp only [fromServer, hwired]
    exact hsound.wired
  · intro packet hpacket
    obtain hbefore | hgame := hmem packet hpacket
    · exact hsound.kept packet hbefore
    · exact hgame.2.2.1
  · intro socket hclient hmember
    simp only [fromServer, hwired] at hmember
    obtain ⟨hversion, hsignIns⟩ := hsound.greeted socket hclient hmember
    refine ⟨fun packet hpacket => ?_, hsignIns⟩
    obtain hbefore | hgame := hmem packet hpacket
    · exact hversion packet hbefore
    · exact hgame.2.2.2
  · intro socket hclient hnot
    have hunbound : ¬ result.1.socket = self.client.socket := by
      intro heq
      simp only [fromServer, hwired] at hnot
      exact hnot (hsound.bound socket (hsocket.symm.trans (heq.trans hclient)))
    simp only [fromServer, hwired, if_neg hunbound] at hnot ⊢
    exact hsound.greeting socket hclient hnot
  · have hbefore : self.Connected socket :=
      ⟨hconnected.attached, hconnected.client, hsocket.symm.trans hconnected.conn⟩
    obtain ⟨hown, hfresh, hstale⟩ := h.follows socket hbefore
    refine ⟨?_, fun agent hagent hnot => ?_, fun agent hagent hmember => ?_⟩
    · rw [hfinal]
      exact hown.imp id (hadopted ▸ ·)
    · rw [hview]
      exact hfresh agent hagent hnot
    · rw [hview]
      exact hstale agent hagent hmember

/-- Reading from a socket leaves the sockets and the sign-ins as they should be. -/
theorem Sound.reads {socket : Socket} {sent : Socket × Packet} (h : self.Sound)
    (hfind : self.up.find? (fun sent => sent.1 = socket) = some sent) :
    Sound { self with up := self.up.eraseP fun sent => sent.1 = socket } := by
  obtain ⟨hqueue, hothers⟩ := queueOf_eraseP hfind
  have hsignIns (other : Socket) :
      ((queueOf (self.up.eraseP fun sent => sent.1 = socket) other).filter isSignIn).length ≤
        ((queueOf self.up other).filter isSignIn).length := by
    by_cases hother : other = socket
    · subst hother
      rw [hqueue, List.filter_cons]
      split <;> simp
    · rw [hothers other hother]
  refine ⟨h.names, h.objectName, h.own, h.consistent, h.attached, h.bound, h.wired, h.socket,
    fun sent hsent => h.up sent (List.mem_of_mem_eraseP hsent), h.kept, h.roundEventLog, ?_, ?_, ?_⟩
  · intro other hclient hmember
    obtain ⟨hversion, hzero⟩ := h.greeted other hclient hmember
    exact ⟨hversion, Nat.le_zero.mp (hzero ▸ hsignIns other)⟩
  · intro other hclient hnot
    obtain ⟨hdown, hone⟩ | ⟨hdown, hzero⟩ := h.greeting other hclient hnot
    · exact .inl ⟨hdown, (hsignIns other).trans hone⟩
    · exact .inr ⟨hdown, Nat.le_zero.mp (hzero ▸ hsignIns other)⟩
  · intro other hclient state hlast
    refine h.declared other hclient state ?_
    by_cases hother : other = socket
    · subst hother
      rw [hqueue, List.filterMap_cons]
      split
      · exact hlast
      · rw [List.getLast?_cons, hlast]
        rfl
    · rwa [hothers other hother] at hlast

/-- What is read and declares nothing to this room is just gone. -/
theorem Inv.reads {socket : Socket} {sent : Socket × Packet} (h : self.Inv stale)
    (hfind : self.up.find? (fun sent => sent.1 = socket) = some sent)
    (hquiet : declaredState sent.2 = none ∨ self.conn.socket ≠ some socket) :
    Inv { self with up := self.up.eraseP fun sent => sent.1 = socket } stale := by
  obtain ⟨hqueue, hothers⟩ := queueOf_eraseP hfind
  refine ⟨h.sound.reads hfind, h.names, fun bound hconnected => ?_⟩
  obtain ⟨hown, hfresh, hstale⟩ :=
    h.follows bound ⟨hconnected.attached, hconnected.client, hconnected.conn⟩
  have hfinal : finalState { self with up := self.up.eraseP fun sent => sent.1 = socket } bound =
      self.finalState bound := by
    unfold finalState
    by_cases hbound : bound = socket
    · subst hbound
      obtain hnone | hnot := hquiet
      · rw [hqueue, List.filterMap_cons_none hnone]
      · exact absurd hconnected.conn hnot
    · rw [hothers bound hbound]
  exact ⟨by rw [hfinal]; exact hown, hfresh, hstale⟩

/-- The agent takes over the state that is read. -/
theorem Inv.readsState {socket : Socket} {sent : Socket × Packet} {state : AgentState}
    (h : self.Inv stale) (hfind : self.up.find? (fun sent => sent.1 = socket) = some sent)
    (hdeclared : declaredState sent.2 = some state) (hsocket : self.conn.socket = some socket) :
    Inv { self with
      up := self.up.eraseP fun sent => sent.1 = socket
      conn := { self.conn with agent := { self.conn.agent with state := state } } } stale := by
  obtain ⟨hqueue, -⟩ := queueOf_eraseP hfind
  have hsound := h.sound.reads hfind
  refine ⟨⟨hsound.names, hsound.objectName, hsound.own, hsound.consistent, hsound.attached,
    hsound.bound, hsound.wired, hsound.socket, hsound.up, hsound.kept, hsound.roundEventLog,
    hsound.greeted, hsound.greeting, hsound.declared⟩, h.names, fun bound hconnected => ?_⟩
  obtain ⟨hown, hfresh, hstale⟩ :=
    h.follows bound ⟨hconnected.attached, hconnected.client, hconnected.conn⟩
  obtain rfl : bound = socket := Option.some.inj (hconnected.conn.symm.trans hsocket)
  have hfinal : self.finalState bound =
      ((queueOf (self.up.eraseP fun sent => sent.1 = bound) bound).filterMap
        declaredState).getLast?.getD state := by
    unfold finalState
    rw [hqueue, List.filterMap_cons_some hdeclared, List.getLast?_cons]
    rfl
  rw [hfinal] at hown
  exact ⟨hown, hfresh, hstale⟩

@[simp] theorem withState_objectName (playerName : String) (state : AgentState) (agent : Agent) :
    (withState playerName state agent).objectName = agent.objectName := by
  unfold withState
  split <;> rfl

theorem Sound.others_nodup (h : self.Sound) : (self.others.map (·.objectName)).Nodup :=
  (List.nodup_cons.mp h.names).2

theorem stateOf_of_mem (hnodup : (self.others.map (·.objectName)).Nodup) {agent : Agent}
    (hagent : agent ∈ self.others) : self.stateOf agent.objectName = some agent.state := by
  have hsome : (self.others.find? fun other => other.objectName = agent.objectName).isSome = true :=
    List.find?_isSome.mpr ⟨agent, hagent, decide_eq_true rfl⟩
  obtain ⟨found, hfound⟩ := Option.isSome_iff_exists.mp hsome
  have hname : found.objectName = agent.objectName := by simpa using List.find?_some hfound
  have heq : found = agent :=
    List.inj_on_of_nodup_map hnodup (List.mem_of_find?_eq_some hfound) hagent hname
  rw [stateOf, hfound, heq]
  rfl

theorem goesOn_eq_some {self' : Observed} (h : self.goesOn = some self') : self' = self :=
  (Option.some.inj (Option.ite_none_left_eq_some.mp h).2).symm

theorem noteStale_of_same {self' : Observed} (event : Event) (hothers : self'.others = self.others)
    (hwired : self'.conn.wired = self.conn.wired) : self.noteStale event self' stale = stale := by
  rw [noteStale, if_pos hwired]
  exact List.filter_eq_self.mpr fun name _ => decide_eq_true (by rw [stateOf, stateOf, hothers])

theorem hear_changedPacket (playerName name : String) (state : AgentState)
    (held : Option AgentState) : hear name held (changedPacket playerName state) =
      if playerName = name ∧ held.isSome then some state else held := by
  have htold : stateChangeOf (changedPacket playerName state).value = some (playerName, state) :=
    congrArg (fun read => some (playerName, read)) state.ofInt_wire
  have hid : notifies (changedPacket playerName state) = .NotifyAgentStateChanged := rfl
  simp only [hear, hid, htold]

/-- A packet from the connection of a connected client arrives. -/
theorem Connected.fromServer {socket : Socket} (h : self.Connected socket) (packet : Packet) :
    (self.fromServer (self.conn, self.conn.send packet)).down = self.down ++ [packet] := by
  have hsend : self.conn.send packet = [.sendPacket packet] :=
    if_pos (by rw [h.conn]; rfl)
  rw [hsend]
  exact if_pos (h.conn.trans h.client.symm)

/-- One more packet to a connected client, or none. -/
theorem Sound.fromServer {packet : Packet} (h : self.Sound)
    (hkept : notifies packet ≠ .NotifyPlayerRemoved) (hversion : notifies packet ≠ .NotifyVersion) :
    (self.fromServer (self.conn, self.conn.send packet)).Sound := by
  have hmem : ∀ sent ∈ (self.fromServer (self.conn, self.conn.send packet)).down,
      sent ∈ self.down ∨ sent = packet := by
    intro sent hsent
    simp only [Observed.fromServer, ServerConnectionP.send] at hsent
    split at hsent
    · split at hsent
      · exact (List.mem_append.mp hsent).imp id List.mem_singleton.mp
      · exact .inl (by simpa using hsent)
    · exact .inl hsent
  refine ⟨h.names, h.objectName, h.own, h.consistent, h.attached, h.bound, h.wired, h.socket, h.up,
    fun sent hsent => ?_, h.roundEventLog, fun socket hclient hmember => ?_,
    fun socket hclient hnot => ?_, h.declared⟩
  · obtain hbefore | rfl := hmem sent hsent
    · exact h.kept sent hbefore
    · exact hkept
  · obtain ⟨hversions, hsignIns⟩ := h.greeted socket hclient hmember
    refine ⟨fun sent hsent => ?_, hsignIns⟩
    obtain hbefore | rfl := hmem sent hsent
    · exact hversions sent hbefore
    · exact hversion
  · have hunbound : ¬ self.conn.socket = self.client.socket := fun heq =>
      hnot (h.bound socket (heq.trans hclient))
    simp only [Observed.fromServer, if_neg hunbound]
    exact h.greeting socket hclient hnot

/-- Another player is in another state, and nobody has been told yet. -/
def inState (self : Observed) (playerName : String) (state : AgentState) : Observed :=
  { self with others := self.others.map (withState playerName state) }

/-- The same, and the client is told. -/
def tellsState (self : Observed) (playerName : String) (state : AgentState) : Observed :=
  (self.inState playerName state).fromServer (self.conn.notify (.agentStateChange playerName state))

theorem Sound.inState (h : self.Sound) (playerName : String) (state : AgentState) :
    (self.inState playerName state).Sound := by
  have hnames : (self.inState playerName state).everyone.map (·.objectName) =
      self.everyone.map (·.objectName) := by
    simp [Observed.inState, everyone, Function.comp_def]
  exact ⟨hnames ▸ h.names, h.objectName, h.own, h.consistent, h.attached, h.bound, h.wired,
    h.socket, h.up, h.kept, h.roundEventLog, h.greeted, h.greeting, h.declared⟩

/-- Who is stale then: everybody who was, but for the player that has changed. -/
theorem Sound.mem_noteStale (h : self.Sound) {changed agent : Agent} {state : AgentState}
    (hchanged : changed ∈ self.others) (hdiffers : changed.state ≠ state)
    (hagent : agent ∈ self.others) :
    agent.objectName ∈ self.noteStale (.changes changed.objectName state)
        (self.tellsState changed.objectName state) stale ↔
      agent.objectName ∈ stale ∧ agent.objectName ≠ changed.objectName := by
  have hstate : stateOf (self.tellsState changed.objectName state) agent.objectName =
      some (withState changed.objectName state agent).state := by
    have hmember := stateOf_of_mem (h.inState changed.objectName state).others_nodup
      (List.mem_map_of_mem hagent)
    rwa [withState_objectName] at hmember
  rw [noteStale, if_pos (by rfl), List.mem_filter]
  refine and_congr_right fun _ => ?_
  rw [decide_eq_true_iff, hstate, stateOf_of_mem h.others_nodup hagent, Option.some_inj, withState]
  split
  · next heq =>
    have hsame : agent = changed := List.inj_on_of_nodup_map h.others_nodup hagent hchanged heq
    subst hsame
    simp [hdiffers.symm]
  · next hne => simp [hne]

theorem Connected.down_tellsState {socket : Socket} (h : self.Connected socket)
    (playerName : String) (state : AgentState) :
    (self.tellsState playerName state).down = self.down ++ [changedPacket playerName state] :=
  @Connected.fromServer (self.inState playerName state) socket ⟨h.attached, h.client, h.conn⟩
    (changedPacket playerName state)

/-- What the client will hold of a player then. -/
theorem Connected.view_tellsState {socket : Socket} (h : self.Connected socket)
    (playerName : String) (state : AgentState) (name : String) :
    (self.tellsState playerName state).view name =
      if playerName = name ∧ (self.view name).isSome then some state else self.view name := by
  have hfold : (self.tellsState playerName state).view name =
      (self.down ++ [changedPacket playerName state]).foldl (hear name) (self.client.held name) :=
    congrArg (fun down => List.foldl (hear name) (self.client.held name) down)
      (h.down_tellsState playerName state)
  rw [hfold, List.foldl_append]
  exact hear_changedPacket _ _ _ _

/-- A connected client has heard of everybody, or will. -/
theorem Follows.isSome_view {socket : Socket} (h : self.Follows stale socket) {agent : Agent}
    (hagent : agent ∈ self.others) : (self.view agent.objectName).isSome = true := by
  obtain ⟨-, hfresh, hold⟩ := h
  by_cases hmember : agent.objectName ∈ stale
  · obtain ⟨state, hstate, -⟩ := hold agent hagent hmember
    rw [hstate]
    rfl
  · rw [hfresh agent hagent hmember]
    rfl

/-- Another player is in another state now, and a connected client is told. -/
theorem Inv.changes (h : self.Inv stale) (playerName : String) (state : AgentState) :
    (self.changes playerName state).Inv (self.noteStale (.changes playerName state)
      (self.changes playerName state) stale) := by
  rw [Observed.changes]
  split
  · next hchanges =>
    obtain ⟨changed, hchanged, htest⟩ := List.any_eq_true.mp hchanges
    obtain ⟨hname, hdiffers⟩ := of_decide_eq_true htest
    subst hname
    change Inv (self.tellsState changed.objectName state) (self.noteStale
      (.changes changed.objectName state) (self.tellsState changed.objectName state) stale)
    have hstale {agent : Agent} (hagent : agent ∈ self.others) :=
      @Sound.mem_noteStale self stale h.sound changed agent state hchanged hdiffers hagent
    refine ⟨(h.sound.inState _ _).fromServer NotifyId.noConfusion NotifyId.noConfusion,
      fun name hname => ?_, fun socket hconnected => ?_⟩
    · rw [noteStale, if_pos (by rfl)] at hname
      obtain ⟨agent, hagent, rfl⟩ := h.names name (List.mem_filter.mp hname).1
      exact ⟨_, List.mem_map_of_mem hagent, withState_objectName _ _ _⟩
    · have hbefore : self.Connected socket :=
        ⟨hconnected.attached, hconnected.client, hconnected.conn⟩
      have hknown {agent : Agent} (hagent : agent ∈ self.others) :=
        (h.follows socket hbefore).isSome_view hagent
      have hview := hbefore.view_tellsState changed.objectName state
      obtain ⟨hown, hfresh, hold⟩ := h.follows socket hbefore
      refine ⟨hown.imp id fun hlast => ?_, fun agent' hagent' hnot => ?_,
        fun agent' hagent' hmember => ?_⟩
      · refine Eq.trans ?_ hlast
        have hadopted : (self.down ++ [changedPacket changed.objectName state]).filterMap
            (adopted self.client.objectName) =
            self.down.filterMap (adopted self.client.objectName) := by
          rw [List.filterMap_append]
          exact List.append_nil _
        rw [← hadopted]
        exact congrArg (fun down => (List.filterMap (adopted self.client.objectName) down).getLast?)
          (hbefore.down_tellsState changed.objectName state)
      · obtain ⟨agent, hagent, rfl⟩ := List.mem_map.mp hagent'
        rw [withState_objectName] at hnot ⊢
        rw [hview, withState]
        by_cases hname : agent.objectName = changed.objectName
        · rw [if_pos hname, if_pos ⟨hname.symm, hknown hagent⟩]
        · rw [if_neg hname, if_neg fun h => hname h.1.symm]
          exact hfresh agent hagent fun hmember => hnot ((hstale hagent).mpr ⟨hmember, hname⟩)
      · obtain ⟨agent, hagent, rfl⟩ := List.mem_map.mp hagent'
        rw [withState_objectName] at hmember ⊢
        obtain ⟨hbefore, hname⟩ := (hstale hagent).mp hmember
        rw [hview, withState, if_neg hname, if_neg fun h => hname h.1.symm]
        exact hold agent hagent hbefore
  · rw [noteStale_of_same _ rfl rfl]
    exact h

/-- What a connection does for the game: who it is bound to stays. -/
structure PlaysOn (conn : ServerConnectionP) (result : ServerConnectionP × List Effect) : Prop where
  agent : result.1.agent = conn.agent
  socket : result.1.socket = conn.socket
  wired : result.1.wired = conn.wired
  roundEventLog : ∀ packet ∈ result.1.roundEventLog, packet ∈ conn.roundEventLog ∨ OfGame packet
  packets : ∀ packet ∈ result.2.filterMap Effect.packet, OfGame packet

theorem Inv.playsOn {result : ServerConnectionP × List Effect} (h : self.Inv stale)
    (hresult : PlaysOn self.conn result) : (self.fromServer result).Inv stale :=
  h.game hresult.agent hresult.socket hresult.wired
    (fun packet hpacket => (hresult.roundEventLog packet hpacket).elim
      (h.sound.roundEventLog packet) id) hresult.packets

theorem defaultReply_packets (conn : ServerConnectionP) (random : RockPaperScissors)
    (requestId : RequestId) :
    (conn.defaultReply random requestId).filterMap Effect.packet = [] := by
  cases requestId <;> rfl

/-- Nothing is sent at all. -/
theorem playsOn_silent {conn conn' : ServerConnectionP} {effects : List Effect}
    (hagent : conn'.agent = conn.agent) (hsocket : conn'.socket = conn.socket)
    (hwired : conn'.wired = conn.wired) (hlog : conn'.roundEventLog = conn.roundEventLog)
    (hpackets : effects.filterMap Effect.packet = []) : PlaysOn conn (conn', effects) := by
  refine ⟨hagent, hsocket, hwired, fun packet hpacket => ?_, fun packet hpacket => ?_⟩
  · rw [hlog] at hpacket
    exact .inl hpacket
  · rw [hpackets] at hpacket
    exact absurd hpacket List.not_mem_nil

theorem playsOn_executeDefaultReply (conn : ServerConnectionP) (random : RockPaperScissors) :
    PlaysOn conn (conn.executeDefaultReply random) :=
  playsOn_silent rfl rfl rfl rfl (defaultReply_packets conn random conn.currentRequest)

theorem playsOn_abnormal (conn : ServerConnectionP) (random : RockPaperScissors) :
    PlaysOn conn (conn.abnormal random) :=
  have h := playsOn_executeDefaultReply conn random
  ⟨h.agent, h.socket, h.wired, h.roundEventLog, h.packets⟩

theorem playsOn_replyReceived (conn : ServerConnectionP) (requestId : RequestId)
    (value : QJsonValue) (random : RockPaperScissors) :
    PlaysOn conn (conn.replyReceived requestId value random) := by
  rw [ServerConnectionP.replyReceived]
  dsimp only
  split
  · have h := playsOn_executeDefaultReply { conn with requestTimer := false } random
    exact ⟨h.agent, h.socket, h.wired, h.roundEventLog, h.packets⟩
  · split
    · exact playsOn_silent rfl rfl rfl rfl rfl
    · exact playsOn_silent rfl rfl rfl rfl (defaultReply_packets _ random requestId)
    · exact playsOn_silent rfl rfl rfl rfl rfl

/-- The deadline is no matter. -/
theorem PlaysOn.restarted {conn : ServerConnectionP} {result : ServerConnectionP × List Effect}
    (h : PlaysOn { conn with heartbeatDeadline := true } result) : PlaysOn conn result :=
  ⟨h.agent, h.socket, h.wired, h.roundEventLog, h.packets⟩

theorem playsOn_packetReceived (conn : ServerConnectionP) (packet : Packet)
    (random : RockPaperScissors) : PlaysOn conn (conn.packetReceived packet random) := by
  rw [ServerConnectionP.packetReceived]
  split
  · exact playsOn_silent rfl rfl rfl rfl rfl
  · apply PlaysOn.restarted
    dsimp only
    split
    · split
      · exact playsOn_silent rfl rfl rfl rfl rfl
      · exact playsOn_silent rfl rfl rfl rfl rfl
      · exact playsOn_silent rfl rfl rfl rfl rfl
      · split
        · exact playsOn_silent rfl rfl rfl rfl rfl
        · exact playsOn_abnormal _ random
    · split
      · exact playsOn_replyReceived _ _ _ random
      · exact playsOn_abnormal _ random
    · exact playsOn_abnormal _ random

theorem playsOn_request (conn : ServerConnectionP) (req : Request) :
    PlaysOn conn (conn.request req) := by
  have hadd (requestId : RequestId) (value : QJsonValue) :
      PlaysOn conn (conn.addRequest requestId value) := by
    rw [ServerConnectionP.addRequest]
    dsimp only
    split
    · refine ⟨rfl, rfl, rfl, fun _ hpacket => .inl hpacket, fun packet hpacket => ?_⟩
      obtain rfl := List.mem_singleton.mp hpacket
      exact ⟨NotifyId.noConfusion, NotifyId.noConfusion, NotifyId.noConfusion, NotifyId.noConfusion⟩
    · exact playsOn_silent rfl rfl rfl rfl rfl
  cases req <;> exact hadd _ _

theorem playsOn_notify (conn : ServerConnectionP) {n : Notification} (hn : n.ofAgents = false) :
    PlaysOn conn (conn.notify n) := by
  have hsend {packet : Packet} (hgame : OfGame packet) :
      ∀ sent ∈ (conn.send packet).filterMap Effect.packet, OfGame sent := by
    intro sent hsent
    rw [ServerConnectionP.send] at hsent
    split at hsent
    · obtain rfl := List.mem_singleton.mp hsent
      exact hgame
    · exact absurd hsent List.not_mem_nil
  have hround {packet : Packet} (hgame : OfGame packet) :
      PlaysOn conn (conn.sendRoundEvent packet) :=
    ⟨rfl, rfl, rfl, fun sent hsent => (List.mem_append.mp hsent).imp id fun h => by
      rwa [List.mem_singleton.mp h], hsend hgame⟩
  have hplain {packet : Packet} (hgame : OfGame packet) : PlaysOn conn (conn, conn.send packet) :=
    ⟨rfl, rfl, rfl, fun _ hpacket => .inl hpacket, hsend hgame⟩
  have hgame {notifyId : NotifyId} (value : QJsonValue)
      (h : notifyId ≠ .NotifyAgentStateChanged ∧ notifyId ≠ .NotifyPlayerAdded ∧
        notifyId ≠ .NotifyPlayerRemoved ∧ notifyId ≠ .NotifyVersion) :
      OfGame (.ofNotify notifyId value) := h
  cases n with
  | agentStateChange _ _ | playerAdd _ _ _ | playerRemove _ => cases hn
  | rockPaperScissors _ | actionOrder _ | action _ _ _ _ | upgrade _ =>
    exact hround (hgame _ (by decide))
  | _ => exact hplain (hgame _ (by decide))

/-- What was on its way on a socket that is lost is lost. -/
theorem Sound.loses (h : self.Sound) (lost : Socket) :
    Sound { self with up := self.up.filter fun sent => sent.1 ≠ lost } := by
  have hsignIns (other : Socket) :
      ((queueOf (self.up.filter fun sent => sent.1 ≠ lost) other).filter isSignIn).length ≤
        ((queueOf self.up other).filter isSignIn).length := by
    rw [queueOf_filter]
    split
    · exact Nat.zero_le _
    · exact Nat.le_refl _
  refine ⟨h.names, h.objectName, h.own, h.consistent, h.attached, h.bound, h.wired, h.socket,
    fun sent hsent => h.up sent (List.mem_filter.mp hsent).1, h.kept, h.roundEventLog, ?_, ?_, ?_⟩
  · intro other hclient hmember
    obtain ⟨hversion, hzero⟩ := h.greeted other hclient hmember
    exact ⟨hversion, Nat.le_zero.mp (hzero ▸ hsignIns other)⟩
  · intro other hclient hnot
    obtain ⟨hdown, hone⟩ | ⟨hdown, hzero⟩ := h.greeting other hclient hnot
    · exact .inl ⟨hdown, (hsignIns other).trans hone⟩
    · exact .inr ⟨hdown, Nat.le_zero.mp (hzero ▸ hsignIns other)⟩
  · intro other hclient state hlast
    rw [queueOf_filter] at hlast
    split at hlast
    · cases hlast
    · exact h.declared other hclient state hlast

theorem onSocketDisconnected_packets (conn : ServerConnectionP) (random : RockPaperScissors) :
    (conn.onSocketDisconnected random).2.filterMap Effect.packet = [] := by
  have hdelete : (conn.socket.toList.map Effect.deleteLater).filterMap Effect.packet = [] := by
    cases conn.socket <;> rfl
  rw [ServerConnectionP.onSocketDisconnected]
  dsimp only
  rw [List.filterMap_append, hdelete, ServerConnectionP.executeDefaultReply, defaultReply_packets]
  rfl

/-- The server notices that a socket is gone. -/
theorem Inv.loses (h : self.Inv stale) (lost : Socket) (random : RockPaperScissors)
    {after : Observed} (hafter : handle versionNumber self (.serverLost lost random) = some after) :
    after.Inv stale ∧ after.others = self.others ∧ after.conn.wired = self.conn.wired := by
  have hsound := h.sound.loses lost
  simp only [handle] at hafter
  split at hafter
  · next hwired =>
    obtain rfl := goesOn_eq_some hafter
    have hdown : (fromServer { self with up := self.up.filter fun sent => sent.1 ≠ lost }
        (self.conn.onSocketDisconnected random)).down = self.down := by
      simp only [fromServer, onSocketDisconnected_packets, List.append_nil, ite_self]
    refine ⟨⟨⟨hsound.names, hsound.objectName, hsound.own, hsound.consistent, hsound.attached,
      fun _ hnone => (by cases hnone), hsound.wired, hsound.socket, hsound.up, ?_,
      hsound.roundEventLog, ?_, ?_, hsound.declared⟩, h.names, fun _ hconnected => ?_⟩, rfl, rfl⟩
    · rw [hdown]
      exact hsound.kept
    · rw [hdown]
      exact hsound.greeted
    · rw [hdown]
      exact hsound.greeting
    · cases hconnected.conn
  · next hwired =>
    cases hafter
    refine ⟨⟨hsound, h.names, fun socket hconnected => ?_⟩, rfl, rfl⟩
    have hne : socket ≠ lost := fun heq => hwired (heq ▸ h.sound.bound socket hconnected.conn)
    obtain ⟨hown, hfresh, hstale⟩ :=
      h.follows socket ⟨hconnected.attached, hconnected.client, hconnected.conn⟩
    have hfinal : finalState { self with up := self.up.filter fun sent => sent.1 ≠ lost } socket =
        self.finalState socket := by
      rw [finalState, queueOf_filter, if_neg hne]
      rfl
    exact ⟨by rw [hfinal]; exact hown, hfresh, hstale⟩

end Observed

end QMdmmNetworking
