import QMdmm.Networking.Observed

namespace QMdmmNetworking

open QMdmmCore Data Protocol

namespace Observed

variable {versionNumber : String} {self : Observed} {stale : List String}

/-- What a client that keeps its socket does: it reads a packet or none, and what it
says of itself is the state it then holds. -/
structure Speaks (room : Observed) (rest : List Packet) (result : ClientP × List ClientEffect) :
    Prop where
  objectName : result.1.objectName = room.client.objectName
  own : room.client.objectName ∈ result.1.agents
  consistent : result.1.Consistent
  socket : result.1.socket = room.client.socket
  attached : result.1.attached = true → room.client.attached = true
  others : ∀ name ≠ room.client.objectName,
    rest.foldl (hear name) (result.1.held name) = room.view name
  signsIn : (rest = room.down ∧
      ((result.2.filterMap ClientEffect.packet).filter isSignIn).length = 0) ∨
    ∃ packet, room.down = packet :: rest ∧
      ((result.2.filterMap ClientEffect.packet).filter isSignIn).length ≤
        if notifies packet = .NotifyVersion then 1 else 0
  declares : room.client.socket.isSome = true →
    ((result.2.filterMap ClientEffect.packet).filterMap declaredState = [] ∧
      result.1.held room.client.objectName = room.client.held room.client.objectName ∧
      ∀ state, (room.down.filterMap (adopted room.client.objectName)).getLast? = some state →
        result.1.held room.client.objectName = some state ∨
          (rest.filterMap (adopted room.client.objectName)).getLast? = some state) ∨
    ∃ state, (result.2.filterMap ClientEffect.packet).filterMap declaredState = [state] ∧
      result.1.held room.client.objectName = some state

theorem queueOf_fromClient {result : ClientP × List ClientEffect} {socket : Socket}
    (hsocket : result.1.socket = some socket) (other : Socket) :
    queueOf (self.fromClient result).up other = queueOf self.up other ++
      if socket = other then result.2.filterMap ClientEffect.packet else [] := by
  rw [fromClient, hsocket, queueOf_append, queueOf_map]

theorem Speaks.rest_subset {rest : List Packet} {result : ClientP × List ClientEffect}
    (hspeaks : self.Speaks rest result) : ∀ packet ∈ rest, packet ∈ self.down := by
  obtain ⟨rfl, -⟩ | ⟨head, hdown, -⟩ := hspeaks.signsIn
  · exact fun _ hpacket => hpacket
  · intro packet hpacket
    rw [hdown]
    exact List.mem_cons_of_mem _ hpacket

theorem Sound.speaks {rest : List Packet} {result : ClientP × List ClientEffect} (h : self.Sound)
    (hspeaks : self.Speaks rest result) : (fromClient { self with down := rest } result).Sound := by
  have hrest := hspeaks.rest_subset
  refine ⟨h.names, hspeaks.objectName.trans h.objectName, ?_, hspeaks.consistent, fun hattached => ?_,
    h.bound, h.wired, fun socket hsocket => h.socket socket (hspeaks.socket.symm.trans hsocket), ?_,
    fun packet hpacket => h.kept packet (hrest packet hpacket), h.roundEventLog, ?_, ?_, ?_⟩
  · exact hspeaks.objectName ▸ hspeaks.own
  · exact (congrArg Option.isSome hspeaks.socket).trans (h.attached (hspeaks.attached hattached))
  · intro sent hsent
    obtain hbefore | hnow := List.mem_append.mp hsent
    · exact h.up sent hbefore
    · split at hnow
      · next socket hsocket =>
        obtain ⟨packet, -, rfl⟩ := List.mem_map.mp hnow
        exact h.socket socket (hspeaks.socket.symm.trans hsocket)
      · exact absurd hnow List.not_mem_nil
  · intro socket hsocket hmember
    obtain ⟨hversion, hzero⟩ := h.greeted socket (hspeaks.socket.symm.trans hsocket) hmember
    refine ⟨fun packet hpacket => hversion packet (hrest packet hpacket), ?_⟩
    rw [queueOf_fromClient hsocket, if_pos rfl, List.filter_append, List.length_append]
    obtain ⟨-, hnone⟩ | ⟨packet, hdown, hone⟩ := hspeaks.signsIn
    · exact Nat.add_eq_zero_iff.mpr ⟨hzero, hnone⟩
    · rw [if_neg (hversion packet (hdown ▸ List.mem_cons_self))] at hone
      exact Nat.add_eq_zero_iff.mpr ⟨hzero, Nat.le_zero.mp hone⟩
  · intro socket hsocket hnot
    rw [queueOf_fromClient hsocket, if_pos rfl, List.filter_append, List.length_append]
    have hgreeting := h.greeting socket (hspeaks.socket.symm.trans hsocket) hnot
    obtain ⟨rfl, hnone⟩ | ⟨packet, hdown, hone⟩ := hspeaks.signsIn
    · rw [hnone]
      exact hgreeting
    · have hle : ((result.2.filterMap ClientEffect.packet).filter isSignIn).length ≤ 1 := by
        split at hone
        · exact hone
        · exact hone.trans (Nat.zero_le 1)
      obtain ⟨hnil, -⟩ | ⟨hlength, hzero⟩ := hgreeting
      · rw [hnil] at hdown
        cases hdown
      · rw [hdown, List.length_cons] at hlength
        have hempty : rest = [] := List.length_eq_zero_iff.mp (Nat.succ.inj hlength)
        exact .inl ⟨hempty, by simp only at hzero ⊢; omega⟩
  · intro socket hsocket state hlast
    have hbefore := hspeaks.socket.symm.trans hsocket
    rw [queueOf_fromClient hsocket, if_pos rfl, List.filterMap_append] at hlast
    have hname : result.1.held result.1.objectName = result.1.held self.client.objectName :=
      congrArg _ hspeaks.objectName
    refine hname.trans ?_
    obtain ⟨hnone, hheld, -⟩ | ⟨said, hsaid, hheld⟩ := hspeaks.declares (by rw [hbefore]; rfl)
    · rw [hnone, List.append_nil] at hlast
      exact hheld.trans (h.declared socket hbefore state hlast)
    · rw [hsaid, List.getLast?_concat] at hlast
      exact hheld.trans hlast

theorem Inv.speaks {rest : List Packet} {result : ClientP × List ClientEffect} (h : self.Inv stale)
    (hspeaks : self.Speaks rest result) : (fromClient { self with down := rest } result).Inv stale := by
  refine ⟨h.sound.speaks hspeaks, h.names, fun socket hconnected => ?_⟩
  have hclient : self.client.socket = some socket := hspeaks.socket.symm.trans hconnected.client
  obtain ⟨hown, hfresh, hstale⟩ :=
    h.follows socket ⟨hspeaks.attached hconnected.attached, hclient, hconnected.conn⟩
  have hqueue : queueOf (fromClient { self with down := rest } result).up socket =
      queueOf self.up socket ++ result.2.filterMap ClientEffect.packet := by
    rw [queueOf_fromClient hconnected.client, if_pos rfl]
  have hother {agent : Agent} (hagent : agent ∈ self.others) :
      agent.objectName ≠ self.client.objectName := by
    rw [h.sound.objectName]
    exact fun heq => (List.nodup_cons.mp h.sound.names).1 (List.mem_map.mpr ⟨agent, hagent, heq⟩)
  refine ⟨?_, fun agent hagent hnot => ?_, fun agent hagent hmember => ?_⟩
  · have hname : (fromClient { self with down := rest } result).client.objectName =
        self.client.objectName := hspeaks.objectName
    rw [hname, finalState, hqueue, List.filterMap_append]
    obtain ⟨hnone, hheld, hlast⟩ | ⟨said, hsaid, hheld⟩ := hspeaks.declares (by rw [hclient]; rfl)
    · rw [hnone, List.append_nil]
      obtain hown | hadopts := hown
      · exact .inl (hheld.trans hown)
      · exact hlast _ hadopts
    · rw [hsaid, List.getLast?_concat]
      exact .inl hheld
  · exact (hspeaks.others _ (hother hagent)).trans (hfresh agent hagent hnot)
  · obtain ⟨state, hview, hne⟩ := hstale agent hagent hmember
    exact ⟨state, (hspeaks.others _ (hother hagent)).trans hview, hne⟩

theorem mem_agents_iff {client : ClientP} {name : String} :
    name ∈ client.agents ↔ (client.held name).isSome = true := by
  rw [ClientP.held, Option.isSome_map, AList.lookup_isSome]

/-- The client reads a packet. -/
theorem Sound.speaks_clientReads {packet : Packet} {rest : List Packet}
    {result : ClientP × List ClientEffect} (h : self.Sound) (hdown : self.down = packet :: rest)
    (hreads : self.client.handle (.packetReceived packet) = some result) :
    self.Speaks rest result := by
  obtain ⟨hattached, hok⟩ := ClientP.received_of_handle hreads
  have hsocket := h.attached hattached
  have hhears := ClientP.hears_socketPacketReceived hok hsocket h.consistent h.own
    (h.kept packet (hdown ▸ List.mem_cons_self))
  have hkeeps : result.1.socket = self.client.socket ∧
      (result.1.attached = true → self.client.attached = true) := by
    obtain hreacts | ⟨-, -, hleaves⟩ := ClientP.socketPacketReceived_cases hok
    · cases hreacts with
      | handles hhandles => exact ⟨hhandles.socket, hhandles.attached⟩
      | hangsUp hresult =>
        have hclient : result.1 = self.client.disconnectFromHost.1 := congrArg Prod.fst hresult
        rw [hclient]
        exact ⟨rfl, fun h => absurd h Bool.false_ne_true⟩
      | greeted _ _ hresult | welcomed hresult =>
        have hclient := congrArg Prod.fst hresult
        dsimp only at hclient
        rw [hclient]
        exact ⟨rfl, id⟩
    · exact ⟨hleaves.socket, hleaves.attached⟩
  refine ⟨hhears.objectName, ?_, hhears.consistent, hkeeps.1, hkeeps.2, fun name hname => ?_,
    .inr ⟨packet, hdown, hhears.signsIn⟩, fun hsome => ?_⟩
  · rw [mem_agents_iff, hhears.own]
    have hheld := mem_agents_iff.mp h.own
    cases adopted self.client.objectName packet <;> simp [hheld]
  · rw [view, hdown, List.foldl_cons, hhears.others name hname]
  · have hdeclares := hhears.declares hsome
    have hown := hhears.own
    cases hadopted : adopted self.client.objectName packet with
    | none =>
      rw [hadopted] at hdeclares hown
      refine .inl ⟨hdeclares, hown, fun state hlast => .inr ?_⟩
      rwa [hdown, List.filterMap_cons_none hadopted] at hlast
    | some state =>
      rw [hadopted] at hdeclares hown
      by_cases hsame : self.client.held self.client.objectName = some state
      · refine .inl ⟨by rw [hdeclares]; simp [hsame], hown.trans hsame.symm, fun last hlast => ?_⟩
        rw [hdown, List.filterMap_cons_some hadopted, List.getLast?_cons] at hlast
        cases hmore : (rest.filterMap (adopted self.client.objectName)).getLast? with
        | none =>
          rw [hmore] at hlast
          exact .inl (hown.trans hlast)
        | some more =>
          rw [hmore] at hlast
          exact .inr hlast
      · exact .inr ⟨state, by rw [hdeclares]; simp [hsame], hown⟩

/-- What the client says has nothing to do with its state. -/
theorem Sound.speaks_quiet {result : ClientP × List ClientEffect} (h : self.Sound)
    (hagents : result.1.agents = self.client.agents) (hroom : result.1.room = self.client.room)
    (hname : result.1.objectName = self.client.objectName)
    (hsocket : result.1.socket = self.client.socket)
    (hattached : result.1.attached = true → self.client.attached = true)
    (hpackets : ∀ packet ∈ result.2.filterMap ClientEffect.packet,
      notifies packet ≠ .NotifySignIn ∧ notifies packet ≠ .NotifyStateChange) :
    self.Speaks self.down result := by
  have hheld (name : String) : result.1.held name = self.client.held name := by
    rw [ClientP.held, hagents]
    rfl
  refine ⟨hname, hagents ▸ h.own, fun name hmember => ?_, hsocket, hattached, fun name _ => ?_,
    .inl ⟨rfl, ?_⟩, fun _ => .inl ⟨?_, hheld _, fun _ hlast => .inr hlast⟩⟩
  · rw [hagents]
    rw [hroom] at hmember
    exact h.consistent name hmember
  · rw [hheld]
    rfl
  · rw [List.length_eq_zero_iff, List.filter_eq_nil_iff]
    intro packet hpacket
    simpa [isSignIn] using (hpackets packet hpacket).1
  · exact List.filterMap_eq_nil_iff.mpr fun packet hpacket =>
      if_neg fun hnot => (hpackets packet hpacket).2 hnot.1

/-- The client says one thing that does not declare a state, or nothing, and at most goes
on to wait for another request. -/
theorem Sound.speaks_one (h : self.Sound) (currentRequest : RequestId)
    {effects : List ClientEffect} (heffects : effects = [] ∨ ∃ packet,
      effects = [.sendPacket packet] ∧ notifies packet ≠ .NotifySignIn ∧
        notifies packet ≠ .NotifyStateChange) :
    self.Speaks self.down ({ self.client with currentRequest }, effects) := by
  refine h.speaks_quiet rfl rfl rfl rfl id fun sent hsent => ?_
  obtain rfl | ⟨packet, rfl, hpacket⟩ := heffects
  · exact absurd hsent List.not_mem_nil
  · rwa [List.mem_singleton.mp hsent]

theorem Sound.speaks_sendReply (h : self.Sound) (requestId : RequestId) (value : QJsonValue) :
    self.Speaks self.down (self.client.sendReply requestId value) := by
  unfold ClientP.sendReply
  split
  · exact h.speaks_one .RequestInvalid
      (.inr ⟨_, rfl, NotifyId.noConfusion, NotifyId.noConfusion⟩)
  · exact h.speaks_one self.client.currentRequest (.inl rfl)

theorem Sound.speaks_sendRequestGivenUp (h : self.Sound) :
    self.Speaks self.down self.client.sendRequestGivenUp := by
  unfold ClientP.sendRequestGivenUp
  split
  · exact h.speaks_one .RequestInvalid
      (.inr ⟨_, rfl, NotifyId.noConfusion, NotifyId.noConfusion⟩)
  · exact h.speaks_one self.client.currentRequest (.inl rfl)

theorem Sound.speaks_sendSpeak (h : self.Sound) (content : String) :
    self.Speaks self.down (self.client.sendSpeak content) := by
  refine h.speaks_one self.client.currentRequest ?_
  split
  · exact .inr ⟨_, rfl, NotifyId.noConfusion, NotifyId.noConfusion⟩
  · exact .inl rfl

theorem Sound.speaks_sendOperate (h : self.Sound) :
    self.Speaks self.down self.client.sendOperate := by
  refine h.speaks_one self.client.currentRequest ?_
  split
  · exact .inr ⟨_, rfl, NotifyId.noConfusion, NotifyId.noConfusion⟩
  · exact .inl rfl

theorem Sound.speaks_setState (h : self.Sound) (state : AgentState) :
    self.Speaks self.down (self.client.setState state) := by
  obtain ⟨agent, hagent⟩ := Option.isSome_iff_exists.mp (AList.lookup_isSome.mpr h.own)
  have hresult : self.client.setState state = ({ self.client with
      agents := self.client.agents.insert self.client.objectName { agent with state := state } },
      self.client.declare agent.state state) := by
    rw [ClientP.setState, hagent]
  have hheld : self.client.held self.client.objectName = some agent.state := by
    rw [ClientP.held, hagent]
    rfl
  have hafter (name : String) : (self.client.setState state).1.held name =
      if name = self.client.objectName then some state else self.client.held name := by
    rw [hresult]
    exact ClientP.held_insert self.client.agents { agent with state := state } _ name rfl
  have hother {name : String} (hname : name ≠ self.client.objectName) :
      (self.client.setState state).1.held name = self.client.held name :=
    (hafter name).trans (if_neg hname)
  have hself : (self.client.setState state).1.held self.client.objectName = some state :=
    (hafter _).trans (if_pos rfl)
  refine ⟨by rw [hresult], ?_, ?_, by rw [hresult], fun hattached => ?_, fun name hname => ?_, .inl ⟨rfl, ?_⟩,
    fun hsome => ?_⟩
  · rw [mem_agents_iff, hself]
    rfl
  · intro name hmember
    rw [hresult] at hmember
    rw [mem_agents_iff, hafter]
    split
    · rfl
    · exact mem_agents_iff.mp (h.consistent name hmember)
  · rwa [hresult] at hattached
  · rw [hother hname]
    rfl
  · rw [hresult]
    unfold ClientP.declare
    split <;> rfl
  · have hdeclares : (self.client.setState state).2.filterMap ClientEffect.packet =
        if agent.state ≠ state then [ClientP.stateChangePacket state] else [] := by
      rw [hresult]
      exact ClientP.declare_packets hsome _ _
    rw [hdeclares]
    by_cases hsame : agent.state = state
    · rw [if_neg (not_not_intro hsame)]
      exact .inl ⟨rfl, hself.trans (hsame ▸ hheld.symm), fun _ hlast => .inr hlast⟩
    · rw [if_pos hsame]
      exact .inr ⟨state, by simp [ClientP.declaredState_stateChangePacket], hself⟩

/-- What a client does to its sockets: who it knows stays, and nothing is sent. -/
structure Reconnects (client : ClientP) (result : ClientP × List ClientEffect) : Prop where
  agents : result.1.agents = client.agents
  room : result.1.room = client.room
  objectName : result.1.objectName = client.objectName
  packets : result.2.filterMap ClientEffect.packet = []

theorem Reconnects.up {result : ClientP × List ClientEffect} (h : Reconnects self.client result) :
    (self.fromClient result).up = self.up := by
  rw [fromClient, h.packets]
  dsimp only
  split <;> exact List.append_nil _

theorem Reconnects.held {result : ClientP × List ClientEffect} (h : Reconnects self.client result)
    (name : String) : result.1.held name = self.client.held name := by
  rw [ClientP.held, h.agents]
  rfl

theorem Reconnects.consistent {result : ClientP × List ClientEffect}
    (h : Reconnects self.client result) (hconsistent : self.client.Consistent) :
    result.1.Consistent := by
  intro name hname
  rw [h.room] at hname
  rw [h.agents]
  exact hconsistent name hname

theorem Inv.hangsUp {result : ClientP × List ClientEffect} (h : self.Inv stale)
    (hresult : Reconnects self.client result) (hattached : result.1.attached = false)
    (hsocket : ∀ socket, result.1.socket = some socket → self.client.socket = some socket) :
    (self.hangsUp result).Inv stale := by
  have hsound := h.sound
  have hup : (self.hangsUp result).up = self.up :=
    @Reconnects.up { self with down := [] } result hresult
  refine ⟨⟨hsound.names, hresult.objectName.trans hsound.objectName, ?_,
    hresult.consistent hsound.consistent, fun h => ?_, hsound.bound, hsound.wired,
    fun socket hclient => hsound.socket socket (hsocket socket hclient), hup ▸ hsound.up,
    fun _ hpacket => absurd hpacket List.not_mem_nil, hsound.roundEventLog, ?_, ?_, ?_⟩, h.names,
    fun socket hconnected => ?_⟩
  · rw [mem_agents_iff]
    exact (congrArg Option.isSome ((congrArg _ hresult.objectName).trans
      (hresult.held self.client.objectName))).trans (mem_agents_iff.mp hsound.own)
  · exact absurd (hattached.symm.trans h) Bool.false_ne_true
  · intro socket hclient hmember
    rw [hup]
    exact ⟨fun _ hpacket => absurd hpacket List.not_mem_nil,
      (hsound.greeted socket (hsocket socket hclient) hmember).2⟩
  · intro socket hclient hnot
    rw [hup]
    refine .inl ⟨rfl, ?_⟩
    obtain ⟨-, hone⟩ | ⟨-, hzero⟩ := hsound.greeting socket (hsocket socket hclient) hnot
    · exact hone
    · exact hzero ▸ Nat.zero_le 1
  · intro socket hclient state hlast
    rw [hup] at hlast
    exact ((congrArg _ hresult.objectName).trans (hresult.held _)).trans
      (hsound.declared socket (hsocket socket hclient) state hlast)
  · exact absurd (hattached.symm.trans hconnected.attached) Bool.false_ne_true

theorem queueOf_eq_nil {up : List (Socket × Packet)} {socket : Socket}
    (h : ∀ sent ∈ up, sent.1 ≠ socket) : queueOf up socket = [] :=
  List.filterMap_eq_nil_iff.mpr fun sent hsent => if_neg (h sent hsent)

theorem Inv.connects {result : ClientP × List ClientEffect} (h : self.Inv stale) (known : Bool)
    (hresult : Reconnects self.client result) (hsocket : result.1.socket = some self.made) :
    (self.connects versionNumber known result).Inv stale := by
  have hsound := h.sound
  have hup : (self.connects versionNumber known result).up = self.up :=
    @Reconnects.up { self with
      down := if known then [versionPacket versionNumber] else [], made := self.made + 1 } result
      hresult
  have hqueue : queueOf self.up self.made = [] :=
    queueOf_eq_nil fun sent hsent => Nat.ne_of_lt (hsound.up sent hsent)
  have hnot : self.made ∉ self.conn.wired := fun hmember =>
    Nat.lt_irrefl _ (hsound.wired _ hmember)
  have honly {socket : Socket} (hclient : result.1.socket = some socket) : socket = self.made :=
    Option.some.inj (hclient.symm.trans hsocket)
  refine ⟨⟨hsound.names, hresult.objectName.trans hsound.objectName, ?_,
    hresult.consistent hsound.consistent, fun _ => (congrArg Option.isSome hsocket), hsound.bound,
    fun socket hmember => Nat.lt_succ_of_lt (hsound.wired socket hmember),
    fun socket hclient => honly hclient ▸ Nat.lt_succ_self _,
    fun sent hsent => Nat.lt_succ_of_lt (hsound.up sent (hup ▸ hsent)), ?_, hsound.roundEventLog,
    fun socket hclient hmember => ?_, fun socket hclient _ => ?_, fun socket hclient state hlast => ?_⟩,
    h.names, fun socket hconnected => ?_⟩
  · rw [mem_agents_iff]
    exact (congrArg Option.isSome ((congrArg _ hresult.objectName).trans
      (hresult.held self.client.objectName))).trans (mem_agents_iff.mp hsound.own)
  · intro packet hpacket
    simp only [Observed.connects, fromClient] at hpacket
    split at hpacket
    · rw [List.mem_singleton.mp hpacket]
      exact NotifyId.noConfusion
    · exact absurd hpacket List.not_mem_nil
  · rw [honly hclient] at hmember
    exact absurd hmember hnot
  · rw [hup, honly hclient, hqueue]
    cases known with
    | true => exact .inr ⟨rfl, rfl⟩
    | false => exact .inl ⟨rfl, Nat.zero_le 1⟩
  · rw [hup, honly hclient, hqueue] at hlast
    cases hlast
  · have hmember := hsound.bound socket hconnected.conn
    rw [honly hconnected.client] at hmember
    exact absurd hmember hnot

theorem reconnects_scheduleReconnect (client : ClientP) :
    Reconnects client client.scheduleReconnect := by
  unfold ClientP.scheduleReconnect
  split <;> exact ⟨rfl, rfl, rfl, rfl⟩

theorem scheduleReconnect_fields (client : ClientP) :
    client.scheduleReconnect.1.attached = client.attached ∧
      client.scheduleReconnect.1.socket = client.socket := by
  unfold ClientP.scheduleReconnect
  split <;> exact ⟨rfl, rfl⟩

theorem reconnects_handleSocketGone {client : ClientP} (hsocket : client.socket.isSome = true) :
    Reconnects client client.handleSocketGone ∧ client.handleSocketGone.1.attached = false ∧
      client.handleSocketGone.1.socket = client.socket := by
  have hnone : ¬ client.socket.isNone = true := by
    simpa using Option.ne_none_iff_isSome.mpr hsocket
  rw [ClientP.handleSocketGone, if_neg hnone]
  dsimp only
  split
  · have h := reconnects_scheduleReconnect { client with attached := false }
    have hfields := scheduleReconnect_fields { client with attached := false }
    exact ⟨⟨h.agents, h.room, h.objectName, h.packets⟩, hfields.1, hfields.2⟩
  · have h := reconnects_scheduleReconnect
      { client with attached := false, reconnectInProgress := true, reconnectAttempts := 0 }
    have hfields := scheduleReconnect_fields
      { client with attached := false, reconnectInProgress := true, reconnectAttempts := 0 }
    exact ⟨⟨h.agents, h.room, h.objectName, h.packets⟩, hfields.1, hfields.2⟩

theorem reconnects_reconnectTimeout (client : ClientP) (socket : Socket) (known : Bool) :
    Reconnects client (client.reconnectTimeout socket known) ∧
      (client.reconnectTimeout socket known).1.socket = some socket := by
  cases known <;> exact ⟨⟨rfl, rfl, rfl, rfl⟩, rfl⟩

theorem reconnects_disconnectFromHost (client : ClientP) :
    Reconnects client client.disconnectFromHost := by
  refine ⟨rfl, rfl, rfl, ?_⟩
  unfold ClientP.disconnectFromHost
  dsimp only
  split <;> rfl

end Observed

end QMdmmNetworking
