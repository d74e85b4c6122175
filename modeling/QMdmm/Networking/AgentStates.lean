import QMdmm.Networking.Reconnect

namespace QMdmmNetworking

open QMdmmCore Data Protocol

/-- What a `NotifyAgentStateChanged` tells. -/
def stateChangeOf (value : QJsonValue) : Option (String × AgentState) :=
  let ob := value.toObject
  if !(ob.value "playerName").isString || !(ob.value "agentState").isDouble then none
  else some ((ob.value "playerName").toQString, .ofInt ((ob.value "agentState").toInt 0))

/-- What a `NotifyPlayerAdded` tells. -/
def playerAddOf (value : QJsonValue) : Option (String × AgentState) :=
  let ob := value.toObject
  if !(ob.value "playerName").isString || !(ob.value "screenName").isString ||
      !(ob.value "agentState").isDouble then none
  else some ((ob.value "playerName").toQString, .ofInt ((ob.value "agentState").toInt 0))

/-- The notification a packet is, if it is one. -/
def notifies (packet : Packet) : NotifyId :=
  if packet.type = .TypeNotify then packet.notifyId else .NotifyInvalid

/-- The state a packet leaves a client with for another player, from the one that it
holds: a change is for known players, an addition for unknown ones. -/
def hear (playerName : String) (held : Option AgentState) (packet : Packet) : Option AgentState :=
  match notifies packet with
  | .NotifyAgentStateChanged =>
    match stateChangeOf packet.value with
    | some (name, state) => if name = playerName ∧ held.isSome then some state else held
    | none => held
  | .NotifyPlayerAdded =>
    match playerAddOf packet.value with
    | some (name, state) => if name = playerName ∧ held = none then some state else held
    | none => held
  | _ => held

/-- The state of its own player that a packet has a client adopt. -/
def adopted (playerName : String) (packet : Packet) : Option AgentState :=
  if notifies packet = .NotifyPlayerAdded then
    (playerAddOf packet.value).bind fun (name, state) => if name = playerName then some state else none
  else none

/-- The state a packet declares. -/
def declaredState (packet : Packet) : Option AgentState :=
  if notifies packet = .NotifyStateChange ∧ (packet.value.toObject.value "agentState").isDouble then
    some (.ofInt ((packet.value.toObject.value "agentState").toInt 0))
  else none

def isSignIn (packet : Packet) : Bool := notifies packet = .NotifySignIn

namespace ClientP

/-- The state a client holds for a player. -/
def held (client : ClientP) (playerName : String) : Option AgentState :=
  (client.agents.lookup playerName).map (·.state)

/-- Nobody is in the mirror room without an agent. -/
def Consistent (client : ClientP) : Prop :=
  ∀ name ∈ client.room.playerNames, name ∈ client.agents

variable {self self' : ClientP} {effects : List ClientEffect}

/-- What receiving a packet does to the agents of a client, and what the client says of
itself because of it. -/
structure Hears (client : ClientP) (packet : Packet) (result : ClientP × List ClientEffect) :
    Prop where
  objectName : result.1.objectName = client.objectName
  consistent : result.1.Consistent
  others : ∀ name ≠ client.objectName, result.1.held name = hear name (client.held name) packet
  own : result.1.held client.objectName =
    (adopted client.objectName packet).or (client.held client.objectName)
  declares : client.socket.isSome = true →
    (result.2.filterMap ClientEffect.packet).filterMap declaredState =
      (adopted client.objectName packet).toList.filter
        fun state => client.held client.objectName ≠ some state
  signsIn : ((result.2.filterMap ClientEffect.packet).filter isSignIn).length ≤
    if notifies packet = .NotifyVersion then 1 else 0

/-- A packet that tells of nobody, and has nothing sent. -/
theorem hears_of_silent {packet : Packet} {result : ClientP × List ClientEffect}
    (hagents : result.1.agents = self.agents)
    (hnames : result.1.room.playerNames = self.room.playerNames)
    (hobjectName : result.1.objectName = self.objectName)
    (hsilent : result.2.filterMap ClientEffect.packet = []) (hconsistent : self.Consistent)
    (hhear : ∀ name, hear name (self.held name) packet = self.held name)
    (hadopted : adopted self.objectName packet = none) : Hears self packet result where
  objectName := hobjectName
  consistent name hname := by
    rw [hnames] at hname
    rw [hagents]
    exact hconsistent name hname
  others name _ := by rw [hhear, held, hagents]; rfl
  own := by rw [hadopted, Option.none_or, held, hagents]; rfl
  declares _ := by rw [hsilent, hadopted]; rfl
  signsIn := by rw [hsilent]; exact Nat.zero_le _

theorem Leaves.hears {packet : Packet} {result : ClientP × List ClientEffect}
    (h : Leaves self result) (hconsistent : self.Consistent)
    (hhear : ∀ name, hear name (self.held name) packet = self.held name)
    (hadopted : adopted self.objectName packet = none) : Hears self packet result :=
  hears_of_silent h.agents h.playerNames h.objectName h.silent hconsistent hhear hadopted

theorem held_insert (agents : QHash String Agent) (agent : Agent) (name other : String)
    (hagents : self.agents = AList.insert name agent agents) :
    self.held other =
      if other = name then some agent.state else (agents.lookup other).map (·.state) := by
  rw [held, hagents]
  split
  · next heq => rw [heq, AList.lookup_insert]; rfl
  · next hne => rw [AList.lookup_insert_ne hne]

theorem hears_notifyAgentStateChanged {packet : Packet}
    (hid : notifies packet = .NotifyAgentStateChanged) (hconsistent : self.Consistent) :
    Hears self packet (self.notifyAgentStateChanged packet.value) := by
  have hadopted : adopted self.objectName packet = none := by
    rw [adopted, if_neg (by rw [hid]; decide)]
  have hleaves {result : ClientP × List ClientEffect} (hresult : Leaves self result)
      (hhear : ∀ name, hear name (self.held name) packet = self.held name) :
      Hears self packet result :=
    hresult.hears hconsistent hhear hadopted
  unfold notifyAgentStateChanged
  dsimp only
  split
  · next hfields =>
    have htold : stateChangeOf packet.value = none := if_pos hfields
    exact hleaves (keeps_one rfl).toLeaves fun name => by simp only [hear, hid, htold]
  · next hfields =>
    have htold : stateChangeOf packet.value =
        some ((packet.value.toObject.value "playerName").toQString,
          .ofInt ((packet.value.toObject.value "agentState").toInt 0)) := if_neg hfields
    generalize (packet.value.toObject.value "playerName").toQString = playerName at htold ⊢
    generalize AgentState.ofInt ((packet.value.toObject.value "agentState").toInt 0) = state
      at htold ⊢
    have hhear (name : String) (held : Option AgentState) : hear name held packet =
        if playerName = name ∧ held.isSome then some state else held := by
      simp only [hear, hid, htold]
    split
    · next hunknown =>
      refine hleaves (keeps_one rfl).toLeaves fun name => ?_
      rw [hhear, if_neg]
      rintro ⟨rfl, hsome⟩
      rw [held, hunknown] at hsome
      cases hsome
    · next agent hagent =>
      split
      · next hself =>
        refine ⟨rfl, hconsistent, fun name hname => ?_, by rw [hadopted]; rfl, fun _ => by
          rw [hadopted]; rfl, Nat.zero_le _⟩
        rw [hhear, if_neg fun h => hname (h.1.symm.trans hself)]
      · next hother =>
        refine ⟨rfl, fun name hname => ?_, fun name _ => ?_, ?_, fun _ => by
          rw [hadopted]; rfl, Nat.zero_le _⟩
        · exact (AList.mem_insert _).mpr (.inr (hconsistent name hname))
        · rw [held_insert self.agents _ playerName name rfl, hhear]
          by_cases hname : name = playerName
          · subst hname
            rw [if_pos rfl, if_pos ⟨rfl, by rw [held, hagent]; rfl⟩]
          · rw [if_neg hname, if_neg fun h => hname h.1.symm]
            rfl
        · rw [held_insert self.agents _ playerName _ rfl, if_neg (Ne.symm hother), hadopted]
          rfl

theorem mem_addPlayer {room : Room} {name other : String} :
    other ∈ (room.addPlayer name).2.playerNames ↔ other = name ∨ other ∈ room.playerNames := by
  by_cases hmember : name ∈ room.playerNames
  · rw [Room.addPlayer_of_mem hmember]
    constructor
    · exact .inr
    · rintro (rfl | h)
      · exact hmember
      · exact h
  · rw [Room.addPlayer_of_notMem hmember]
    exact OrderedMap.mem_keys_insert hmember

theorem declare_packets (hsocket : self.socket.isSome = true) (before after : AgentState) :
    (self.declare before after).filterMap ClientEffect.packet =
      if before ≠ after then [stateChangePacket after] else [] := by
  unfold declare
  by_cases hne : before ≠ after
  · rw [if_pos ⟨hne, hsocket⟩, if_pos hne]
    rfl
  · rw [if_neg fun h => hne h.1, if_neg hne]
    rfl

theorem declaredState_stateChangePacket (state : AgentState) :
    declaredState (stateChangePacket state) = some state := by
  have hread : declaredState (stateChangePacket state) = some (.ofInt (state.wire.toInt 0)) := rfl
  rw [hread, AgentState.ofInt_wire]

theorem hears_notifyPlayerAdded {packet : Packet} (hid : notifies packet = .NotifyPlayerAdded)
    (hconsistent : self.Consistent) (hown : self.objectName ∈ self.agents)
    (hsocket : self.socket.isSome = true) :
    Hears self packet (self.notifyPlayerAdded packet.value) := by
  have hsignsIn (before after : AgentState) (n : Notification) :
      (((self.declare before after ++ [ClientEffect.notify n]).filterMap ClientEffect.packet).filter
        isSignIn).length ≤ 0 := by
    rw [List.filterMap_append, declare_packets hsocket]
    split <;> exact Nat.le_refl 0
  unfold notifyPlayerAdded
  dsimp only
  split
  · next hfields =>
    have htold : playerAddOf packet.value = none := if_pos hfields
    refine (keeps_one rfl).toLeaves.hears hconsistent (fun name => ?_) ?_
    · simp only [hear, hid, htold]
    · rw [adopted, if_pos hid, htold]
      rfl
  · next hfields =>
    have htold : playerAddOf packet.value =
        some ((packet.value.toObject.value "playerName").toQString,
          .ofInt ((packet.value.toObject.value "agentState").toInt 0)) := if_neg hfields
    generalize (packet.value.toObject.value "playerName").toQString = playerName at htold ⊢
    generalize AgentState.ofInt ((packet.value.toObject.value "agentState").toInt 0) = state
      at htold ⊢
    have hhear (name : String) (held : Option AgentState) : hear name held packet =
        if playerName = name ∧ held = none then some state else held := by
      simp only [hear, hid, htold]
    have hadopted : adopted self.objectName packet =
        if playerName = self.objectName then some state else none := by
      rw [adopted, if_pos hid, htold]
      rfl
    split
    · next agent hagent =>
      have hheld : self.held playerName = some agent.state := by rw [held, hagent]; rfl
      split
      · next hself =>
        subst hself
        rw [if_pos rfl] at hadopted
        refine ⟨rfl, fun name hname => ?_, fun name hname => ?_, ?_, fun _ => ?_, ?_⟩
        · obtain rfl | hmember := mem_addPlayer.mp hname
          · exact (AList.mem_insert _).mpr (.inl rfl)
          · exact (AList.mem_insert _).mpr (.inr (hconsistent name hmember))
        · rw [held_insert self.agents _ self.objectName name rfl, if_neg hname, hhear,
            if_neg fun h => hname h.1.symm]
          rfl
        · rw [held_insert self.agents _ self.objectName _ rfl, if_pos rfl, hadopted]
          rfl
        · rw [hadopted, hheld, List.filterMap_append, declare_packets hsocket]
          by_cases hsame : agent.state = state
          · simp [hsame, ClientEffect.packet]
          · simp [hsame, ClientEffect.packet, declaredState_stateChangePacket]
        · exact (hsignsIn _ _ _).trans (Nat.zero_le _)
      · next hother =>
        rw [if_neg hother] at hadopted
        refine keeps_none.toLeaves.hears hconsistent (fun name => ?_) hadopted
        rw [hhear, if_neg]
        rintro ⟨rfl, hnone⟩
        cases hheld.symm.trans hnone
    · next hunknown =>
      have hother : playerName ≠ self.objectName := by
        rintro rfl
        exact absurd hown (AList.lookup_eq_none.mp hunknown)
      have hnew : playerName ∉ self.room.playerNames := fun hmember =>
        absurd (hconsistent playerName hmember) (AList.lookup_eq_none.mp hunknown)
      rw [if_neg hother] at hadopted
      simp only [Room.addPlayer_of_notMem hnew, Bool.not_true, Bool.false_eq_true, if_false]
      refine ⟨rfl, fun name hname => ?_, fun name hname => ?_, ?_, fun _ => by
        rw [hadopted]; rfl, Nat.zero_le _⟩
      · obtain rfl | hmember := (OrderedMap.mem_keys_insert hnew).mp hname
        · exact (AList.mem_insert _).mpr (.inl rfl)
        · exact (AList.mem_insert _).mpr (.inr (hconsistent name hmember))
      · rw [held_insert self.agents _ playerName name rfl, hhear]
        by_cases hname : name = playerName
        · subst hname
          rw [if_pos rfl, if_pos ⟨rfl, by rw [held, hunknown]; rfl⟩]
        · rw [if_neg hname, if_neg fun h => hname h.1.symm]
          rfl
      · rw [held_insert self.agents _ playerName _ rfl, if_neg (Ne.symm hother), hadopted]
        rfl

/-- A packet that is about something else. -/
theorem hear_of_ne {packet : Packet} (hchange : notifies packet ≠ .NotifyAgentStateChanged)
    (hadd : notifies packet ≠ .NotifyPlayerAdded) (name : String) (held : Option AgentState) :
    hear name held packet = held := by
  unfold hear
  split
  · next h => exact absurd h hchange
  · next h => exact absurd h hadd
  · rfl

theorem hears_notifyVersion {packet : Packet} (hid : notifies packet = .NotifyVersion)
    (hconsistent : self.Consistent) : Hears self packet (self.notifyVersion packet.value) := by
  have hadopted : adopted self.objectName packet = none := by
    rw [adopted, if_neg (by rw [hid]; decide)]
  have hhear := @hear_of_ne packet (by rw [hid]; decide) (by rw [hid]; decide)
  have hgreeted {result : ClientP × List ClientEffect} (hagents : result.1.agents = self.agents)
      (hroom : result.1.room = self.room) (hname : result.1.objectName = self.objectName)
      (hpackets : result.2.filterMap ClientEffect.packet = [self.signInPacket]) :
      Hears self packet result := by
    refine ⟨hname, fun name hmember => ?_, fun name _ => ?_, ?_, fun _ => ?_, ?_⟩
    · rw [hroom] at hmember
      rw [hagents]
      exact hconsistent name hmember
    · rw [hhear, held, hagents]
      rfl
    · rw [hadopted, held, hagents]
      rfl
    · rw [hpackets, hadopted]
      rfl
    · rw [hpackets, if_pos hid]
      exact Nat.le_refl 1
  unfold notifyVersion
  dsimp only
  split
  · exact (keeps_one rfl).toLeaves.hears hconsistent (fun _ => hhear _ _) hadopted
  · split
    · refine hears_of_silent rfl rfl rfl ?_ hconsistent (fun _ => hhear _ _) hadopted
      unfold disconnectFromHost
      dsimp only
      split <;> rfl
    · split <;> exact hgreeted rfl rfl rfl rfl

theorem hears_notifyReceived {packet : Packet} (htype : packet.type = .TypeNotify)
    (h : self.notifyReceived packet.value packet.notifyId = .ok (self', effects))
    (hsocket : self.socket.isSome = true) (hconsistent : self.Consistent)
    (hown : self.objectName ∈ self.agents) (hkept : notifies packet ≠ .NotifyPlayerRemoved) :
    Hears self packet (self', effects) := by
  have hnotifies : notifies packet = packet.notifyId := if_pos htype
  have hof {result : ClientP × List ClientEffect} (hhears : Hears self packet result)
      (h : Except.ok result = (Except.ok (self', effects) : Except Logic.Fault _)) :
      Hears self packet (self', effects) := by
    rwa [← Except.ok.inj h]
  cases hid : packet.notifyId with
  | NotifyPlayerRemoved => exact absurd (hnotifies.trans hid) hkept
  | NotifyVersion =>
    rw [hid] at h
    exact hof (hears_notifyVersion (hnotifies.trans hid) hconsistent) h
  | NotifyAgentStateChanged =>
    rw [hid] at h
    exact hof (hears_notifyAgentStateChanged (hnotifies.trans hid) hconsistent) h
  | NotifyPlayerAdded =>
    rw [hid] at h
    exact hof (hears_notifyPlayerAdded (hnotifies.trans hid) hconsistent hown hsocket) h
  | _ =>
    have hchange : notifies packet ≠ .NotifyAgentStateChanged := by rw [hnotifies, hid]; decide
    have hadd : notifies packet ≠ .NotifyPlayerAdded := by rw [hnotifies, hid]; decide
    exact (leaves_notifyReceived h (by rw [hid]; decide)).hears hconsistent
      (fun _ => hear_of_ne hchange hadd _ _) (if_neg hadd)

/-- The rule of every packet, for a client that has a socket and its own agent. -/
theorem hears_socketPacketReceived {packet : Packet}
    (h : self.socketPacketReceived packet = .ok (self', effects))
    (hsocket : self.socket.isSome = true) (hconsistent : self.Consistent)
    (hown : self.objectName ∈ self.agents) (hkept : notifies packet ≠ .NotifyPlayerRemoved) :
    Hears self packet (self', effects) := by
  have hquiet {result : ClientP × List ClientEffect} (hagents : result.1.agents = self.agents)
      (hnames : result.1.room.playerNames = self.room.playerNames)
      (hobjectName : result.1.objectName = self.objectName)
      (hsilent : result.2.filterMap ClientEffect.packet = [])
      (htype : packet.type ≠ .TypeNotify) : Hears self packet result := by
    have hnotifies : notifies packet = .NotifyInvalid := if_neg htype
    exact hears_of_silent hagents hnames hobjectName hsilent hconsistent
      (fun _ => hear_of_ne (by rw [hnotifies]; decide) (by rw [hnotifies]; decide) _ _)
      (by rw [adopted, if_neg (by rw [hnotifies]; decide)])
  unfold socketPacketReceived at h
  rw [if_neg (by simpa using Option.ne_none_iff_isSome.mpr hsocket)] at h
  split at h
  · next htype =>
    have hrequest := @keeps_requestReceived self packet.requestId packet.value
    rw [Except.ok.inj h] at hrequest
    exact hquiet hrequest.agents hrequest.playerNames hrequest.objectName hrequest.silent
      (by rw [htype]; decide)
  · next htype => exact hears_notifyReceived htype h hsocket hconsistent hown hkept
  · next hrequest htype =>
    have hfailed := keeps_failed h
    exact hquiet hfailed.agents hfailed.playerNames hfailed.objectName hfailed.silent htype

end ClientP

end QMdmmNetworking
