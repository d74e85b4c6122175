import QMdmm.Core.ActionFrame
import QMdmm.Core.SameOutcome
import QMdmm.Networking.Converge
import QMdmm.Networking.RoundTrip

namespace QMdmmCore

open Data

/-- A room under some rules of players that have just been added to it. -/
structure Room.Unplayed (conf : LogicConfiguration) (names : List String) (room : Room) : Prop where
  logicConfiguration : room.logicConfiguration = conf
  playerNames : ∀ name, name ∈ room.playerNames ↔ name ∈ names
  players : ∀ p ∈ room.players.toList, p = .new conf p.objectName

namespace Room.Unplayed

variable {conf : LogicConfiguration} {names names' : List String} {room room' : Room}

theorem perm (h : room.Unplayed conf names) (hperm : names.Perm names') :
    room.Unplayed conf names' :=
  ⟨h.logicConfiguration, fun name => (h.playerNames name).trans hperm.mem_iff, h.players⟩

/-- There is one such room. -/
theorem eq (h : room.Unplayed conf names) (h' : room'.Unplayed conf names) : room = room' := by
  have hsubset {r r' : Room} (hr : r.Unplayed conf names) (hr' : r'.Unplayed conf names) (p : Player)
      (hp : p ∈ r.players.toList) : p ∈ r'.players.toList := by
    have hname := (hr'.playerNames _).mpr ((hr.playerNames _).mp (List.mem_map_of_mem hp))
    obtain ⟨q, hq, heq⟩ := List.mem_map.mp hname
    have hsame : q = p := by rw [hr'.players q hq, hr.players p hp, heq]
    exact hsame ▸ hq
  have hperm : room.players.toList.Perm room'.players.toList :=
    (List.perm_ext_iff_of_nodup room.players.nodup_keys.of_map room'.players.nodup_keys.of_map).mpr
      fun p => ⟨hsubset h h' p, hsubset h' h p⟩
  have hlist := hperm.eq_of_pairwise (fun p q _ _ hlt hgt => absurd hlt (lt_asymm hgt))
    room.players.sorted room'.players.sorted
  have hplayers : room.players = room'.players := OrderedMap.ext hlist
  calc room = ⟨room.players, room.logicConfiguration⟩ := rfl
    _ = ⟨room'.players, room'.logicConfiguration⟩ := by
      rw [hplayers, h.logicConfiguration, h'.logicConfiguration]

theorem new (conf : LogicConfiguration) : (Room.new conf).Unplayed conf [] :=
  ⟨rfl, fun _ => Iff.rfl, fun _ hp => absurd hp List.not_mem_nil⟩

theorem addPlayer (h : room.Unplayed conf names) {name : String} (habsent : name ∉ names) :
    (room.addPlayer name).1 = true ∧ (room.addPlayer name).2.Unplayed conf (name :: names) := by
  have habsent' : name ∉ room.playerNames := fun hmember => habsent ((h.playerNames name).mp hmember)
  rw [Room.addPlayer_of_notMem habsent']
  refine ⟨rfl, h.logicConfiguration, fun other => ?_, fun p hp => ?_⟩
  · exact (OrderedMap.mem_keys_insert habsent').trans
      ((or_congr_right (h.playerNames other)).trans List.mem_cons.symm)
  · rw [h.logicConfiguration] at hp
    rcases (OrderedMap.mem_insert habsent').mp hp with rfl | hp
    · rfl
    · exact h.players p hp

theorem removePlayer (h : room.Unplayed conf names) {name : String} (hmember : name ∈ names) :
    (room.removePlayer name).1 = true ∧
      (room.removePlayer name).2.Unplayed conf (names.filter (· ≠ name)) := by
  rw [Room.removePlayer_of_mem ((h.playerNames name).mpr hmember)]
  refine ⟨rfl, h.logicConfiguration, fun other => ?_, fun p hp => ?_⟩
  · rw [List.mem_filter, decide_eq_true_eq, and_comm]
    exact OrderedMap.mem_keys_erase.trans (and_congr_right fun _ => h.playerNames other)
  · exact h.players p (List.mem_filter.mp hp).1

/-- The server resets what has not been upgraded yet. -/
theorem resetUpgrades_eq (h : room.Unplayed conf names) : room.resetUpgrades = room := by
  have hplayers : room.resetUpgrades.players = room.players := by
    apply OrderedMap.ext
    refine (List.map_congr_left fun p hp => ?_).trans (List.map_id _)
    rw [h.players p hp, h.logicConfiguration]
    rfl
  calc room.resetUpgrades = ⟨room.resetUpgrades.players, room.logicConfiguration⟩ := rfl
    _ = room := by rw [hplayers]

end Room.Unplayed

end QMdmmCore

namespace QMdmmNetworking

open QMdmmCore Data Protocol Logic

namespace ClientP

/-- The client carries an action out as the logic does. -/
theorem applyAction_of_performAction {d d' : LogicP} {playerName toPlayer : String} {action : Action}
    {toPlace : Int} {ok : Bool}
    (hperform : d.performAction playerName action toPlayer toPlace = .ok (ok, d')) :
    applyAction d.room playerName action toPlayer toPlace = .ok (ok, d'.room) := by
  have hderef (name : String) : deref d.room name = d.deref name := rfl
  obtain ⟨source, hsource, hperform⟩ := Except.bind_eq_ok.mp hperform
  cases action with
  | DoNothing | BuyKnife | BuyHorse | Move =>
    cases hperform
    rw [applyAction, hderef, hsource]
    rfl
  | Slash | Kick | LetMove =>
    obtain ⟨target, htarget, hperform⟩ := Except.bind_eq_ok.mp hperform
    cases hperform
    rw [applyAction, hderef, hsource]
    simp only [hderef, htarget]
    rfl

theorem upgradeItems_of_upgradePlayer {conf : LogicConfiguration} {up up' : Player}
    {items : List UpgradeItem} (hupgrade : LogicP.upgradePlayer conf up items = .ok up') :
    upgradeItems conf up items = (true, up') := by
  induction items generalizing up with
  | nil =>
    cases hupgrade
    rfl
  | cons item rest ih =>
    rcases hitem : up.upgrade conf item with ⟨ok, upgraded⟩
    rw [LogicP.upgradePlayer, hitem] at hupgrade
    cases ok with
    | true => simp only [upgradeItems, hitem, ih hupgrade, Bool.and_self]
    | false => cases hupgrade

/-- Upgrades that the logic gets through, the client gets through as well. -/
theorem applyUpgrade_of_performUpgrades {room room' : Room}
    {entries : List (Sigma fun _ : String => List UpgradeItem)}
    (hroom : LogicP.performUpgrades room entries = .ok room') :
    applyUpgrade room entries = .ok (true, room') := by
  induction entries generalizing room with
  | nil =>
    cases hroom
    rfl
  | cons entry rest ih =>
    obtain ⟨name, items⟩ := entry
    rw [LogicP.performUpgrades] at hroom
    split at hroom
    · cases hroom
    · next up hup =>
      obtain ⟨upgraded, hupgrade, hroom⟩ := Except.bind_eq_ok.mp hroom
      simp only [applyUpgrade, hup, upgradeItems_of_upgradePlayer hupgrade, ih hroom]
      rfl

/-- What the mirror of a client rests on is as it was. -/
structure SameMirror (client client' : ClientP) : Prop where
  objectName : client'.objectName = client.objectName
  socket : client'.socket = client.socket
  agents : client'.agents = client.agents
  room : client'.room = client.room

theorem SameMirror.refl (client : ClientP) : client.SameMirror client := ⟨rfl, rfl, rfl, rfl⟩

theorem SameMirror.trans {client client' client'' : ClientP} (h : client.SameMirror client')
    (h' : client'.SameMirror client'') : client.SameMirror client'' where
  objectName := h'.objectName.trans h.objectName
  socket := h'.socket.trans h.socket
  agents := h'.agents.trans h.agents
  room := h'.room.trans h.room

/-- A packet leaves the mirror of a client alone, whatever else comes of it. -/
def Ignores (client : ClientP) (packet : Packet) : Prop :=
  ∃ client' effects, client.socketPacketReceived packet = .ok (client', effects) ∧
    client.SameMirror client'

theorem ignores_notify {client : ClientP} {notifyId : NotifyId} {value : QJsonValue}
    {received : ClientP × List ClientEffect}
    (hreceived : client.notifyReceived value notifyId = .ok received)
    (hkeeps : client.Keeps received) : client.Ignores (.ofNotify notifyId value) := by
  unfold Ignores socketPacketReceived
  split
  · exact ⟨client, [], rfl, .refl client⟩
  · exact ⟨received.1, received.2, hreceived,
      hkeeps.objectName, hkeeps.socket, hkeeps.agents, hkeeps.room⟩

end ClientP

/-- What the server has judged before it reports it. -/
def Notification.judged : Notification → Bool
  | .action _ _ _ _ | .upgrade _ => true
  | _ => false

/-- What is reported without an effect on the mirror. -/
def Notification.quiet : Notification → Bool
  | .gameStart | .rockPaperScissors _ | .actionOrder _ | .roundOver | .gameOver _ => true
  | _ => false

def ClientEffect.isError : ClientEffect → Bool
  | .setError => true
  | _ => false

/-- A client, and the connection that its notifications come through. -/
structure Mirror where
  conn : ServerConnectionP
  client : ClientP
  /-- Whether the client has turned down something that the server has judged. -/
  refused : Bool

namespace Mirror

/-- A fault ends the client, which is no way of following the server either. -/
def receive (judged : Bool) (self : Mirror) (packet : Packet) : Mirror :=
  match self.client.socketPacketReceived packet with
  | .error _ => { self with refused := true }
  | .ok (client, effects) =>
    { self with client := client, refused := self.refused || judged && effects.any ClientEffect.isError }

def notify (self : Mirror) (n : Notification) : Mirror :=
  let result := self.conn.notify n
  (result.2.filterMap Effect.packet).foldl (receive n.judged) { self with conn := result.1 }

/-- A client that has just connected, and the connection of its new agent. -/
def new (agent : Agent) (logicConfiguration : LogicConfiguration) (requestTimeout : Int)
    (socket : Socket) : Mirror where
  conn := ((ServerConnectionP.new agent logicConfiguration requestTimeout).setSocket socket).1
  client := ((ClientP.new agent.objectName agent.screenName).connectToHost socket true agent.state).2
  refused := false

/-- A client whose agents are those of some names, connected to its seat among them. -/
structure Seated (conf : LogicConfiguration) (names : List String) (mirror : Mirror) : Prop where
  connected : mirror.conn.socket.isSome = true
  conf : mirror.conn.conf = conf
  socket : mirror.client.socket.isSome = true
  agents : mirror.client.agents.keys.Perm names
  own : mirror.client.objectName ∈ names
  follows : mirror.refused = false

/-- What every agent is told of one. -/
def playerAdd (agent : Agent) : Notification :=
  .playerAdd agent.objectName agent.screenName agent.state

variable {conf : LogicConfiguration} {names names' : List String} {mirror : Mirror}

theorem conn_notify (conn : ServerConnectionP) (n : Notification) :
    (conn.notify n).1.socket = conn.socket ∧ (conn.notify n).1.conf = conn.conf := by
  cases n <;> exact ⟨rfl, rfl⟩

/-- Nothing that the seat and the room of a client rest on has changed. -/
structure Stays (mirror mirror' : Mirror) : Prop where
  connected : mirror'.conn.socket = mirror.conn.socket
  conf : mirror'.conn.conf = mirror.conn.conf
  client : mirror.client.SameMirror mirror'.client
  refused : mirror'.refused = mirror.refused

theorem Stays.refl (mirror : Mirror) : mirror.Stays mirror := ⟨rfl, rfl, .refl _, rfl⟩

theorem Stays.trans {mirror' mirror'' : Mirror} (h : mirror.Stays mirror')
    (h' : mirror'.Stays mirror'') : mirror.Stays mirror'' where
  connected := h'.connected.trans h.connected
  conf := h'.conf.trans h.conf
  client := h.client.trans h'.client
  refused := h'.refused.trans h.refused

theorem stays_of_ignores {n : Notification} {packet : Packet} (hjudged : n.judged = false)
    (hsent : (mirror.conn.notify n).2 = mirror.conn.send packet)
    (hignores : mirror.client.Ignores packet) : mirror.Stays (mirror.notify n) := by
  obtain ⟨hsocket, hconf⟩ := conn_notify mirror.conn n
  obtain ⟨client, effects, hreceived, hsame⟩ := hignores
  by_cases hconnected : mirror.conn.socket.isSome = true
  · have hsend : mirror.conn.send packet = [.sendPacket packet] := if_pos hconnected
    simp only [notify, hsent, hsend, hjudged, List.filterMap_cons, Effect.packet,
      List.filterMap_nil, List.foldl_cons, List.foldl_nil, receive, hreceived, Bool.false_and,
      Bool.or_false]
    exact ⟨hsocket, hconf, hsame, rfl⟩
  · have hsend : mirror.conn.send packet = [] := if_neg hconnected
    simp only [notify, hsent, hsend, List.filterMap_nil, List.foldl_nil]
    exact ⟨hsocket, hconf, .refl _, rfl⟩

theorem stays_of_quiet {n : Notification} (hquiet : n.quiet = true) :
    mirror.Stays (mirror.notify n) := by
  cases n with
  | gameStart | roundOver =>
    exact stays_of_ignores rfl rfl (ClientP.ignores_notify rfl (ClientP.keeps_one rfl))
  | rockPaperScissors replies =>
    exact stays_of_ignores rfl rfl
      (ClientP.ignores_notify rfl (ClientP.keeps_notifyRockPaperScissors _))
  | actionOrder result =>
    exact stays_of_ignores rfl rfl
      (ClientP.ignores_notify rfl (ClientP.keeps_notifyActionOrder _))
  | gameOver playerNames =>
    exact stays_of_ignores rfl rfl (ClientP.ignores_notify rfl (ClientP.keeps_notifyGameOver _))
  | _ => cases hquiet

namespace Seated

theorem stays (h : mirror.Seated conf names) {mirror' : Mirror} (hstays : mirror.Stays mirror') :
    mirror'.Seated conf names where
  connected := by
    rw [hstays.connected]
    exact h.connected
  conf := hstays.conf.trans h.conf
  socket := by
    rw [hstays.client.socket]
    exact h.socket
  agents := by
    rw [hstays.client.agents]
    exact h.agents
  own := by
    rw [hstays.client.objectName]
    exact h.own
  follows := hstays.refused.trans h.follows

theorem mem_agents (h : mirror.Seated conf names) {name : String} :
    name ∈ mirror.client.agents ↔ name ∈ names :=
  AList.mem_keys.symm.trans h.agents.mem_iff

theorem perm (h : mirror.Seated conf names) (hperm : names.Perm names') :
    mirror.Seated conf names' :=
  { h with agents := h.agents.trans hperm, own := hperm.mem_iff.mp h.own }

/-- A notification is one packet, and the client goes on from what it makes of it. -/
theorem notify_of_received (h : mirror.Seated conf names) {n : Notification} {packet : Packet}
    {client : ClientP} {effects : List ClientEffect}
    (hsent : (mirror.conn.notify n).2 = mirror.conn.send packet)
    (hreceived : mirror.client.socketPacketReceived packet = .ok (client, effects)) :
    mirror.notify n =
      ⟨(mirror.conn.notify n).1, client, n.judged && effects.any ClientEffect.isError⟩ := by
  have hsend : mirror.conn.send packet = [.sendPacket packet] := if_pos h.connected
  simp only [notify, hsent, hsend, List.filterMap_cons, Effect.packet, List.filterMap_nil,
    List.foldl_cons, List.foldl_nil, receive, hreceived, h.follows, Bool.false_or]

/-- The seat after a notification that the client has followed. -/
theorem notified (h : mirror.Seated conf names) (n : Notification) {client : ClientP}
    (hsocket : client.socket = mirror.client.socket) (hagents : client.agents.keys.Perm names')
    (hown : client.objectName ∈ names') :
    Seated conf names' ⟨(mirror.conn.notify n).1, client, false⟩ where
  connected := by
    rw [(conn_notify mirror.conn n).1]
    exact h.connected
  conf := (conn_notify mirror.conn n).2.trans h.conf
  socket := by
    rw [hsocket]
    exact h.socket
  agents := hagents
  own := hown
  follows := rfl

theorem logicConfiguration (h : mirror.Seated conf names) (hconf : conf.Accepted) :
    (mirror.notify .logicConfiguration).Seated conf names ∧
      (mirror.notify .logicConfiguration).client =
        { mirror.client with room := { mirror.client.room with logicConfiguration := conf } } := by
  have hreceived : mirror.client.socketPacketReceived
      (.ofNotify .NotifyLogicConfiguration (.object mirror.conn.conf.object)) =
      .ok ({ mirror.client with room := { mirror.client.room with logicConfiguration := conf } },
        [.notify .logicConfiguration]) := by
    rw [ClientP.socketPacketReceived_notify h.socket, ClientP.notifyReceived,
      ClientP.notifyLogicConfiguration, h.conf, hconf.deserialize_object]
  rw [h.notify_of_received rfl hreceived]
  exact ⟨h.notified _ rfl h.agents h.own, rfl⟩

/-- The client takes in an agent that is its own, or new to it. -/
theorem playerAdd_client (h : mirror.Seated conf names) {name : String} (screenName : String)
    (state : AgentState)
    (hadds : name = mirror.client.objectName ∧ name ∈ mirror.client.agents ∨
      name ∉ mirror.client.agents ∧ (mirror.client.room.addPlayer name).1 = true) :
    mirror.notify (.playerAdd name screenName state) =
      ⟨(mirror.conn.notify (.playerAdd name screenName state)).1,
        { mirror.client with
          room := (mirror.client.room.addPlayer name).2
          agents :=
            mirror.client.agents.insert name ⟨name, screenName, .ofInt (state.wire.toInt 0)⟩ },
        false⟩ := by
  obtain ⟨client, effects, hreceived, hclient⟩ : ∃ client effects,
      mirror.client.socketPacketReceived (.ofNotify .NotifyPlayerAdded (.object [
        ("playerName", .string name), ("screenName", .string screenName),
        ("agentState", state.wire)])) = .ok (client, effects) ∧
      client = { mirror.client with
        room := (mirror.client.room.addPlayer name).2
        agents := mirror.client.agents.insert name ⟨name, screenName, .ofInt (state.wire.toInt 0)⟩ } := by
    rw [ClientP.socketPacketReceived_notify h.socket, ClientP.notifyReceived,
      ClientP.notifyPlayerAdded]
    obtain ⟨hown, hmember⟩ | ⟨habsent, hadded⟩ := hadds
    · obtain ⟨agent, hagent⟩ := Option.isSome_iff_exists.mp (AList.lookup_isSome.mpr hmember)
      simp [QJsonValue.toObject, QJsonObject.value, QJsonValue.toQString, QJsonValue.isString,
        isDouble_wire, hagent, ← hown]
    · have hagent : mirror.client.agents.lookup name = none := AList.lookup_eq_none.mpr habsent
      simp [QJsonValue.toObject, QJsonObject.value, QJsonValue.toQString, QJsonValue.isString,
        isDouble_wire, hagent, hadded]
  subst hclient
  exact h.notify_of_received rfl hreceived

/-- The client is told of its own agent. -/
theorem playerAdd_own (h : mirror.Seated conf names) {name : String}
    (hown : name = mirror.client.objectName) (screenName : String) (state : AgentState) :
    (mirror.notify (.playerAdd name screenName state)).Seated conf names ∧
      (mirror.notify (.playerAdd name screenName state)).client.room =
        (mirror.client.room.addPlayer name).2 := by
  have hmember : name ∈ names := hown ▸ h.own
  rw [h.playerAdd_client screenName state (.inl ⟨hown, h.mem_agents.mpr hmember⟩)]
  refine ⟨h.notified _ rfl ?_ h.own, rfl⟩
  dsimp only
  rw [AList.keys_insert]
  exact (List.perm_cons_erase (h.agents.mem_iff.mpr hmember)).symm.trans h.agents

/-- The client is told of an agent that is new to it. -/
theorem playerAdd_other (h : mirror.Seated conf names) {name : String} (habsent : name ∉ names)
    (hadded : (mirror.client.room.addPlayer name).1 = true) (screenName : String)
    (state : AgentState) :
    (mirror.notify (.playerAdd name screenName state)).Seated conf (name :: names) ∧
      (mirror.notify (.playerAdd name screenName state)).client.room =
        (mirror.client.room.addPlayer name).2 := by
  have hagent : name ∉ mirror.client.agents := fun hmember => habsent (h.mem_agents.mp hmember)
  rw [h.playerAdd_client screenName state (.inr ⟨hagent, hadded⟩)]
  refine ⟨h.notified _ rfl ?_ (List.mem_cons_of_mem _ h.own), rfl⟩
  dsimp only
  rw [AList.keys_insert, List.erase_of_not_mem fun hmember => habsent (h.agents.mem_iff.mp hmember)]
  exact h.agents.cons name

/-- The client is told of the agents that were there before it. -/
theorem introduce (h : mirror.Seated conf names) (hroom : mirror.client.room.Unplayed conf names)
    (others : List Agent) (hnodup : (others.map Agent.objectName ++ names).Nodup) :
    ((others.map playerAdd).foldl Mirror.notify mirror).Seated conf
        (others.map Agent.objectName ++ names) ∧
      ((others.map playerAdd).foldl Mirror.notify mirror).client.room.Unplayed conf
        (others.map Agent.objectName ++ names) := by
  induction others generalizing mirror names with
  | nil => exact ⟨h, hroom⟩
  | cons agent rest ih =>
    have hperm : (rest.map Agent.objectName ++ agent.objectName :: names).Perm
        (agent.objectName :: rest.map Agent.objectName ++ names) := List.perm_middle
    have habsent : agent.objectName ∉ names := fun hmember =>
      (List.nodup_cons.mp hnodup).1 (List.mem_append_right _ hmember)
    obtain ⟨hadded, hunplayed⟩ := hroom.addPlayer habsent
    obtain ⟨hseated, hroom'⟩ := h.playerAdd_other habsent hadded agent.screenName agent.state
    obtain ⟨hseated', hunplayed'⟩ := ih hseated (hroom' ▸ hunplayed) (hperm.nodup_iff.mpr hnodup)
    exact ⟨hseated'.perm hperm, hunplayed'.perm hperm⟩

theorem playerRemove (h : mirror.Seated conf names) (hnodup : names.Nodup) {name : String}
    (hmember : name ∈ names) (hother : mirror.client.objectName ≠ name)
    (hremoved : (mirror.client.room.removePlayer name).1 = true) :
    (mirror.notify (.playerRemove name)).Seated conf (names.filter (· ≠ name)) ∧
      (mirror.notify (.playerRemove name)).client.room =
        (mirror.client.room.removePlayer name).2 := by
  have hcontains : mirror.client.agents.contains name = true :=
    decide_eq_true (h.mem_agents.mpr hmember)
  have hreceived : mirror.client.socketPacketReceived
      (.ofNotify .NotifyPlayerRemoved (.object [("playerName", .string name)])) =
      .ok ({ mirror.client with
        room := (mirror.client.room.removePlayer name).2
        agents := mirror.client.agents.erase name }, [.notify (.playerRemove name)]) := by
    rw [ClientP.socketPacketReceived_notify h.socket, ClientP.notifyReceived,
      ClientP.notifyPlayerRemoved]
    simp [QJsonValue.toObject, QJsonObject.value, QJsonValue.toQString, QJsonValue.isString,
      hcontains, hremoved]
  rw [h.notify_of_received rfl hreceived]
  refine ⟨h.notified _ rfl ?_ (List.mem_filter.mpr ⟨h.own, by simpa using hother⟩), rfl⟩
  dsimp only
  have hfilter : names.filter (· ≠ name) = names.erase name := by
    rw [hnodup.erase_eq_filter]
    exact List.filter_congr fun other _ => by simp [bne, Bool.beq_eq_decide_eq]
  rw [AList.keys_erase, hfilter]
  exact h.agents.erase name

theorem roundStart (h : mirror.Seated conf names) :
    (mirror.notify .roundStart).Seated conf names ∧
      (mirror.notify .roundStart).client.room = mirror.client.room.prepareForRoundStart := by
  have hreceived := ClientP.socketPacketReceived_notify h.socket .NotifyRoundStart .null
  rw [h.notify_of_received rfl hreceived]
  exact ⟨h.notified _ rfl h.agents h.own, rfl⟩

/-- An action that the logic has carried out. -/
theorem action (h : mirror.Seated conf names) {d d' : LogicP} (hroom : mirror.client.room = d.room)
    {playerName toPlayer : String} {action : Action} {toPlace : Int} (hplayer : playerName ∈ names)
    (htarget : action.hasTarget = true → toPlayer ∈ names)
    (hplace : action.hasPlace = true → FitsInt toPlace ∧ 0 ≤ toPlace ∧ toPlace ≤ names.length)
    (hperform : d.performAction playerName action toPlayer toPlace = .ok (true, d')) :
    (mirror.notify (.action playerName action toPlayer toPlace)).Seated conf names ∧
      (mirror.notify (.action playerName action toPlayer toPlace)).client.room = d'.room := by
  have happly := ClientP.applyAction_of_performAction hperform
  rw [← hroom] at happly
  have hcount : (mirror.client.agents.count : Int) = names.length := by
    rw [← h.agents.length_eq]
    exact congrArg Nat.cast (List.length_map _).symm
  rw [← hcount] at hplace
  have hreceived := (ClientP.socketPacketReceived_notify h.socket .NotifyAction _).trans
    (ClientP.notifyAction_eq (h.mem_agents.mpr hplayer) (fun hhas => h.mem_agents.mpr (htarget hhas))
      hplace happly)
  rw [h.notify_of_received rfl hreceived]
  exact ⟨h.notified _ rfl h.agents h.own, rfl⟩

/-- A doing nothing that fails. -/
theorem refuses (h : mirror.Seated conf names) {d d' : LogicP} (hroom : mirror.client.room = d.room)
    {playerName toPlayer : String} {toPlace : Int} (hplayer : playerName ∈ names)
    (hperform : d.performAction playerName .DoNothing toPlayer toPlace = .ok (false, d')) :
    (mirror.notify (.action playerName .DoNothing toPlayer toPlace)).refused = true := by
  have happly := ClientP.applyAction_of_performAction hperform
  rw [← hroom] at happly
  have hreceived := (ClientP.socketPacketReceived_notify h.socket .NotifyAction _).trans
    (ClientP.notifyAction_eq (h.mem_agents.mpr hplayer) (fun hhas => Bool.noConfusion hhas)
      (fun hhas => Bool.noConfusion hhas) happly)
  rw [h.notify_of_received rfl hreceived]
  rfl

/-- Upgrades that the logic has carried out. -/
theorem upgrade (h : mirror.Seated conf names) {room room' : Room}
    (hroom : mirror.client.room = room) {upgrades : QHash String (List UpgradeItem)}
    (hplayers : ∀ name ∈ upgrades, name ∈ names)
    (hperform : LogicP.performUpgrades room upgrades.entries = .ok room') :
    (mirror.notify (.upgrade upgrades)).Seated conf names ∧
      (mirror.notify (.upgrade upgrades)).client.room = room' := by
  obtain ⟨upgrades', hsame, hdecode⟩ := ClientP.decodeHash_ofHash decodeUpgradeItems_wire
    fun name hname => h.mem_agents.mpr (hplayers name hname)
  have hperform' : LogicP.performUpgrades mirror.client.room upgrades'.entries = .ok room' := by
    obtain ⟨_, hsecond, rfl⟩ :=
      (LogicP.performUpgrades_perm hsame upgrades.nodupKeys room).exists_ok hperform
    rwa [hroom]
  have hreceived := (ClientP.socketPacketReceived_notify h.socket .NotifyUpgrade (.object
      (ServerConnectionP.ofHash (fun items => .array (items.map UpgradeItem.wire)) upgrades))).trans
    (ClientP.notifyUpgrade_eq hdecode (ClientP.applyUpgrade_of_performUpgrades hperform'))
  rw [h.notify_of_received rfl hreceived]
  exact ⟨h.notified _ rfl h.agents h.own, rfl⟩

end Seated

theorem new_seated (agent : Agent) (conf : LogicConfiguration) (requestTimeout : Int)
    (socket : Socket) : (new agent conf requestTimeout socket).Seated conf [agent.objectName] where
  connected := rfl
  conf := rfl
  socket := rfl
  agents := .refl _
  own := List.mem_singleton_self _
  follows := rfl

/-- What a client is told when its agent joins, from the rules on. -/
theorem new_introduced (agent : Agent) {others : List Agent} (hconf : conf.Accepted)
    (hnodup : (others.map Agent.objectName ++ [agent.objectName]).Nodup) (requestTimeout : Int)
    (socket : Socket) :
    ((.logicConfiguration :: playerAdd agent :: others.map playerAdd).foldl Mirror.notify
        (new agent conf requestTimeout socket)).Seated conf
          (others.map Agent.objectName ++ [agent.objectName]) ∧
      ((.logicConfiguration :: playerAdd agent :: others.map playerAdd).foldl Mirror.notify
        (new agent conf requestTimeout socket)).client.room.Unplayed conf
          (others.map Agent.objectName ++ [agent.objectName]) := by
  have hnew := new_seated agent conf requestTimeout socket
  obtain ⟨hrules, hclient⟩ := hnew.logicConfiguration hconf
  have hroom : ((new agent conf requestTimeout socket).notify .logicConfiguration).client.room =
      Room.new conf := congrArg ClientP.room hclient
  have hname : agent.objectName =
      ((new agent conf requestTimeout socket).notify .logicConfiguration).client.objectName :=
    (congrArg ClientP.objectName hclient).symm
  obtain ⟨hown, hroom'⟩ := hrules.playerAdd_own hname agent.screenName agent.state
  have hunplayed := ((Room.Unplayed.new conf).addPlayer (List.not_mem_nil (a := agent.objectName))).2
  rw [hroom] at hroom'
  exact hown.introduce (hroom' ▸ hunplayed) others hnodup

/-- Rules under which one blow kills. -/
def frail : LogicConfiguration := ⟨[("initialMaxHp", .ofInt 1)]⟩

theorem accepted_frail : frail.Accepted := ⟨.object frail.object, by rfl⟩

def agentNamed (playerName : String) : Agent := ⟨playerName, playerName, StateMaskOnline⟩

end Mirror

end QMdmmNetworking
