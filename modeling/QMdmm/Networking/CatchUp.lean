import QMdmm.Networking.Account
import QMdmm.Networking.AgentStates
import QMdmm.Networking.Mirror
import QMdmm.Networking.Replay

namespace QMdmmNetworking

open QMdmmCore Data Protocol
open Account (isRoundEvent isRoundStart isUpgrade)
open Mirror (agentNamed frail)

namespace Notification

/-- What happens before a round is over. -/
def inRound : Notification → Bool
  | .rockPaperScissors _ | .actionOrder _ | .action _ _ _ _ => true
  | _ => false

def isUpgrade : Notification → Bool
  | .upgrade _ => true
  | _ => false

def isRoundStart : Notification → Bool
  | .roundStart => true
  | _ => false

/-- A part of the game, of some players. -/
def isAbout (names : List String) : Notification → Bool
  | .gameStart | .roundStart | .roundOver => true
  | .rockPaperScissors replies => replies.keys.all names.contains
  | .actionOrder result => result.all names.contains
  | .action playerName act toPlayer _ =>
    names.contains playerName && (!act.hasTarget || names.contains toPlayer)
  | .upgrade upgrades => upgrades.keys.all names.contains
  | _ => false

/-- An action that goes to a place goes to one of the room. -/
def NamesPlace (names : List String) : Notification → Prop
  | .action _ act _ toPlace => act.hasPlace = true →
    FitsInt toPlace ∧ 0 ≤ toPlace ∧ toPlace ≤ names.length
  | _ => True

instance (names : List String) : (n : Notification) → Decidable (n.NamesPlace names)
  | .action _ act _ toPlace => inferInstanceAs (Decidable (act.hasPlace = true →
    (-2147483648 ≤ toPlace ∧ toPlace ≤ 2147483647) ∧ 0 ≤ toPlace ∧ toPlace ≤ names.length))
  | .logicConfiguration | .agentStateChange _ _ | .playerAdd _ _ _ | .playerRemove _ | .gameStart
  | .roundStart | .rockPaperScissors _ | .actionOrder _ | .roundOver | .upgrade _ | .gameOver _
  | .speak _ _ => inferInstanceAs (Decidable True)

end Notification

/-- What a connection broadcasts for a notification, whether or not a socket is bound. -/
def ServerConnectionP.broadcast (self : ServerConnectionP) (n : Notification) : List Packet :=
  (notify { self with socket := some 0 } n).2.filterMap Effect.packet

/-- A player of a full room: the connection of its agent, its client, and what has been
handed to the socket between the two and not been received. -/
structure CatchUp where
  conn : ServerConnectionP
  client : ClientP
  down : List Packet
  /-- The actions of the round are over, and its upgrades have not been made. -/
  roundIsOver : Bool
  /-- What has been broadcast, and what of it the client has passed on. -/
  sent : Account
  seen : Account

namespace CatchUp

inductive Event where
  | notify (n : Notification)
  | roundOver
  | upgradeResult (upgrades : QHash String (List UpgradeItem))
  /-- The client receives the next packet. -/
  | deliver
  /-- The server notices that the connection is gone, and what has not been received by
  now never is. -/
  | drop (random : RockPaperScissors)
  /-- The sign-in of a client that has got a new socket. -/
  | reconnect (socket : Socket)

def tell (self : CatchUp) (n : Notification) : CatchUp :=
  let result := self.conn.notify n
  { self with
    conn := result.1
    down := self.down ++ result.2.filterMap Effect.packet
    sent := self.sent.addAll (self.conn.broadcast n) }

/-- The player, from the last `addAgent` on. -/
def start (conn : ServerConnectionP) (client : ClientP) : CatchUp :=
  tell (tell ⟨conn, client, [], false, .new, .new⟩ .gameStart) .roundStart

def clearRoundEventLog (self : CatchUp) : CatchUp :=
  { self with conn := self.conn.clearRoundEventLog }

/-- `LogicRunnerP::roundOver`. -/
def roundOver (self : CatchUp) : CatchUp :=
  { self.clearRoundEventLog.tell .roundOver with roundIsOver := true }

/-- `LogicRunnerP::upgradeResult`, with nobody offline. -/
def upgradeResult (self : CatchUp) (upgrades : QHash String (List UpgradeItem)) : CatchUp :=
  { ((self.tell (.upgrade upgrades)).tell .roundStart).clearRoundEventLog with roundIsOver := false }

/-- What the client makes of a packet; a fault ends the run. -/
def receive (self : CatchUp) (packet : Packet) : Option CatchUp :=
  (self.client.socketPacketReceived packet).toOption.map fun result =>
    { self with
      client := result.1
      seen := if (result.2.filterMap ClientEffect.notified).isEmpty then self.seen
        else self.seen.add packet }

/-- While somebody is offline, the upgrades of a round end the game. -/
def handle (names : List String) (self : CatchUp) : Event → Option CatchUp
  | .notify n =>
    if n.inRound && n.isAbout names && !self.roundIsOver then some (self.tell n) else none
  | .roundOver => if self.roundIsOver then none else some self.roundOver
  | .upgradeResult upgrades =>
    if (Notification.upgrade upgrades).isAbout names && self.roundIsOver &&
        self.conn.socket.isSome then
      some (self.upgradeResult upgrades)
    else none
  | .deliver =>
    match self.down with
    | [] => none
    | packet :: rest => receive { self with down := rest } packet
  | .drop random =>
    if self.conn.socket.isSome then
      some { self with
        conn := (self.conn.onSocketDisconnected random).1
        client := self.client.handleSocketGone.1
        down := [] }
    else none
  | .reconnect socket =>
    if self.conn.socket.isNone then
      (self.conn.reconnect socket self.client.lastRoundEventSeq).toOption.map fun result =>
        { self with
          conn := result.1
          client := (self.client.connectSocket socket true).2
          down := result.2.filterMap Effect.packet }
    else none

end CatchUp

namespace ClientP

/-- A client that knows the players of its room, each with an agent and in the mirror. -/
structure Plays (names : List String) (client : ClientP) : Prop where
  socket : client.socket.isSome = true
  agents : client.agents.keys.Perm names
  players : ∀ name ∈ names, name ∈ client.room.playerNames

end ClientP

namespace CatchUp

/-- Any room of these players, from its first round on. -/
def system (names : List String) : TransitionSystem CatchUp Event where
  init self := ∃ conn client, conn.socket.isSome = true ∧ conn.roundEventLog = [] ∧
    client.Plays names ∧ client.lastRoundEventSeq = 0 ∧ self = start conn client
  step self event self' := self.handle names event = some self'

/-- The client has passed on the events of the server's round, in order, and all the
upgrades before it, once each. -/
def Exact (self : CatchUp) : Prop := self.seen.Agrees self.sent

/-- While connected, the client is up to date as soon as nothing is under way. -/
def CaughtUp (self : CatchUp) : Prop :=
  self.conn.socket.isSome = true → self.down = [] → self.Exact

/-- The client is in the round that the server is in; if the actions of it are over, the
client has received all of its events. -/
def InRound (self : CatchUp) : Prop :=
  self.seen.rounds = self.sent.rounds ∧
    (self.roundIsOver = true → self.client.lastRoundEventSeq = self.sent.events.length)

/-- No action is reported that goes outside of the room. -/
def Event.NamesPlace (names : List String) : Event → Prop
  | .notify n => n.NamesPlace names
  | _ => True

/-- A client comes back only in the round that it knows. -/
def InTime (self : CatchUp) : Event → Prop
  | .reconnect _ => self.InRound
  | _ => True

instance (names : List String) : (event : Event) → Decidable (event.NamesPlace names)
  | .notify n => inferInstanceAs (Decidable (n.NamesPlace names))
  | .roundOver | .upgradeResult _ | .deliver | .drop _ | .reconnect _ =>
    inferInstanceAs (Decidable True)

instance (self : CatchUp) : (event : Event) → Decidable (self.InTime event)
  | .reconnect _ => inferInstanceAs (Decidable (self.seen.rounds = self.sent.rounds ∧
    (self.roundIsOver = true → self.client.lastRoundEventSeq = self.sent.events.length)))
  | .notify _ | .roundOver | .upgradeResult _ | .deliver | .drop _ =>
    inferInstanceAs (Decidable True)

end CatchUp

namespace ClientP

variable {names : List String} {client client' : ClientP}

namespace Plays

theorem of_eq (h : client.Plays names) (hsocket : client'.socket = client.socket)
    (hagents : client'.agents = client.agents)
    (hplayers : client'.room.playerNames = client.room.playerNames) : client'.Plays names where
  socket := by
    rw [hsocket]
    exact h.socket
  agents := by
    rw [hagents]
    exact h.agents
  players := by
    rw [hplayers]
    exact h.players

theorem mem_agents (h : client.Plays names) {name : String} : name ∈ client.agents ↔ name ∈ names :=
  AList.mem_keys.symm.trans h.agents.mem_iff

theorem hasPlayer (h : client.Plays names) {name : String} (hname : name ∈ names) :
    client.HasPlayer name :=
  ⟨h.mem_agents.mpr hname, Room.player_isSome.mpr (h.players name hname)⟩

theorem count_agents (h : client.Plays names) : client.agents.count = names.length := by
  rw [← h.agents.length_eq]
  exact (List.length_map _).symm

end Plays

/-- A packet that a player's client can read: it is passed on, and counted as it has to be. -/
def Reads (names : List String) (packet : Packet) : Prop :=
  ∀ (client : ClientP) (account : Account), client.Plays names →
    client.lastRoundEventSeq = account.events.length →
    ∃ client' effects, client.socketPacketReceived packet = .ok (client', effects) ∧
      client'.Plays names ∧ effects.filterMap ClientEffect.notified ≠ [] ∧
      client'.lastRoundEventSeq = (account.add packet).events.length

theorem reads_roundStart : Reads names (.ofNotify .NotifyRoundStart .null) := by
  intro client account hplays _
  refine ⟨_, _, socketPacketReceived_notify hplays.socket _ _, ?_, by simp [ClientEffect.notified],
    rfl⟩
  exact hplays.of_eq rfl rfl (Room.prepareForRoundStart_playerNames _)

/-- A handler that only reports what it is told. -/
theorem reads_report {notifyId : NotifyId} {n : Notification}
    (hreport : ∀ client : ClientP,
      client.notifyReceived .null notifyId = .ok (client, [.notify n]))
    (hadd : ∀ account : Account,
      (account.add (.ofNotify notifyId .null)).events = account.events) :
    Reads names (.ofNotify notifyId .null) := by
  intro client account hplays hcount
  refine ⟨client, _, (socketPacketReceived_notify hplays.socket _ _).trans (hreport client), hplays,
    by simp [ClientEffect.notified], ?_⟩
  rw [hadd]
  exact hcount

/-- The counter after a round event. -/
theorem count_succ {account : Account} {packet : Packet}
    (hcount : client.lastRoundEventSeq = account.events.length)
    (hevents : (account.add packet).events = account.events ++ [packet]) :
    client.countRoundEvent.lastRoundEventSeq = (account.add packet).events.length := by
  rw [hevents, List.length_append, countRoundEvent]
  dsimp only
  rw [hcount]
  rfl

theorem reads_rockPaperScissors {replies : QHash String RockPaperScissors}
    (hnames : ∀ name ∈ replies, name ∈ names) :
    Reads names (.ofNotify .NotifyRockPaperScissors
      (.object (ServerConnectionP.ofHash RockPaperScissors.wire replies))) := by
  intro client account hplays hcount
  obtain ⟨replies', -, hdecode⟩ := decodeHash_ofHash decodeRockPaperScissors_wire
    fun name hname => hplays.mem_agents.mpr (hnames name hname)
  refine ⟨client.countRoundEvent, [.notify (.rockPaperScissors replies')], ?_,
    hplays.of_eq rfl rfl rfl, by simp [ClientEffect.notified], count_succ hcount rfl⟩
  rw [socketPacketReceived_notify hplays.socket, notifyReceived, notifyRockPaperScissors, hdecode]

theorem reads_actionOrder {result : List String} (hnames : ∀ name ∈ result, name ∈ names) :
    Reads names (.ofNotify .NotifyActionOrder (.array (result.map .string))) := by
  intro client account hplays hcount
  have hall : result.all client.agents.contains = true :=
    List.all_eq_true.mpr fun name hname =>
      decide_eq_true (hplays.mem_agents.mpr (hnames name hname))
  refine ⟨client.countRoundEvent, [.notify (.actionOrder result)], ?_, hplays.of_eq rfl rfl rfl,
    by simp [ClientEffect.notified], count_succ hcount rfl⟩
  rw [socketPacketReceived_notify hplays.socket, notifyReceived, notifyActionOrder,
    decodeStrings_map]
  simp only [hall, if_true]

theorem reads_action {playerName toPlayer : String} {action : Action} {toPlace : Int}
    (hplayer : playerName ∈ names) (htarget : action.hasTarget = true → toPlayer ∈ names)
    (hplace : action.hasPlace = true → FitsInt toPlace ∧ 0 ≤ toPlace ∧ toPlace ≤ names.length) :
    Reads names (.ofNotify .NotifyAction (.object (
      [("playerName", .string playerName), ("action", action.wire)] ++
      (if action.hasTarget then [("toPlayer", .string toPlayer)] else []) ++
      (if action.hasPlace then [("toPlace", .ofInt toPlace)] else [])))) := by
  intro client account hplays hcount
  obtain ⟨success, room, happly⟩ := exists_applyAction toPlace (hplays.hasPlayer hplayer).2
    fun hhas => (hplays.hasPlayer (htarget hhas)).2
  rw [← hplays.count_agents] at hplace
  refine ⟨_, _, (socketPacketReceived_notify hplays.socket _ _).trans
    (notifyAction_eq (hplays.mem_agents.mpr hplayer)
      (fun hhas => hplays.mem_agents.mpr (htarget hhas)) hplace happly), ?_, ?_, ?_⟩
  · exact hplays.of_eq rfl rfl (applyAction_playerNames happly)
  · simp [ClientEffect.notified]
  · exact count_succ hcount rfl

theorem reads_upgrade {upgrades : QHash String (List UpgradeItem)}
    (hnames : ∀ name ∈ upgrades, name ∈ names) :
    Reads names (.ofNotify .NotifyUpgrade (.object
      (ServerConnectionP.ofHash (fun items => .array (items.map UpgradeItem.wire)) upgrades))) := by
  intro client account hplays hcount
  obtain ⟨upgrades', hsame, hdecode⟩ := decodeHash_ofHash decodeUpgradeItems_wire
    fun name hname => hplays.mem_agents.mpr (hnames name hname)
  obtain ⟨success, room, happly, -⟩ := exists_applyUpgrade upgrades'.nodupKeys fun entry hentry =>
    (hplays.hasPlayer (hnames _ (hsame.mem.mpr (List.mem_keys_of_mem hentry)))).2
  refine ⟨_, _, (socketPacketReceived_notify hplays.socket _ _).trans
    (notifyUpgrade_eq hdecode happly), ?_, ?_, ?_⟩
  · exact hplays.of_eq rfl rfl (applyUpgrade_playerNames happly)
  · simp [ClientEffect.notified]
  · exact count_succ hcount rfl

end ClientP

/-- A part of the game is one packet, and is logged if it is a round event. -/
theorem ServerConnectionP.notify_spec {names : List String} (conn : ServerConnectionP)
    {n : Notification} (habout : n.isAbout names = true) (hplace : n.NamesPlace names) :
    ∃ packet, conn.broadcast n = [packet] ∧
      conn.notify n = ({ conn with
        roundEventLog := conn.roundEventLog ++ [packet].filter isRoundEvent }, conn.send packet) ∧
      isRoundStart packet = n.isRoundStart ∧ isUpgrade packet = n.isUpgrade ∧
      ClientP.Reads names packet := by
  have hkeys {α : Type} {hash : QHash String α} (hall : hash.keys.all names.contains = true)
      (name : String) (hname : name ∈ hash) : name ∈ names := by
    simpa using List.all_eq_true.mp hall name (AList.mem_keys.mp hname)
  cases n with
  | gameStart =>
    refine ⟨_, rfl, ?_, rfl, rfl, ClientP.reads_report (fun _ => rfl) fun _ => rfl⟩
    exact congrArg (fun log => ({ conn with roundEventLog := log }, _)) (List.append_nil _).symm
  | roundStart =>
    refine ⟨_, rfl, ?_, rfl, rfl, ClientP.reads_roundStart⟩
    exact congrArg (fun log => ({ conn with roundEventLog := log }, _)) (List.append_nil _).symm
  | roundOver =>
    refine ⟨_, rfl, ?_, rfl, rfl, ClientP.reads_report (fun _ => rfl) fun _ => rfl⟩
    exact congrArg (fun log => ({ conn with roundEventLog := log }, _)) (List.append_nil _).symm
  | rockPaperScissors replies =>
    exact ⟨_, rfl, rfl, rfl, rfl, ClientP.reads_rockPaperScissors (hkeys habout)⟩
  | actionOrder result =>
    refine ⟨_, rfl, rfl, rfl, rfl, ClientP.reads_actionOrder fun name hname => ?_⟩
    simpa using List.all_eq_true.mp habout name hname
  | action playerName action toPlayer toPlace =>
    obtain ⟨hplayer, htarget⟩ := Bool.and_eq_true_iff.mp habout
    refine ⟨_, rfl, rfl, rfl, rfl, ClientP.reads_action (by simpa using hplayer) (fun hhas => ?_)
      hplace⟩
    simpa [hhas] using htarget
  | upgrade upgrades => exact ⟨_, rfl, rfl, rfl, rfl, ClientP.reads_upgrade (hkeys habout)⟩
  | _ => cases habout

namespace CatchUp

variable {names : List String} {s t : CatchUp}

/-- The server goes on to tell its client something, which is under way if the client is
there. -/
theorem tell_spec (s : CatchUp) {n : Notification} (habout : n.isAbout names = true)
    (hplace : n.NamesPlace names) :
    ∃ packet, s.tell n = { s with
        conn := { s.conn with
          roundEventLog := s.conn.roundEventLog ++ [packet].filter isRoundEvent }
        down := s.down ++ if s.conn.socket.isSome then [packet] else []
        sent := s.sent.add packet } ∧
      isRoundStart packet = n.isRoundStart ∧ isUpgrade packet = n.isUpgrade ∧
      ClientP.Reads names packet := by
  obtain ⟨packet, hbroadcast, hnotify, hspec⟩ := s.conn.notify_spec habout hplace
  refine ⟨packet, ?_, hspec⟩
  have hsend : (s.conn.send packet).filterMap Effect.packet =
      if s.conn.socket.isSome then [packet] else [] := by
    unfold ServerConnectionP.send
    split <;> rfl
  rw [tell, hnotify, hbroadcast]
  dsimp only
  rw [hsend]
  rfl

/-- The two parties and what is between them. -/
structure Joined (names : List String) (s : CatchUp) : Prop where
  plays : s.client.Plays names
  count : s.client.lastRoundEventSeq = s.seen.events.length
  offline : s.conn.socket.isSome = false → s.down = []
  reads : ∀ packet ∈ s.down ++ s.conn.roundEventLog, ClientP.Reads names packet
  seen : s.seen.Whole ∨ s.seen.Cut
  /-- What the client has not seen is what is under way, and what a drop has lost. -/
  missed : ∃ missed, s.seen.Flows missed ∧ s.seen.addAll missed = s.sent ∧
    (s.conn.socket.isSome = true → missed = s.down)

theorem Joined.tell (h : s.Joined names) {n : Notification} (habout : n.isAbout names = true)
    (hplace : n.NamesPlace names) (hupgrade : n.isUpgrade = true → s.sent.Whole)
    (hstart : n.isRoundStart = true → s.sent.Cut) : (s.tell n).Joined names := by
  obtain ⟨packet, htell, hisStart, hisUpgrade, hreads⟩ := s.tell_spec habout hplace
  obtain ⟨missed, hflows, hadd, hdown⟩ := h.missed
  rw [htell]
  refine ⟨h.plays, h.count, fun hoffline => ?_, fun other hother => ?_, h.seen, missed ++ [packet],
    Account.flows_append.mpr ⟨hflows, ?_⟩, ?_, fun honline => ?_⟩
  · dsimp only at hoffline ⊢
    rw [h.offline hoffline, hoffline]
    rfl
  · rcases List.mem_append.mp hother with hdown | hlog
    · rcases List.mem_append.mp hdown with hold | hnew
      · exact h.reads other (List.mem_append_left _ hold)
      · split at hnew
        · rw [List.mem_singleton.mp hnew]
          exact hreads
        · cases hnew
    · rcases List.mem_append.mp hlog with hold | hnew
      · exact h.reads other (List.mem_append_right _ hold)
      · rw [List.mem_singleton.mp (List.mem_of_mem_filter hnew)]
        exact hreads
  · rw [hadd]
    exact ⟨fun h => hupgrade (hisUpgrade ▸ h), fun h => hstart (hisStart ▸ h), trivial⟩
  · rw [Account.addAll_append, hadd]
    rfl
  · dsimp only at honline ⊢
    rw [hdown honline, if_pos honline]

theorem Joined.clearRoundEventLog (h : s.Joined names) : s.clearRoundEventLog.Joined names where
  plays := h.plays
  count := h.count
  offline := h.offline
  reads packet hpacket := by
    have hdown : packet ∈ s.down := by
      simpa [CatchUp.clearRoundEventLog, ServerConnectionP.clearRoundEventLog] using hpacket
    exact h.reads packet (List.mem_append_left _ hdown)
  seen := h.seen
  missed := h.missed

/-- The client can read what comes next, and it counts. -/
theorem deliver_spec (hplays : s.client.Plays names)
    (hcount : s.client.lastRoundEventSeq = s.seen.events.length) {packet : Packet}
    {rest : List Packet} (hdown : s.down = packet :: rest) (hreads : ClientP.Reads names packet) :
    ∃ client : ClientP, client.Plays names ∧
      client.lastRoundEventSeq = (s.seen.add packet).events.length ∧
      handle names s .deliver = some { s with
        client := client, down := rest, seen := s.seen.add packet } := by
  obtain ⟨client, effects, hreceived, hplays', hnotified, hcount'⟩ :=
    hreads s.client s.seen hplays hcount
  have hsome : (effects.filterMap ClientEffect.notified).isEmpty = false := by simpa using hnotified
  refine ⟨client, hplays', hcount', ?_⟩
  simp only [handle, hdown, receive, hreceived, Except.toOption, Option.map_some, hsome,
    Bool.false_eq_true, if_false]

/-- All that is under way arrives. -/
theorem deliver_all (hplays : s.client.Plays names)
    (hcount : s.client.lastRoundEventSeq = s.seen.events.length)
    (hreads : ∀ packet ∈ s.down, ClientP.Reads names packet) :
    ∃ client, (List.replicate s.down.length Event.deliver).foldlM (handle names) s =
      some { s with client := client, down := [], seen := s.seen.addAll s.down } := by
  generalize hdown : s.down = down at hreads ⊢
  induction down generalizing s with
  | nil =>
    cases s
    cases hdown
    exact ⟨_, rfl⟩
  | cons packet rest ih =>
    obtain ⟨hpacket, hrest⟩ := List.forall_mem_cons.mp hreads
    obtain ⟨client, hplays', hcount', hdeliver⟩ := deliver_spec hplays hcount hdown hpacket
    obtain ⟨client', hlast⟩ := ih (s := { s with
      client := client, down := rest, seen := s.seen.add packet }) hplays' hcount' rfl hrest
    refine ⟨client', ?_⟩
    rw [List.length_cons, List.replicate_succ, List.foldlM_cons, hdeliver]
    exact hlast

theorem Joined.deliver (h : s.Joined names) (hdeliver : handle names s .deliver = some t) :
    t.Joined names ∧ t.conn = s.conn ∧ t.roundIsOver = s.roundIsOver ∧ t.sent = s.sent := by
  cases hdown : s.down with
  | nil => simp [handle, hdown] at hdeliver
  | cons packet rest =>
    have hreads := h.reads packet (by rw [hdown]; exact List.mem_cons_self)
    obtain ⟨client, hplays, hcount, hhandle⟩ := deliver_spec h.plays h.count hdown hreads
    have honline : s.conn.socket.isSome = true := by
      by_contra hoffline
      rw [h.offline (Bool.eq_false_iff.mpr hoffline)] at hdown
      cases hdown
    obtain ⟨missed, hflows, hadd, hmissed⟩ := h.missed
    rw [hmissed honline, hdown] at hflows hadd
    cases hhandle.symm.trans hdeliver
    refine ⟨⟨hplays, hcount, fun hoffline => ?_, fun other hother => ?_,
      Account.whole_or_cut_add h.seen hflows.1 hflows.2.1, rest, hflows.2.2, hadd, fun _ => rfl⟩,
      rfl, rfl, rfl⟩
    · exact absurd (honline.symm.trans hoffline) Bool.noConfusion
    · refine h.reads other ?_
      rw [hdown]
      exact List.mem_cons_of_mem _ hother

theorem handleSocketGone_spec (client : ClientP) :
    client.handleSocketGone.1.socket = client.socket ∧
      client.handleSocketGone.1.agents = client.agents ∧
      client.handleSocketGone.1.room = client.room ∧
      client.handleSocketGone.1.lastRoundEventSeq = client.lastRoundEventSeq := by
  unfold ClientP.handleSocketGone ClientP.scheduleReconnect
  split
  · exact ⟨rfl, rfl, rfl, rfl⟩
  · dsimp only
    split <;> dsimp only <;> split <;> exact ⟨rfl, rfl, rfl, rfl⟩

theorem Joined.drop (h : s.Joined names) (random : RockPaperScissors) :
    Joined names { s with
      conn := (s.conn.onSocketDisconnected random).1
      client := s.client.handleSocketGone.1
      down := [] } := by
  obtain ⟨hsocket, hagents, hroom, hcount⟩ := handleSocketGone_spec s.client
  obtain ⟨missed, hflows, hadd, -⟩ := h.missed
  exact {
    plays := h.plays.of_eq hsocket hagents (congrArg Room.playerNames hroom)
    count := hcount.trans h.count
    offline _ := rfl
    reads packet hpacket := h.reads packet (List.mem_append_right _ hpacket)
    seen := h.seen
    missed := ⟨missed, hflows, hadd, fun honline => Bool.noConfusion honline⟩ }

/-- What every step keeps. -/
structure Inv (names : List String) (s : CatchUp) : Prop where
  joined : s.Joined names
  sent : s.sent.Whole
  log : s.conn.roundEventLog = if s.roundIsOver then [] else s.sent.events

/-- A reconnect replays the log from the counter of the client on. -/
theorem handle_reconnect (hcount : s.client.lastRoundEventSeq = s.seen.events.length)
    {socket : Socket} (hreconnect : handle names s (.reconnect socket) = some t) :
    s.conn.socket.isSome = false ∧ t = { s with
      conn := (s.conn.setSocket socket).1
      client := (s.client.connectSocket socket true).2
      down := s.conn.roundEventLog.drop s.seen.events.length } := by
  have hnonneg : 0 ≤ s.client.lastRoundEventSeq := by omega
  simp only [handle, s.conn.reconnect_of_nonneg socket hnonneg] at hreconnect
  split at hreconnect
  · next hnone =>
    have hsocket : s.conn.socket = none := by simpa using hnone
    cases hreconnect
    refine ⟨by rw [hsocket]; rfl, ?_⟩
    have hpackets (packets : List Packet) :
        (packets.map Effect.sendPacket).filterMap Effect.packet = packets := by
      rw [List.filterMap_map]
      exact List.filterMap_some
    rw [hcount, Int.toNat_natCast, hsocket, Option.toList_none, List.map_nil, List.nil_append]
    dsimp only
    rw [hpackets]
  · cases hreconnect

/-- The replay of a log holds nothing but events of the round. -/
theorem Inv.replay (h : s.Inv names) (seq : Nat) :
    (s.conn.roundEventLog.drop seq).countP isRoundStart = 0 ∧
      (s.conn.roundEventLog.drop seq).countP isUpgrade = 0 := by
  have hlog (packet : Packet) (hpacket : packet ∈ s.conn.roundEventLog.drop seq) :
      isRoundStart packet = false ∧ isUpgrade packet = false := by
    have hmember := List.mem_of_mem_drop hpacket
    rw [h.log] at hmember
    split at hmember
    · cases hmember
    · exact h.sent.events packet hmember
  constructor
  · exact List.countP_eq_zero.mpr fun packet hpacket => by simp [(hlog packet hpacket).1]
  · exact List.countP_eq_zero.mpr fun packet hpacket => by simp [(hlog packet hpacket).2]

/-- A client that comes back in time is sent just what it has missed. -/
theorem Inv.reconnect (h : s.Inv names) (hround : s.InRound) {socket : Socket}
    (hreconnect : handle names s (.reconnect socket) = some t) : t.Inv names := by
  obtain ⟨hoffline, rfl⟩ := handle_reconnect h.joined.count hreconnect
  obtain ⟨missed, -, hadd, -⟩ := h.joined.missed
  obtain ⟨hstart, hupgrade⟩ := Account.counts_of_rounds_eq h.joined.seen (hadd ▸ h.sent)
    (hadd ▸ hround.1)
  have hevents : s.seen.events ++ missed.filter isRoundEvent = s.sent.events := by
    rw [← Account.events_addAll hstart, hadd]
  have hdown : s.conn.roundEventLog.drop s.seen.events.length = missed.filter isRoundEvent := by
    rw [h.log]
    split
    · next hover =>
      have hlength := hround.2 hover
      rw [h.joined.count, ← hevents, List.length_append] at hlength
      have hnil := List.eq_nil_of_length_eq_zero (show (missed.filter isRoundEvent).length = 0 by omega)
      rw [hnil, List.drop_nil]
    · rw [← hevents, List.drop_left]
  obtain ⟨hstart', hupgrade'⟩ := h.replay s.seen.events.length
  refine ⟨⟨?_, h.joined.count, fun hnone => Bool.noConfusion hnone, fun packet hpacket => ?_,
    h.joined.seen, _, Account.flows_of_events hstart' hupgrade', ?_, fun _ => rfl⟩, h.sent, h.log⟩
  · exact { h.joined.plays with socket := rfl }
  · refine h.joined.reads packet (List.mem_append_right _ ?_)
    rcases List.mem_append.mp hpacket with hpacket | hpacket
    · exact List.mem_of_mem_drop hpacket
    · exact hpacket
  · dsimp only
    rw [hdown, Account.addAll_filter hstart, hadd]

/-- What has been broadcast goes on by one packet. -/
theorem tell_sent (s : CatchUp) (names : List String) {n : Notification} (habout : n.isAbout names = true)
    (hplace : n.NamesPlace names) :
    ∃ packet, (s.tell n).sent = s.sent.add packet ∧
      (s.tell n).conn.roundEventLog = s.conn.roundEventLog ++ [packet].filter isRoundEvent ∧
      isRoundStart packet = n.isRoundStart ∧ isUpgrade packet = n.isUpgrade := by
  obtain ⟨packet, htell, hstart, hupgrade, -⟩ := s.tell_spec habout hplace
  rw [htell]
  exact ⟨packet, rfl, rfl, hstart, hupgrade⟩

theorem start_inv {conn : ServerConnectionP} {client : ClientP} (hlog : conn.roundEventLog = [])
    (hplays : client.Plays names) (hcount : client.lastRoundEventSeq = 0) :
    (start conn client).Inv names := by
  have hnew : Joined names ⟨conn, client, [], false, .new, .new⟩ :=
    ⟨hplays, hcount, fun _ => rfl, fun packet hpacket => by simp [hlog] at hpacket,
      .inr Account.cut_new, [], trivial, rfl, fun _ => rfl⟩
  have hgame := hnew.tell (n := .gameStart) rfl trivial Bool.noConfusion Bool.noConfusion
  obtain ⟨first, hfirst, -, hnotStart, hnotUpgrade⟩ :=
    tell_sent ⟨conn, client, [], false, .new, .new⟩ names (n := .gameStart) rfl trivial
  have hcut : (tell ⟨conn, client, [], false, .new, .new⟩ .gameStart).sent.Cut := by
    rw [hfirst]
    exact Account.cut_new.add hnotStart hnotUpgrade
  obtain ⟨packet, hsent, hlog', hisStart, -⟩ := tell_sent
    (tell ⟨conn, client, [], false, .new, .new⟩ .gameStart) names (n := .roundStart) rfl trivial
  refine ⟨hgame.tell rfl trivial Bool.noConfusion fun _ => hcut, ?_, ?_⟩
  · rw [start, hsent]
    exact hcut.add_roundStart hisStart
  · rw [start, hsent, Account.events_add_roundStart hisStart]
    exact hlog

theorem Inv.notify (h : s.Inv names) {n : Notification} (hplace : n.NamesPlace names)
    (hnotify : handle names s (.notify n) = some t) : t.Inv names := by
  obtain ⟨hguard, hnotify⟩ := Option.ite_none_right_eq_some.mp hnotify
  cases hnotify
  obtain ⟨hboth, hover⟩ := Bool.and_eq_true_iff.mp hguard
  obtain ⟨hround, habout⟩ := Bool.and_eq_true_iff.mp hboth
  have hnotStart : n.isRoundStart = false := by cases n <;> first | rfl | cases hround
  have hnotUpgrade : n.isUpgrade = false := by cases n <;> first | rfl | cases hround
  obtain ⟨packet, hsent, hlog, hstart, hupgrade⟩ := s.tell_sent names habout hplace
  have hjoined := h.joined.tell habout hplace
    (fun hupgrade => absurd (hnotUpgrade.symm.trans hupgrade) Bool.noConfusion)
    fun hstart => absurd (hnotStart.symm.trans hstart) Bool.noConfusion
  have hnotOver : s.roundIsOver = false := by simpa using hover
  have hadded : (s.sent.addAll [packet]).events = s.sent.events ++ [packet].filter isRoundEvent :=
    Account.events_addAll (by simp [hstart.trans hnotStart])
  refine ⟨hjoined, ?_, ?_⟩
  · rw [hsent]
    exact h.sent.add (hstart.trans hnotStart) (hupgrade.trans hnotUpgrade)
  · rw [hlog, h.log, hsent]
    have hkept : (s.tell n).roundIsOver = false := hnotOver
    rw [hnotOver, hkept]
    exact hadded.symm

theorem Inv.roundOver (h : s.Inv names) : s.roundOver.Inv names := by
  have hjoined := h.joined.clearRoundEventLog.tell (n := .roundOver) rfl trivial Bool.noConfusion
    Bool.noConfusion
  obtain ⟨packet, hsent, -, hstart, hupgrade⟩ :=
    s.clearRoundEventLog.tell_sent names (n := .roundOver) rfl trivial
  refine ⟨⟨hjoined.plays, hjoined.count, hjoined.offline, hjoined.reads, hjoined.seen,
    hjoined.missed⟩, ?_, rfl⟩
  have hadd : s.roundOver.sent = s.sent.add packet := hsent
  rw [hadd]
  exact h.sent.add hstart hupgrade

/-- The upgrades of a round, and the start of the next. -/
theorem Inv.upgradeResult (h : s.Inv names) {upgrades : QHash String (List UpgradeItem)}
    (habout : (Notification.upgrade upgrades).isAbout names = true) :
    (s.upgradeResult upgrades).Inv names := by
  obtain ⟨packet, hsent, -, -, hupgrade⟩ := s.tell_sent names habout trivial
  have hcut : (s.tell (.upgrade upgrades)).sent.Cut := by
    rw [hsent]
    exact h.sent.add_upgrade hupgrade
  have hupgraded := h.joined.tell habout trivial (fun _ => h.sent) Bool.noConfusion
  have hjoined := (hupgraded.tell (n := .roundStart) rfl trivial Bool.noConfusion
    fun _ => hcut).clearRoundEventLog
  obtain ⟨packet', hsent', -, hstart, -⟩ := (s.tell (.upgrade upgrades)).tell_sent
    names (n := .roundStart) rfl trivial
  have hadd : (s.upgradeResult upgrades).sent = (s.tell (.upgrade upgrades)).sent.add packet' := hsent'
  refine ⟨⟨hjoined.plays, hjoined.count, hjoined.offline, hjoined.reads, hjoined.seen,
    hjoined.missed⟩, ?_, ?_⟩
  · rw [hadd]
    exact hcut.add_roundStart hstart
  · rw [hadd, Account.events_add_roundStart hstart]
    rfl

theorem inv_invariant : ((system names).guarded fun s event =>
    event.NamesPlace names ∧ s.InTime event).Invariant (Inv names) := by
  refine .guarded ?_ fun s event t hguard h hstep => ?_
  · rintro s ⟨conn, client, -, hlog, hplays, hcount, rfl⟩
    exact start_inv hlog hplays hcount
  · have hhandle : s.handle names event = some t := hstep
    cases event with
    | notify n => exact h.notify hguard.1 hhandle
    | roundOver =>
      rw [handle] at hhandle
      split at hhandle
      · cases hhandle
      · cases hhandle
        exact h.roundOver
    | upgradeResult upgrades =>
      obtain ⟨hcond, hhandle⟩ := Option.ite_none_right_eq_some.mp hhandle
      cases hhandle
      exact h.upgradeResult (Bool.and_eq_true_iff.mp (Bool.and_eq_true_iff.mp hcond).1).1
    | deliver =>
      obtain ⟨hjoined, hconn, hover, hsent⟩ := h.joined.deliver hhandle
      refine ⟨hjoined, ?_, ?_⟩
      · rw [hsent]
        exact h.sent
      · rw [hconn, hover, hsent]
        exact h.log
    | drop random =>
      obtain ⟨-, hhandle⟩ := Option.ite_none_right_eq_some.mp hhandle
      cases hhandle
      exact ⟨h.joined.drop random, h.sent, h.log⟩
    | reconnect socket => exact h.reconnect hguard.2 hhandle

theorem agrees_of_eq {seen sent : Account} (h : sent.Whole) (heq : seen = sent) :
    seen.Agrees sent := by
  have hrounds := h.rounds
  rw [heq]
  exact ⟨by omega, rfl, rfl⟩

theorem Inv.caughtUp (h : s.Inv names) : s.CaughtUp := by
  intro honline hdown
  obtain ⟨missed, -, hadd, hmissed⟩ := h.joined.missed
  rw [hmissed honline, hdown] at hadd
  exact agrees_of_eq h.sent hadd

/-- Where a client comes back too late, what it is sent does not bring it up to date. -/
theorem Inv.not_agrees (h : s.Inv names) (hround : ¬ s.InRound) :
    ¬ (s.seen.addAll (s.conn.roundEventLog.drop s.seen.events.length)).Agrees s.sent := by
  by_cases hrounds : s.seen.rounds = s.sent.rounds
  · intro hagrees
    refine hround ⟨hrounds, fun hover => ?_⟩
    -- The log has been cleared, so nothing is sent at all.
    have hlog : s.conn.roundEventLog = [] := h.log.trans (if_pos hover)
    rw [hlog, List.drop_nil] at hagrees
    rw [h.joined.count, ← hagrees.2.1]
    rfl
  · obtain ⟨hstart, hupgrade⟩ := h.replay s.seen.events.length
    exact Account.not_agrees_of_rounds_ne h.joined.seen h.sent hrounds hstart hupgrade

/-- If every reconnect is in time, a client is up to date whenever it is connected and
nothing is under way; and after a reconnect that is the first to be late, it is not. -/
theorem catches_up_iff_inRound (names : List String) :
    (∀ s, ((system names).guarded fun s event =>
      event.NamesPlace names ∧ s.InTime event).Reachable s → s.CaughtUp) ∧
    ∀ s socket t, ((system names).guarded fun s event =>
      event.NamesPlace names ∧ s.InTime event).Reachable s →
        (system names).step s (.reconnect socket) t →
        ∃ u, (system names).Run t (List.replicate t.down.length .deliver) u ∧ u.down = [] ∧
          (u.Exact ↔ s.InRound) := by
  refine ⟨fun s hreach => (inv_invariant.of_reachable hreach).caughtUp,
    fun s socket t hreach hstep => ?_⟩
  have hinv := inv_invariant.of_reachable hreach
  have hhandle : handle names s (.reconnect socket) = some t := hstep
  obtain ⟨-, ht⟩ := handle_reconnect hinv.joined.count hhandle
  have hplays : t.client.Plays names := by
    rw [ht]
    exact { hinv.joined.plays with socket := rfl }
  have hcount : t.client.lastRoundEventSeq = t.seen.events.length := by
    rw [ht]
    exact hinv.joined.count
  have hreads : ∀ packet ∈ t.down, ClientP.Reads names packet := by
    rw [ht]
    exact fun packet hpacket =>
      hinv.joined.reads packet (List.mem_append_right _ (List.mem_of_mem_drop hpacket))
  obtain ⟨client, hrun⟩ := deliver_all hplays hcount hreads
  refine ⟨_, .foldlM (fun _ _ _ h => h) hrun, rfl, fun hexact => ?_, fun hround => ?_⟩
  · by_contra hlate
    refine hinv.not_agrees hlate ?_
    rw [ht] at hexact
    exact hexact
  · have hback := hinv.reconnect hround hhandle
    obtain ⟨missed, -, hadd, hmissed⟩ := hback.joined.missed
    have honline : t.conn.socket.isSome = true := by
      rw [ht]
      rfl
    rw [hmissed honline] at hadd
    exact agrees_of_eq hback.sent hadd

/-- A client that has been told of everybody can play. -/
theorem plays_of_seated {mirror : Mirror} {conf : LogicConfiguration}
    (h : mirror.Seated conf names) (hroom : mirror.client.room.Unplayed conf names) :
    mirror.client.Plays names :=
  ⟨h.socket, h.agents, fun name hname => (hroom.playerNames name).mpr hname⟩

/-- The player A of a room for two. -/
def joined : Mirror :=
  (.logicConfiguration :: Mirror.playerAdd (agentNamed "A") ::
    [agentNamed "B"].map Mirror.playerAdd).foldl Mirror.notify
      (.new (agentNamed "A") frail 20000 0)

theorem init_joined : (system ["B", "A"]).init (start joined.conn joined.client) := by
  obtain ⟨hseated, hroom⟩ := Mirror.new_introduced (agentNamed "A")
    Mirror.accepted_frail (by decide : ([agentNamed "B"].map Agent.objectName ++ ["A"]).Nodup) 20000 0
  exact ⟨joined.conn, joined.client, hseated.connected, rfl, plays_of_seated hseated hroom, rfl, rfl⟩

/-- A wins the throw, and acts. -/
def turn (action : Action) (toPlayer : String) (toPlace : Int) : List Event :=
  [.notify (.rockPaperScissors (AList.insert "A" .Rock (AList.insert "B" .Scissors ∅))),
    .notify (.actionOrder ["A"]), .notify (.action "A" action toPlayer toPlace)]

/-- A client that has been gone for most of a turn catches up. -/
theorem catches_up_iff_inRound_joined : ∃ s, ((system ["B", "A"]).guarded fun s event =>
    event.NamesPlace ["B", "A"] ∧ s.InTime event).Reachable s ∧
      s.seen.events.length = 6 ∧ s.Exact := by
  have hrun : (([.deliver, .deliver] ++ turn .BuyKnife "" 0 ++ [.deliver, .drop .Rock] ++
      turn .Move "" 0 ++ [.reconnect 1] ++ List.replicate 5 .deliver : List Event).foldlM
        (fun s event =>
          if decide (event.NamesPlace ["B", "A"] ∧ s.InTime event) then
            handle ["B", "A"] s event
          else none) (start joined.conn joined.client)).any
      (fun s => s.conn.socket.isSome && s.down.isEmpty && s.seen.events.length == 6) = true := by
    decide +kernel
  obtain ⟨s, hreach, hend⟩ := TransitionSystem.exists_reachable_foldlM
    (fun _ _ _ hstep => hstep) init_joined hrun
  obtain ⟨hidle, hlength⟩ := Bool.and_eq_true_iff.mp hend
  obtain ⟨honline, hdown⟩ := Bool.and_eq_true_iff.mp hidle
  have hintime := hreach.guarded_mono fun _ _ => of_decide_eq_true
  exact ⟨s, hintime, by simpa using hlength,
    (catches_up_iff_inRound _).1 s hintime honline (by simpa using hdown)⟩

/-- A kills B, which ends the round. The client has received all of it when the connection
breaks down over the upgrades and the start of the next round. -/
def lateEvents : List Event :=
  [.deliver, .deliver] ++ turn .BuyKnife "" 0 ++ turn .Move "" 0 ++ turn .LetMove "B" 0 ++
    turn .Slash "B" 0 ++ [.roundOver] ++ List.replicate 13 .deliver ++
    [.upgradeResult (AList.insert "A" [.UpgradeKnife] ∅), .drop .Rock, .reconnect 1]

/-- The client is sent nothing when it comes back, and never learns of the upgrades. -/
theorem upgrade_never_replayed : ∃ s, ((system ["B", "A"]).guarded fun _ event =>
    event.NamesPlace ["B", "A"]).Reachable s ∧ ¬ s.CaughtUp := by
  have hrun : (lateEvents.foldlM (fun s event =>
      if decide (event.NamesPlace ["B", "A"]) then handle ["B", "A"] s event else none)
        (start joined.conn joined.client)).any
      (fun s => s.conn.socket.isSome && s.down.isEmpty &&
        s.seen.upgrades.length != s.sent.upgrades.length) = true := by
    decide +kernel
  obtain ⟨s, hreach, hend⟩ := TransitionSystem.exists_reachable_foldlM
    (fun _ _ _ hstep => hstep) init_joined hrun
  obtain ⟨hidle, hlength⟩ := Bool.and_eq_true_iff.mp hend
  obtain ⟨honline, hdown⟩ := Bool.and_eq_true_iff.mp hidle
  refine ⟨s, hreach.guarded_mono fun _ _ => of_decide_eq_true, fun hcaughtUp => ?_⟩
  obtain ⟨-, -, hupgrades⟩ := hcaughtUp honline (by simpa using hdown)
  rw [hupgrades] at hlength
  simp at hlength

end CatchUp

end QMdmmNetworking
