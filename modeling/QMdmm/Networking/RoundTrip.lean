import QMdmm.Networking.Client
import QMdmm.Networking.ReplyFormat
import QMdmm.Support.HashOrder

namespace QMdmmNetworking

open QMdmmCore Data Protocol

/-- What a loop over a list reads is what the list was built from. -/
theorem mapM_map_of_inverse {α β : Type} {write : α → β} {read : β → Option α} {l : List α}
    (hinverse : ∀ a ∈ l, read (write a) = some a) : (l.map write).mapM read = some l := by
  induction l with
  | nil => rfl
  | cons a rest ih =>
    rw [List.map_cons, List.mapM_cons, hinverse a List.mem_cons_self,
      ih fun b hb => hinverse b (List.mem_cons_of_mem _ hb)]
    rfl

theorem decodeStrings_map (names : List String) :
    ClientP.decodeStrings (names.map .string) = some names :=
  mapM_map_of_inverse fun _ _ => rfl

theorem decodeInts_map {numbers : List Int} (hints : ∀ n ∈ numbers, FitsInt n) :
    ClientP.decodeInts (numbers.map .ofInt) = some numbers := by
  refine mapM_map_of_inverse fun n hn => ?_
  rw [if_pos (show (QJsonValue.ofInt n).isDouble = true from rfl), QJsonValue.toInt_ofInt (hints n hn)]

theorem decodeRockPaperScissors_wire (rps : RockPaperScissors) :
    ClientP.decodeRockPaperScissors rps.wire = some rps := by
  rw [ClientP.decodeRockPaperScissors, if_pos (by cases rps <;> rfl), rps.ofInt_wire]

theorem decodeUpgradeItems_wire (items : List UpgradeItem) :
    ClientP.decodeUpgradeItems (.array (items.map UpgradeItem.wire)) = some items := by
  refine mapM_map_of_inverse fun item _ => ?_
  rw [if_pos (by cases item <;> rfl), item.ofInt_wire]

theorem isDouble_wire (state : AgentState) : state.wire.isDouble = true := rfl

namespace Request

/-- The numbers of a request are ints. -/
def Ints : Request → Prop
  | .rockPaperScissors _ strivedOrder => FitsInt strivedOrder
  | .actionOrder remainedOrders maximumOrder selectionNum =>
    (∀ n ∈ remainedOrders, FitsInt n) ∧ FitsInt maximumOrder ∧ FitsInt selectionNum
  | .action currentOrder => FitsInt currentOrder
  | .upgrade remainingTimes => FitsInt remainingTimes

theorem Ints.fits {req : Request} (hints : req.Ints) : req.Fits := by
  cases req with
  | actionOrder remainedOrders maximumOrder selectionNum => exact hints.2.2
  | upgrade remainingTimes => exact hints
  | _ => trivial

theorem decodeRequest_payload {req : Request} (hints : req.Ints) :
    ClientP.decodeRequest req.payload req.requestId = some req := by
  cases req with
  | rockPaperScissors playerNames strivedOrder =>
    have hnames : ClientP.decodeRequest (payload (.rockPaperScissors playerNames strivedOrder))
        .RequestRockPaperScissors = (ClientP.decodeStrings (playerNames.map .string)).bind
          fun names => some (.rockPaperScissors names ((QJsonValue.ofInt strivedOrder).toInt 0)) :=
      rfl
    rw [requestId, hnames, decodeStrings_map, QJsonValue.toInt_ofInt hints]
    rfl
  | actionOrder remainedOrders maximumOrder selectionNum =>
    obtain ⟨horders, hmaximum, hselection⟩ := hints
    have hread : ClientP.decodeRequest
        (payload (.actionOrder remainedOrders maximumOrder selectionNum)) .RequestActionOrder =
        (ClientP.decodeInts (remainedOrders.map .ofInt)).bind fun orders =>
          some (.actionOrder orders ((QJsonValue.ofInt maximumOrder).toInt 0)
            ((QJsonValue.ofInt selectionNum).toInt 0)) := rfl
    rw [requestId, hread, decodeInts_map horders, QJsonValue.toInt_ofInt hmaximum,
      QJsonValue.toInt_ofInt hselection]
    rfl
  | action currentOrder =>
    have hread : ClientP.decodeRequest (payload (.action currentOrder)) .RequestAction =
        some (.action ((QJsonValue.ofInt currentOrder).toInt 0)) := rfl
    rw [requestId, hread, QJsonValue.toInt_ofInt hints]
  | upgrade remainingTimes =>
    have hread : ClientP.decodeRequest (payload (.upgrade remainingTimes)) .RequestUpgrade =
        some (.upgrade ((QJsonValue.ofInt remainingTimes).toInt 0)) := rfl
    rw [requestId, hread, QJsonValue.toInt_ofInt hints]

/-- The replies to a request that are in its bounds. -/
def Allows : Request → Reply → Prop
  | .rockPaperScissors _ _, .rockPaperScissors _ => True
  | .actionOrder _ _ selectionNum, .actionOrder order =>
    (∀ n ∈ order, FitsInt n) ∧ (order.length : Int) ≤ selectionNum
  | .action _, .action _ _ toPlace => FitsInt toPlace
  | .upgrade remainingTimes, .upgrade items => (items.length : Int) ≤ remainingTimes
  | _, _ => False

end Request

/-- The same reply, the fields its action does not use aside. -/
def Reply.used : Reply → Reply
  | .action act toPlayer toPlace =>
    .action act (if act.hasTarget then toPlayer else "") (if act.hasPlace then toPlace else 0)
  | reply => reply

/-- What a client puts into the packet of a reply. -/
def Reply.payload : Reply → QJsonValue
  | .rockPaperScissors rps => rps.wire
  | .actionOrder order => .array (order.map .ofInt)
  | .action act toPlayer toPlace => .object [
    ("action", act.wire), ("toPlayer", .string toPlayer), ("toPlace", .ofInt toPlace)]
  | .upgrade items => .array (items.map UpgradeItem.wire)

theorem Reply.payload_isNull (reply : Reply) : reply.payload.isNull = false := by
  cases reply with
  | rockPaperScissors rps => cases rps <;> rfl
  | _ => rfl

theorem Request.documents_payload {req : Request} {reply : Reply} (hallows : req.Allows reply) :
    req.Documents reply.payload reply.used := by
  cases req <;> cases reply <;> try exact hallows.elim
  · exact .rockPaperScissors _ _ _
  · exact .actionOrder _ _ _ _ hallows.1 hallows.2
  · next currentOrder act toPlayer toPlace =>
    refine .action currentOrder _ act _ _ rfl ?_ ?_
    · split
      · rfl
      · rfl
    · split
      · exact ⟨rfl, hallows⟩
      · rfl
  · exact .upgrade _ _ hallows

namespace ClientP

/-- The answer to the current request goes out with nothing but its own value. -/
theorem answer_current {client : ClientP} {req : Request} {reply : Reply}
    (hsocket : client.socket.isSome = true) (hcurrent : client.currentRequest = req.requestId)
    (hallows : req.Allows reply) :
    (client.answer reply).2 = [.sendPacket (ServerConnectionP.replyPacket req reply.payload)] := by
  have hsend (value : QJsonValue) : (client.sendReply req.requestId value).2 =
      [.sendPacket (ServerConnectionP.replyPacket req value)] := by
    rw [sendReply, if_pos ⟨hsocket, hcurrent⟩]
    rfl
  cases req <;> cases reply <;> first | exact hallows.elim | exact hsend _

theorem socketPacketReceived_request {client : ClientP} (hsocket : client.socket.isSome = true)
    {req : Request} (hints : req.Ints) :
    client.socketPacketReceived (.ofRequest .TypeRequest req.requestId req.payload) =
      .ok ({ client with currentRequest := req.requestId }, [.request req]) := by
  have hnone : ¬ client.socket.isNone = true := by simpa using Option.ne_none_iff_isSome.mpr hsocket
  rw [socketPacketReceived, if_neg hnone]
  have hreceived : client.requestReceived req.requestId req.payload =
      ({ client with currentRequest := req.requestId }, [.request req]) := by
    rw [requestReceived, Request.decodeRequest_payload hints]
  exact congrArg Except.ok hreceived

/-- The entries of a hash, as the members an object holds for them. -/
def members {α : Type} (wire : α → QJsonValue) (entries : List (Sigma fun _ : String => α)) :
    QJsonObject :=
  entries.map fun entry => (entry.1, wire entry.2)

theorem exists_insert_members {α : Type} (wire : α → QJsonValue)
    {entries : List (Sigma fun _ : String => α)} {name : String} (hfresh : name ∉ entries.keys)
    (v : α) : ∃ entries', entries'.Perm (⟨name, v⟩ :: entries) ∧
      QJsonObject.insert (members wire entries) name (wire v) = members wire entries' := by
  induction entries with
  | nil => exact ⟨_, .refl _, rfl⟩
  | cons entry rest ih =>
    obtain ⟨hne, hrest⟩ := not_or.mp (mt List.mem_cons.mpr hfresh)
    by_cases hbefore : name < entry.1
    · refine ⟨_, .refl _, ?_⟩
      rw [members, List.map_cons, QJsonObject.insert, if_neg (Ne.symm hne), if_pos hbefore]
      rfl
    · obtain ⟨entries', hperm, hinsert⟩ := ih hrest
      refine ⟨entry :: entries', (hperm.cons entry).trans (.swap _ _ _), ?_⟩
      rw [members, List.map_cons, QJsonObject.insert, if_neg (Ne.symm hne), if_neg hbefore]
      exact congrArg _ hinsert

/-- The object of a hash has a member for each entry, in the order of the names. -/
theorem exists_ofHash_members {α : Type} (wire : α → QJsonValue) (hash : QHash String α) :
    ∃ entries, entries.Perm hash.entries ∧
      ServerConnectionP.ofHash wire hash = members wire entries := by
  -- The loop, from the members that are there already on.
  suffices hloop : ∀ (rest done : List (Sigma fun _ : String => α)), (done ++ rest).NodupKeys →
      ∃ entries, entries.Perm (done ++ rest) ∧
        rest.foldl (fun ob entry => QJsonObject.insert ob entry.1 (wire entry.2))
          (members wire done) = members wire entries from
    hloop hash.entries [] hash.nodupKeys
  intro rest
  induction rest with
  | nil =>
    intro done _
    exact ⟨done, by rw [List.append_nil], rfl⟩
  | cons entry rest ih =>
    intro done hnodup
    have hmiddle := List.perm_nodupKeys (@List.perm_middle _ entry done rest)
    have hfresh : entry.1 ∉ done.keys := by
      have hcons := List.nodupKeys_cons.mp (hmiddle.mp hnodup)
      exact fun hmem => hcons.1 (by simpa [List.keys] using Or.inl hmem)
    obtain ⟨done', hperm, hinsert⟩ := exists_insert_members wire hfresh entry.2
    have hsame : (done' ++ rest).Perm (done ++ entry :: rest) :=
      (hperm.append_right rest).trans (.symm List.perm_middle)
    obtain ⟨entries, hentries, hfold⟩ := ih done' ((List.perm_nodupKeys hsame).mpr hnodup)
    refine ⟨entries, hentries.trans hsame, ?_⟩
    rw [List.foldl_cons, hinsert]
    exact hfold

/-- The loop over the members of an object, from what it has read on. -/
theorem foldlM_members {α : Type} {client : ClientP} {wire : α → QJsonValue}
    {decode : QJsonValue → Option α} (hinverse : ∀ v, decode (wire v) = some v)
    {entries : List (Sigma fun _ : String => α)} (hknown : ∀ entry ∈ entries, entry.1 ∈ client.agents)
    (hnodup : entries.NodupKeys) (read : QHash String α) (hfresh : ∀ entry ∈ entries, entry.1 ∉ read) :
    ∃ hash, hash.entries.Perm (read.entries ++ entries) ∧
      (members wire entries).foldlM (fun hash member =>
        if client.agents.contains member.1 then
          (decode member.2).map fun v => AList.insert member.1 v hash
        else none) read = some hash := by
  induction entries generalizing read with
  | nil => exact ⟨read, by rw [List.append_nil], rfl⟩
  | cons entry rest ih =>
    have hentry := hknown entry List.mem_cons_self
    have habsent := hfresh entry List.mem_cons_self
    obtain ⟨hnot, hrest⟩ := List.nodupKeys_cons.mp hnodup
    obtain ⟨hash, hperm, hfold⟩ := ih (fun e he => hknown e (List.mem_cons_of_mem _ he)) hrest
      (AList.insert entry.1 entry.2 read) fun e he hmem => by
        obtain heq | hmem := AList.mem_insert _ |>.mp hmem
        · exact hnot (heq ▸ List.mem_keys_of_mem he)
        · exact hfresh e (List.mem_cons_of_mem _ he) hmem
    refine ⟨hash, hperm.trans ?_, ?_⟩
    · rw [AList.entries_insert_of_notMem habsent]
      exact List.perm_middle.symm
    · have hcontains : client.agents.contains entry.1 = true := decide_eq_true hentry
      rw [members, List.map_cons, List.foldlM_cons]
      simp only [hcontains, if_true, hinverse, Option.map_some]
      exact hfold

/-- What a client reads from the object of a hash is the hash again. -/
theorem decodeHash_ofHash {α : Type} {client : ClientP} {wire : α → QJsonValue}
    {decode : QJsonValue → Option α} (hinverse : ∀ v, decode (wire v) = some v)
    {hash : QHash String α} (hknown : ∀ name ∈ hash, name ∈ client.agents) :
    ∃ hash', hash.Same hash' ∧
      client.decodeHash decode (ServerConnectionP.ofHash wire hash) = some hash' := by
  obtain ⟨entries, hperm, hmembers⟩ := exists_ofHash_members wire hash
  have hnames : ∀ entry ∈ entries, entry.1 ∈ client.agents := fun entry hentry =>
    hknown _ (List.mem_keys_of_mem (hperm.mem_iff.mp hentry))
  obtain ⟨hash', hread, hfold⟩ := foldlM_members hinverse hnames
    ((List.perm_nodupKeys hperm).mpr hash.nodupKeys) ∅ fun _ _ => AList.notMem_empty _
  exact ⟨hash', (hread.trans hperm).symm, by rw [decodeHash, hmembers]; exact hfold⟩

end ClientP

/-- The same notification, up to the order of a hash and the fields an action does
not use. -/
inductive Notification.Agrees : Notification → Notification → Prop where
  | refl (n : Notification) : Agrees n n
  | rockPaperScissors {replies replies' : QHash String RockPaperScissors}
      (hsame : replies.Same replies') :
    Agrees (.rockPaperScissors replies) (.rockPaperScissors replies')
  | action {playerName toPlayer toPlayer' : String} {action : Action} {toPlace toPlace' : Int}
      (htarget : action.hasTarget = true → toPlayer' = toPlayer)
      (hplace : action.hasPlace = true → toPlace' = toPlace) :
    Agrees (.action playerName action toPlayer toPlace) (.action playerName action toPlayer' toPlace')
  | upgrade {upgrades upgrades' : QHash String (List UpgradeItem)} (hsame : upgrades.Same upgrades') :
    Agrees (.upgrade upgrades) (.upgrade upgrades')

/-- The notification an effect passes on. -/
def ClientEffect.notified : ClientEffect → Option Notification
  | .notify n => some n
  | _ => none

namespace ClientP

/-- A player the client has an agent of and the mirror holds. -/
def HasPlayer (client : ClientP) (name : String) : Prop :=
  name ∈ client.agents ∧ (client.room.player name).isSome = true

/-- The contents of a notification are ones the client knows. What is said is left out:
it travels encoded from one client to the others. -/
def Knows (client : ClientP) (conf : LogicConfiguration) : Notification → Prop
  | .logicConfiguration => (LogicConfiguration.deserialize (.object conf.object)).isSome = true
  | .agentStateChange playerName _ => playerName ∈ client.agents ∧ playerName ≠ client.objectName
  | .playerAdd playerName _ _ =>
    playerName ∈ client.agents ∧ playerName = client.objectName ∨
      playerName ∉ client.agents ∧ (client.room.player playerName).isSome = false
  | .playerRemove playerName => client.HasPlayer playerName
  | .rockPaperScissors replies => ∀ name ∈ replies, name ∈ client.agents
  | .actionOrder result => ∀ name ∈ result, name ∈ client.agents
  | .action playerName action toPlayer toPlace =>
    client.HasPlayer playerName ∧ (action.hasTarget = true → client.HasPlayer toPlayer) ∧
      (action.hasPlace = true →
        FitsInt toPlace ∧ 0 ≤ toPlace ∧ toPlace ≤ client.agents.count)
  | .upgrade upgrades => ∀ name ∈ upgrades, client.HasPlayer name
  | .gameOver playerNames => ∀ name ∈ playerNames, name ∈ client.agents
  | .speak _ _ => False
  | .gameStart | .roundStart | .roundOver => True

/-- The mirror can carry out what is notified. -/
def Carries (client : ClientP) : Notification → Prop
  | .action playerName action toPlayer toPlace =>
    ∃ room, applyAction client.room playerName action toPlayer toPlace = .ok (true, room)
  | .upgrade upgrades => ∃ room, applyUpgrade client.room upgrades.entries = .ok (true, room)
  | _ => True

/-- A packet is received as one notification that agrees with `n`, and for an error
only where the mirror cannot carry it out. -/
def PassesOn (client : ClientP) (conf : LogicConfiguration) (packet : Packet) (n : Notification) :
    Prop :=
  ∃ client' effects n', client.socketPacketReceived packet = .ok (client', effects) ∧
    effects.filterMap ClientEffect.notified = [n'] ∧ n.Agrees n' ∧
    (ClientEffect.setError ∉ effects ↔ client.Carries n) ∧
    (n = .logicConfiguration → conf.SameMembers client'.room.logicConfiguration)

theorem socketPacketReceived_notify {client : ClientP} (hsocket : client.socket.isSome = true)
    (notifyId : NotifyId) (value : QJsonValue) :
    client.socketPacketReceived (.ofNotify notifyId value) =
      client.notifyReceived value notifyId := by
  have hnone : ¬ client.socket.isNone = true := by simpa using Option.ne_none_iff_isSome.mpr hsocket
  rw [socketPacketReceived, if_neg hnone]
  rfl

theorem upgradeItems_objectName (conf : LogicConfiguration) (up : Player) (items : List UpgradeItem) :
    (upgradeItems conf up items).2.objectName = up.objectName := by
  induction items generalizing up with
  | nil => rfl
  | cons item rest ih =>
    have hitem : (up.upgrade conf item).2.objectName = up.objectName := by
      cases item <;> simp only [Player.upgrade, Player.upgradeKnife, Player.upgradeHorse,
        Player.upgradeMaxHp] <;> split <;> rfl
    exact (ih _).trans hitem

/-- The players are upgraded each on its own, so the order of the hash does not
decide whether all of them are. -/
theorem exists_applyUpgrade {entries : List (Sigma fun _ : String => List UpgradeItem)}
    (hnodup : entries.NodupKeys) {room : Room}
    (hplayers : ∀ entry ∈ entries, (room.player entry.1).isSome = true) :
    ∃ ret room', applyUpgrade room entries = .ok (ret, room') ∧
      (ret = true ↔ ∀ entry ∈ entries, ∀ up, room.player entry.1 = some up →
        (upgradeItems room.logicConfiguration up entry.2).1 = true) := by
  induction entries generalizing room with
  | nil => exact ⟨true, room, rfl, by simp⟩
  | cons entry rest ih =>
    obtain ⟨name, items⟩ := entry
    obtain ⟨hnot, hrest⟩ := List.nodupKeys_cons.mp hnodup
    obtain ⟨up, hup⟩ := Option.isSome_iff_exists.mp (hplayers _ List.mem_cons_self)
    have hname : (upgradeItems room.logicConfiguration up items).2.objectName = name :=
      (upgradeItems_objectName _ _ _).trans (Room.player_eq_some.mp hup).2
    have hother : ∀ entry ∈ rest,
        (room.setPlayer (upgradeItems room.logicConfiguration up items).2).player entry.1 =
          room.player entry.1 := by
      intro entry hentry
      rw [Room.player_setPlayer, hname]
      refine if_neg fun heq : name = entry.1 => hnot ?_
      have hmem : entry.1 ∈ rest.keys := List.mem_keys_of_mem hentry
      rwa [← heq] at hmem
    obtain ⟨ret, room', happly, hret⟩ := ih hrest fun entry hentry => by
      rw [hother entry hentry]
      exact hplayers entry (List.mem_cons_of_mem _ hentry)
    refine ⟨(upgradeItems room.logicConfiguration up items).1 && ret, room', ?_, ?_⟩
    · simp only [applyUpgrade, hup, happly]
      rfl
    · rw [Bool.and_eq_true, hret, List.forall_mem_cons]
      refine and_congr ⟨fun h p hp => ?_, fun h => h up hup⟩ (forall₂_congr fun entry hentry => ?_)
      · cases hup.symm.trans hp
        exact h
      · rw [hother entry hentry, Room.setPlayer_logicConfiguration]

theorem carries_upgrade_iff {client : ClientP} {upgrades : QHash String (List UpgradeItem)}
    (hplayers : ∀ name ∈ upgrades, client.HasPlayer name) :
    client.Carries (.upgrade upgrades) ↔
      ∀ entry ∈ upgrades.entries, ∀ up, client.room.player entry.1 = some up →
        (upgradeItems client.room.logicConfiguration up entry.2).1 = true := by
  obtain ⟨ret, room, happly, hret⟩ := exists_applyUpgrade upgrades.nodupKeys fun entry hentry =>
    (hplayers _ (List.mem_keys_of_mem hentry)).2
  rw [← hret]
  constructor
  · rintro ⟨room', hcarries⟩
    cases happly.symm.trans hcarries
    rfl
  · rintro rfl
    exact ⟨room, happly⟩

/-- An action on players that the mirror holds finds them. -/
theorem exists_applyAction {room : Room} {playerName toPlayer : String} {action : Action}
    (toPlace : Int) (hsource : (room.player playerName).isSome = true)
    (htarget : action.hasTarget = true → (room.player toPlayer).isSome = true) :
    ∃ success room', applyAction room playerName action toPlayer toPlace = .ok (success, room') := by
  obtain ⟨source, hsource⟩ := Option.isSome_iff_exists.mp hsource
  have hderef : deref room playerName = .ok source := by rw [deref, hsource]
  by_cases hhas : action.hasTarget = true
  · obtain ⟨target, htarget⟩ := Option.isSome_iff_exists.mp (htarget hhas)
    have hderef' : deref room toPlayer = .ok target := by rw [deref, htarget]
    cases action <;> simp only [Action.hasTarget, Bool.false_eq_true] at hhas <;>
      exact ⟨_, _, by rw [applyAction, hderef]; simp only [hderef']; rfl⟩
  · cases action <;> simp only [Action.hasTarget, not_true_eq_false] at hhas <;>
      exact ⟨_, _, by rw [applyAction, hderef]; rfl⟩

/-- The fields that an action does not use are not looked at. -/
theorem applyAction_unused {room : Room} {playerName toPlayer toPlayer' : String} {action : Action}
    {toPlace toPlace' : Int} (htarget : action.hasTarget = true → toPlayer' = toPlayer)
    (hplace : action.hasPlace = true → toPlace' = toPlace) :
    applyAction room playerName action toPlayer' toPlace' =
      applyAction room playerName action toPlayer toPlace := by
  cases action with
  | Slash | Kick => rw [htarget rfl]; rfl
  | Move => rw [hplace rfl]; rfl
  | LetMove => rw [htarget rfl, hplace rfl]
  | _ => rfl

theorem passesOn_of_received {client : ClientP} {conf : LogicConfiguration} {packet : Packet}
    {n : Notification} {before : List ClientEffect}
    (hreceived : ∃ client',
      client.socketPacketReceived packet = .ok (client', before ++ [.notify n]) ∧
        (n = .logicConfiguration → conf.SameMembers client'.room.logicConfiguration))
    (hbefore : ∀ effect ∈ before, effect.notified = none ∧ effect ≠ .setError)
    (hcarries : client.Carries n) : client.PassesOn conf packet n := by
  obtain ⟨client', hreceived, hconf⟩ := hreceived
  refine ⟨client', _, n, hreceived, ?_, .refl n, iff_of_true ?_ hcarries, hconf⟩
  · rw [List.filterMap_append, List.filterMap_eq_nil_iff.mpr fun e he => (hbefore e he).1]
    rfl
  · rw [List.mem_append, List.mem_singleton, not_or]
    exact ⟨fun hmem => (hbefore _ hmem).2 rfl, ClientEffect.noConfusion⟩

/-- The one effect of a handler that has nothing else to do. -/
theorem passesOn_of_single {client : ClientP} {conf : LogicConfiguration} {packet : Packet}
    {n : Notification}
    (hreceived : ∃ client', client.socketPacketReceived packet = .ok (client', [.notify n]) ∧
      (n = .logicConfiguration → conf.SameMembers client'.room.logicConfiguration))
    (hcarries : client.Carries n) : client.PassesOn conf packet n :=
  passesOn_of_received (List.nil_append [ClientEffect.notify n] ▸ hreceived)
    (fun _ h => absurd h List.not_mem_nil) hcarries

theorem declare_quiet (client : ClientP) (before after : AgentState) :
    ∀ effect ∈ client.declare before after, effect.notified = none ∧ effect ≠ .setError := by
  intro effect heffect
  unfold declare at heffect
  split at heffect
  · obtain rfl := List.mem_singleton.mp heffect
    exact ⟨rfl, ClientEffect.noConfusion⟩
  · exact absurd heffect List.not_mem_nil

theorem notifyLogicConfiguration_sent {client : ClientP} {conf : LogicConfiguration}
    (hsocket : client.socket.isSome = true)
    (haccepted : (LogicConfiguration.deserialize (.object conf.object)).isSome = true) :
    client.PassesOn conf (.ofNotify .NotifyLogicConfiguration (.object conf.object))
      .logicConfiguration := by
  obtain ⟨conf', hconf⟩ := Option.isSome_iff_exists.mp haccepted
  have hreceived : client.socketPacketReceived
      (.ofNotify .NotifyLogicConfiguration (.object conf.object)) =
      .ok ({ client with room := { client.room with logicConfiguration := conf' } },
        [.notify .logicConfiguration]) := by
    rw [socketPacketReceived_notify hsocket, notifyReceived, notifyLogicConfiguration, hconf]
  exact passesOn_of_single
    ⟨_, hreceived, fun _ => LogicConfiguration.sameMembers_of_deserialize hconf⟩ trivial

theorem notifyAgentStateChanged_sent {client : ClientP} (conf : LogicConfiguration)
    (hsocket : client.socket.isSome = true) {playerName : String} (agentState : AgentState)
    (hmember : playerName ∈ client.agents) (hother : playerName ≠ client.objectName) :
    client.PassesOn conf (.ofNotify .NotifyAgentStateChanged (.object [
      ("playerName", .string playerName), ("agentState", agentState.wire)]))
      (.agentStateChange playerName agentState) := by
  obtain ⟨agent, hagent⟩ := Option.isSome_iff_exists.mp (AList.lookup_isSome.mpr hmember)
  refine passesOn_of_single ?_ trivial
  rw [socketPacketReceived_notify hsocket, notifyReceived, notifyAgentStateChanged]
  simp [QJsonValue.toObject, QJsonObject.value, QJsonValue.toQString, QJsonValue.isString,
    isDouble_wire, hagent, hother]

theorem notifyPlayerAdded_sent {client : ClientP} (conf : LogicConfiguration)
    (hsocket : client.socket.isSome = true) {playerName : String} (screenName : String)
    (agentState : AgentState)
    (hknown : client.Knows conf (.playerAdd playerName screenName agentState)) :
    client.PassesOn conf (.ofNotify .NotifyPlayerAdded (.object [
      ("playerName", .string playerName), ("screenName", .string screenName),
      ("agentState", agentState.wire)])) (.playerAdd playerName screenName agentState) := by
  obtain ⟨hmember, hself⟩ | ⟨hmember, hroom⟩ := hknown
  · obtain ⟨agent, hagent⟩ := Option.isSome_iff_exists.mp (AList.lookup_isSome.mpr hmember)
    refine passesOn_of_received ?_ (client.declare_quiet agent.state agentState) trivial
    rw [socketPacketReceived_notify hsocket, notifyReceived, notifyPlayerAdded]
    simp [QJsonValue.toObject, QJsonObject.value, QJsonValue.toQString, QJsonValue.isString,
      isDouble_wire, hagent, hself]
  · have hagent : client.agents.lookup playerName = none := AList.lookup_eq_none.mpr hmember
    refine passesOn_of_single ?_ trivial
    rw [socketPacketReceived_notify hsocket, notifyReceived, notifyPlayerAdded, Room.addPlayer]
    simp [QJsonValue.toObject, QJsonObject.value, QJsonValue.toQString, QJsonValue.isString,
      isDouble_wire, hagent, hroom]

theorem notifyPlayerRemoved_sent {client : ClientP} (conf : LogicConfiguration)
    (hsocket : client.socket.isSome = true) {playerName : String}
    (hplayer : client.HasPlayer playerName) :
    client.PassesOn conf (.ofNotify .NotifyPlayerRemoved (.object [
      ("playerName", .string playerName)])) (.playerRemove playerName) := by
  have hcontains : client.agents.contains playerName = true := decide_eq_true hplayer.1
  refine passesOn_of_single ?_ trivial
  rw [socketPacketReceived_notify hsocket, notifyReceived, notifyPlayerRemoved, Room.removePlayer]
  simp [QJsonValue.toObject, QJsonObject.value, QJsonValue.toQString, QJsonValue.isString,
    hcontains, hplayer.2]

theorem notifyRockPaperScissors_sent {client : ClientP} (conf : LogicConfiguration)
    (hsocket : client.socket.isSome = true) {replies : QHash String RockPaperScissors}
    (hknown : ∀ name ∈ replies, name ∈ client.agents) :
    client.PassesOn conf (.ofNotify .NotifyRockPaperScissors
      (.object (ServerConnectionP.ofHash RockPaperScissors.wire replies)))
      (.rockPaperScissors replies) := by
  obtain ⟨replies', hsame, hdecode⟩ := decodeHash_ofHash decodeRockPaperScissors_wire hknown
  refine ⟨client.countRoundEvent, [.notify (.rockPaperScissors replies')], _, ?_, rfl,
    .rockPaperScissors hsame, iff_of_true (by simp) trivial, Notification.noConfusion⟩
  rw [socketPacketReceived_notify hsocket, notifyReceived, notifyRockPaperScissors, hdecode]

theorem notifyActionOrder_sent {client : ClientP} (conf : LogicConfiguration)
    (hsocket : client.socket.isSome = true) {result : List String}
    (hknown : ∀ name ∈ result, name ∈ client.agents) :
    client.PassesOn conf (.ofNotify .NotifyActionOrder (.array (result.map .string)))
      (.actionOrder result) := by
  have hall : result.all client.agents.contains = true :=
    List.all_eq_true.mpr fun name hname => decide_eq_true (hknown name hname)
  refine passesOn_of_single ⟨client.countRoundEvent, ?_, Notification.noConfusion⟩ trivial
  rw [socketPacketReceived_notify hsocket, notifyReceived, notifyActionOrder, decodeStrings_map]
  simp only [hall, if_true]

/-- The members a packet has for an action are the ones it is read by. -/
theorem decodeAction_sent {client : ClientP} {playerName toPlayer : String} {action : Action}
    {toPlace : Int} (hplayer : playerName ∈ client.agents)
    (htarget : action.hasTarget = true → toPlayer ∈ client.agents)
    (hplace : action.hasPlace = true →
      FitsInt toPlace ∧ 0 ≤ toPlace ∧ toPlace ≤ client.agents.count) :
    client.decodeAction (.object (
      [("playerName", .string playerName), ("action", action.wire)] ++
      (if action.hasTarget then [("toPlayer", .string toPlayer)] else []) ++
      (if action.hasPlace then [("toPlace", .ofInt toPlace)] else []))) =
    some (playerName, action, if action.hasTarget then toPlayer else "",
      if action.hasPlace then toPlace else -1) := by
  have hcontains : client.agents.contains playerName = true := decide_eq_true hplayer
  have hdouble : action.wire.isDouble = true := by cases action <;> rfl
  have htarget' : action.hasTarget = true → client.agents.contains toPlayer = true :=
    fun hhas => decide_eq_true (htarget hhas)
  have hint : action.hasPlace = true → (QJsonValue.ofInt toPlace).toInt 0 = toPlace ∧
      ¬ toPlace < 0 ∧ ¬ toPlace > client.agents.count := fun hhas => by
    obtain ⟨hfits, hlo, hhi⟩ := hplace hhas
    exact ⟨QJsonValue.toInt_ofInt hfits 0, by omega, by omega⟩
  have hisDouble : (QJsonValue.ofInt toPlace).isDouble = true := rfl
  unfold decodeAction
  simp only [QJsonValue.toObject]
  by_cases hhas : action.hasTarget = true <;> by_cases hhas' : action.hasPlace = true
  · obtain ⟨hread, hlo, hhi⟩ := hint hhas'
    simp [QJsonObject.value, QJsonValue.toQString, QJsonValue.isString, hcontains, hdouble,
      action.ofInt_wire, hhas, hhas', htarget' hhas, hisDouble, hread]
    omega
  · simp [QJsonObject.value, QJsonValue.toQString, QJsonValue.isString, hcontains, hdouble,
      action.ofInt_wire, hhas, hhas', htarget' hhas]
  · obtain ⟨hread, hlo, hhi⟩ := hint hhas'
    simp [QJsonObject.value, QJsonValue.toQString, QJsonValue.isString, hcontains, hdouble,
      action.ofInt_wire, hhas, hhas', hisDouble, hread]
    omega
  · simp [QJsonObject.value, QJsonValue.toQString, QJsonValue.isString, hcontains, hdouble,
      action.ofInt_wire, hhas, hhas']

/-- The last step of a handler reports whether the mirror followed. -/
theorem passesOn_of_judged {client client' : ClientP} {conf : LogicConfiguration} {packet : Packet}
    {n n' : Notification} {success : Bool}
    (hreceived : client.socketPacketReceived packet =
      .ok (client', .notify n' :: if success then [] else [.setError]))
    (hagrees : n.Agrees n') (hcarries : success = true ↔ client.Carries n)
    (hn : n ≠ .logicConfiguration) : client.PassesOn conf packet n := by
  refine ⟨client', _, n', hreceived, ?_, hagrees, ?_, fun h => absurd h hn⟩
  · cases success <;> rfl
  · rw [← hcarries]
    cases success <;> simp

/-- What the handler of a reported action does, by what the mirror makes of the action. -/
theorem notifyAction_eq {client : ClientP} {playerName toPlayer : String} {action : Action}
    {toPlace : Int} {success : Bool} {room : Room} (hplayer : playerName ∈ client.agents)
    (htarget : action.hasTarget = true → toPlayer ∈ client.agents)
    (hplace : action.hasPlace = true →
      FitsInt toPlace ∧ 0 ≤ toPlace ∧ toPlace ≤ client.agents.count)
    (happly : applyAction client.room playerName action toPlayer toPlace = .ok (success, room)) :
    client.notifyAction (.object (
      [("playerName", .string playerName), ("action", action.wire)] ++
      (if action.hasTarget then [("toPlayer", .string toPlayer)] else []) ++
      (if action.hasPlace then [("toPlace", .ofInt toPlace)] else []))) =
      .ok ({ client.countRoundEvent with room := room },
        .notify (.action playerName action (if action.hasTarget then toPlayer else "")
          (if action.hasPlace then toPlace else -1)) :: if success then [] else [.setError]) := by
  have htarget' : action.hasTarget = true →
      (if action.hasTarget then toPlayer else "") = toPlayer := fun hhas => if_pos hhas
  have hplace' : action.hasPlace = true →
      (if action.hasPlace then toPlace else -1) = toPlace := fun hhas => if_pos hhas
  rw [notifyAction, client.decodeAction_sent hplayer htarget hplace]
  simp only [applyAction_unused htarget' hplace', happly]
  rfl

theorem notifyAction_sent {client : ClientP} (conf : LogicConfiguration)
    (hsocket : client.socket.isSome = true) {playerName toPlayer : String} {action : Action}
    {toPlace : Int} (hplayer : client.HasPlayer playerName)
    (htarget : action.hasTarget = true → client.HasPlayer toPlayer)
    (hplace : action.hasPlace = true →
      FitsInt toPlace ∧ 0 ≤ toPlace ∧ toPlace ≤ client.agents.count) :
    client.PassesOn conf (.ofNotify .NotifyAction (.object (
      [("playerName", .string playerName), ("action", action.wire)] ++
      (if action.hasTarget then [("toPlayer", .string toPlayer)] else []) ++
      (if action.hasPlace then [("toPlace", .ofInt toPlace)] else []))))
      (.action playerName action toPlayer toPlace) := by
  have htarget' : action.hasTarget = true →
      (if action.hasTarget then toPlayer else "") = toPlayer := fun hhas => if_pos hhas
  have hplace' : action.hasPlace = true →
      (if action.hasPlace then toPlace else -1) = toPlace := fun hhas => if_pos hhas
  obtain ⟨success, room, happly⟩ := exists_applyAction toPlace hplayer.2 fun hhas => (htarget hhas).2
  have hreceived := notifyAction_eq hplayer.1 (fun hhas => (htarget hhas).1) hplace happly
  refine passesOn_of_judged ((socketPacketReceived_notify hsocket _ _).trans hreceived)
    (.action htarget' hplace') ⟨?_, ?_⟩ Notification.noConfusion
  · rintro rfl
    exact ⟨room, happly⟩
  · rintro ⟨room', hcarries⟩
    cases happly.symm.trans hcarries
    rfl

theorem notifyUpgrade_eq {client : ClientP} {ob : QJsonObject}
    {upgrades : QHash String (List UpgradeItem)} {success : Bool} {room : Room}
    (hdecode : client.decodeHash decodeUpgradeItems ob = some upgrades)
    (happly : applyUpgrade client.room upgrades.entries = .ok (success, room)) :
    client.notifyUpgrade (.object ob) = .ok ({ client.countRoundEvent with room := room },
      .notify (.upgrade upgrades) :: if success then [] else [.setError]) := by
  simp only [notifyUpgrade, hdecode, happly]
  rfl

theorem notifyUpgrade_sent {client : ClientP} (conf : LogicConfiguration)
    (hsocket : client.socket.isSome = true) {upgrades : QHash String (List UpgradeItem)}
    (hknown : ∀ name ∈ upgrades, client.HasPlayer name) :
    client.PassesOn conf (.ofNotify .NotifyUpgrade (.object
      (ServerConnectionP.ofHash (fun items => .array (items.map UpgradeItem.wire)) upgrades)))
      (.upgrade upgrades) := by
  obtain ⟨upgrades', hsame, hdecode⟩ :=
    decodeHash_ofHash decodeUpgradeItems_wire fun name hname => (hknown name hname).1
  have hknown' : ∀ name ∈ upgrades', client.HasPlayer name := fun name hname =>
    hknown name (hsame.mem.mpr hname)
  obtain ⟨success, room, happly, -⟩ := exists_applyUpgrade upgrades'.nodupKeys fun entry hentry =>
    (hknown' _ (List.mem_keys_of_mem hentry)).2
  have hcarries : client.Carries (.upgrade upgrades) ↔ client.Carries (.upgrade upgrades') := by
    rw [carries_upgrade_iff hknown, carries_upgrade_iff hknown']
    exact forall_congr' fun entry => by rw [hsame.mem_iff]
  refine passesOn_of_judged
    ((socketPacketReceived_notify hsocket _ _).trans (notifyUpgrade_eq hdecode happly))
    (.upgrade hsame) (Iff.trans ⟨?_, ?_⟩ hcarries.symm) Notification.noConfusion
  · rintro rfl
    exact ⟨room, happly⟩
  · rintro ⟨room', hcarried⟩
    cases happly.symm.trans hcarried
    rfl

theorem notifyGameOver_sent {client : ClientP} (conf : LogicConfiguration)
    (hsocket : client.socket.isSome = true) {playerNames : List String}
    (hknown : ∀ name ∈ playerNames, name ∈ client.agents) :
    client.PassesOn conf (.ofNotify .NotifyGameOver (.array (playerNames.map .string)))
      (.gameOver playerNames) := by
  have hall : playerNames.filter client.agents.contains = playerNames :=
    List.filter_eq_self.mpr fun name hname => decide_eq_true (hknown name hname)
  have hquiet : ∀ effect ∈ [ClientEffect.letGo], effect.notified = none ∧ effect ≠ .setError := by
    intro effect heffect
    obtain rfl := List.mem_singleton.mp heffect
    exact ⟨rfl, ClientEffect.noConfusion⟩
  refine passesOn_of_received ⟨{ client with attached := false }, ?_, Notification.noConfusion⟩
    hquiet trivial
  rw [socketPacketReceived_notify hsocket, notifyReceived, notifyGameOver, decodeStrings_map]
  simp only [hall, hsocket, if_true]

/-- Whatever a connection notifies its client of, it is one packet, which the client
passes on if it knows what it is about. -/
theorem notify_sent {conn : ServerConnectionP} {client : ClientP}
    (hconn : conn.socket.isSome = true) (hclient : client.socket.isSome = true) {n : Notification}
    (hknows : client.Knows conn.conf n) :
    ∃ packet, (conn.notify n).2 = [.sendPacket packet] ∧ client.PassesOn conn.conf packet n := by
  have hsend (packet : Packet) : conn.send packet = [.sendPacket packet] := if_pos hconn
  have hblank (notifyId : NotifyId) (hreceived : ∃ client',
      client.notifyReceived .null notifyId = .ok (client', [.notify n])) (hn : n ≠ .logicConfiguration)
      (hcarries : client.Carries n) : client.PassesOn conn.conf (.ofNotify notifyId .null) n := by
    obtain ⟨client', hreceived⟩ := hreceived
    exact passesOn_of_single ⟨client',
      (socketPacketReceived_notify hclient _ _).trans hreceived, fun h => absurd h hn⟩ hcarries
  cases n with
  | logicConfiguration => exact ⟨_, hsend _, notifyLogicConfiguration_sent hclient hknows⟩
  | agentStateChange playerName agentState =>
    exact ⟨_, hsend _, notifyAgentStateChanged_sent _ hclient agentState hknows.1 hknows.2⟩
  | playerAdd playerName screenName agentState =>
    exact ⟨_, hsend _, notifyPlayerAdded_sent _ hclient screenName agentState hknows⟩
  | playerRemove playerName => exact ⟨_, hsend _, notifyPlayerRemoved_sent _ hclient hknows⟩
  | gameStart => exact ⟨_, hsend _, hblank _ ⟨_, rfl⟩ Notification.noConfusion trivial⟩
  | roundStart => exact ⟨_, hsend _, hblank _ ⟨_, rfl⟩ Notification.noConfusion trivial⟩
  | rockPaperScissors replies =>
    exact ⟨_, hsend _, notifyRockPaperScissors_sent _ hclient hknows⟩
  | actionOrder result => exact ⟨_, hsend _, notifyActionOrder_sent _ hclient hknows⟩
  | action playerName action toPlayer toPlace =>
    exact ⟨_, hsend _, notifyAction_sent _ hclient hknows.1 hknows.2.1 hknows.2.2⟩
  | roundOver => exact ⟨_, hsend _, hblank _ ⟨_, rfl⟩ Notification.noConfusion trivial⟩
  | upgrade upgrades => exact ⟨_, hsend _, notifyUpgrade_sent _ hclient hknows⟩
  | gameOver playerNames => exact ⟨_, hsend _, notifyGameOver_sent _ hclient hknows⟩
  | speak playerName content => exact hknows.elim

/-- Whatever a connection requests, it is one packet, from which the client takes the
request; and an answer in the bounds of the request comes back as it was given. -/
theorem request_sent {conn : ServerConnectionP} {client : ClientP}
    (hconn : conn.socket.isSome = true) (hclient : client.socket.isSome = true) {req : Request}
    (hints : req.Ints) :
    ∃ packet client', (conn.request req).2 = [.sendPacket packet] ∧
      client.socketPacketReceived packet = .ok (client', [.request req]) ∧
      ∀ reply, req.Allows reply → ∃ packet', (client'.answer reply).2 = [.sendPacket packet'] ∧
        ∀ random, ((conn.request req).1.packetReceived packet' random).2 = [.reply reply.used] := by
  have hsend : (conn.request req).2 =
      [.sendPacket (.ofRequest .TypeRequest req.requestId req.payload)] := by
    rw [ServerConnectionP.request_eq_addRequest, ServerConnectionP.addRequest, if_pos hconn]
  have hsocket : (conn.request req).1.socket.isSome = true := by
    rw [ServerConnectionP.request_eq_addRequest, ServerConnectionP.addRequest, if_pos hconn]
    exact hconn
  refine ⟨_, _, hsend, socketPacketReceived_request hclient hints, fun reply hallows =>
    ⟨_, answer_current hclient rfl hallows, fun random => ?_⟩⟩
  rw [ServerConnectionP.packetReceived_reply (conn.inFlight_request hints.fits) hsocket
    reply.payload_isNull, Request.decode_of_documents hints.fits (Request.documents_payload hallows)]

/-- What the send slots of a connection build, the handlers of its client take apart,
and the other way round. -/
theorem round_trip {conn : ServerConnectionP} {client : ClientP}
    (hconn : conn.socket.isSome = true) (hclient : client.socket.isSome = true) :
    (∀ req, req.Ints → ∃ packet client', (conn.request req).2 = [.sendPacket packet] ∧
      client.socketPacketReceived packet = .ok (client', [.request req]) ∧
      ∀ reply, req.Allows reply → ∃ packet', (client'.answer reply).2 = [.sendPacket packet'] ∧
        ∀ random, ((conn.request req).1.packetReceived packet' random).2 = [.reply reply.used]) ∧
    ∀ n, client.Knows conn.conf n →
      ∃ packet, (conn.notify n).2 = [.sendPacket packet] ∧ client.PassesOn conn.conf packet n :=
  ⟨fun _ hints => request_sent hconn hclient hints, fun _ hknows => notify_sent hconn hclient hknows⟩

/-- The connection of a player a, on some rules. -/
def seatOfA (conf : LogicConfiguration) : ServerConnectionP :=
  ((ServerConnectionP.new ⟨"a", "A", StateMaskOnline⟩ conf 20000).setSocket 0).1

/-- The client of a, in a room with b. -/
def clientOfA : ClientP :=
  { new "a" "A" with
    socket := some 0
    attached := true
    room := ((Room.new .defaults).addPlayer "a").2.addPlayer "b" |>.2
    agents := AList.insert "b" ⟨"b", "B", StateMaskOnline⟩ (new "a" "A").agents }

theorem round_trip_seatOfA :
    (∀ req, req.Ints → ∃ packet client', ((seatOfA .v1).request req).2 = [.sendPacket packet] ∧
      clientOfA.socketPacketReceived packet = .ok (client', [.request req]) ∧
      ∀ reply, req.Allows reply → ∃ packet', (client'.answer reply).2 = [.sendPacket packet'] ∧
        ∀ random,
          (((seatOfA .v1).request req).1.packetReceived packet' random).2 = [.reply reply.used]) ∧
    ∀ n, clientOfA.Knows (seatOfA .v1).conf n →
      ∃ packet, ((seatOfA .v1).notify n).2 = [.sendPacket packet] ∧
        clientOfA.PassesOn (seatOfA .v1).conf packet n :=
  round_trip rfl rfl

/-- The effects of a packet, where it is received at all. -/
def effectsOf (client : ClientP) (packet : Packet) : List ClientEffect :=
  ((client.socketPacketReceived packet).toOption.map (·.2)).getD []

theorem PassesOn.notified {client : ClientP} {conf : LogicConfiguration} {packet : Packet}
    {n : Notification} (hpasses : client.PassesOn conf packet n) :
    ((client.effectsOf packet).filterMap ClientEffect.notified).length = 1 := by
  obtain ⟨client', effects, n', hreceived, hnotified, -⟩ := hpasses
  rw [effectsOf, hreceived]
  exact congrArg List.length hnotified

/-- The rules of version 1, with more hit points to begin with than there may be. -/
def overfull : LogicConfiguration := ⟨("initialMaxHp", .ofInt 8) :: LogicConfiguration.v1.object⟩

/-- The own state is not adopted, a player that is there already is not added again,
rules that contradict themselves are turned down, an action that the mirror refuses is
an error, and so is a list of orders that is too long. -/
theorem round_trip_fails :
    (∀ packet, ((seatOfA .v1).notify (.agentStateChange "a" StateMaskBot)).2 =
      [.sendPacket packet] →
        ¬ clientOfA.PassesOn .v1 packet (.agentStateChange "a" StateMaskBot)) ∧
    (∀ packet, ((seatOfA .v1).notify (.playerAdd "b" "B" StateMaskBot)).2 = [.sendPacket packet] →
      ¬ clientOfA.PassesOn .v1 packet (.playerAdd "b" "B" StateMaskBot)) ∧
    (∀ packet, ((seatOfA overfull).notify .logicConfiguration).2 = [.sendPacket packet] →
      ¬ clientOfA.PassesOn overfull packet .logicConfiguration) ∧
    (∀ packet, ((seatOfA .v1).notify (.action "a" .Move "" 0)).2 = [.sendPacket packet] →
      ∃ n, clientOfA.effectsOf packet = [.notify n, .setError]) ∧
    ∀ random, (((seatOfA .v1).request (.actionOrder [1, 2] 2 1)).1.packetReceived
      (ServerConnectionP.replyPacket (.actionOrder [1, 2] 2 1) (Reply.actionOrder [1, 2]).payload)
      random).2 ≠ [.reply (.actionOrder [1, 2])] := by
  refine ⟨?_, ?_, ?_, ?_, ?_⟩
  · intro packet hsent hpasses
    cases hsent
    exact absurd hpasses.notified (by decide +kernel)
  · intro packet hsent hpasses
    cases hsent
    exact absurd hpasses.notified (by decide +kernel)
  · intro packet hsent hpasses
    cases hsent
    exact absurd hpasses.notified (by decide +kernel)
  · intro packet hsent
    cases hsent
    exact ⟨.action "a" .Move "" 0, by rfl⟩
  · intro random heffects
    exact absurd (congrArg List.length heffects) (by cases random <;> decide +kernel)

end ClientP

end QMdmmNetworking
