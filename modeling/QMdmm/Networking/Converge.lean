import QMdmm.Networking.Rebound
import QMdmm.Networking.ObservedClient

namespace QMdmmNetworking

open QMdmmCore Data Protocol

namespace Observed

section

variable {versionNumber : String} {self : Observed} {stale : List String}

theorem Inv.noted {self' : Observed} (h : self'.Inv stale) (event : Event)
    (hothers : self'.others = self.others) (hwired : self'.conn.wired = self.conn.wired) :
    self'.Inv (self.noteStale event self' stale) := by
  rwa [noteStale_of_same event hothers hwired]

/-- The server reads a packet. -/
theorem Inv.serverReads {self' : Observed} {socket : Socket} {random : RockPaperScissors}
    {order : List Agent} (h : self.Inv stale)
    (hstep : handle versionNumber self (.serverReads socket random order) = some self') :
    self'.Inv (self.noteStale (.serverReads socket random order) self' stale) := by
  simp only [handle] at hstep
  split at hstep
  · cases hstep
  · next sent hfind =>
    unfold serverReceives at hstep
    split at hstep
    · next hid =>
      have hquiet : declaredState sent.2 = none := if_neg fun hnot => by
        rw [hid] at hnot
        exact NotifyId.noConfusion hnot.1
      split at hstep
      · cases hstep
        exact (h.reads hfind (.inl hquiet)).noted _ rfl rfl
      · split at hstep
        · obtain ⟨hinv, hwired⟩ := h.signsIn hfind (decide_eq_true hid) hstep
          rwa [noteStale, if_neg hwired]
        · cases hstep
          exact (h.reads hfind (.inl hquiet)).noted _ rfl rfl
    · split at hstep
      · next hnone =>
        cases hstep
        exact (h.reads hfind (.inl hnone)).noted _ rfl rfl
      · next state hdeclared =>
        cases hstep
        split
        · next hsocket => exact (h.readsState hfind hdeclared hsocket).noted _ rfl rfl
        · next hsocket => exact (h.reads hfind (.inr hsocket)).noted _ rfl rfl
    · next hid =>
      have hquiet : declaredState sent.2 = none := if_neg fun hnot => hid hnot.1
      have hreads := h.reads hfind (.inl hquiet)
      cases hstep
      split
      · have hplays := playsOn_packetReceived self.conn sent.2 random
        exact (hreads.playsOn hplays).noted _ rfl hplays.wired
      · exact hreads.noted _ rfl rfl

theorem Inv.step {event : Event} {self' : Observed} (h : self.Inv stale)
    (hstep : handle versionNumber self event = some self') :
    self'.Inv (self.noteStale event self' stale) := by
  cases event with
  | changes playerName state =>
    cases hstep
    exact h.changes playerName state
  | drops playerName =>
    obtain ⟨state, -, hgoesOn⟩ := Option.bind_eq_some_iff.mp hstep
    obtain rfl := goesOn_eq_some hgoesOn
    exact h.changes playerName (state.setFlag StateMaskOnline false)
  | notify n =>
    obtain ⟨hn, hsome⟩ := Option.ite_none_left_eq_some.mp hstep
    cases hsome
    have hplays := playsOn_notify self.conn (Bool.not_eq_true _ ▸ hn)
    exact (h.playsOn hplays).noted _ rfl hplays.wired
  | request req =>
    cases hstep
    have hplays := playsOn_request self.conn req
    exact (h.playsOn hplays).noted _ rfl hplays.wired
  | serverReads socket random order => exact h.serverReads hstep
  | serverLost socket random =>
    obtain ⟨hinv, hothers, hwired⟩ := h.loses socket random hstep
    exact hinv.noted _ hothers hwired
  | clientReads =>
    simp only [handle] at hstep
    split at hstep
    · cases hstep
    · next packet rest hdown =>
      obtain ⟨result, hreads, rfl⟩ := Option.map_eq_some_iff.mp hstep
      exact (h.speaks (h.sound.speaks_clientReads hdown hreads)).noted _ rfl rfl
  | socketGone =>
    obtain ⟨result, hgone, rfl⟩ := Option.map_eq_some_iff.mp hstep
    obtain ⟨hattached, hsome⟩ := Option.ite_none_right_eq_some.mp hgone
    cases hsome
    obtain ⟨hresult, hdetached, hsocket⟩ :=
      reconnects_handleSocketGone (h.sound.attached hattached)
    exact (h.hangsUp hresult hdetached fun _ => hsocket.symm.trans).noted _ rfl rfl
  | socketDeleted =>
    obtain ⟨result, hdeleted, rfl⟩ := Option.map_eq_some_iff.mp hstep
    obtain ⟨hattached, hsome⟩ := Option.ite_none_left_eq_some.mp hdeleted
    cases hsome
    exact (h.hangsUp ⟨rfl, rfl, rfl, rfl⟩ (Bool.not_eq_true _ ▸ hattached)
      fun _ hnone => by cases hnone).noted _ rfl rfl
  | connectToHost known initialState =>
    cases hstep
    exact (h.connects known ⟨rfl, rfl, rfl, rfl⟩ rfl).noted _ rfl rfl
  | reconnectTimeout known =>
    obtain ⟨result, htimeout, rfl⟩ := Option.map_eq_some_iff.mp hstep
    obtain ⟨-, hsome⟩ := Option.ite_none_right_eq_some.mp htimeout
    cases hsome
    obtain ⟨hresult, hsocket⟩ := reconnects_reconnectTimeout self.client self.made known
    exact (h.connects known hresult hsocket).noted _ rfl rfl
  | disconnectFromHost =>
    cases hstep
    exact (h.hangsUp (reconnects_disconnectFromHost self.client) rfl fun _ => id).noted _ rfl rfl
  | setState state =>
    cases hstep
    exact (h.speaks (h.sound.speaks_setState state)).noted _ rfl rfl
  | answer reply =>
    cases hstep
    cases reply with
    | rockPaperScissors rps => exact (h.speaks (h.sound.speaks_sendReply _ _)).noted _ rfl rfl
    | actionOrder order => exact (h.speaks (h.sound.speaks_sendReply _ _)).noted _ rfl rfl
    | action act toPlayer toPlace => exact (h.speaks (h.sound.speaks_sendReply _ _)).noted _ rfl rfl
    | upgrade items => exact (h.speaks (h.sound.speaks_sendReply _ _)).noted _ rfl rfl
  | giveUp =>
    cases hstep
    exact (h.speaks h.sound.speaks_sendRequestGivenUp).noted _ rfl rfl
  | speak content =>
    cases hstep
    exact (h.speaks (h.sound.speaks_sendSpeak content)).noted _ rfl rfl
  | operate =>
    cases hstep
    exact (h.speaks h.sound.speaks_sendOperate).noted _ rfl rfl

/-- Neither a removal nor a greeting is on its way in a room that has just been filled. -/
theorem Filled.tidings {pending : List Agent} (h : self.Filled pending) : ∀ packet ∈ self.down,
    notifies packet ≠ .NotifyPlayerRemoved ∧ notifies packet ≠ .NotifyVersion := by
  obtain ⟨before, after, hgame, hdown⟩ := h.down
  intro packet hpacket
  rw [hdown] at hpacket
  obtain hpacket | hafter := List.mem_append.mp hpacket
  · obtain hbefore | hadded := List.mem_append.mp hpacket
    · exact (hgame packet (List.mem_append_left _ hbefore)).2.2
    · obtain ⟨agent, -, rfl⟩ := List.mem_map.mp hadded
      exact ⟨NotifyId.noConfusion, NotifyId.noConfusion⟩
  · exact (hgame packet (List.mem_append_right _ hafter)).2.2

theorem Filled.queueOf_up {pending : List Agent} (h : self.Filled pending) (socket : Socket) :
    queueOf self.up socket = [] := by
  rw [h.up]
  rfl

theorem Filled.sound {pending : List Agent} (h : self.Filled pending) : self.Sound := by
  obtain ⟨socket, hmade, hclient, hconn, hwired⟩ := h.socket
  refine ⟨h.names, h.objectName, h.own, h.consistent, fun _ => by rw [hclient]; rfl, ?_, ?_, ?_,
    fun sent hsent => ?_, fun packet hpacket => (h.tidings packet hpacket).1,
    fun packet hpacket => ?_,
    fun other _ _ => ⟨fun packet hpacket => (h.tidings packet hpacket).2, ?_⟩, ?_, ?_⟩
  · intro other hother
    rw [hwired, ← Option.some.inj (hconn.symm.trans hother)]
    exact List.mem_singleton_self _
  · intro other hother
    rw [hwired] at hother
    exact List.mem_singleton.mp hother ▸ hmade
  · intro other hother
    exact Option.some.inj (hclient.symm.trans hother) ▸ hmade
  · rw [h.up] at hsent
    exact absurd hsent List.not_mem_nil
  · rw [h.roundEventLog] at hpacket
    exact absurd hpacket List.not_mem_nil
  · rw [h.queueOf_up]
    rfl
  · intro other hother hnot
    rw [hwired, ← Option.some.inj (hclient.symm.trans hother)] at hnot
    exact absurd (List.mem_singleton_self _) hnot
  · intro other _ state hlast
    rw [h.queueOf_up] at hlast
    cases hlast

/-- Whoever the client is not yet told of is added in the state that it is in. -/
theorem Filled.follows {pending : List Agent} (h : self.Filled pending) (socket : Socket) :
    self.Follows [] socket := by
  obtain ⟨before, after, hgame, hdown⟩ := h.down
  have hbefore : ∀ packet ∈ before, OfGame packet := fun packet hpacket =>
    hgame packet (List.mem_append_left _ hpacket)
  have hafter : ∀ packet ∈ after, OfGame packet := fun packet hpacket =>
    hgame packet (List.mem_append_right _ hpacket)
  have hpending : (pending.map (·.objectName)).Nodup := h.names.sublist (h.sublist.map _)
  have hview (name : String) :
      self.view name = (pending.map addedPacket).foldl (hear name) (self.client.held name) := by
    rw [view, hdown, List.foldl_append, List.foldl_append, foldl_hear_ofGame hbefore,
      foldl_hear_ofGame hafter]
  have hadopted : self.down.filterMap (adopted self.client.objectName) =
      (pending.map addedPacket).filterMap (adopted self.client.objectName) := by
    rw [hdown, List.filterMap_append, List.filterMap_append, filterMap_adopted_ofGame hbefore,
      filterMap_adopted_ofGame hafter, List.append_nil, List.nil_append]
  have hfinal : self.finalState socket = self.conn.agent.state := by
    rw [finalState, h.queueOf_up]
    rfl
  refine ⟨?_, fun agent hagent _ => ?_, fun _ _ hmember => absurd hmember List.not_mem_nil⟩
  · rw [hfinal, hadopted, h.objectName]
    by_cases hmember : self.conn.agent ∈ pending
    · rw [filterMap_adopted_added hpending hmember]
      exact .inr rfl
    · exact .inl (h.known _ List.mem_cons_self hmember)
  · rw [hview]
    have hname : agent.objectName ≠ self.client.objectName := by
      rw [h.objectName]
      exact fun heq => (List.nodup_cons.mp h.names).1 (List.mem_map.mpr ⟨agent, hagent, heq⟩)
    by_cases hmember : agent ∈ pending
    · have hunknown : self.client.held agent.objectName = none := by
        rw [← Option.not_isSome_iff_eq_none, ← mem_agents_iff]
        exact h.unknown agent hmember hname
      rw [foldl_hear_added hpending hmember, hunknown]
      rfl
    · have hheld := h.known agent (List.mem_cons_of_mem _ hagent) hmember
      rw [hheld]
      exact foldl_hear_of_isSome rfl pending _

/-- Nobody is stale in a room that has just been filled. -/
theorem Filled.inv {pending : List Agent} (h : self.Filled pending) : self.Inv [] :=
  ⟨h.sound, fun _ hname => absurd hname List.not_mem_nil, fun socket _ => h.follows socket⟩

theorem inv_of_reachable {r : Observed × List String}
    (hreach : ((system versionNumber).recorded [] noteStale).Reachable r) : r.1.Inv r.2 := by
  have hinv : ((system versionNumber).recorded [] noteStale).Invariant fun r => r.1.Inv r.2 := by
    refine ⟨?_, ?_⟩
    · rintro ⟨room, _⟩ ⟨⟨pending, hfilled⟩, rfl⟩
      exact hfilled.inv
    · rintro ⟨room, stale⟩ event ⟨room', stale'⟩ h ⟨hstep, hnote⟩
      have hinv := h.step hstep
      rwa [← show stale' = room.noteStale event room' stale from hnote] at hinv
  exact hinv.of_reachable hreach

end

/-- The client is connected, nothing is on its way to it, and the server has read what
it has declared. -/
structure Delivered (room : Observed) : Prop where
  attached : room.client.attached = true
  socket : room.conn.socket = room.client.socket
  down : room.down = []
  declared : ∀ sent ∈ room.up, some sent.1 = room.client.socket → declaredState sent.2 = none

/-- The client holds the state of every player of the room. -/
def Agrees (self : Observed) : Prop :=
  ∀ agent ∈ self.everyone, self.client.held agent.objectName = some agent.state

/-- Once everything is delivered, the client holds the state of every player exactly if
nobody is stale. -/
theorem agrees_iff {versionNumber : String} {r : Observed × List String}
    (hreach : ((system versionNumber).recorded [] noteStale).Reachable r)
    (hdelivered : r.1.Delivered) : r.1.Agrees ↔ r.2 = [] := by
  have hinv := inv_of_reachable hreach
  obtain ⟨socket, hsocket⟩ :=
    Option.isSome_iff_exists.mp (hinv.sound.attached hdelivered.attached)
  obtain ⟨hown, hfresh, hstale⟩ := hinv.follows socket
    ⟨hdelivered.attached, hsocket, hdelivered.socket.trans hsocket⟩
  have hview (name : String) : r.1.view name = r.1.client.held name := by
    rw [view, hdelivered.down]
    rfl
  have hfinal : r.1.finalState socket = r.1.conn.agent.state := by
    have hnone : (queueOf r.1.up socket).filterMap declaredState = [] := by
      refine List.filterMap_eq_nil_iff.mpr fun packet hpacket => ?_
      obtain ⟨sent, hsent, hsome⟩ := List.mem_filterMap.mp hpacket
      obtain ⟨hsame, rfl⟩ := Option.ite_none_right_eq_some.mp hsome |>.imp id Option.some.inj
      exact hdelivered.declared sent hsent (by rw [hsame, hsocket])
    rw [finalState, hnone]
    rfl
  constructor
  · intro hagrees
    refine List.eq_nil_iff_forall_not_mem.mpr fun name hname => ?_
    obtain ⟨agent, hagent, rfl⟩ := hinv.names name hname
    obtain ⟨state, hheld, hne⟩ := hstale agent hagent hname
    rw [hview, hagrees agent (List.mem_cons_of_mem _ hagent)] at hheld
    exact hne (Option.some.inj hheld).symm
  · intro hnil agent hagent
    obtain rfl | hother := List.mem_cons.mp hagent
    · rw [hdelivered.down, hfinal] at hown
      rw [← hinv.sound.objectName]
      exact hown.resolve_right fun h => by cases h
    · rw [← hview]
      exact hfresh agent hother (hnil ▸ List.not_mem_nil)

/-- A full room of a, b and c, as all are online and the client of a knows it. -/
def roomOfThree : Observed where
  others := [⟨"b", "B", StateMaskOnline⟩, ⟨"c", "C", StateMaskOnline⟩]
  conn := ((ServerConnectionP.new ⟨"a", "A", StateMaskOnline⟩ .v1 20000).setSocket 0).1
  client := { ClientP.new "a" "A" with
    socket := some 0
    attached := true
    room := ((Room.new .v1).addPlayer "a").2.addPlayer "b" |>.2.addPlayer "c" |>.2
    agents := AList.insert "c" ⟨"c", "C", StateMaskOnline⟩
      (AList.insert "b" ⟨"b", "B", StateMaskOnline⟩
        (AList.insert "a" ⟨"a", "A", StateMaskOnline⟩ ∅)) }
  down := []
  up := []
  made := 1

theorem filled_roomOfThree : roomOfThree.Filled [] where
  names := by decide
  objectName := rfl
  own := by decide +kernel
  consistent := show ∀ name ∈ roomOfThree.client.room.playerNames, name ∈ roomOfThree.client.agents by
    decide +kernel
  attached := rfl
  socket := ⟨0, by decide, rfl, rfl, rfl⟩
  sublist := List.nil_sublist _
  unknown _ h := absurd h List.not_mem_nil
  known agent hagent _ := (show ∀ agent ∈ roomOfThree.everyone,
    roomOfThree.client.held agent.objectName = some agent.state by decide +kernel) agent hagent
  down := ⟨[], [], fun _ h => absurd h List.not_mem_nil, rfl⟩
  up := rfl
  roundEventLog := rfl

/-- While a is away, b drops as well; c stays, so that the room goes on, and a comes back. -/
def missedDrop : List Event :=
  [.serverLost 0 .Rock, .socketGone, .drops "b", .reconnectTimeout true, .clientReads,
    .serverReads 1 .Rock [⟨"a", "A", StateMaskOnline⟩, ⟨"b", "B", 0⟩, ⟨"c", "C", StateMaskOnline⟩],
    .clientReads, .clientReads, .clientReads, .clientReads]

def delivered (self : Observed) : Bool :=
  self.client.attached && self.conn.socket == self.client.socket && self.down.isEmpty &&
    self.up.isEmpty

theorem delivered_iff {self : Observed} (h : self.delivered = true) : self.Delivered := by
  simp only [delivered, Bool.and_eq_true, beq_iff_eq, List.isEmpty_iff] at h
  obtain ⟨⟨⟨hattached, hsocket⟩, hdown⟩, hup⟩ := h
  exact ⟨hattached, hsocket, hdown, fun sent hsent => by rw [hup] at hsent; cases hsent⟩

theorem exists_missedDrop : ∃ r, ((system "0").recorded [] noteStale).Reachable r ∧
    r.1.Delivered ∧ r.2 = ["b"] ∧ ¬ r.1.Agrees := by
  have hrun : (missedDrop.foldlM (TransitionSystem.withRecord (handle "0") noteStale)
      (roomOfThree, [])).any (fun r => r.1.delivered && r.2 == ["b"] &&
        r.1.everyone.any fun agent => r.1.client.held agent.objectName ≠ some agent.state) =
      true := by
    decide +kernel
  obtain ⟨r, hreach, hend⟩ := TransitionSystem.exists_recorded_foldlM (fun _ _ _ hstep => hstep)
    (show (system "0").init _ from ⟨[], filled_roomOfThree⟩) hrun
  simp only [Bool.and_eq_true, beq_iff_eq, List.any_eq_true, decide_eq_true_eq] at hend
  obtain ⟨⟨hdelivered, hstale⟩, agent, hagent, hheld⟩ := hend
  exact ⟨r, hreach, delivered_iff hdelivered, hstale, fun hagrees => hheld (hagrees agent hagent)⟩

theorem agrees_iff_missedDrop : ∃ r, ((system "0").recorded [] noteStale).Reachable r ∧
    r.2 = ["b"] ∧ (r.1.Agrees ↔ r.2 = []) := by
  obtain ⟨r, hreach, hdelivered, hstale, -⟩ := exists_missedDrop
  exact ⟨r, hreach, hstale, agrees_iff hreach hdelivered⟩

/-- The state that was missed is never made up for. -/
theorem agrees_fails :
    ¬ ∀ room, (system "0").Reachable room → room.Delivered → room.Agrees := by
  intro hall
  obtain ⟨r, hreach, hdelivered, -, hfails⟩ := exists_missedDrop
  exact hfails (hall r.1 hreach.of_recorded hdelivered)

end Observed

end QMdmmNetworking
