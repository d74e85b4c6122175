import QMdmm.Core.Dialogue
import QMdmm.Core.Protocol

namespace QMdmmCore

open Data Logic Protocol

namespace Logic

/-- The kind of request that a phase waits for. -/
def State.requestId : State → RequestId
  | .BeforeRoundStart => .RequestInvalid
  | .RpsForAction | .RpsForActionOrder => .RequestRockPaperScissors
  | .ActionOrder => .RequestActionOrder
  | .Action => .RequestAction
  | .Upgrade => .RequestUpgrade

/-- Only the two kinds of Rock-Paper-Scissors are asked for alike. -/
theorem State.of_requestId (state : State) :
    (state.requestId = .RequestRockPaperScissors →
      state = .RpsForAction ∨ state = .RpsForActionOrder) ∧
    (state.requestId = .RequestActionOrder → state = .ActionOrder) ∧
    (state.requestId = .RequestAction → state = .Action) ∧
    (state.requestId = .RequestUpgrade → state = .Upgrade) := by
  cases state <;> simp [requestId]

namespace Signal

/-- The kind of request that a signal is. -/
def requestId : Signal → RequestId
  | .requestRpsForAction _ | .requestRpsForActionOrder _ _ => .RequestRockPaperScissors
  | .requestActionOrder _ _ _ _ => .RequestActionOrder
  | .requestAction _ _ => .RequestAction
  | .requestUpgrade _ _ => .RequestUpgrade
  | _ => .RequestInvalid

/-- The requests that a signal puts to a player. -/
def requestsTo (name : String) (signal : Signal) : List RequestId :=
  (signal.asks.filter (· = name)).map fun _ => signal.requestId

theorem requestId_of_awaits {d : LogicP} {answered : List String} {signal : Signal} {name : String}
    (h : Dialogue.Awaits d answered signal) (hname : name ∈ signal.asks) :
    signal.requestId = d.state.requestId := by
  cases signal with
  | requestRpsForAction | requestActionOrder | requestRpsForActionOrder | requestAction
  | requestUpgrade =>
    rw [h.1]
    rfl
  | _ => cases hname

/-- Where nobody is asked twice, a player is put one request if it is asked at all. -/
theorem flatMap_requestsTo {signals : List Signal} {kind : RequestId} {name : String}
    (hkind : ∀ signal ∈ signals, name ∈ signal.asks → signal.requestId = kind)
    (hnodup : (signals.flatMap asks).Nodup) :
    signals.flatMap (requestsTo name) =
      if ∃ signal ∈ signals, name ∈ signal.asks then [kind] else [] := by
  have heach : ∀ signal ∈ signals,
      signal.requestsTo name = (signal.asks.filter (· = name)).map fun _ => kind := by
    intro signal hsignal
    refine List.map_congr_left fun other hother => ?_
    obtain ⟨hasks, hsame⟩ := List.mem_filter.mp hother
    exact hkind signal hsignal (of_decide_eq_true hsame ▸ hasks)
  have hall : signals.flatMap (requestsTo name) =
      ((signals.flatMap asks).filter (· = name)).map fun _ => kind := by
    rw [List.flatMap_congr heach, List.filter_flatMap, List.map_flatMap]
  rw [hall, List.filter_eq, hnodup.count]
  simp only [List.mem_flatMap]
  split <;> rfl

end Signal

namespace Call

/-- The kind of request that a call replies to. -/
def requestId : Call → RequestId
  | .rpsReply _ _ => .RequestRockPaperScissors
  | .actionOrderReply _ _ => .RequestActionOrder
  | .actionReply _ _ _ _ => .RequestAction
  | .upgradeReply _ _ => .RequestUpgrade
  | _ => .RequestInvalid

/-- The request that a call replies to for a player. -/
def answersOf (name : String) (c : Call) : List RequestId :=
  if c.replier = some name then [c.requestId] else []

theorem answersOf_eq_nil {c : Call} (h : c.replier = none) (name : String) :
    c.answersOf name = [] := by simp [answersOf, h]

/-- Calls that nobody replies with answer nobody. -/
theorem flatMap_answersOf_eq_nil {commands : List Call}
    (h : ∀ c ∈ commands, c.replier = none) (name : String) :
    commands.flatMap (answersOf name) = [] :=
  List.flatMap_eq_nil_iff.mpr fun c hc => answersOf_eq_nil (h c hc) name

end Call

end Logic

namespace LogicP

/-- What a player has to answer: one request at most, of the kind of the phase. -/
def due (d : LogicP) (name : String) : List RequestId :=
  if d.AskedPlayer name then [d.state.requestId] else []

theorem length_due_le (d : LogicP) (name : String) : (d.due name).length ≤ 1 := by
  unfold due
  split <;> simp

theorem due_eq_of_mem {d : LogicP} {name : String} {kind : RequestId} (h : kind ∈ d.due name) :
    d.due name = [kind] := by
  rw [due] at h ⊢
  split at h
  · next hasked => rw [if_pos hasked, List.mem_singleton.mp h]
  · cases h

theorem due_of_beforeRoundStart {d : LogicP} (hstate : d.state = .BeforeRoundStart)
    (name : String) : d.due name = [] := by
  rw [due, if_neg]
  rw [AskedPlayer, hstate]
  exact id

/-- A reply of the kind that is due is one that has been asked for. -/
theorem asked_of_due {d : LogicP} {c : Call} {name : String} (hname : c.replier = some name)
    (h : d.due name = [c.requestId]) : d.Asked c := by
  rw [due] at h
  split at h
  · next hasked =>
    have hkind := List.singleton_inj.mp h
    obtain ⟨hrps, horder, haction, hupgrade⟩ := d.state.of_requestId
    cases c with
    | rpsReply =>
      obtain rfl := Option.some.inj hname
      exact ⟨hrps hkind, hasked⟩
    | actionOrderReply =>
      obtain rfl := Option.some.inj hname
      exact ⟨horder hkind, hasked⟩
    | actionReply =>
      obtain rfl := Option.some.inj hname
      exact ⟨haction hkind, hasked⟩
    | upgradeReply =>
      obtain rfl := Option.some.inj hname
      exact ⟨hupgrade hkind, hasked⟩
    | _ => cases hname
  · cases h

end LogicP

namespace Logic

open LogicP Dialogue

variable {self self' : Logic (List Signal)}

/-- Signals have been emitted since `env`, and nobody is asked twice by them. -/
def Once (env : List Signal) (logic : Logic (List Signal)) : Prop :=
  ∃ signals, logic.env = env ++ signals ∧ (signals.flatMap Signal.asks).Nodup

theorem Once.after {env : List Signal} {signal : Signal} (h : Once (env ++ [signal]) self)
    (hquiet : signal.asks = []) : Once env self := by
  obtain ⟨signals, henv, hnodup⟩ := h
  refine ⟨signal :: signals, by rw [henv, List.append_assoc, List.singleton_append], ?_⟩
  rwa [List.flatMap_cons, hquiet, List.nil_append]

theorem Once.singleton {d : LogicP} {env : List Signal} {signal : Signal}
    (hnodup : signal.asks.Nodup) : Once env ⟨d, env ++ [signal]⟩ :=
  ⟨[signal], rfl, by rwa [List.flatMap_singleton]⟩

theorem NextAction.once (hstep : NextAction self self') : Once self.env self' := by
  cases hstep with
  | turn => exact .singleton (List.nodup_singleton _)
  | again => exact .singleton self.d.room.alivePlayerNames_nodup

theorem StartAction.once (hstep : StartAction self self') : Once self.env self' := by
  cases hstep with
  | next _ hnext => exact hnext.once
  | roundOver =>
    refine ⟨_, List.append_assoc _ _ _, ?_⟩
    rw [List.flatMap_append, List.flatMap_map]
    refine List.Nodup.sublist ?_ self.d.room.playerNames_nodup
    exact (List.map_eq_flatMap (f := Player.objectName)) ▸ List.filter_sublist.map _

theorem StartActionOrder.once (hstep : StartActionOrder self self') : Once self.env self' := by
  cases hstep with
  | settled _ _ haction => exact haction.once.after rfl
  | contested =>
    refine ⟨_, rfl, ?_⟩
    have hnames : (actionOrderRequests self.d).flatMap Signal.asks = self.d.strivingNames := by
      rw [actionOrderRequests, List.flatMap_map]
      exact List.map_eq_flatMap.symm.trans (List.map_id' _)
    rw [hnames, strivingNames, (List.perm_insertionSort _ _).nodup_iff]
    exact self.d.strivingActionCount.nodupKeys

theorem StartRpsForActionOrder.once (hstep : StartRpsForActionOrder self self')
    (hnodup : self.d.desiredActionOrders.Nodup) : Once self.env self' := by
  cases hstep with
  | uncontested _ hstart => exact hstart.once
  | contested =>
    apply Once.singleton
    exact QMultiHash.values_nodup (hnodup.sublist (confirmUncontested_sublist _)) _

/-- The reply is recorded and no more, or what is emitted asks for what is waited for
then, and nobody twice. -/
def Records (self self' : Logic (List Signal)) : Prop :=
  self'.env = self.env ∧ self'.d.state = self.d.state ∨ Issues self.env self' ∧ Once self.env self'

theorem CallStep.records {c : Call} {ret : Bool} {name : String}
    (hreplies : self.d.RepliesAsked) (hname : c.replier = some name) (hasked : self.d.Asked c)
    (hstep : CallStep self c ret self') : Records self self' := by
  cases hstep with
  | addPlayer | removePlayer | roundStart => cases hname
  | rejected => exact .inl ⟨rfl, rfl⟩
  | rpsForAction _ _ _ hstep =>
    cases hstep with
    | waiting => exact .inl ⟨rfl, rfl⟩
    | tie =>
      exact .inr ⟨(enterRpsForAction_issues _ _).after trivial,
        Once.after (.singleton self.d.room.alivePlayerNames_nodup) rfl⟩
    | decided _ _ _ hstart => exact .inr ⟨hstart.issues.after trivial, hstart.once.after rfl⟩
  | rpsForActionOrder _ hstate _ hstep =>
    rw [RepliesAsked, hstate] at hreplies
    cases hstep with
    | waiting => exact .inl ⟨rfl, rfl⟩
    | decided _ hstart =>
      refine .inr ⟨hstart.issues.after trivial, (hstart.once ?_).after rfl⟩
      exact hreplies.1.sublist (dropLosers_sublist _ _ _)
  | pick _ _ _ _ hrecord =>
    subst hrecord
    exact .inl ⟨rfl, rfl⟩
  | lastPick _ hstate _ hchosen hrecord _ hstep =>
    obtain rfl := Option.some.inj hname
    have hpicked := hasked.2
    rw [AskedPlayer, hstate] at hpicked
    simp only [RepliesAsked, hstate] at hreplies
    subst hrecord
    have hnodup := (recordActionOrder_desired hchosen hreplies.1 hreplies.2 hpicked).1
    exact .inr ⟨hstep.issues, hstep.once hnodup⟩
  | action _ _ _ _ _ hstep =>
    exact .inr ⟨hstep.issues.after trivial, hstep.once.after rfl⟩
  | upgrade _ _ _ _ _ hstep =>
    cases hstep with
    | waiting => exact .inl ⟨rfl, rfl⟩
    | gameOver | result => exact .inr ⟨.singleton trivial, .singleton List.nodup_nil⟩

/-- Who has a request that the signals have put has exactly that one. -/
theorem due_of_issues {env signals : List Signal} {logic : Logic (List Signal)}
    (henv : logic.env = env ++ signals)
    (hasks : ∀ name, logic.d.AskedPlayer name ↔ ∃ signal ∈ signals, name ∈ signal.asks)
    (hissues : Issues env logic) (honce : Once env logic) (name : String) :
    logic.d.due name = signals.flatMap (Signal.requestsTo name) := by
  obtain ⟨issued, hissued, _, hawaits⟩ := hissues
  obtain ⟨once, honce, hnodup⟩ := honce
  obtain rfl := List.append_cancel_left (hissued.symm.trans henv)
  obtain rfl := List.append_cancel_left (honce.symm.trans henv)
  rw [Signal.flatMap_requestsTo (fun signal hsignal hname =>
    Signal.requestId_of_awaits (hawaits signal hsignal) hname) hnodup, due]
  simp only [hasks]

/-- What is due after a call: what was due before, but for the reply that has been
taken, and what the signals of the call ask for. -/
def Renews (self : Logic (List Signal)) (c : Call) (self' : Logic (List Signal)) : Prop :=
  ∃ signals, self'.env = self.env ++ signals ∧ ∀ name,
    self'.d.due name = (if c.replier = some name then [] else self.d.due name) ++
      signals.flatMap (Signal.requestsTo name)

/-- Where everything that was due has been answered, the signals decide what is due. -/
theorem Renews.of_issues {c : Call} {name : String} (hname : c.replier = some name)
    (hcollects : Collects self name self') (hissues : Issues self.env self')
    (honce : Once self.env self') : Renews self c self' := by
  obtain ⟨signals, henv, hsome, hasks⟩ := hcollects.asks
  have hnonempty : signals ≠ [] := by
    obtain ⟨issued, hissued, hnonempty, _⟩ := hissues
    rwa [← List.append_cancel_left (hissued.symm.trans henv)]
  have hall := hsome.mp hnonempty
  refine ⟨signals, henv, fun other => ?_⟩
  have hnone : (if c.replier = some other then [] else self.d.due other) = [] := by
    split
    · rfl
    · next hother =>
      rw [due, if_neg]
      intro hasked
      rw [hname, hall other hasked] at hother
      exact hother rfl
  rw [hnone, List.nil_append]
  refine due_of_issues henv (fun name => ?_) hissues honce other
  rw [hasks]
  exact or_iff_right fun hold => hold.2 (hall name hold.1)

/-- While a phase goes on, only the reply that has been taken is due no more. -/
theorem Renews.of_waiting {c : Call} {name : String} (hname : c.replier = some name)
    (hcollects : Collects self name self') (henv : self'.env = self.env)
    (hstate : self'.d.state = self.d.state) : Renews self c self' := by
  obtain ⟨signals, hsignals, _, hasks⟩ := hcollects.asks
  obtain rfl := List.append_right_eq_self.mp (hsignals.symm.trans henv)
  refine ⟨[], hsignals, fun other => ?_⟩
  rw [List.flatMap_nil, List.append_nil, hname, due, due, hstate]
  by_cases hsame : other = name
  · subst hsame
    rw [if_neg, if_pos rfl]
    simp [hasks]
  · rw [if_neg fun heq => hsame (Option.some.inj heq).symm]
    simp [hasks, hsame]

theorem Renews.of_quiet {c : Call} (hname : c.replier = none) (henv : self'.env = self.env)
    (hdue : ∀ name, self'.d.due name = self.d.due name) : Renews self c self' := by
  refine ⟨[], henv.trans (List.append_nil _).symm, fun name => ?_⟩
  rw [hname, if_neg nofun, List.flatMap_nil, List.append_nil, hdue]

/-- The signals of a call ask every player that has a request afterwards, once and for
what the new phase waits for. -/
theorem CallStep.renews {c : Call} {ret : Bool} (h : NegotiationInv self)
    (hreplies : self.d.RepliesAsked)
    (hasked : ∀ name, c.replier = some name → name ∈ self.d.room.playerNames ∧ self.d.Asked c)
    (hstep : CallStep self c ret self') : Renews self c self' := by
  cases hname : c.replier with
  | some name =>
    obtain ⟨hmember, hasked⟩ := hasked name hname
    have hcollects := hstep.collects h hreplies hname hmember hasked
    obtain ⟨henv, hstate⟩ | ⟨hissues, honce⟩ := hstep.records hreplies hname hasked
    · exact .of_waiting hname hcollects henv hstate
    · exact .of_issues hname hcollects hissues honce
  | none =>
    cases hstep with
    | rejected => exact .of_quiet hname rfl fun _ => rfl
    | addPlayer hstate | removePlayer hstate =>
      refine .of_quiet hname rfl fun name => ?_
      rw [due_of_beforeRoundStart hstate]
      apply due_of_beforeRoundStart
      exact hstate
    | roundStart hstate =>
      refine ⟨_, rfl, fun name => ?_⟩
      rw [hname, if_neg nofun, due_of_beforeRoundStart hstate, List.nil_append]
      refine due_of_issues rfl (fun name => ?_) (enterRpsForAction_issues _ _)
        (.singleton (Room.alivePlayerNames_nodup _)) name
      simp [AskedPlayer, enterRpsForAction, Signal.asks, AList.notMem_empty]
    | _ => cases hname

/-- As long as only replies that were asked for count, the negotiation is in order and
the replies recorded are those of players that were asked. -/
theorem repliesAsked_invariant : (system.guarded OnlyAsked).Invariant
    fun logic => NegotiationInv logic ∧ logic.d.RepliesAsked := by
  refine .guarded ?_ fun logic c logic' honly h hnext => ?_
  · rintro _ ⟨conf, rfl⟩
    exact ⟨negotiationInv_invariant.init _ ⟨conf, rfl⟩, trivial⟩
  · obtain ⟨ret, hcall⟩ := hnext
    exact ⟨h.1.call (call_cases hcall), h.1.repliesAsked h.2 honly hcall⟩

end Logic

end QMdmmCore
