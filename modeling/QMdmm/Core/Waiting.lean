import QMdmm.Core.Dialogue
import QMdmm.Core.Wedge

namespace QMdmmCore

open Data Logic

namespace LogicP

variable {d : LogicP}

/-- The round is over, and nobody has been asked to upgrade. -/
def Stranded (d : LogicP) : Prop := d.state = .Action ∧ d.room.isRoundOver = true

instance (d : LogicP) : Decidable d.Stranded := inferInstanceAs (Decidable (_ ∧ _))

/-- An action that ends the round while no player has an upgrade point. -/
def Pointless (d : LogicP) : Call → Prop
  | .actionReply name action toPlayer toPlace =>
    d.Accepts (.actionReply name action toPlayer toPlace) ∧ ∃ accepted ok d',
      d.actionFeasible name action toPlayer toPlace = .ok accepted ∧
      d.performAction name (if accepted then action else .DoNothing) toPlayer toPlace = .ok (ok, d') ∧
      d'.room.isRoundOver = true ∧ d'.upgraders = []
  | _ => False

/-- While orders are claimed and fought for, those that do it are alive, and
every contested order has two of them at least. -/
def Contested (d : LogicP) : Prop :=
  match d.state with
  | .ActionOrder => ∀ p ∈ d.rpsForActionWinners, p ∈ d.room.alivePlayerNames
  | .RpsForActionOrder => (∀ p ∈ d.rpsForActionWinners, p ∈ d.room.alivePlayerNames) ∧
      2 ≤ (d.desiredActionOrders.values d.currentStrivingActionOrder).length
  | _ => True

/-- A reply that the phase has no more use for. -/
def Recorded (d : LogicP) (name : String) : Prop :=
  match d.state with
  | .RpsForAction => name ∈ d.rpsForActionReplies
  | .ActionOrder => name ∉ d.actionOrderRemainingSelections
  | .RpsForActionOrder => name ∈ d.rpsForActionOrderReplies
  | _ => False

theorem Recorded.not_accepts {name : String} (h : d.Recorded name) {c : Call}
    (hname : c.replier = some name) : ¬ d.Accepts c := by
  unfold Recorded at h
  intro haccepts
  cases c with
  | rpsReply replier rps =>
    obtain rfl := Option.some.inj hname
    obtain ⟨_, ⟨hstate, hnew⟩ | ⟨hstate, hnew⟩⟩ := haccepts
    · rw [hstate] at h
      exact hnew h
    · rw [hstate] at h
      exact hnew h
  | actionOrderReply replier desired =>
    obtain rfl := Option.some.inj hname
    obtain ⟨_, hstate, hasked⟩ := haccepts
    rw [hstate] at h
    rw [QHash.value, AList.lookup_eq_none.mpr h] at hasked
    simp at hasked
  | actionReply replier =>
    rw [haccepts.2] at h
    exact h
  | upgradeReply replier =>
    rw [haccepts.2.1] at h
    exact h
  | _ => cases hname

/-- Once the uncontested orders are confirmed, no order is claimed by one player alone. -/
theorem count_confirmUncontested_ne_one (d : LogicP) (order : Int) :
    d.confirmUncontested.desiredActionOrders.count order ≠ 1 := by
  have hfold (orders : List Int) (d : LogicP)
      (hseen : order ∈ orders ∨ d.desiredActionOrders.count order ≠ 1) :
      (orders.foldl confirmOrder d).desiredActionOrders.count order ≠ 1 := by
    induction orders generalizing d with
    | nil => exact hseen.resolve_left List.not_mem_nil
    | cons other rest ih =>
      apply ih
      rw [count_confirmOrder]
      by_cases hother : other = order
      · subst hother
        right
        split
        · simp
        · next hnot => simpa using hnot
      · obtain hmem | hcount := hseen
        · exact .inl ((List.mem_cons.mp hmem).resolve_left (Ne.symm hother))
        · rw [if_neg fun h => hother h.1.symm]
          exact .inr hcount
  apply hfold
  by_cases hkey : order ∈ d.desiredActionOrders.uniqueKeys
  · exact .inl hkey
  · right
    have hnone : d.desiredActionOrders.values order = [] := by
      unfold QMultiHash.values
      rw [List.map_eq_nil_iff, List.filter_eq_nil_iff]
      intro entry hentry heq
      apply hkey
      rw [QMultiHash.uniqueKeys, List.mem_dedup, ← of_decide_eq_true heq]
      exact List.mem_map_of_mem hentry
    rw [QMultiHash.count, hnone]
    simp

/-- The order fought for is claimed by two players at least. -/
theorem two_le_contenders (h : d.confirmUncontested.lowestContestedOrder ≠ 0) :
    2 ≤ (d.confirmUncontested.desiredActionOrders.values
      d.confirmUncontested.lowestContestedOrder).length := by
  have hne := d.count_confirmUncontested_ne_one d.confirmUncontested.lowestContestedOrder
  unfold lowestContestedOrder at h hne ⊢
  cases hfind : d.confirmUncontested.allOrders.find? fun order =>
      d.confirmUncontested.desiredActionOrders.contains order with
  | none => simp [hfind] at h
  | some order =>
    rw [hfind] at hne
    have hcontains := List.find?_some hfind
    rw [QMultiHash.contains, decide_eq_true_eq] at hcontains
    obtain ⟨entry, hentry, hkey⟩ := List.mem_map.mp hcontains
    have hmem : entry.2 ∈ d.confirmUncontested.desiredActionOrders.values order :=
      List.mem_map_of_mem (List.mem_filter.mpr ⟨hentry, by simpa using hkey⟩)
    have hpos := List.length_pos_of_mem hmem
    rw [Option.getD_some] at hne ⊢
    rw [QMultiHash.count] at hne
    omega

end LogicP

namespace Logic

open LogicP

variable {self self' : Logic (List Signal)}

/-- The signals since `env` ask somebody for something, or end the round. -/
def Proceeds (env : List Signal) (logic : Logic (List Signal)) : Prop :=
  ∃ signals, logic.env = env ++ signals ∧
    ((∃ signal ∈ signals, signal.asks ≠ []) ∨
      (.roundOver ∈ signals ∧ (logic.d.state = .Upgrade ∨ logic.d.Stranded)))

theorem Proceeds.after {env : List Signal} {signal : Signal} (h : Proceeds (env ++ [signal]) self) :
    Proceeds env self := by
  obtain ⟨signals, henv, hsome⟩ := h
  refine ⟨signal :: signals, by rw [henv, List.append_assoc, List.singleton_append], ?_⟩
  obtain ⟨other, hother, hasks⟩ | ⟨hover, hstate⟩ := hsome
  · exact .inl ⟨other, List.mem_cons_of_mem _ hother, hasks⟩
  · exact .inr ⟨List.mem_cons_of_mem _ hover, hstate⟩

theorem Proceeds.singleton {d : LogicP} {env : List Signal} {signal : Signal}
    (hasks : signal.asks ≠ []) : Proceeds env ⟨d, env ++ [signal]⟩ :=
  ⟨[signal], rfl, .inl ⟨signal, List.mem_singleton_self _, hasks⟩⟩

theorem alivePlayerNames_ne_nil {room : Room} (hgoing : room.isRoundOver = false) :
    room.alivePlayerNames ≠ [] := by
  intro hnone
  have hlength := room.length_alivePlayerNames
  simp only [Room.isRoundOver, decide_eq_false_iff_not] at hgoing
  rw [hnone, List.length_nil] at hlength
  omega

theorem StartAction.proceeds (hstep : StartAction self self')
    (hgoing : self.d.room.isRoundOver = false ∨ self.d.state = .Action) :
    Proceeds self.env self' := by
  cases hstep with
  | next hgoing hnext =>
    cases hnext with
    | turn => exact .singleton (List.cons_ne_nil _ _)
    | again => exact .singleton (alivePlayerNames_ne_nil hgoing)
  | roundOver hover =>
    refine ⟨_, List.append_assoc _ _ _, .inr ⟨List.mem_cons_self, ?_⟩⟩
    have hstate : self.d.state = .Action := by
      obtain hgoing | hstate := hgoing
      · rw [hover] at hgoing
        cases hgoing
      · exact hstate
    by_cases hnone : self.d.upgraders = []
    · exact .inr ⟨by simp [enterUpgrade, hnone, hstate], hover⟩
    · exact .inl (by simp [enterUpgrade, hnone])

theorem StartActionOrder.proceeds (hstep : StartActionOrder self self')
    (hgoing : self.d.room.isRoundOver = false) : Proceeds self.env self' := by
  cases hstep with
  | settled _ _ haction => exact (haction.proceeds (.inl hgoing)).after
  | contested hnothing =>
    obtain ⟨signal, hsignal⟩ := List.exists_mem_of_ne_nil _ (actionOrderRequests_ne_nil hnothing)
    obtain ⟨name, _, rfl⟩ := List.mem_map.mp hsignal
    exact ⟨_, rfl, .inl ⟨_, hsignal, List.cons_ne_nil _ _⟩⟩

theorem StartRpsForActionOrder.proceeds (hstep : StartRpsForActionOrder self self')
    (hgoing : self.d.room.isRoundOver = false) : Proceeds self.env self' := by
  cases hstep with
  | uncontested _ hstart =>
    apply hstart.proceeds
    rw [confirmUncontested_room]
    exact hgoing
  | contested _ horder hnot =>
    apply Proceeds.singleton
    subst horder
    have htwo := two_le_contenders hnot
    intro hnone
    rw [Signal.asks] at hnone
    rw [hnone, List.length_nil] at htwo
    omega

theorem NextAction.contested (hstep : NextAction self self') : self'.d.Contested := by
  cases hstep with
  | turn | again => trivial

theorem StartAction.contested (hstep : StartAction self self')
    (hgoing : self.d.room.isRoundOver = false ∨ self.d.state = .Action) : self'.d.Contested := by
  cases hstep with
  | next _ hnext => exact hnext.contested
  | roundOver hover =>
    have hstate : self.d.state = .Action := by
      obtain hgoing | hstate := hgoing
      · rw [hover] at hgoing
        cases hgoing
      · exact hstate
    unfold Contested
    by_cases hnone : self.d.upgraders = []
    · simp [enterUpgrade, hnone, hstate]
    · simp [enterUpgrade, hnone]

theorem StartActionOrder.contested_inv (hstep : StartActionOrder self self')
    (hgoing : self.d.room.isRoundOver = false)
    (halive : ∀ p ∈ self.d.rpsForActionWinners, p ∈ self.d.room.alivePlayerNames) :
    self'.d.Contested := by
  cases hstep with
  | settled _ _ haction => exact haction.contested (.inl hgoing)
  | contested => exact halive

theorem StartRpsForActionOrder.contested_inv (hstep : StartRpsForActionOrder self self')
    (hgoing : self.d.room.isRoundOver = false)
    (halive : ∀ p ∈ self.d.rpsForActionWinners, p ∈ self.d.room.alivePlayerNames) :
    self'.d.Contested := by
  have hroom := confirmUncontested_room self.d
  have hwinners := confirmUncontested_rpsForActionWinners self.d
  rw [← hwinners, ← hroom] at halive
  cases hstep with
  | uncontested _ hstart =>
    apply hstart.contested_inv _ halive
    rw [hroom]
    exact hgoing
  | contested _ horder hnot =>
    subst horder
    exact ⟨halive, two_le_contenders hnot⟩

/-- A Rock-Paper-Scissors for actions is only decided while the round goes on. -/
theorem going_of_decided {d : LogicP} {replies : QHash String RockPaperScissors}
    (hcount : replies.count = d.room.alivePlayersCount)
    (hsome : rockPaperScissorsWinners replies ≠ []) : d.room.isRoundOver = false := by
  have htwo := two_le_count_of_winners hsome
  rw [hcount] at htwo
  simp only [Room.isRoundOver, decide_eq_false_iff_not]
  omega

theorem RpsForAction.proceeds {name : String} {rps : RockPaperScissors}
    (hstate : self.d.state = .RpsForAction)
    (hstep : RpsForAction
      ⟨{ self.d with rpsForActionReplies := AList.insert name rps self.d.rpsForActionReplies },
        self.env⟩ self') :
    (self'.env = self.env ∧ self'.d.Recorded name) ∨ Proceeds self.env self' := by
  cases hstep with
  | waiting =>
    refine .inl ⟨rfl, ?_⟩
    simp only [Recorded, hstate]
    exact (AList.mem_insert _).mpr (.inl rfl)
  | tie hcount =>
    refine .inr (Proceeds.after (.singleton ?_))
    -- Somebody has answered, so somebody is alive to ask again.
    have hpos : QHash.count (AList.insert name rps self.d.rpsForActionReplies) ≠ 0 := by
      intro hzero
      exact QHash.count_eq_zero_iff.mp hzero name ((AList.mem_insert _).mpr (.inl rfl))
    intro hnone
    have hlength := self.d.room.length_alivePlayerNames
    rw [Signal.asks] at hnone
    rw [hnone, List.length_nil] at hlength
    exact hpos (hcount.trans hlength.symm)
  | decided hcount hwinners hsome hstart =>
    subst hwinners
    exact .inr (hstart.proceeds (going_of_decided hcount hsome)).after

/-- An asked reply is recorded, or the phase is over and the machine asks again. -/
theorem CallStep.proceeds {c : Call} {ret : Bool} {name : String} (h : NegotiationInv self)
    (hname : c.replier = some name) (haccepts : self.d.Accepts c) (hround : InRound self.d)
    (hstep : CallStep self c ret self') :
    (self'.env = self.env ∧ self'.d.Recorded name) ∨ Proceeds self.env self' := by
  have hphase := h.phase
  unfold PhaseInv at hphase
  cases hstep with
  | rejected hreject => exact absurd haccepts hreject
  | addPlayer | removePlayer | roundStart => cases hname
  | rpsForAction _ hstate _ hstep =>
    obtain rfl := Option.some.inj hname
    exact hstep.proceeds hstate
  | rpsForActionOrder _ hstate _ hstep =>
    obtain rfl := Option.some.inj hname
    rw [hstate] at hphase
    cases hstep with
    | waiting =>
      refine .inl ⟨rfl, ?_⟩
      simp only [Recorded, hstate]
      exact (AList.mem_insert _).mpr (.inl rfl)
    | decided _ hstart => exact .inr (hstart.proceeds hphase.1.going).after
  | pick _ hstate _ _ hrecord =>
    obtain rfl := Option.some.inj hname
    subst hrecord
    refine .inl ⟨rfl, ?_⟩
    simp only [Recorded, recordActionOrder, hstate, AList.mem_erase]
    exact fun hkept => hkept.1 rfl
  | lastPick _ hstate _ _ hrecord _ hstep =>
    rw [hstate] at hphase
    subst hrecord
    exact .inr (hstep.proceeds hphase.1.going)
  | action _ hstate _ _ hperform hstep =>
    obtain ⟨hframe, _, _⟩ := (performAction_cases hperform).frame
    refine .inr (hstep.proceeds (.inr ?_)).after
    rw [hframe]
    exact hstate
  | upgrade _ hstate => exact absurd hstate hround.2

theorem CallStep.contested {c : Call} {ret : Bool} (h : NegotiationInv self)
    (hreplies : self.d.RepliesAsked) (hcontested : self.d.Contested)
    (hasked : ∀ name, c.replier = some name → self.d.Accepts c → self.d.AskedPlayer name)
    (hstep : CallStep self c ret self') : self'.d.Contested := by
  have hphase := h.phase
  unfold PhaseInv at hphase
  cases hstep with
  | rejected => exact hcontested
  | addPlayer hstate | removePlayer hstate => simp [Contested, hstate]
  | roundStart => trivial
  | rpsForAction hmember hstate hnew hstep =>
    have hreplier := hasked _ rfl ⟨hmember, .inl ⟨hstate, hnew⟩⟩
    rw [AskedPlayer, hstate] at hreplier
    rw [RepliesAsked, hstate] at hreplies
    cases hstep with
    | waiting => simp [Contested, hstate]
    | tie => trivial
    | decided hcount hwinners hsome hstart =>
      subst hwinners
      apply hstart.contested_inv (going_of_decided hcount hsome)
      intro p hp
      obtain rfl | hp := (AList.mem_insert _).mp (mem_of_mem_rpsWinners (mem_rpsWinners_of_mem hp))
      · exact hreplier.1
      · exact hreplies p hp
  | rpsForActionOrder _ hstate _ hstep =>
    rw [Contested, hstate] at hcontested
    rw [hstate] at hphase
    cases hstep with
    | waiting =>
      rw [Contested]
      simp only [hstate]
      exact hcontested
    | decided _ hstart => exact hstart.contested_inv hphase.1.going hcontested.1
  | pick _ hstate _ _ hrecord =>
    rw [Contested, hstate] at hcontested
    subst hrecord
    rw [Contested]
    simp only [recordActionOrder, hstate]
    exact hcontested
  | lastPick _ hstate _ _ hrecord _ hstep =>
    rw [Contested, hstate] at hcontested
    rw [hstate] at hphase
    subst hrecord
    exact hstep.contested_inv hphase.1.going hcontested
  | action _ hstate _ _ hperform hstep =>
    obtain ⟨hframe, _, _⟩ := (performAction_cases hperform).frame
    apply hstep.contested
    right
    rw [hframe]
    exact hstate
  | upgrade _ hstate _ _ _ hstep =>
    cases hstep with
    | waiting => simp [Contested, hstate]
    | gameOver | result => trivial

theorem StartAction.stranded_iff (hstep : StartAction self self')
    (hstate : self.d.state = .Action) :
    self'.d.Stranded ↔ self.d.room.isRoundOver = true ∧ self.d.upgraders = [] := by
  cases hstep with
  | next hgoing hnext =>
    refine iff_of_false (fun hstranded => ?_) fun hover => ?_
    · have hover := hstranded.2
      cases hnext with
      | turn | again =>
        rw [show self.d.room.isRoundOver = true from hover] at hgoing
        cases hgoing
    · rw [hover.1] at hgoing
      cases hgoing
  | roundOver hover =>
    unfold Stranded enterUpgrade
    by_cases hnone : self.d.upgraders = []
    · simp [hnone, hstate, hover]
    · simp [hnone]

/-- Only an action that ends the round for no points leaves the machine stranded. -/
theorem CallStep.pointless {c : Call} {ret : Bool} (h : NegotiationInv self)
    (hnot : ¬ self.d.Stranded) (hstep : CallStep self c ret self')
    (hstranded : self'.d.Stranded) : self.d.Pointless c := by
  have hphase := h.phase
  unfold PhaseInv at hphase
  have hgoes {room : Room} (hgoing : room.isRoundOver = false) (hroom : self'.d.room = room) :
      False := by
    have hover := hstranded.2
    rw [hroom, hgoing] at hover
    cases hover
  cases hstep with
  | rejected => exact absurd hstranded hnot
  | addPlayer hstate | removePlayer hstate =>
    have hother := hstate.symm.trans hstranded.1
    cases hother
  | roundStart => cases hstranded.1
  | rpsForAction _ hstate _ hstep =>
    cases hstep with
    | waiting =>
      have hother := hstate.symm.trans hstranded.1
      cases hother
    | tie => cases hstranded.1
    | decided hcount hwinners hsome hstart =>
      subst hwinners
      exact (hgoes (going_of_decided hcount hsome) hstart.room).elim
  | rpsForActionOrder _ hstate _ hstep =>
    rw [hstate] at hphase
    exact (hgoes hphase.1.going hstep.room).elim
  | pick _ hstate _ _ hrecord =>
    rw [hstate] at hphase
    subst hrecord
    exact (hgoes hphase.1.going rfl).elim
  | lastPick _ hstate _ _ hrecord _ hstep =>
    rw [hstate] at hphase
    subst hrecord
    exact (hgoes hphase.1.going hstep.room).elim
  | action hmember hstate hfeasible hdone hperform hstep =>
    obtain ⟨hframe, _, _⟩ := (performAction_cases hperform).frame
    subst hdone
    refine ⟨⟨hmember, hstate⟩, _, _, _, hfeasible, hperform, ?_⟩
    apply (hstep.stranded_iff _).mp hstranded
    rw [hframe]
    exact hstate
  | upgrade _ hstate _ _ _ hstep =>
    cases hstep with
    | waiting =>
      have hother := hstate.symm.trans hstranded.1
      cases hother
    | gameOver | result => cases hstranded.1

/-- And every such action does. -/
theorem CallStep.stranded {c : Call} {ret : Bool} (hpointless : self.d.Pointless c)
    (hstep : CallStep self c ret self') : self'.d.Stranded := by
  cases c with
  | actionReply name action toPlayer toPlace =>
    obtain ⟨haccepts, accepted, ok, d', hfeasible, hperform, hover⟩ := hpointless
    cases hstep with
    | rejected hreject => exact absurd haccepts hreject
    | action _ hstate hfeasible' hdone hperform' hstep =>
      obtain rfl := Except.ok.inj (hfeasible.symm.trans hfeasible')
      rw [hdone, hperform] at hperform'
      cases hperform'
      obtain ⟨hframe, _, _⟩ := (performAction_cases hperform).frame
      apply (hstep.stranded_iff _).mpr hover
      rw [hframe]
      exact hstate
  | _ => exact hpointless.elim

end Logic

namespace Dialogue

open LogicP

variable {self : Dialogue} {logic : Logic (List Signal)}

/-- Replies come from players that have a request outstanding, and a round
starts with two players alive at least. -/
structure Fair (dialogue : Dialogue) (c : Call) : Prop where
  answers : ∀ name, c.replier = some name → dialogue.Outstanding name
  starts : c = .roundStart → dialogue.logic.d.Accepts .roundStart →
    2 ≤ dialogue.logic.d.room.prepareForRoundStart.alivePlayersCount

/-- What fair runs keep. -/
structure WaitInv (dialogue : Dialogue) : Prop where
  neg : NegotiationInv dialogue.logic
  replies : dialogue.logic.d.RepliesAsked
  asked : ∀ name, dialogue.logic.d.AskedPlayer name ↔ dialogue.Outstanding name
  contested : dialogue.logic.d.Contested
  someone : InRound dialogue.logic.d → dialogue.logic.d.Stranded ∨ ∃ name, dialogue.logic.d.AskedPlayer name

theorem asked_of_accepts {d : LogicP} {c : Call} {name : String} (hname : c.replier = some name)
    (haccepts : d.Accepts c) (hasked : d.AskedPlayer name) : d.Asked c := by
  cases c with
  | rpsReply replier rps =>
    obtain rfl := Option.some.inj hname
    exact ⟨haccepts.2.imp And.left And.left, hasked⟩
  | actionOrderReply replier desired =>
    obtain rfl := Option.some.inj hname
    exact ⟨haccepts.2.1, hasked⟩
  | actionReply replier action toPlayer toPlace =>
    obtain rfl := Option.some.inj hname
    exact ⟨haccepts.2, hasked⟩
  | upgradeReply replier items =>
    obtain rfl := Option.some.inj hname
    exact ⟨haccepts.2.1, hasked⟩
  | _ => cases hname

theorem askedPlayer_of_asked {d : LogicP} {c : Call} {name : String}
    (hname : c.replier = some name) (hasked : d.Asked c) : d.AskedPlayer name := by
  cases c with
  | rpsReply | actionOrderReply | actionReply | upgradeReply =>
    obtain rfl := Option.some.inj hname
    exact hasked.2
  | _ => cases hname

/-- A reply that is collected takes its player off the outstanding ones. -/
theorem outstanding_next {c : Call} {name : String} (hname : c.replier = some name)
    (haccepts : self.logic.d.Accepts c) (hasked : ∀ other, self.logic.d.AskedPlayer other ↔
      self.Outstanding other) (hcollects : Collects self.logic name logic) (other : String) :
    logic.d.AskedPlayer other ↔ (self.next c logic).Outstanding other := by
  obtain ⟨signals, henv, hsome, hasks⟩ := hcollects.asks
  rw [hasks, hasked, next_of_env henv, if_pos haccepts, hname]
  by_cases hnone : signals = []
  · subst hnone
    simp only [if_true, Outstanding, Option.toList_some, List.singleton_append, List.mem_cons,
      List.not_mem_nil, false_and, exists_false, or_false, not_or]
    tauto
  · have hall := hsome.mp hnone
    simp only [hnone, if_false, Outstanding, List.not_mem_nil, not_false_eq_true, and_true]
    constructor
    · rintro (⟨hother, hne⟩ | hsignal)
      · exact absurd (hall other ((hasked other).mpr hother)) hne
      · exact hsignal
    · exact .inr

theorem WaitInv.reply (h : WaitInv self) {c : Call} {ret : Bool} {name : String}
    (hname : c.replier = some name) (haccepts : self.logic.d.Accepts c)
    (hasked : self.logic.d.Asked c) (hplayer : self.logic.d.AskedPlayer name)
    (hcall : self.logic.call post c = .ok (ret, logic)) : WaitInv (self.next c logic) := by
  have hstep := call_cases hcall
  have hmember := member_of_accepts hname haccepts
  have hcollects := hstep.collects h.neg h.replies hname hmember hasked
  constructor
  · rw [next_logic]
    exact h.neg.call hstep
  · rw [next_logic]
    exact hcollects.repliesAsked
  · intro other
    rw [next_logic]
    exact outstanding_next hname haccepts h.asked hcollects other
  · rw [next_logic]
    apply hstep.contested h.neg h.replies h.contested
    intro other hother _
    rwa [← Option.some.inj (hname.symm.trans hother)]
  · rw [next_logic]
    intro hround
    have hself : InRound self.logic.d := by
      obtain hself | ⟨rfl, _⟩ := hstep.inRound hround
      · exact hself
      · cases hname
    obtain ⟨signals, henv, hsome, hasks⟩ := hcollects.asks
    obtain ⟨hsame, _⟩ | ⟨signals', henv', hproceeds⟩ := hstep.proceeds h.neg hname haccepts hself
    · -- The phase goes on, so somebody else has a request left.
      have hnone : signals = [] := by
        rw [hsame] at henv
        exact List.self_eq_append_right.mp henv
      have hleft : ¬ ∀ other, self.logic.d.AskedPlayer other → other = name :=
        fun hall => hsome.mpr hall hnone
      push Not at hleft
      obtain ⟨other, hother, hne⟩ := hleft
      exact .inr ⟨other, (hasks other).mpr (.inl ⟨hother, hne⟩)⟩
    · obtain rfl := List.append_cancel_left (henv.symm.trans henv')
      obtain ⟨signal, hsignal, hsomebody⟩ | ⟨_, hupgrade | hstranded⟩ := hproceeds
      · obtain ⟨other, hother⟩ := List.exists_mem_of_ne_nil _ hsomebody
        exact .inr ⟨other, (hasks other).mpr (.inr ⟨signal, hsignal, hother⟩)⟩
      · exact absurd hupgrade hround.2
      · exact .inl hstranded

/-- Before a round starts players come and go, and nobody has a request. -/
theorem WaitInv.seat (h : WaitInv self) {c : Call} (hname : c.replier = none)
    (hstate : self.logic.d.state = .BeforeRoundStart)
    (hstate' : logic.d.state = .BeforeRoundStart) (henv : logic.env = self.logic.env)
    (hneg : NegotiationInv logic) : WaitInv (self.next c logic) := by
  have hnone : logic.env = self.logic.env ++ [] := by rw [henv, List.append_nil]
  have hnobody (name : String) : ¬ self.Outstanding name := by
    rw [← h.asked, AskedPlayer, hstate]
    exact id
  rw [next_of_env hnone, if_pos rfl, hname, Option.toList_none, List.nil_append, ite_self]
  refine ⟨hneg, ?_, fun name => ?_, ?_, fun hround => absurd hstate' hround.1⟩
  · simp [RepliesAsked, hstate']
  · simp only [AskedPlayer, hstate', false_iff]
    exact hnobody name
  · simp [Contested, hstate']

theorem WaitInv.roundStart {d : LogicP} (hneg : NegotiationInv
      ⟨d.enterRpsForAction, self.logic.env ++ [.requestRpsForAction d.room.alivePlayerNames]⟩)
    (halive : 2 ≤ d.room.alivePlayersCount) :
    WaitInv (self.next .roundStart
      ⟨d.enterRpsForAction, self.logic.env ++ [.requestRpsForAction d.room.alivePlayerNames]⟩) := by
  rw [next_of_env rfl, if_neg (List.cons_ne_nil _ _)]
  have hasked (name : String) :
      d.enterRpsForAction.AskedPlayer name ↔ name ∈ d.room.alivePlayerNames := by
    simp [AskedPlayer, enterRpsForAction, AList.notMem_empty]
  refine ⟨hneg, fun _ hp => absurd hp (AList.notMem_empty _), fun name => ?_, trivial,
    fun _ => .inr ?_⟩
  · rw [hasked]
    simp [Outstanding, Signal.asks]
  · have hsome : d.room.alivePlayerNames ≠ [] := by
      apply alivePlayerNames_ne_nil
      simp only [Room.isRoundOver, decide_eq_false_iff_not]
      omega
    obtain ⟨name, hname⟩ := List.exists_mem_of_ne_nil _ hsome
    exact ⟨name, (hasked name).mpr hname⟩

theorem WaitInv.next (h : WaitInv self) {c : Call} {ret : Bool} (hfair : Fair self c)
    (hcall : self.logic.call post c = .ok (ret, logic)) : WaitInv (self.next c logic) := by
  by_cases haccepts : self.logic.d.Accepts c
  · cases hname : c.replier with
    | some name =>
      have hplayer := (h.asked name).mpr (hfair.answers name hname)
      exact h.reply hname haccepts (asked_of_accepts hname haccepts hplayer) hplayer hcall
    | none =>
      have hstep := call_cases hcall
      have hneg := h.neg.call hstep
      cases hstep with
      | rejected hreject => exact absurd haccepts hreject
      | addPlayer hstate | removePlayer hstate => exact h.seat rfl hstate hstate rfl hneg
      | roundStart => exact .roundStart hneg (hfair.starts rfl haccepts)
      | _ => cases hname
  · rw [call_of_not_accepts haccepts] at hcall
    cases hcall
    have hsame : self.next c self.logic = self := by
      rw [next_of_env (List.append_nil _).symm, if_pos rfl, if_neg haccepts]
    rwa [hsame]

theorem waitInv_invariant : (system.guarded Fair).Invariant WaitInv := by
  refine .guarded ?_ fun self c self' hfair h hstep => ?_
  · rintro _ ⟨conf, rfl⟩
    refine ⟨negotiationInv_invariant.init _ ⟨conf, rfl⟩, trivial, fun name => ?_, trivial,
      fun hround => absurd rfl hround.1⟩
    simp [AskedPlayer, Outstanding, new, Logic.start, LogicP.new]
  · obtain ⟨ret, logic, hcall, rfl⟩ := hstep
    exact h.next hfair hcall

/-- A reply that is consumed: its player is done, and the others are still
waited for; or it was the last one, and the machine asks again or the round ends. -/
structure Consumed (before : Dialogue) (name : String) (after : Dialogue) : Prop where
  others : (∃ other, before.Outstanding other ∧ other ≠ name) →
    after.logic.env = before.logic.env ∧
    (∀ other, after.Outstanding other ↔ before.Outstanding other ∧ other ≠ name) ∧
    ∀ c, c.replier = some name → ¬ after.logic.d.Accepts c
  last : (∀ other, before.Outstanding other → other = name) →
    ∃ signals, after.logic.env = before.logic.env ++ signals ∧
      ∃ signal ∈ signals, signal.asks ≠ [] ∨ signal = .roundOver

/-- The machine waits for somebody, and for those alone it has asked and has
no answer of; they are alive, those that fight for an order at least two, and
the answer of each is taken once. -/
structure WaitsRightly (dialogue : Dialogue) : Prop where
  someone : ∃ name, dialogue.Outstanding name
  alive : ∀ name, dialogue.Outstanding name → name ∈ dialogue.logic.d.room.alivePlayerNames
  asked : ∀ name, dialogue.logic.d.AskedPlayer name ↔ dialogue.Outstanding name
  contenders : dialogue.logic.d.state = .RpsForActionOrder → ∃ names strivedOrder,
    .requestRpsForActionOrder names strivedOrder ∈ dialogue.signals ∧ names.Nodup ∧
      2 ≤ names.length
  consumed : ∀ c name, c.replier = some name → dialogue.logic.d.Asked c →
    ∃ ret logic, dialogue.logic.call post c = .ok (ret, logic) ∧
      dialogue.Consumed name (dialogue.next c logic)

/-- Whoever has claims or selections left has won. -/
theorem winner_of_share {d : LogicP} (h : d.Conserved) {name : String}
    (hshare : 0 < desires d.desiredActionOrders name ∨
      0 < d.actionOrderRemainingSelections.value name 0) : name ∈ d.rpsForActionWinners := by
  have hshares := h.shares name
  have hselections := h.selections_nonneg name
  have hwon : 0 < d.rpsForActionWinners.count name := by omega
  exact List.count_pos_iff.mp hwon

theorem WaitInv.alive (h : WaitInv self)
    (hawaits : ∀ signal ∈ self.signals, Awaits self.logic.d self.answered signal)
    (hround : InRound self.logic.d) {name : String} (hname : self.Outstanding name) :
    name ∈ self.logic.d.room.alivePlayerNames := by
  have hphase := h.neg.phase
  have hcontested := h.contested
  obtain ⟨⟨signal, hsignal, hasks⟩, hnew⟩ := hname
  have hsignal := hawaits signal hsignal
  unfold PhaseInv at hphase
  unfold Contested at hcontested
  cases signal with
  | requestRpsForAction playerNames =>
    rw [← hsignal.2.1]
    exact hasks
  | requestActionOrder playerName availableOrders maximumOrderNum selections =>
    obtain ⟨hstate, _, hpos, hvalue⟩ := hsignal
    obtain rfl := List.mem_singleton.mp hasks
    have hvalue := hvalue hnew
    rw [hstate] at hphase hcontested
    apply hcontested
    apply winner_of_share hphase.2 (.inr _)
    unfold QHash.value at hvalue ⊢
    cases hlookup : self.logic.d.actionOrderRemainingSelections.lookup name with
    | none =>
      simp only [hlookup, Option.getD_none] at hvalue
      omega
    | some n =>
      simp only [hlookup, Option.getD_some] at hvalue ⊢
      omega
  | requestRpsForActionOrder playerNames strivedOrder =>
    obtain ⟨hstate, _, rfl, _⟩ := hsignal
    rw [hstate] at hphase hcontested
    apply hcontested.1
    apply winner_of_share hphase.2.1 (.inl _)
    exact List.count_pos_iff.mpr (List.mem_map_of_mem (QMultiHash.mem_of_mem_values hasks))
  | requestAction playerName actionOrder =>
    obtain rfl := List.mem_singleton.mp hasks
    exact Room.mem_alivePlayerNames.mpr hsignal.2
  | requestUpgrade playerName upgradePoint => exact absurd hsignal.1 hround.2
  | _ => exact absurd hasks List.not_mem_nil

theorem WaitInv.contenders (h : WaitInv self)
    (hawaits : ∀ signal ∈ self.signals, Awaits self.logic.d self.answered signal)
    (hstate : self.logic.d.state = .RpsForActionOrder)
    (hsome : ∃ name, self.Outstanding name) : ∃ names strivedOrder,
      .requestRpsForActionOrder names strivedOrder ∈ self.signals ∧ names.Nodup ∧
        2 ≤ names.length := by
  obtain ⟨name, ⟨signal, hsignal, hasks⟩, _⟩ := hsome
  have hwaits := hawaits signal hsignal
  have hreplies := h.replies
  have hcontested := h.contested
  rw [RepliesAsked, hstate] at hreplies
  rw [Contested, hstate] at hcontested
  cases signal with
  | requestRpsForActionOrder playerNames strivedOrder =>
    obtain ⟨_, horder, hnames, _⟩ := hwaits
    refine ⟨playerNames, strivedOrder, hsignal, ?_, ?_⟩
    · rw [hnames]
      exact QMultiHash.values_nodup hreplies.1 _
    · rw [hnames, ← horder]
      exact hcontested.2
  | requestRpsForAction | requestActionOrder | requestAction | requestUpgrade =>
    have hother := hwaits.1
    rw [hstate] at hother
    cases hother
  | _ => exact absurd hasks List.not_mem_nil

theorem WaitInv.consumed (h : WaitInv self) (hround : InRound self.logic.d) {c : Call}
    {name : String} {ret : Bool} (hname : c.replier = some name)
    (hmember : name ∈ self.logic.d.room.playerNames) (hasked : self.logic.d.Asked c)
    (hcall : self.logic.call post c = .ok (ret, logic)) :
    self.Consumed name (self.next c logic) := by
  have hstep := call_cases hcall
  have haccepts := h.neg.accepts_of_asked hname hmember hasked
  have hcollects := hstep.collects h.neg h.replies hname hmember hasked
  have hnext := outstanding_next hname haccepts h.asked hcollects
  obtain ⟨signals, henv, hsome, hasks⟩ := hcollects.asks
  have hproceeds := hstep.proceeds h.neg hname haccepts hround
  constructor
  · rintro ⟨other, hother, hne⟩
    have hnone : signals = [] := by
      by_contra hemits
      exact hne (hsome.mp hemits other ((h.asked other).mpr hother))
    subst hnone
    rw [List.append_nil] at henv
    rw [next_logic]
    refine ⟨henv, fun other => ?_, fun c' hname' => ?_⟩
    · rw [← hnext, hasks, h.asked]
      simp
    · obtain ⟨_, hrecorded⟩ | ⟨signals, henv', hproceeds⟩ := hproceeds
      · exact hrecorded.not_accepts hname'
      · obtain rfl := List.self_eq_append_right.mp (henv.symm.trans henv')
        simp at hproceeds
  · intro hall
    have hemits := hsome.mpr fun other hother => hall other ((h.asked other).mp hother)
    rw [next_logic]
    obtain ⟨hsame, _⟩ | ⟨signals', henv', hproceeds⟩ := hproceeds
    · rw [hsame] at henv
      exact absurd (List.self_eq_append_right.mp henv) hemits
    · refine ⟨signals', henv', ?_⟩
      obtain ⟨signal, hsignal, hsomebody⟩ | ⟨hover, _⟩ := hproceeds
      · exact ⟨signal, hsignal, .inl hsomebody⟩
      · exact ⟨_, hover, .inr rfl⟩

theorem WaitInv.waitsRightly (h : WaitInv self) (hreach : system.Reachable self)
    (hround : InRound self.logic.d) (hnot : ¬ self.logic.d.Stranded) : self.WaitsRightly := by
  have hawaits := awaits_invariant.of_reachable hreach
  have hsome : ∃ name, self.Outstanding name := by
    obtain ⟨name, hname⟩ := (h.someone hround).resolve_left hnot
    exact ⟨name, (h.asked name).mp hname⟩
  refine ⟨hsome, fun name => h.alive hawaits hround, h.asked, fun hstate =>
    h.contenders hawaits hstate hsome, fun c name hname hasked => ?_⟩
  obtain ⟨ret, logic, hcall⟩ := call_ok (logic_reachable hreach) c
  have hplayer := (h.asked name).mp (askedPlayer_of_asked hname hasked)
  have halive := h.alive hawaits hround hplayer
  exact ⟨ret, logic, hcall, h.consumed hround hname (Room.alivePlayerNames_subset halive) hasked
    hcall⟩

theorem inRound_of_action {d : LogicP} (hstate : d.state = .Action) : InRound d := by
  rw [InRound, hstate]
  exact ⟨by decide, by decide⟩

theorem not_stranded_invariant :
    (system.guarded fun self c => Fair self c ∧ ¬ self.logic.d.Pointless c).Invariant
      fun self => WaitInv self ∧ ¬ self.logic.d.Stranded := by
  refine .guarded ?_ fun self c self' hguard h hstep => ?_
  · rintro _ ⟨conf, rfl⟩
    exact ⟨waitInv_invariant.init _ ⟨conf, rfl⟩, fun hstranded => by cases hstranded.1⟩
  · obtain ⟨ret, logic, hcall, rfl⟩ := hstep
    refine ⟨h.1.next hguard.1 hcall, ?_⟩
    rw [next_logic]
    exact mt ((call_cases hcall).pointless h.1.neg h.2) hguard.2

/-- As long as no round ends without an upgrade point, the machine waits for
those it has asked whenever a round is on; after a round that does it waits for
nobody. -/
theorem waits_for_somebody
    (hreach : (system.guarded fun self c => Fair self c ∧ ¬ self.logic.d.Pointless c).Reachable
      self) :
    (InRound self.logic.d → self.WaitsRightly) ∧
    ∀ c self', Fair self c → system.step self c self' → self.logic.d.Pointless c →
      InRound self'.logic.d ∧ ¬ self'.WaitsRightly := by
  obtain ⟨hinv, hnot⟩ := not_stranded_invariant.of_reachable hreach
  refine ⟨fun hround => hinv.waitsRightly (.of_guarded hreach) hround hnot,
    fun c self' hfair hstep hpointless => ?_⟩
  obtain ⟨ret, logic, hcall, rfl⟩ := hstep
  have hstranded := (call_cases hcall).stranded hpointless
  rw [← next_logic self c logic] at hstranded
  refine ⟨inRound_of_action hstranded.1, fun hwaits => ?_⟩
  obtain ⟨name, hname⟩ := hwaits.someone
  have hasked := (hwaits.asked name).mpr hname
  rw [AskedPlayer, hstranded.1, hstranded.2] at hasked
  exact absurd hasked.2 (by decide)

instance (self : Dialogue) (name : String) : Decidable (self.Outstanding name) :=
  inferInstanceAs (Decidable (_ ∧ _))

/-- A test for calls of fair runs. -/
def isFair (self : Dialogue) (c : Call) : Bool :=
  (c.replier.all fun name => decide (self.Outstanding name)) &&
    match c with
    | .roundStart => decide (2 ≤ self.logic.d.room.prepareForRoundStart.alivePlayersCount)
    | _ => true

theorem fair_of_isFair {c : Call} (h : self.isFair c = true) : Fair self c := by
  obtain ⟨hanswers, hstarts⟩ := Bool.and_eq_true_iff.mp h
  constructor
  · intro name hname
    rw [hname] at hanswers
    exact of_decide_eq_true hanswers
  · rintro rfl _
    exact of_decide_eq_true hstarts

/-- A has slashed B, the round is over, and nobody is asked for anything. -/
theorem waits_for_somebody_fails :
    ∃ self, (system.guarded Fair).Reachable self ∧ InRound self.logic.d ∧
      .roundOver ∈ self.signals ∧ ∀ name, ¬ self.Outstanding name := by
  obtain ⟨self, hreach, hover⟩ := exists_run
    ((LogicConfiguration.deserialize pointless).getD .defaults) isFair slashCalls
    (fun self => decide (self.logic.d.state = .Action ∧ .roundOver ∈ self.signals) &&
      self.signals.all fun signal => decide (signal.asks = [])) (by decide +kernel)
  obtain ⟨hover, hasks⟩ := Bool.and_eq_true_iff.mp hover
  obtain ⟨hstate, hsignal⟩ := of_decide_eq_true hover
  refine ⟨self, hreach.guarded_mono fun _ _ => fair_of_isFair, inRound_of_action hstate, hsignal,
    fun name hname => ?_⟩
  obtain ⟨⟨signal, hsignal, hname⟩, _⟩ := hname
  rw [of_decide_eq_true (List.all_eq_true.mp hasks signal hsignal)] at hname
  cases hname

/-- A and B fight for the first order. -/
def tieBreakCalls : List Call := [
  .addPlayer "A", .addPlayer "B", .addPlayer "C", .roundStart,
  .rpsReply "A" .Rock, .rpsReply "B" .Rock, .rpsReply "C" .Scissors,
  .actionOrderReply "A" [1], .actionOrderReply "B" [1], .rpsReply "B" .Paper]

theorem waits_for_somebody_tieBreak :
    ∃ self : Dialogue, self.logic.d.state = .RpsForActionOrder ∧ self.WaitsRightly := by
  obtain ⟨self, hreach, hstate⟩ := exists_run .defaults
    (fun self c => self.isFair c && decide (self.logic.d.state ≠ .Action)) tieBreakCalls
    (fun self => decide (self.logic.d.state = .RpsForActionOrder)) (by decide +kernel)
  have hstate := of_decide_eq_true hstate
  have hround : InRound self.logic.d := by
    rw [InRound, hstate]
    exact ⟨by decide, by decide⟩
  refine ⟨self, hstate, (waits_for_somebody (hreach.guarded_mono fun self c hguard => ?_)).1 hround⟩
  obtain ⟨hfair, hother⟩ := Bool.and_eq_true_iff.mp hguard
  refine ⟨fair_of_isFair hfair, fun hpointless => ?_⟩
  cases c with
  | actionReply => exact of_decide_eq_true hother hpointless.1.2
  | _ => exact hpointless

end Dialogue

end QMdmmCore
