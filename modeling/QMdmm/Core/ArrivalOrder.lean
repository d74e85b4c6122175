import QMdmm.Core.Asked
import QMdmm.Core.SameOutcome

namespace QMdmmCore

open Data Logic

namespace LogicP

/-- What a reply leaves behind that is collected until all of them have come,
before anything is done with them. -/
def collect (d : LogicP) : Call → LogicP
  | .rpsReply name rps =>
    if d.state = .RpsForAction then
      { d with rpsForActionReplies := AList.insert name rps d.rpsForActionReplies }
    else
      { d with rpsForActionOrderReplies := AList.insert name rps d.rpsForActionOrderReplies }
  | .actionOrderReply name desired =>
    let reply := d.chosenOrders (d.actionOrderRemainingSelections.value name (-1)) desired
    d.recordActionOrder name reply.2.1 reply.2.2
  | .upgradeReply name items =>
    match d.room.player name with
    | none => d
    | some p =>
      let items := if (d.upgradeFeasible name items).toOption = some true then items
        else feasibleItems d.room.logicConfiguration p
      { d with upgrades := AList.insert name items d.upgrades }
  | _ => d

/-- The replies that the state collects. -/
def Collects (d : LogicP) : Call → Prop
  | .rpsReply _ _ => d.state = .RpsForAction ∨ d.state = .RpsForActionOrder
  | .actionOrderReply _ _ => d.state = .ActionOrder
  | .upgradeReply _ _ => d.state = .Upgrade
  | _ => False

end LogicP

namespace Logic

/-- The replies that a phase collects. -/
def Call.isCollected : Call → Bool
  | .rpsReply _ _ => true
  | .actionOrderReply _ _ => true
  | .upgradeReply _ _ => true
  | _ => false

/-- What happens once the replies have been looked through. -/
def proceedBy (o : IterationOrder Loop) (self : Logic (List Signal)) :
    Except Fault (Logic (List Signal)) :=
  match self.d.state with
  | .RpsForAction => rpsForActionBy o post self
  | .ActionOrder => actionOrderBy o post self
  | .RpsForActionOrder => rpsForActionOrderBy o post self
  | .Upgrade => upgradeBy o post self
  | _ => .ok self

/-- A phase that is over: the calls the logic accepted in it, in the order in
which they came, and what it ended in. -/
structure Phase where
  calls : List Call
  ended : Logic (List Signal)

/-- The phases of a run that are over, the last one first, and the replies that
the present one has collected. -/
structure Phases where
  closed : List Phase
  replies : List Call

/-- A phase goes on as long as it collects replies and nothing is emitted; a call
the logic does not accept is no part of it. -/
def Phases.hear (before : Logic (List Signal)) (c : Call) (after : Logic (List Signal))
    (phases : Phases) : Phases :=
  if before.d.Accepts c then
    if c.isCollected ∧ after.env.length = before.env.length then
      { phases with replies := phases.replies ++ [c] }
    else ⟨⟨phases.replies ++ [c], after⟩ :: phases.closed, []⟩
  else phases

/-- The logic from any state on, with a new iteration order for every call. -/
def anyOrder (start : Logic (List Signal)) :
    TransitionSystem (Logic (List Signal)) (IterationOrder Loop × Call) where
  init self := self = start
  step self a self' := ∃ ret, self.callBy a.1 post a.2 = .ok (ret, self')

/-- The same, with its phases. -/
def inPhases (start : Logic (List Signal)) :
    TransitionSystem (Logic (List Signal) × Phases) (IterationOrder Loop × Call) :=
  (anyOrder start).recorded ⟨[], []⟩ fun before a after => Phases.hear before a.2 after

end Logic

namespace LogicP

variable {d d' : LogicP}

theorem Same.symm (h : d.Same d') : d'.Same d where
  room := h.room.symm
  state := h.state.symm
  rpsForActionReplies := h.rpsForActionReplies.symm
  rpsForActionWinners := h.rpsForActionWinners.symm
  rpsForActionTieStreak := h.rpsForActionTieStreak.symm
  desiredActionOrders := h.desiredActionOrders.symm
  confirmedActionOrders := h.confirmedActionOrders.symm
  actionOrderRemainingSelections := h.actionOrderRemainingSelections.symm
  actionOrderYields := h.actionOrderYields.symm
  currentStrivingActionOrder := h.currentStrivingActionOrder.symm
  rpsForActionOrderReplies := h.rpsForActionOrderReplies.symm
  currentActionOrder := h.currentActionOrder.symm
  upgrades := h.upgrades.symm

theorem Same.collect (h : d.Same d') (c : Call) : (d.collect c).Same (d'.collect c) := by
  cases c with
  | rpsReply name rps =>
    by_cases hstate : d'.state = .RpsForAction
    · rw [LogicP.collect, LogicP.collect, if_pos hstate, if_pos (h.state.trans hstate)]
      exact { h with rpsForActionReplies := h.rpsForActionReplies.insert name rps }
    · rw [LogicP.collect, LogicP.collect, if_neg hstate, if_neg (h.state ▸ hstate)]
      exact { h with rpsForActionOrderReplies := h.rpsForActionOrderReplies.insert name rps }
  | actionOrderReply name desired =>
    simp only [LogicP.collect, h.actionOrderRemainingSelections.value, h.chosenOrders]
    exact h.recordActionOrder name _ _
  | upgradeReply name items =>
    cases hplayer : d'.room.player name with
    | none => simpa only [LogicP.collect, h.room, hplayer] using h
    | some p =>
      have hplayer' : d.room.player name = some p := by rw [h.room, hplayer]
      simp only [LogicP.collect, hplayer, hplayer', h.upgradeFeasible]
      exact { h with
        upgrades := by
          rw [h.room]
          exact h.upgrades.insert name _ }
  | _ => exact h

@[simp] theorem collect_state (d : LogicP) (c : Call) : (d.collect c).state = d.state := by
  cases c <;> simp only [collect, recordActionOrder] <;> split <;> rfl

@[simp] theorem collect_room (d : LogicP) (c : Call) : (d.collect c).room = d.room := by
  cases c <;> simp only [collect, recordActionOrder] <;> split <;> rfl

/-- Replies of different players to one request may be recorded in either order. -/
theorem recordActionOrder_comm (d : LogicP) (name other : String) (chosen others : List Int)
    (yields further : Nat) :
    ((d.recordActionOrder name chosen yields).recordActionOrder other others further).Same
      ((d.recordActionOrder other others further).recordActionOrder name chosen yields) := by
  have hdesired (hash : QMultiHash Int String) (chosen : List Int) (name : String) :
      chosen.foldl (fun hash order => QMultiHash.insert hash order name) hash =
        (chosen.map fun order => (order, name)).reverse ++ hash := by
    simp [QMultiHash.insert]
  have hyields : ((d.recordActionOrder name chosen yields).recordActionOrder other others
      further).actionOrderYields.Same ((d.recordActionOrder other others
        further).recordActionOrder name chosen yields).actionOrderYields := by
    by_cases hfirst : yields > 0 <;> by_cases hsecond : further > 0 <;>
      simp only [recordActionOrder, hfirst, hsecond, if_true, if_false]
    · exact QHash.addEach_comm _ _ _ _ _
    all_goals exact .refl _
  exact { Same.refl d with
    desiredActionOrders := by
      simp only [recordActionOrder, hdesired]
      exact List.perm_append_comm_assoc _ _ _
    actionOrderYields := hyields
    actionOrderRemainingSelections := QHash.erase_comm _ _ _ }

theorem collect_rpsReply_comm (d : LogicP) {name other : String} (hne : name ≠ other)
    (rps thrown : RockPaperScissors) :
    ((d.collect (.rpsReply name rps)).collect (.rpsReply other thrown)).Same
      ((d.collect (.rpsReply other thrown)).collect (.rpsReply name rps)) := by
  by_cases hstate : d.state = .RpsForAction
  · simp only [collect, hstate, if_true]
    exact { Same.refl d with
      state := rfl
      rpsForActionReplies := QHash.insert_comm _ hne rps thrown }
  · simp only [collect, hstate, if_false]
    exact { Same.refl d with rpsForActionOrderReplies := QHash.insert_comm _ hne rps thrown }

theorem collect_actionOrderReply_comm (d : LogicP) {name other : String} (hne : name ≠ other)
    (desired wanted : List Int) :
    ((d.collect (.actionOrderReply name desired)).collect (.actionOrderReply other wanted)).Same
      ((d.collect (.actionOrderReply other wanted)).collect (.actionOrderReply name desired)) := by
  have hchosen (name : String) (chosen : List Int) (yields : Nat) (selections : Int)
      (desired : List Int) :
      (d.recordActionOrder name chosen yields).chosenOrders selections desired =
        d.chosenOrders selections desired := by
    apply chosenOrders_congr
    · rfl
    · exact fun _ => rfl
  have hvalue {name other : String} (hne : name ≠ other) (chosen : List Int) (yields : Nat) :
      (d.recordActionOrder name chosen yields).actionOrderRemainingSelections.value other (-1) =
        d.actionOrderRemainingSelections.value other (-1) := by
    rw [recordActionOrder, QHash.value_erase, if_neg hne.symm]
  simp only [collect, hchosen, hvalue hne, hvalue hne.symm]
  exact recordActionOrder_comm _ _ _ _ _ _ _

theorem collect_upgradeReply_comm (d : LogicP) {name other : String} (hne : name ≠ other)
    (items others : List UpgradeItem) :
    ((d.collect (.upgradeReply name items)).collect (.upgradeReply other others)).Same
      ((d.collect (.upgradeReply other others)).collect (.upgradeReply name items)) := by
  cases hp : d.room.player name with
  | none => cases hq : d.room.player other <;> simp only [collect, hp, hq] <;> exact .refl _
  | some p =>
    cases hq : d.room.player other with
    | none =>
      simp only [collect, hp, hq]
      exact .refl _
    | some q =>
      simp only [collect, hp, hq]
      exact { Same.refl d with upgrades := QHash.insert_comm _ hne _ _ }

/-- Replies of different players may be collected in either order. -/
theorem collect_comm {c c' : Call} (hc : d.Collects c) (hc' : d.Collects c')
    (hne : c.replier ≠ c'.replier) :
    ((d.collect c).collect c').Same ((d.collect c').collect c) := by
  cases c with
  | rpsReply name rps =>
    cases c' with
    | rpsReply other thrown =>
      exact d.collect_rpsReply_comm (fun heq => hne (congrArg some heq)) rps thrown
    | actionOrderReply | upgradeReply => simp_all [Collects]
    | _ => cases hc'
  | actionOrderReply name desired =>
    cases c' with
    | actionOrderReply other wanted =>
      exact d.collect_actionOrderReply_comm (fun heq => hne (congrArg some heq)) desired wanted
    | rpsReply | upgradeReply => simp_all [Collects]
    | _ => cases hc'
  | upgradeReply name items =>
    cases c' with
    | upgradeReply other others =>
      exact d.collect_upgradeReply_comm (fun heq => hne (congrArg some heq)) items others
    | rpsReply | actionOrderReply => simp_all [Collects]
    | _ => cases hc'
  | _ => cases hc

theorem collects_congr (hstate : d.state = d'.state) (c : Call) : d.Collects c ↔ d'.Collects c := by
  cases c <;> simp only [Collects, hstate]

theorem foldl_collect_state (replies : List Call) (d : LogicP) :
    (replies.foldl collect d).state = d.state := by
  induction replies generalizing d with
  | nil => rfl
  | cons c rest ih => rw [List.foldl_cons, ih, collect_state]

theorem Same.foldl_collect (h : d.Same d') (replies : List Call) :
    (replies.foldl LogicP.collect d).Same (replies.foldl LogicP.collect d') := by
  induction replies generalizing d d' with
  | nil => exact h
  | cons c rest ih => exact ih (h.collect c)

/-- The order in which the replies of a phase come does not matter. -/
theorem foldl_collect_perm {replies replies' : List Call} (hperm : replies.Perm replies')
    (hcollects : ∀ c ∈ replies, d.Collects c) (hdistinct : (replies.map Call.replier).Nodup) :
    (replies.foldl collect d).Same (replies'.foldl collect d) := by
  induction hperm generalizing d with
  | nil => exact .refl d
  | cons c _ ih =>
    rw [List.map_cons, List.nodup_cons] at hdistinct
    refine ih (fun c' hc' => ?_) hdistinct.2
    rw [collects_congr (d.collect_state c)]
    exact hcollects c' (List.mem_cons_of_mem _ hc')
  | swap c c' rest =>
    rw [List.map_cons, List.map_cons, List.nodup_cons] at hdistinct
    have hne : c'.replier ≠ c.replier := fun heq => hdistinct.1 (by simp [heq])
    exact (collect_comm (hcollects c' (by simp)) (hcollects c (by simp)) hne).foldl_collect rest
  | trans hperm _ ih ih' =>
    refine (ih hcollects hdistinct).trans (ih' (fun c hc => ?_) ?_)
    · exact hcollects c (hperm.mem_iff.mpr hc)
    · exact (hperm.map _).nodup_iff.mp hdistinct

theorem accepts_collect_rpsReply {name other : String} {rps thrown : RockPaperScissors}
    (hc : d.Collects (.rpsReply name rps)) :
    (d.collect (.rpsReply name rps)).Accepts (.rpsReply other thrown) ↔
      other ≠ name ∧ d.Accepts (.rpsReply other thrown) := by
  obtain hstate | hstate := hc <;>
    · simp [Accepts, collect, hstate, AList.mem_insert]
      tauto

theorem accepts_collect_actionOrderReply {name other : String} {desired wanted : List Int} :
    (d.collect (.actionOrderReply name desired)).Accepts (.actionOrderReply other wanted) ↔
      other ≠ name ∧ d.Accepts (.actionOrderReply other wanted) := by
  simp only [Accepts, collect, recordActionOrder, QHash.value_erase]
  by_cases hname : other = name <;> simp [hname]

theorem accepts_collect_upgradeReply {name other : String} {items others : List UpgradeItem}
    (hmember : name ∈ d.room.playerNames) :
    (d.collect (.upgradeReply name items)).Accepts (.upgradeReply other others) ↔
      other ≠ name ∧ d.Accepts (.upgradeReply other others) := by
  obtain ⟨p, hp⟩ := Room.player_of_mem_playerNames hmember
  simp only [Accepts, collect, hp, AList.mem_insert]
  tauto

/-- A reply that is collected makes the player's further replies unacceptable,
and nobody else's. -/
theorem accepts_collect {c c' : Call} (hc : d.Collects c) (haccepts : d.Accepts c)
    (hc' : d.Collects c') :
    (d.collect c).Accepts c' ↔ c'.replier ≠ c.replier ∧ d.Accepts c' := by
  cases c with
  | rpsReply name rps =>
    cases c' with
    | rpsReply other thrown => simpa [Call.replier] using accepts_collect_rpsReply hc
    | actionOrderReply | upgradeReply => simp_all [Collects]
    | _ => cases hc'
  | actionOrderReply name desired =>
    cases c' with
    | actionOrderReply other wanted =>
      simpa [Call.replier] using accepts_collect_actionOrderReply
    | rpsReply | upgradeReply => simp_all [Collects]
    | _ => cases hc'
  | upgradeReply name items =>
    cases c' with
    | upgradeReply other others =>
      simpa [Call.replier] using accepts_collect_upgradeReply haccepts.1
    | rpsReply | actionOrderReply => simp_all [Collects]
    | _ => cases hc'
  | _ => cases hc

theorem accepts_congr (h : d.Same d') (c : Call) : d.Accepts c ↔ d'.Accepts c := by
  cases c <;> simp only [Accepts, h.room, h.state, h.rpsForActionReplies.mem,
    h.rpsForActionOrderReplies.mem, h.actionOrderRemainingSelections.value, h.upgrades.mem]

/-- Players that have replied to the present request. -/
def Replied (d : LogicP) (replies : List Call) : Prop :=
  ∀ c ∈ replies, ∀ c', d.Collects c' → c'.replier = c.replier → ¬ d.Accepts c'

end LogicP

namespace Logic

open LogicP

variable {self self' : Logic (List Signal)} {o o' : IterationOrder Loop} {c : Call}

theorem Same.proceedBy (h : self.Same self') (o o' : IterationOrder Loop) :
    Except.Related Same (proceedBy o self) (proceedBy o' self') := by
  unfold Logic.proceedBy
  rw [h.d.state]
  cases self'.d.state with
  | RpsForAction => exact h.rpsForActionBy o o'
  | ActionOrder => exact h.actionOrderBy o o'
  | RpsForActionOrder => exact h.rpsForActionOrderBy o o'
  | Upgrade => exact h.upgradeBy o o'
  | _ => exact .ok h

theorem callBy_of_not_accepts (hreject : ¬ self.d.Accepts c) :
    self.callBy o post c = .ok (false, self) := by
  cases c with
  | rpsReply name rps =>
    rw [Logic.callBy, Logic.rpsReplyBy]
    split
    · next hplayer =>
      have hmember := Room.player_isSome.mp hplayer
      rw [if_neg fun hready => hreject ⟨hmember, .inl ⟨hready.1, by
          simpa [QHash.contains] using hready.2⟩⟩,
        if_neg fun hready => hreject ⟨hmember, .inr ⟨hready.1, by
          simpa [QHash.contains] using hready.2⟩⟩]
    · rfl
  | actionOrderReply name desired =>
    rw [Logic.callBy, Logic.actionOrderReplyBy]
    split
    · next hready =>
      exact if_neg fun hasked => hreject ⟨Room.player_isSome.mp hready.1, hready.2, hasked⟩
    · rfl
  | upgradeReply name items =>
    rw [Logic.callBy, Logic.upgradeReplyBy]
    cases hplayer : self.d.room.player name with
    | none => rfl
    | some p =>
      have hmember : name ∈ self.d.room.playerNames := by
        rw [← Room.player_isSome, hplayer]
        rfl
      exact if_neg fun hready => hreject ⟨hmember, hready.1, by
        simpa [QHash.contains] using hready.2⟩
  | _ => exact @call_of_not_accepts _ post self _ hreject

/-- A reply that is accepted is collected, and then the replies are looked
through. -/
theorem proceedBy_of_callBy {ret : Bool} (haccepts : self.d.Accepts c)
    (hcollected : c.isCollected = true) (hcall : self.callBy o post c = .ok (ret, self')) :
    proceedBy o (self.modify (·.collect c)) = .ok self' := by
  cases c with
  | rpsReply name rps =>
    obtain ⟨hmember, hready⟩ := haccepts
    simp only [Logic.callBy, Logic.rpsReplyBy, if_pos (Room.player_isSome.mpr hmember)] at hcall
    obtain ⟨hstate, hnew⟩ | ⟨hstate, hnew⟩ := hready
    · rw [if_pos ⟨hstate, by simpa [QHash.contains] using hnew⟩] at hcall
      obtain ⟨next, hnext, hcall⟩ := Except.bind_eq_ok.mp hcall
      cases hcall
      simpa only [proceedBy, modify, collect, hstate, if_true] using hnext
    · rw [if_neg (by simp [hstate]), if_pos ⟨hstate, by simpa [QHash.contains] using hnew⟩] at hcall
      obtain ⟨next, hnext, hcall⟩ := Except.bind_eq_ok.mp hcall
      cases hcall
      simpa [proceedBy, modify, collect, hstate] using hnext
  | actionOrderReply name desired =>
    obtain ⟨hmember, hstate, hasked⟩ := haccepts
    simp only [Logic.callBy, Logic.actionOrderReplyBy,
      if_pos (⟨Room.player_isSome.mpr hmember, hstate⟩ :
        (self.d.room.player name).isSome = true ∧ self.d.state = .ActionOrder)] at hcall
    rw [if_pos hasked] at hcall
    obtain ⟨next, hnext, hcall⟩ := Except.bind_eq_ok.mp hcall
    cases hcall
    simpa only [proceedBy, modify, collect, recordActionOrder, hstate] using hnext
  | upgradeReply name items =>
    obtain ⟨hmember, hstate, hnew⟩ := haccepts
    obtain ⟨p, hp⟩ := Room.player_of_mem_playerNames hmember
    simp only [Logic.callBy, Logic.upgradeReplyBy, hp] at hcall
    rw [if_pos ⟨hstate, by simpa [QHash.contains] using hnew⟩] at hcall
    obtain ⟨accepted, haccepted, hcall⟩ := Except.bind_eq_ok.mp hcall
    obtain ⟨next, hnext, hcall⟩ := Except.bind_eq_ok.mp hcall
    cases hcall
    simpa only [proceedBy, modify, collect, hp, haccepted, hstate, Except.toOption,
      Option.some.injEq] using hnext
  | _ => cases hcollected

theorem StartActionOrder.emits (hstep : StartActionOrder self self') :
    self.env.length < self'.env.length := by
  cases hstep with
  | settled _ _ haction =>
    obtain ⟨signals, henv, -⟩ := haction.plain
    rw [henv]
    simp only [List.length_append, List.length_singleton]
    omega
  | contested hnothing =>
    have hcount : self.d.strivingActionCount.count ≠ 0 := by
      simp only [nothingLeftToFightFor, Bool.or_eq_false_iff, decide_eq_false_iff_not] at hnothing
      exact hnothing.2
    have hlength : (actionOrderRequests self.d).length = self.d.strivingActionCount.count := by
      simp [actionOrderRequests, strivingNames, QHash.count, AList.keys, List.keys]
    rw [List.length_append, hlength]
    omega

theorem StartRpsForActionOrder.emits (hstep : StartRpsForActionOrder self self') :
    self.env.length < self'.env.length := by
  cases hstep with
  | uncontested _ hstart => exact hstart.emits
  | contested => simp

/-- Replies that are all there are answered with a signal. -/
theorem proceed_emits (hproceed : proceedBy .asListed self = .ok self') :
    self' = self ∨ self.env.length < self'.env.length := by
  unfold Logic.proceedBy at hproceed
  cases hstate : self.d.state with
  | RpsForAction =>
    rw [hstate] at hproceed
    cases rpsForAction_cases hproceed with
    | waiting => exact .inl rfl
    | tie => exact .inr (by simp)
    | decided _ _ _ hstart =>
      have hlonger := hstart.emits
      simp only [List.length_append, List.length_singleton] at hlonger
      exact .inr (by omega)
  | ActionOrder =>
    rw [hstate] at hproceed
    change Logic.actionOrder post self = .ok self' at hproceed
    unfold Logic.actionOrder at hproceed
    split at hproceed
    · exact .inr (startRpsForActionOrder_cases hproceed).emits
    · cases hproceed
      exact .inl rfl
  | RpsForActionOrder =>
    rw [hstate] at hproceed
    dsimp only at hproceed
    rw [rpsForActionOrderBy_asListed] at hproceed
    cases rpsForActionOrder_cases hproceed with
    | waiting => exact .inl rfl
    | decided _ hstart =>
      have hlonger := hstart.emits
      simp only [List.length_append, List.length_singleton] at hlonger
      exact .inr (by omega)
  | Upgrade =>
    rw [hstate] at hproceed
    cases upgrade_cases hproceed with
    | waiting => exact .inl rfl
    | gameOver | result => exact .inr (by simp)
  | _ =>
    rw [hstate] at hproceed
    cases hproceed
    exact .inl rfl

theorem Signal.Same.symm {signal signal' : Signal} (h : signal.Same signal') :
    signal'.Same signal := by
  cases h with
  | refl => exact .refl _
  | rpsResult hsame => exact .rpsResult hsame.symm
  | actionOrderResult hsame => exact .actionOrderResult hsame.symm
  | requestRpsForActionOrder hperm strivedOrder =>
    exact .requestRpsForActionOrder hperm.symm strivedOrder
  | upgradeResult hsame => exact .upgradeResult hsame.symm

theorem Signal.Same.trans {signal signal' signal'' : Signal} (h : signal.Same signal')
    (h' : signal'.Same signal'') : signal.Same signal'' := by
  cases h with
  | refl => exact h'
  | rpsResult hsame =>
    cases h' with
    | refl => exact .rpsResult hsame
    | rpsResult hsame' => exact .rpsResult (hsame.trans hsame')
  | actionOrderResult hsame =>
    cases h' with
    | refl => exact .actionOrderResult hsame
    | actionOrderResult hsame' => exact .actionOrderResult (hsame.trans hsame')
  | requestRpsForActionOrder hperm strivedOrder =>
    cases h' with
    | refl => exact .requestRpsForActionOrder hperm strivedOrder
    | requestRpsForActionOrder hperm' => exact .requestRpsForActionOrder (hperm.trans hperm') _
  | upgradeResult hsame =>
    cases h' with
    | refl => exact .upgradeResult hsame
    | upgradeResult hsame' => exact .upgradeResult (hsame.trans hsame')

theorem Same.symm (h : self.Same self') : self'.Same self :=
  ⟨h.d.symm, (h.env.imp fun _ _ hsignal => hsignal.symm).flip⟩

theorem Same.trans {self'' : Logic (List Signal)} (h : self.Same self') (h' : self'.Same self'') :
    self.Same self'' := by
  have henv {env env' env'' : List Signal} (h : List.Forall₂ Signal.Same env env')
      (h' : List.Forall₂ Signal.Same env' env'') : List.Forall₂ Signal.Same env env'' := by
    induction h generalizing env'' with
    | nil => exact h'
    | cons hsignal _ ih =>
      cases h' with
      | cons hsignal' hrest => exact .cons (hsignal.trans hsignal') (ih hrest)
  exact ⟨h.d.trans h'.d, henv h.env h'.env⟩

/-- A reply that is followed by no signal has only been collected. -/
theorem proceedBy_silent (hproceed : proceedBy o self = .ok self')
    (hsilent : self'.env.length = self.env.length) : self'.Same self := by
  obtain ⟨next, hnext, hsame⟩ := ((Same.refl self).proceedBy o .asListed).exists_ok hproceed
  have hlength := hsame.env.length_eq
  obtain rfl | hlonger := proceed_emits hnext
  · exact hsame
  · omega

/-- How a phase ends: with the last reply it waits for, or with a call that is
acted on at once. -/
inductive PhaseEnds (start : Logic (List Signal)) : List Call → Logic (List Signal) → Prop where
  | collected {replies : List Call} {ready ended : Logic (List Signal)} {o : IterationOrder Loop}
      (hcollects : ∀ c ∈ replies, start.d.Collects c)
      (hdistinct : (replies.map Call.replier).Nodup)
      (hready : ready.Same (start.modify fun d => replies.foldl collect d))
      (hend : proceedBy o ready = .ok ended) : PhaseEnds start replies ended
  | other {replies : List Call} {c : Call} {ready ended : Logic (List Signal)}
      {o : IterationOrder Loop} {ret : Bool} (hcollects : ∀ c ∈ replies, start.d.Collects c)
      (hdistinct : (replies.map Call.replier).Nodup) (hother : c.isCollected = false)
      (hready : ready.Same (start.modify fun d => replies.foldl collect d))
      (hend : ready.callBy o post c = .ok (ret, ended)) : PhaseEnds start (replies ++ [c]) ended

/-- Phases one after another. -/
inductive Played (start : Logic (List Signal)) : List Phase → Logic (List Signal) → Prop where
  | start : Played start [] start
  | phase {phase : Phase} {closed : List Phase} {mid : Logic (List Signal)}
      (hplayed : Played start closed mid) (hends : PhaseEnds mid phase.calls phase.ended) :
      Played start (phase :: closed) phase.ended

theorem isCollected_of_collects {d : LogicP} (hc : d.Collects c) : c.isCollected = true := by
  cases c with
  | rpsReply | actionOrderReply | upgradeReply => rfl
  | _ => cases hc

theorem collects_of_accepts {d : LogicP} (haccepts : d.Accepts c) (hc : c.isCollected = true) :
    d.Collects c := by
  cases c with
  | rpsReply => exact haccepts.2.imp And.left And.left
  | actionOrderReply | upgradeReply => exact haccepts.2.1
  | _ => cases hc

theorem Same.modify_collect (h : self.Same self') {replies replies' : List Call}
    (hperm : replies.Perm replies') (hcollects : ∀ c ∈ replies, self.d.Collects c)
    (hdistinct : (replies.map Call.replier).Nodup) :
    (self.modify fun d => replies.foldl collect d).Same
      (self'.modify fun d => replies'.foldl collect d) :=
  h.modify ((foldl_collect_perm hperm hcollects hdistinct).trans (h.d.foldl_collect replies'))

/-- The same replies in another order end a phase in the same way. -/
theorem PhaseEnds.same {start start' ended ended' : Logic (List Signal)}
    {calls calls' : List Call} (hstart : start.Same start') (hperm : calls.Perm calls')
    (hends : PhaseEnds start calls ended) (hends' : PhaseEnds start' calls' ended') :
    ended.Same ended' := by
  cases hends with
  | @collected _ ready _ o hcollects hdistinct hready hend =>
    cases hends' with
    | @collected _ ready' _ o' _ _ hready' hend' =>
      have hsame := hready.trans ((hstart.modify_collect hperm hcollects hdistinct).trans
        hready'.symm)
      exact (hsame.proceedBy o o').of_ok hend hend'
    | @other replies' c' _ _ _ _ _ _ hother' _ _ =>
      have hcollected := isCollected_of_collects (hcollects c' (hperm.mem_iff.mpr (by simp)))
      rw [hother'] at hcollected
      cases hcollected
  | @other replies c ready _ o ret hcollects hdistinct hother hready hend =>
    cases hends' with
    | collected hcollects' =>
      have hcollected := isCollected_of_collects (hcollects' c (hperm.mem_iff.mp (by simp)))
      rw [hother] at hcollected
      cases hcollected
    | @other replies' c' ready' _ o' ret' hcollects' _ hother' hready' hend' =>
      have hmem : c ∈ replies' ++ [c'] := hperm.mem_iff.mp (by simp)
      obtain hmem | hmem := List.mem_append.mp hmem
      · have hcollected := isCollected_of_collects (hcollects' c hmem)
        rw [hother] at hcollected
        cases hcollected
      · obtain rfl := List.mem_singleton.mp hmem
        have hreplies := (List.perm_append_right_iff [c]).mp hperm
        have hsame := hready.trans ((hstart.modify_collect hreplies hcollects hdistinct).trans
          hready'.symm)
        exact ((hsame.callBy o o' c).of_ok hend hend').2

theorem Played.same {start mid mid' : Logic (List Signal)} {closed closed' : List Phase}
    (hplayed : Played start closed mid) (hplayed' : Played start closed' mid')
    (hreplies : List.Forall₂ (fun phase phase' => phase.calls.Perm phase'.calls) closed closed') :
    List.Forall₂ (fun phase phase' => phase.ended.Same phase'.ended) closed closed' ∧
      mid.Same mid' := by
  induction hplayed generalizing closed' mid' with
  | start =>
    cases hreplies
    cases hplayed'
    exact ⟨.nil, .refl _⟩
  | phase _ hends ih =>
    cases hreplies with
    | cons hperm hrest =>
      cases hplayed' with
      | phase hplayed' hends' =>
        obtain ⟨hclosed, hmid⟩ := ih hplayed' hrest
        have hended := hends.same hmid hperm hends'
        exact ⟨.cons hended hclosed, hended⟩

/-- Where a run stands: after some phases, with the replies since then collected
and nothing else done. -/
def Standing (start self : Logic (List Signal)) (phases : Phases) : Prop :=
  ∃ mid, Played start phases.closed mid ∧ (∀ c ∈ phases.replies, mid.d.Collects c) ∧
    (phases.replies.map Call.replier).Nodup ∧
    self.Same (mid.modify fun d => phases.replies.foldl collect d) ∧
    self.d.Replied phases.replies

theorem Standing.hear {start : Logic (List Signal)} {phases : Phases} {ret : Bool}
    (h : Standing start self phases) (hcall : self.callBy o post c = .ok (ret, self')) :
    Standing start self' (phases.hear self c self') := by
  obtain ⟨mid, hplayed, hcollects, hdistinct, hsame, hreplied⟩ := h
  unfold Phases.hear
  by_cases haccepts : self.d.Accepts c
  · rw [if_pos haccepts]
    by_cases hcollected : c.isCollected = true
    · have hc := collects_of_accepts haccepts hcollected
      have hstate : self.d.state = mid.d.state :=
        hsame.d.state.trans (foldl_collect_state phases.replies mid.d)
      have hproceed := proceedBy_of_callBy haccepts hcollected hcall
      have hready : (self.modify (·.collect c)).Same
          (mid.modify fun d => (phases.replies ++ [c]).foldl collect d) := by
        have hd := hsame.d.collect c
        simp only [List.foldl_append]
        exact ⟨hd, hsame.env⟩
      have hcollects' : ∀ c' ∈ phases.replies ++ [c], mid.d.Collects c' := by
        intro c' hc'
        obtain hc' | hc' := List.mem_append.mp hc'
        · exact hcollects c' hc'
        · rw [List.mem_singleton.mp hc', ← collects_congr hstate]
          exact hc
      have hnew : c.replier ∉ phases.replies.map Call.replier := by
        intro hmem
        obtain ⟨c', hc', hreplier⟩ := List.mem_map.mp hmem
        exact hreplied c' hc' c hc hreplier.symm haccepts
      have hdistinct' : ((phases.replies ++ [c]).map Call.replier).Nodup := by
        rw [List.map_append, List.nodup_append]
        simp only [List.map_cons, List.map_nil, List.nodup_singleton, List.mem_singleton]
        exact ⟨hdistinct, trivial, fun a ha b hb heq => hnew (hb ▸ heq ▸ ha)⟩
      by_cases hsilent : self'.env.length = self.env.length
      · rw [if_pos ⟨hcollected, hsilent⟩]
        have hquiet := proceedBy_silent hproceed hsilent
        refine ⟨mid, hplayed, hcollects', hdistinct', hquiet.trans hready, ?_⟩
        intro c₁ hc₁ c' hc' hreplier
        have hstate' : self'.d.state = self.d.state := hquiet.d.state.trans (collect_state _ _)
        rw [collects_congr hstate'] at hc'
        rw [accepts_congr hquiet.d, modify_d, accepts_collect hc haccepts hc']
        obtain hc₁ | hc₁ := List.mem_append.mp hc₁
        · exact fun hboth => hreplied c₁ hc₁ c' hc' hreplier hboth.2
        · exact fun hboth => hboth.1 (by rw [hreplier, List.mem_singleton.mp hc₁])
      · rw [if_neg fun hboth => hsilent hboth.2]
        exact ⟨self', .phase hplayed (.collected hcollects' hdistinct' hready hproceed),
          by simp, by simp, .refl _, by simp [LogicP.Replied]⟩
    · rw [if_neg fun hboth => hcollected hboth.1]
      have hother : c.isCollected = false := by simpa using hcollected
      exact ⟨self', .phase hplayed (.other hcollects hdistinct hother hsame hcall),
        by simp, by simp, .refl _, by simp [LogicP.Replied]⟩
  · rw [if_neg haccepts]
    rw [callBy_of_not_accepts haccepts] at hcall
    cases hcall
    exact ⟨mid, hplayed, hcollects, hdistinct, hsame, hreplied⟩

theorem standing_invariant (start : Logic (List Signal)) :
    (inPhases start).Invariant fun s => Standing start s.1 s.2 where
  init s hinit := by
    obtain ⟨rfl, hphases⟩ := hinit
    rw [hphases]
    exact ⟨s.1, .start, by simp, by simp, .refl _, by simp [LogicP.Replied]⟩
  step s a t hs hstep := by
    obtain ⟨⟨ret, hcall⟩, hphases⟩ := hstep
    rw [hphases]
    exact hs.hear hcall

/-- The order in which the replies of each phase come, and the orders in which
hashes are iterated, change nothing: the runs emit the same signals, and each
phase ends in the same room and the same state. -/
theorem arrival_order_irrelevant {start self self' : Logic (List Signal)} {phases phases' : Phases}
    (hreach : (inPhases start).Reachable (self, phases))
    (hreach' : (inPhases start).Reachable (self', phases'))
    (hreplies : List.Forall₂ (fun phase phase' => phase.calls.Perm phase'.calls)
      phases.closed phases'.closed) :
    List.Forall₂ (fun phase phase' => phase.ended.Same phase'.ended) phases.closed phases'.closed ∧
      (phases.replies.Perm phases'.replies → self.Same self') := by
  obtain ⟨mid, hplayed, hcollects, hdistinct, hsame, -⟩ :=
    (standing_invariant start).of_reachable hreach
  obtain ⟨mid', hplayed', -, -, hsame', -⟩ := (standing_invariant start).of_reachable hreach'
  obtain ⟨hended, hmid⟩ := hplayed.same hplayed' hreplies
  refine ⟨hended, fun hperm => ?_⟩
  have hcollected := hmid.modify_collect hperm hcollects hdistinct
  exact hsame.trans (hcollected.trans hsame'.symm)

/-- A step as computed. -/
def playBy (s : Logic (List Signal) × Phases) (a : IterationOrder Loop × Call) :
    Option (Logic (List Signal) × Phases) :=
  (s.1.callBy a.1 post a.2).toOption.map fun result =>
    (result.2, Phases.hear s.1 a.2 result.2 s.2)

theorem step_of_playBy (start : Logic (List Signal)) {s t : Logic (List Signal) × Phases}
    {a : IterationOrder Loop × Call} (hplay : playBy s a = some t) :
    (inPhases start).step s a t := by
  obtain ⟨⟨ret, logic⟩, hresult, rfl⟩ := Option.map_eq_some_iff.mp hplay
  refine ⟨⟨ret, ?_⟩, rfl⟩
  cases hlogic : s.1.callBy a.1 post a.2 with
  | error => simp [hlogic, Except.toOption] at hresult
  | ok result =>
    rw [hlogic] at hresult
    exact congrArg Except.ok (Option.some.inj hresult)

/-- A run whose phases hear the given calls, with nothing collected since. -/
theorem exists_phases (start : Logic (List Signal)) (o : IterationOrder Loop) (calls : List Call)
    (heard : List (List Call))
    (hrun : ((calls.map (o, ·)).foldlM (fun s a => if true then playBy s a else none)
      (start, ⟨[], []⟩)).any (fun s => decide (s.2.closed.map Phase.calls = heard)) = true) :
    ∃ s, (inPhases start).Reachable s ∧ s.2.closed.map Phase.calls = heard := by
  obtain ⟨s, hreach, hheard⟩ := TransitionSystem.exists_reachable_foldlM
    (fun _ _ _ hplay => step_of_playBy start hplay)
    (⟨rfl, rfl⟩ : (inPhases start).init (start, ⟨[], []⟩)) hrun
  exact ⟨s, .of_guarded hreach, of_decide_eq_true hheard⟩

/-- Two winners that pick different orders: the throws and the picks come in one
order, and in the other. -/
theorem arrival_order_irrelevant_winners :
    ∃ s t, (inPhases (Logic.start .defaults)).Reachable s ∧
      (inPhases (Logic.start .defaults)).Reachable t ∧
      s.2.closed.map Phase.calls ≠ t.2.closed.map Phase.calls ∧
      List.Forall₂ (fun phase phase' => phase.ended.Same phase'.ended) s.2.closed t.2.closed := by
  obtain ⟨s, hs, hheard⟩ := exists_phases (Logic.start .defaults) .asListed
    [.addPlayer "A", .addPlayer "B", .addPlayer "C", .roundStart,
      .rpsReply "A" .Rock, .rpsReply "B" .Rock, .rpsReply "C" .Scissors,
      .actionOrderReply "A" [2], .actionOrderReply "B" [1]]
    [[.actionOrderReply "A" [2], .actionOrderReply "B" [1]],
      [.rpsReply "A" .Rock, .rpsReply "B" .Rock, .rpsReply "C" .Scissors],
      [.roundStart], [.addPlayer "C"], [.addPlayer "B"], [.addPlayer "A"]] (by decide +kernel)
  obtain ⟨t, ht, hheard'⟩ := exists_phases (Logic.start .defaults) .reversed
    [.addPlayer "A", .addPlayer "B", .addPlayer "C", .roundStart,
      .rpsReply "C" .Scissors, .rpsReply "A" .Rock, .rpsReply "B" .Rock,
      .actionOrderReply "B" [1], .actionOrderReply "A" [2]]
    [[.actionOrderReply "B" [1], .actionOrderReply "A" [2]],
      [.rpsReply "C" .Scissors, .rpsReply "A" .Rock, .rpsReply "B" .Rock],
      [.roundStart], [.addPlayer "C"], [.addPlayer "B"], [.addPlayer "A"]] (by decide +kernel)
  have hreplies : List.Forall₂ (fun phase phase' => phase.calls.Perm phase'.calls)
      s.2.closed t.2.closed := by
    have hcalls : List.Forall₂ List.Perm (s.2.closed.map Phase.calls)
        (t.2.closed.map Phase.calls) := by
      rw [hheard, hheard']
      exact .cons (by decide) (.cons (by decide) (List.forall₂_same.mpr fun _ _ => .refl _))
    rwa [List.forall₂_map_right_iff, List.forall₂_map_left_iff] at hcalls
  refine ⟨s, t, hs, ht, ?_, (arrival_order_irrelevant hs ht hreplies).1⟩
  rw [hheard, hheard']
  decide

end Logic

end QMdmmCore
