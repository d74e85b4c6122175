import QMdmm.Core.NoFault

namespace QMdmmCore

open Data Logic

namespace LogicP

variable {d : LogicP}

/-- The player has a request that it has not answered yet. -/
def AskedPlayer (d : LogicP) (name : String) : Prop :=
  match d.state with
  | .BeforeRoundStart => False
  | .RpsForAction => name ∈ d.room.alivePlayerNames ∧ name ∉ d.rpsForActionReplies
  | .ActionOrder => name ∈ d.actionOrderRemainingSelections
  | .RpsForActionOrder =>
    name ∈ d.desiredActionOrders.values d.currentStrivingActionOrder ∧
      name ∉ d.rpsForActionOrderReplies
  | .Action =>
    -- The action that ends a round is the answer to the last request of it.
    name = d.confirmedPlayer d.currentActionOrder ∧ d.room.isRoundOver = false
  | .Upgrade => name ∈ d.upgraders.map (·.objectName) ∧ name ∉ d.upgrades

instance (d : LogicP) (name : String) : Decidable (d.AskedPlayer name) := by
  unfold AskedPlayer
  cases d.state <;> exact inferInstance

/-- A reply to a request of its kind, by a player that has one. -/
def Asked (d : LogicP) : Call → Prop
  | .rpsReply name _ =>
    (d.state = .RpsForAction ∨ d.state = .RpsForActionOrder) ∧ d.AskedPlayer name
  | .actionOrderReply name _ => d.state = .ActionOrder ∧ d.AskedPlayer name
  | .actionReply name _ _ _ => d.state = .Action ∧ d.AskedPlayer name
  | .upgradeReply name _ => d.state = .Upgrade ∧ d.AskedPlayer name
  | _ => False

instance (d : LogicP) (c : Call) : Decidable (d.Asked c) := by
  unfold Asked
  cases c <;> exact inferInstance

/-- The condition on a reply nobody asked for: its kind is not due, or one of
this player has been recorded already. Orders are only taken from players that
have selections left. -/
def Unheeded (d : LogicP) : Call → Prop
  | .rpsReply name _ =>
    (d.state = .RpsForAction → name ∈ d.rpsForActionReplies) ∧
      (d.state = .RpsForActionOrder → name ∈ d.rpsForActionOrderReplies)
  | .actionReply _ _ _ _ => d.state ≠ .Action
  | .upgradeReply name _ => d.state = .Upgrade → name ∈ d.upgrades
  | _ => True

/-- The replies recorded so far are those of players that were asked. -/
def RepliesAsked (d : LogicP) : Prop :=
  match d.state with
  | .RpsForAction => ∀ p ∈ d.rpsForActionReplies, p ∈ d.room.alivePlayerNames
  | .ActionOrder => d.desiredActionOrders.Nodup ∧
      ∀ entry ∈ d.desiredActionOrders, entry.2 ∉ d.actionOrderRemainingSelections
  | .RpsForActionOrder => d.desiredActionOrders.Nodup ∧
      ∀ p ∈ d.rpsForActionOrderReplies,
        p ∈ d.desiredActionOrders.values d.currentStrivingActionOrder
  | .Upgrade => d.room.isRoundOver = true ∧
      ∀ p ∈ d.upgrades, p ∈ d.upgraders.map (·.objectName)
  | _ => True

end LogicP

namespace Logic

/-- The player a reply speaks for. -/
def Call.replier : Call → Option String
  | .rpsReply name _ => some name
  | .actionOrderReply name _ => some name
  | .actionReply name _ _ _ => some name
  | .upgradeReply name _ => some name
  | _ => none

/-- The players a request goes to. -/
def Signal.asks : Signal → List String
  | .requestRpsForAction playerNames => playerNames
  | .requestActionOrder playerName _ _ _ => [playerName]
  | .requestRpsForActionOrder playerNames _ => playerNames
  | .requestAction playerName _ => [playerName]
  | .requestUpgrade playerName _ => [playerName]
  | _ => []

end Logic

namespace LogicP

variable {d : LogicP}

theorem confirmUncontested_sublist (d : LogicP) :
    d.confirmUncontested.desiredActionOrders.Sublist d.desiredActionOrders := by
  have hfold (orders : List Int) (d : LogicP) :
      (orders.foldl confirmOrder d).desiredActionOrders.Sublist d.desiredActionOrders := by
    induction orders generalizing d with
    | nil => exact .refl _
    | cons order rest ih =>
      refine (ih _).trans ?_
      rw [confirmOrder]
      split
      · exact List.filter_sublist
      · exact .refl _
  exact hfold _ d

private theorem checkDesiredOrders_nodup {desired chosen result : List Int} {yields total : Nat}
    (hcheck : d.checkDesiredOrders desired chosen yields = some (result, total))
    (hnodup : chosen.Nodup) : result.Nodup := by
  induction desired generalizing chosen yields with
  | nil =>
    cases hcheck
    exact hnodup
  | cons order rest ih =>
    rw [checkDesiredOrders] at hcheck
    split at hcheck
    · exact ih hcheck hnodup
    · split at hcheck
      · next hlegal =>
        apply ih hcheck
        rw [List.nodup_append]
        refine ⟨hnodup, List.nodup_singleton _, fun old hold new hnew heq => ?_⟩
        rw [List.mem_singleton] at hnew
        exact hlegal.2.2.2 (hnew ▸ heq ▸ hold)
      · cases hcheck

theorem chosenOrders_nodup {selections : Int} {desired chosen : List Int} {accepted : Bool}
    {yields : Nat} (hchosen : d.chosenOrders selections desired = (accepted, chosen, yields)) :
    chosen.Nodup := by
  rw [chosenOrders] at hchosen
  split at hchosen
  · split at hchosen
    · next hcheck =>
      cases hchosen
      exact checkDesiredOrders_nodup hcheck List.nodup_nil
    · cases hchosen
      exact List.nodup_nil
  · cases hchosen
    exact List.nodup_nil

/-- A player that has picked wants different orders, and is asked no more. -/
theorem recordActionOrder_desired {name : String} {desired chosen : List Int} {accepted : Bool}
    {yields : Nat} {selections : Int}
    (hchosen : d.chosenOrders selections desired = (accepted, chosen, yields))
    (hnodup : d.desiredActionOrders.Nodup)
    (hnames : ∀ entry ∈ d.desiredActionOrders, entry.2 ∉ d.actionOrderRemainingSelections)
    (hasked : name ∈ d.actionOrderRemainingSelections) :
    (d.recordActionOrder name chosen yields).desiredActionOrders.Nodup ∧
      ∀ entry ∈ (d.recordActionOrder name chosen yields).desiredActionOrders,
        entry.2 ∉ (d.recordActionOrder name chosen yields).actionOrderRemainingSelections := by
  have hfold (chosen : List Int) (hash : QMultiHash Int String) :
      chosen.foldl (fun hash order => hash.insert order name) hash =
        (chosen.map fun order => (order, name)).reverse ++ hash := by
    induction chosen generalizing hash with
    | nil => rfl
    | cons order rest ih => simp [QMultiHash.insert]
  simp only [recordActionOrder, hfold]
  constructor
  · rw [List.nodup_append]
    refine ⟨?_, hnodup, fun new hnew old hold heq => ?_⟩
    · rw [List.nodup_reverse]
      exact (chosenOrders_nodup hchosen).map fun order other heq => congrArg Prod.fst heq
    · subst heq
      rw [List.mem_reverse] at hnew
      obtain ⟨order, _, rfl⟩ := List.mem_map.mp hnew
      exact hnames _ hold hasked
  · intro entry hentry
    rw [AList.mem_erase]
    rintro ⟨hother, hstill⟩
    rcases List.mem_append.mp hentry with hnew | hold
    · rw [List.mem_reverse] at hnew
      obtain ⟨order, _, rfl⟩ := List.mem_map.mp hnew
      exact hother rfl
    · exact hnames entry hold hstill

end LogicP

namespace Logic

open LogicP

variable {self self' : Logic (List Signal)}

/-- A new phase has begun: the signals since `env` went to exactly the players
that now have a request, and no reply has been recorded that was not asked for. -/
structure Advances (env : List Signal) (logic : Logic (List Signal)) : Prop where
  repliesAsked : logic.d.RepliesAsked
  asks : ∃ signals, logic.env = env ++ signals ∧ signals ≠ [] ∧
    ∀ other, logic.d.AskedPlayer other ↔ ∃ signal ∈ signals, other ∈ signal.asks

theorem Advances.after {env : List Signal} {signal : Signal}
    (h : Advances (env ++ [signal]) self) (hquiet : signal.asks = []) : Advances env self := by
  obtain ⟨signals, henv, _, hasks⟩ := h.asks
  refine ⟨h.repliesAsked, signal :: signals, by simp [henv], by simp, fun other => ?_⟩
  simp [hasks, hquiet]

theorem enterRpsForAction_advances (d : LogicP) (env : List Signal) :
    Advances env ⟨d.enterRpsForAction, env ++ [.requestRpsForAction d.room.alivePlayerNames]⟩ where
  repliesAsked _ hp := absurd hp (AList.notMem_empty _)
  asks := by
    refine ⟨_, rfl, by simp, fun other => ?_⟩
    simp [AskedPlayer, enterRpsForAction, Signal.asks, AList.notMem_empty]

theorem NextAction.advances (hstep : NextAction self self')
    (hgoing : self.d.room.isRoundOver = false) : Advances self.env self' := by
  cases hstep with
  | turn =>
    refine ⟨trivial, _, rfl, by simp, fun other => ?_⟩
    simp only [AskedPlayer, hgoing, and_true, List.mem_singleton, exists_eq_left, Signal.asks]
    rfl
  | again => exact enterRpsForAction_advances _ _

theorem StartAction.advances (hstep : StartAction self self')
    (hgoing : self.d.room.isRoundOver = false ∨ self.d.state = .Action) :
    Advances self.env self' := by
  cases hstep with
  | next hgoing hnext => exact hnext.advances hgoing
  | roundOver hover =>
    have hstate : self.d.state = .Action := by
      rcases hgoing with hgoing | hstate
      · rw [hover] at hgoing
        cases hgoing
      · exact hstate
    by_cases hnone : self.d.upgraders = []
    · -- Nobody has a point: the machine stays in the Action it has come from.
      refine ⟨?_, _, List.append_assoc _ _ _, by simp, fun other => ?_⟩
      · simp only [RepliesAsked, enterUpgrade, hnone, if_true, hstate]
      · simp [AskedPlayer, enterUpgrade, hnone, hstate, hover, Signal.asks]
    · refine ⟨?_, _, List.append_assoc _ _ _, by simp, fun other => ?_⟩
      · simp only [RepliesAsked, enterUpgrade, hnone, if_false]
        exact ⟨hover, fun p hp => absurd hp (AList.notMem_empty _)⟩
      · have hasked : self.d.enterUpgrade.AskedPlayer other ↔
            other ∈ self.d.upgraders.map (·.objectName) := by
          simp only [AskedPlayer, enterUpgrade, hnone, if_false, AList.notMem_empty,
            not_false_eq_true, and_true]
          rfl
        rw [hasked]
        simp only [List.mem_map, List.mem_append, List.mem_singleton, Signal.asks]
        constructor
        · rintro ⟨p, hp, rfl⟩
          exact ⟨_, .inr ⟨p, hp, rfl⟩, List.mem_singleton_self _⟩
        · rintro ⟨_, rfl | ⟨p, hp, rfl⟩, hother⟩
          · exact absurd hother List.not_mem_nil
          · exact ⟨p, hp, (List.mem_singleton.mp hother).symm⟩

/-- Where something is left to fight for, somebody is asked. -/
theorem actionOrderRequests_ne_nil {d : LogicP} (hnothing : d.nothingLeftToFightFor = false) :
    actionOrderRequests d ≠ [] := by
  intro hnil
  simp only [actionOrderRequests, List.map_eq_nil_iff, strivingNames] at hnil
  have hkeys := (List.perm_insertionSort (· ≤ ·) d.strivingActionCount.keys).length_eq
  simp only [nothingLeftToFightFor, Bool.or_eq_false_iff, decide_eq_false_iff_not] at hnothing
  apply hnothing.2
  rw [hnil] at hkeys
  simpa [QHash.count, AList.keys, List.keys] using hkeys.symm

theorem StartActionOrder.advances (hstep : StartActionOrder self self')
    (hgoing : self.d.room.isRoundOver = false) : Advances self.env self' := by
  cases hstep with
  | settled _ _ haction => exact (haction.advances (.inl hgoing)).after rfl
  | contested hnothing =>
    refine ⟨⟨List.nodup_nil, fun entry hentry => absurd hentry List.not_mem_nil⟩, _, rfl, ?_,
      fun other => ?_⟩
    · exact actionOrderRequests_ne_nil hnothing
    · simp only [AskedPlayer, enterActionOrder, QHash.mem_foldl_insert, actionOrderRequests]
      simp [AList.notMem_empty, Signal.asks]

theorem StartRpsForActionOrder.advances (hstep : StartRpsForActionOrder self self')
    (hgoing : self.d.room.isRoundOver = false) (hnodup : self.d.desiredActionOrders.Nodup) :
    Advances self.env self' := by
  cases hstep with
  | uncontested _ hstart =>
    apply hstart.advances
    rw [confirmUncontested_room]
    exact hgoing
  | contested =>
    refine ⟨⟨hnodup.sublist (confirmUncontested_sublist _), fun p hp => ?_⟩, _, rfl, by simp,
      fun other => ?_⟩
    · exact absurd hp (AList.notMem_empty _)
    · simp [AskedPlayer, enterRpsForActionOrder, Signal.asks, AList.notMem_empty]

/-- One reply of a player that was asked is collected: a new phase begins exactly
if nobody else has a request left, and the players that have one afterwards are
the others that had one, and those the new signals ask. -/
structure Collects (before : Logic (List Signal)) (name : String) (after : Logic (List Signal)) :
    Prop where
  repliesAsked : after.d.RepliesAsked
  asks : ∃ signals, after.env = before.env ++ signals ∧
    (signals ≠ [] ↔ ∀ other, before.d.AskedPlayer other → other = name) ∧
    ∀ other, after.d.AskedPlayer other ↔
      (before.d.AskedPlayer other ∧ other ≠ name) ∨ ∃ signal ∈ signals, other ∈ signal.asks

theorem Advances.collects {name : String} (h : Advances self.env self')
    (hall : ∀ other, self.d.AskedPlayer other → other = name) : Collects self name self' := by
  obtain ⟨signals, henv, hsome, hasks⟩ := h.asks
  refine ⟨h.repliesAsked, signals, henv, iff_of_true hsome hall, fun other => ?_⟩
  rw [hasks]
  constructor
  · exact .inr
  · rintro (⟨hother, hne⟩ | hother)
    · exact absurd (hall other hother) hne
    · exact hother

theorem Collects.waiting {name : String} {d : LogicP} (hreplies : d.RepliesAsked)
    (hmore : ¬ ∀ other, self.d.AskedPlayer other → other = name)
    (hasked : ∀ other, d.AskedPlayer other ↔ self.d.AskedPlayer other ∧ other ≠ name) :
    Collects self name ⟨d, self.env⟩ where
  repliesAsked := hreplies
  asks := ⟨[], by simp, iff_of_false (by simp) hmore, fun other => by simp [hasked]⟩

/-- All of `asked` have answered, once `name` has, exactly if nobody else had a
request left. -/
theorem all_replied_iff {V : Type} {replies : QHash String V} {asked : List String} {name : String}
    {v : V} : (∀ other ∈ asked, other ∈ AList.insert name v replies) ↔
      ∀ other, other ∈ asked ∧ other ∉ replies → other = name := by
  simp only [AList.mem_insert, and_imp]
  refine forall_congr' fun other => forall_congr' fun _ => ?_
  tauto

theorem RpsForAction.collects {name : String} {rps : RockPaperScissors}
    (hstate : self.d.state = .RpsForAction) (hreplies : self.d.RepliesAsked)
    (hasked : self.d.AskedPlayer name)
    (hstep : RpsForAction
      ⟨{ self.d with rpsForActionReplies := AList.insert name rps self.d.rpsForActionReplies },
        self.env⟩ self') : Collects self name self' := by
  simp only [RepliesAsked, hstate] at hreplies
  simp only [AskedPlayer, hstate] at hasked
  have hsub : ∀ p ∈ AList.insert name rps self.d.rpsForActionReplies,
      p ∈ self.d.room.alivePlayerNames := by
    intro p hp
    rcases (AList.mem_insert _).mp hp with rfl | hp
    · exact hasked.1
    · exact hreplies p hp
  have hall : QHash.count (AList.insert name rps self.d.rpsForActionReplies) =
      self.d.room.alivePlayersCount ↔ ∀ other, self.d.AskedPlayer other → other = name := by
    have hcount := QHash.count_eq_length_iff self.d.room.alivePlayerNames_nodup hsub
    rw [all_replied_iff, Room.length_alivePlayerNames] at hcount
    simpa only [AskedPlayer, hstate] using hcount
  cases hstep with
  | waiting hcount =>
    apply Collects.waiting
    · simpa only [RepliesAsked, hstate] using hsub
    · rwa [← hall]
    · intro other
      simp only [AskedPlayer, hstate, AList.mem_insert]
      tauto
  | tie hcount =>
    refine Advances.collects ?_ (hall.mp hcount)
    apply Advances.after (enterRpsForAction_advances _ _)
    rfl
  | decided hcount hwinners hsome hstart =>
    refine Advances.collects ((hstart.advances ?_).after rfl) (hall.mp hcount)
    have htwo : 2 ≤ self.d.room.alivePlayersCount :=
      (two_le_count_of_winners (hwinners ▸ hsome)).trans_eq hcount
    simp only [Room.isRoundOver, decide_eq_false_iff_not]
    omega

theorem RpsForActionOrder.collects {name : String} {rps : RockPaperScissors}
    (hstate : self.d.state = .RpsForActionOrder) (hgoing : self.d.room.isRoundOver = false)
    (hreplies : self.d.RepliesAsked) (hasked : self.d.AskedPlayer name)
    (hstep : RpsForActionOrder
      ⟨{ self.d with
          rpsForActionOrderReplies := AList.insert name rps self.d.rpsForActionOrderReplies },
        self.env⟩ self') : Collects self name self' := by
  simp only [RepliesAsked, hstate] at hreplies
  simp only [AskedPlayer, hstate] at hasked
  have hsub : ∀ p ∈ AList.insert name rps self.d.rpsForActionOrderReplies,
      p ∈ self.d.desiredActionOrders.values self.d.currentStrivingActionOrder := by
    intro p hp
    rcases (AList.mem_insert _).mp hp with rfl | hp
    · exact hasked.1
    · exact hreplies.2 p hp
  have hall := QHash.count_eq_length_iff (QMultiHash.values_nodup hreplies.1 _) hsub
  rw [all_replied_iff] at hall
  cases hstep with
  | waiting hcount =>
    apply Collects.waiting
    · simpa only [RepliesAsked, hstate] using ⟨hreplies.1, hsub⟩
    · simpa only [AskedPlayer, hstate] using mt hall.mpr hcount
    · intro other
      simp only [AskedPlayer, hstate, AList.mem_insert]
      tauto
  | decided hcount hstart =>
    refine Advances.collects ((hstart.advances hgoing ?_).after rfl) ?_
    · exact hreplies.1.sublist (dropLosers_sublist _ _ _)
    · simpa only [AskedPlayer, hstate] using hall.mp hcount

theorem UpgradeStep.collects {name : String} {items : List UpgradeItem}
    (hstate : self.d.state = .Upgrade) (hreplies : self.d.RepliesAsked)
    (hasked : self.d.AskedPlayer name)
    (hstep : UpgradeStep
      ⟨{ self.d with upgrades := AList.insert name items self.d.upgrades }, self.env⟩ self') :
    Collects self name self' := by
  simp only [RepliesAsked, hstate] at hreplies
  simp only [AskedPlayer, hstate] at hasked
  have hsub : ∀ p ∈ AList.insert name items self.d.upgrades,
      p ∈ self.d.upgraders.map (·.objectName) := by
    intro p hp
    rcases (AList.mem_insert _).mp hp with rfl | hp
    · exact hasked.1
    · exact hreplies.2 p hp
  have hnodup : (self.d.upgraders.map (·.objectName)).Nodup :=
    self.d.room.playerNames_nodup.sublist (List.filter_sublist.map _)
  have hall := QHash.count_eq_length_iff hnodup hsub
  rw [all_replied_iff, List.length_map] at hall
  cases hstep with
  | waiting hcount =>
    rcases hcount with hgoing | hcount
    · rw [show self.d.room.isRoundOver = false from hgoing] at hreplies
      simp at hreplies
    · apply Collects.waiting
      · simp only [RepliesAsked, hstate]
        exact ⟨hreplies.1, hsub⟩
      · simpa only [AskedPlayer, hstate] using mt hall.mpr hcount
      · intro other
        simp only [AskedPlayer, hstate, AList.mem_insert, upgraders]
        tauto
  | gameOver _ hcount | result _ hcount =>
    refine Advances.collects ⟨trivial, _, rfl, by simp, fun other => ?_⟩ ?_
    · simp [AskedPlayer, Signal.asks]
    · simpa only [AskedPlayer, hstate] using hall.mp hcount

/-- Only a player that has selections left is asked for orders. -/
theorem mem_selections_iff {d : LogicP} (h : d.Conserved) {name : String} :
    name ∈ d.actionOrderRemainingSelections ↔
      0 ≤ d.actionOrderRemainingSelections.value name (-1) := by
  have hnonneg := h.selections_nonneg name
  rw [← AList.lookup_isSome]
  unfold QHash.value at hnonneg ⊢
  cases hlookup : d.actionOrderRemainingSelections.lookup name with
  | none => simp
  | some n => simpa [hlookup] using hnonneg

/-- Between a room member that has no request and the logic stands nothing but
the phase and the replies recorded so far. -/
theorem NegotiationInv.accepts_iff (h : NegotiationInv self) {c : Call} {name : String}
    (hname : c.replier = some name) (hmember : name ∈ self.d.room.playerNames)
    (hasked : ¬ self.d.Asked c) : self.d.Accepts c ↔ ¬ self.d.Unheeded c := by
  have hphase := h.phase
  cases c with
  | rpsReply replier rps =>
    obtain rfl := Option.some.inj hname
    simp only [Accepts, Unheeded, hmember, true_and]
    tauto
  | actionOrderReply replier desired =>
    obtain rfl := Option.some.inj hname
    refine iff_of_false (fun haccepts => hasked ⟨haccepts.2.1, ?_⟩) fun hnot => hnot trivial
    rw [PhaseInv, haccepts.2.1] at hphase
    rw [AskedPlayer, haccepts.2.1]
    exact (mem_selections_iff hphase.2).mpr haccepts.2.2
  | actionReply replier action toPlayer toPlace =>
    obtain rfl := Option.some.inj hname
    simp only [Accepts, Unheeded, hmember, true_and, not_not, ne_eq]
  | upgradeReply replier items =>
    obtain rfl := Option.some.inj hname
    simp only [Accepts, Unheeded, hmember, true_and]
    tauto
  | _ => cases hname

theorem NegotiationInv.accepts_of_asked (h : NegotiationInv self) {c : Call} {name : String}
    (hname : c.replier = some name) (hmember : name ∈ self.d.room.playerNames)
    (hasked : self.d.Asked c) : self.d.Accepts c := by
  have hphase := h.phase
  cases c with
  | rpsReply replier rps =>
    obtain rfl := Option.some.inj hname
    obtain ⟨hstate | hstate, hasked⟩ := hasked
    · rw [AskedPlayer, hstate] at hasked
      exact ⟨hmember, .inl ⟨hstate, hasked.2⟩⟩
    · rw [AskedPlayer, hstate] at hasked
      exact ⟨hmember, .inr ⟨hstate, hasked.2⟩⟩
  | actionOrderReply replier desired =>
    obtain rfl := Option.some.inj hname
    obtain ⟨hstate, hasked⟩ := hasked
    rw [AskedPlayer, hstate] at hasked
    rw [PhaseInv, hstate] at hphase
    exact ⟨hmember, hstate, (mem_selections_iff hphase.2).mp hasked⟩
  | actionReply replier action toPlayer toPlace =>
    obtain rfl := Option.some.inj hname
    exact ⟨hmember, hasked.1⟩
  | upgradeReply replier items =>
    obtain rfl := Option.some.inj hname
    obtain ⟨hstate, hasked⟩ := hasked
    rw [AskedPlayer, hstate] at hasked
    exact ⟨hmember, hstate, hasked.2⟩
  | _ => cases hname

/-- The last pick is the one nobody else's is still missing after. -/
theorem lastPick_iff {d : LogicP} {name : String} {chosen : List Int} {yields : Nat}
    (hstate : d.state = .ActionOrder) :
    (d.recordActionOrder name chosen yields).actionOrderRemainingSelections.count = 0 ↔
      ∀ other, d.AskedPlayer other → other = name := by
  simp only [recordActionOrder, QHash.count_eq_zero_iff, AList.mem_erase, AskedPlayer, hstate]
  refine forall_congr' fun other => ?_
  tauto

/-- The reply of a player that was asked is collected. -/
theorem CallStep.collects {c : Call} {ret : Bool} {name : String} (h : NegotiationInv self)
    (hreplies : self.d.RepliesAsked) (hname : c.replier = some name)
    (hmember : name ∈ self.d.room.playerNames) (hasked : self.d.Asked c)
    (hstep : CallStep self c ret self') : Collects self name self' := by
  have hphase := h.phase
  cases hstep with
  | addPlayer | removePlayer | roundStart => cases hname
  | rejected hreject => exact absurd (h.accepts_of_asked hname hmember hasked) hreject
  | rpsForAction _ hstate _ hstep =>
    obtain rfl := Option.some.inj hname
    exact hstep.collects hstate hreplies hasked.2
  | rpsForActionOrder _ hstate _ hstep =>
    obtain rfl := Option.some.inj hname
    rw [PhaseInv, hstate] at hphase
    exact hstep.collects hstate hphase.1.going hreplies hasked.2
  | pick _ hstate hvalue hchosen hrecord hmore =>
    obtain rfl := Option.some.inj hname
    have hpicked := hasked.2
    simp only [RepliesAsked, hstate] at hreplies
    rw [AskedPlayer, hstate] at hpicked
    subst hrecord
    apply Collects.waiting
    · simpa only [RepliesAsked, recordActionOrder, hstate] using
        recordActionOrder_desired hchosen hreplies.1 hreplies.2 hpicked
    · exact mt (lastPick_iff hstate).mpr hmore
    · intro other
      simp only [AskedPlayer, recordActionOrder, hstate, AList.mem_erase]
      tauto
  | lastPick _ hstate hvalue hchosen hrecord hlast hstep =>
    obtain rfl := Option.some.inj hname
    have hpicked := hasked.2
    simp only [RepliesAsked, hstate] at hreplies
    rw [AskedPlayer, hstate] at hpicked
    rw [PhaseInv, hstate] at hphase
    subst hrecord
    refine Advances.collects (hstep.advances hphase.1.going ?_) ((lastPick_iff hstate).mp hlast)
    exact (recordActionOrder_desired hchosen hreplies.1 hreplies.2 hpicked).1
  | action _ hstate _ _ hperform hstep =>
    obtain rfl := Option.some.inj hname
    obtain ⟨hframe, _, _⟩ := (performAction_cases hperform).frame
    refine Advances.collects ((hstep.advances (.inr ?_)).after rfl) fun other hother => ?_
    · rw [hframe]
      exact hstate
    · have hholder := hasked.2
      rw [AskedPlayer, hstate] at hother hholder
      exact hother.1.trans hholder.1.symm
  | upgrade _ hstate _ _ _ hstep =>
    obtain rfl := Option.some.inj hname
    exact hstep.collects hstate hreplies hasked.2

theorem UpgradeStep.eq_or_env_ne (hstep : UpgradeStep self self') :
    self' = self ∨ self'.env ≠ self.env := by
  cases hstep with
  | waiting => exact .inl rfl
  | gameOver | result => exact .inr (by simp)

/-- An accepted reply that returns false still reports an action or records
the upgrades it has been replaced with. -/
theorem CallStep.ne_self {c : Call} {name : String} (hname : c.replier = some name)
    (haccepts : self.d.Accepts c) (hpick : ∀ desired, c ≠ .actionOrderReply name desired)
    (hstep : CallStep self c false self') : self' ≠ self := by
  cases hstep with
  | rejected hreject => exact absurd haccepts hreject
  | pick | lastPick =>
    obtain rfl := Option.some.inj hname
    exact absurd rfl (hpick _)
  | action _ _ _ _ _ hstep =>
    obtain ⟨signals, henv, _⟩ := hstep.plain
    rintro rfl
    have := congrArg List.length henv
    simp at this
  | upgrade _ _ hnew _ _ hstep =>
    intro heq
    rcases hstep.eq_or_env_ne with hsame | henv
    · have hupgrades := congrArg (·.d.upgrades) (heq.symm.trans hsame)
      apply hnew
      rw [hupgrades]
      exact (AList.mem_insert _).mpr (.inl rfl)
    · exact henv (by rw [heq])

/-- A room member without a request is ignored exactly if its reply is not due. -/
theorem NegotiationInv.ignored_iff (h : NegotiationInv self) {c : Call} {name : String}
    (hname : c.replier = some name) (hmember : name ∈ self.d.room.playerNames)
    (hasked : ¬ self.d.Asked c) : self.call post c = .ok (false, self) ↔ self.d.Unheeded c := by
  constructor
  · intro hcall
    by_contra hdue
    refine (call_cases hcall).ne_self hname ((h.accepts_iff hname hmember hasked).mpr hdue) ?_ rfl
    rintro desired rfl
    exact hdue trivial
  · intro hunheeded
    apply call_of_not_accepts
    rw [h.accepts_iff hname hmember hasked]
    exact not_not.mpr hunheeded

/-- No call of a room member that counts is one nobody asked for. -/
def OnlyAsked (logic : Logic (List Signal)) (c : Call) : Prop :=
  ∀ name, c.replier = some name → name ∈ logic.d.room.playerNames →
    logic.d.Asked c ∨ logic.d.Unheeded c

theorem member_of_accepts {d : LogicP} {c : Call} {name : String} (hname : c.replier = some name)
    (haccepts : d.Accepts c) : name ∈ d.room.playerNames := by
  cases c with
  | rpsReply | actionOrderReply | actionReply | upgradeReply =>
    obtain rfl := Option.some.inj hname
    exact haccepts.1
  | _ => cases hname

theorem NegotiationInv.repliesAsked (h : NegotiationInv self) (hreplies : self.d.RepliesAsked)
    {c : Call} {ret : Bool} (honly : OnlyAsked self c) (hcall : self.call post c = .ok (ret, self')) :
    self'.d.RepliesAsked := by
  by_cases haccepts : self.d.Accepts c
  · cases hname : c.replier with
    | some name =>
      have hmember := member_of_accepts hname haccepts
      have hasked : self.d.Asked c := by
        by_contra hnot
        rcases honly name hname hmember with hasked | hunheeded
        · exact hnot hasked
        · exact (h.accepts_iff hname hmember hnot).mp haccepts hunheeded
      exact ((call_cases hcall).collects h hreplies hname hmember hasked).repliesAsked
    | none =>
      cases call_cases hcall with
      | rejected => exact hreplies
      | addPlayer hstate | removePlayer hstate => simp only [RepliesAsked, hstate]
      | roundStart => exact fun p hp => absurd hp (AList.notMem_empty _)
      | _ => cases hname
  · rw [call_of_not_accepts haccepts] at hcall
    cases hcall
    exact hreplies

/-- A room member that has no request is ignored exactly if its reply is not
due, and as long as no other replies count, a phase ends with the last of the
replies it asked for. -/
theorem asked_replies_only {c : Call} {name : String} (hname : c.replier = some name)
    (hmember : name ∈ self.d.room.playerNames) :
    (system.Reachable self → ¬ self.d.Asked c →
      (self.call post c = .ok (false, self) ↔ self.d.Unheeded c)) ∧
    ((system.guarded OnlyAsked).Reachable self → self.d.Asked c →
      ∃ ret self', self.call post c = .ok (ret, self') ∧ Collects self name self') := by
  have hinv : (system.guarded OnlyAsked).Invariant
      fun logic => NegotiationInv logic ∧ logic.d.RepliesAsked := by
    refine .guarded ?_ fun logic c logic' honly h hnext => ?_
    · rintro _ ⟨conf, rfl⟩
      exact ⟨negotiationInv_invariant.init _ ⟨conf, rfl⟩, trivial⟩
    · obtain ⟨ret, hcall⟩ := hnext
      exact ⟨h.1.call (call_cases hcall), h.1.repliesAsked h.2 honly hcall⟩
  constructor
  · intro hreach hasked
    exact (negotiationInv_invariant.of_reachable hreach).ignored_iff hname hmember hasked
  · intro hreach hasked
    obtain ⟨hneg, hreplies⟩ := hinv.of_reachable hreach
    obtain ⟨ret, self', hcall⟩ := call_ok (.of_guarded hreach) c
    exact ⟨ret, self', hcall, (call_cases hcall).collects hneg hreplies hname hmember hasked⟩

/-- Up to the first action, which is A's. -/
def firstActionCalls : List Call := [
  .addPlayer "A", .addPlayer "B", .roundStart, .rpsReply "A" .Rock, .rpsReply "B" .Scissors]

/-- The turn is A's, but the logic takes B's action for it. -/
theorem asked_replies_only_fails :
    ∃ self, system.Reachable self ∧ "B" ∈ self.d.room.playerNames ∧
      ¬ self.d.Asked (.actionReply "B" .DoNothing "" 0) ∧ self.d.AskedPlayer "A" ∧
      ∃ self', self.call post (.actionReply "B" .DoNothing "" 0) = .ok (true, self') ∧
        self.env.length < self'.env.length := by
  obtain ⟨self, hreach, hstray⟩ := exists_reachable .defaults firstActionCalls
    (fun self => decide ("B" ∈ self.d.room.playerNames) &&
      !decide (self.d.Asked (.actionReply "B" .DoNothing "" 0)) &&
      decide (self.d.AskedPlayer "A") &&
      (self.call post (.actionReply "B" .DoNothing "" 0)).toOption.any fun result =>
        result.1 && decide (self.env.length < result.2.env.length)) (by decide)
  simp only [Bool.and_eq_true, decide_eq_true_eq, Bool.not_eq_true', decide_eq_false_iff_not]
    at hstray
  obtain ⟨⟨⟨hmember, hnot⟩, hasked⟩, hcall⟩ := hstray
  obtain ⟨⟨ret, self'⟩, hcall, hemits⟩ := Except.toOption_any.mp hcall
  obtain ⟨rfl, hemits⟩ := Bool.and_eq_true_iff.mp hemits
  exact ⟨self, hreach, hmember, hnot, hasked, self', hcall, of_decide_eq_true hemits⟩

theorem asked_replies_only_turn :
    ∃ self, (system.guarded OnlyAsked).Reachable self ∧
      self.call post (.rpsReply "B" .Rock) = .ok (false, self) ∧
      ∃ ret self', self.call post (.actionReply "A" .Move "" 0) = .ok (ret, self') ∧
        Collects self "A" self' := by
  obtain ⟨self, hreach, hturn⟩ := exists_guarded_reachable .defaults
    (fun logic c => c.replier = none || logic.d.Asked c) firstActionCalls
    (fun self => decide ("A" ∈ self.d.room.playerNames ∧ "B" ∈ self.d.room.playerNames ∧
      self.d.state = .Action) && decide (self.d.Asked (.actionReply "A" .Move "" 0)))
    (by decide)
  simp only [Bool.and_eq_true, decide_eq_true_eq] at hturn
  obtain ⟨⟨hmemberA, hmemberB, hstate⟩, hasked⟩ := hturn
  have honly := hreach.guarded_mono (H := OnlyAsked) fun logic c hguard name hname _ => by
    rw [hname] at hguard
    exact .inl (by simpa using hguard)
  refine ⟨self, honly, ?_, (asked_replies_only rfl hmemberA).2 honly hasked⟩
  refine ((asked_replies_only rfl hmemberB).1 (.of_guarded honly) ?_).mpr ?_
  · simp [Asked, hstate]
  · simp [Unheeded, hstate]

end Logic

end QMdmmCore
