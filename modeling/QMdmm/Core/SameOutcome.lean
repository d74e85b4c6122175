import QMdmm.Core.AnyOrder
import QMdmm.Core.Negotiation
import QMdmm.Core.RoomSteps
import QMdmm.Core.RpsOutcome

namespace QMdmmCore

open Data Logic

namespace Data

variable {judgers judgers' : QHash String RockPaperScissors}

theorem wins_congr (hsame : judgers.Same judgers') (rps : RockPaperScissors) :
    Wins judgers rps ↔ Wins judgers' rps := by
  unfold Wins
  simp only [List.Perm.mem_iff hsame]

/-- Who wins, and how often, does not depend on the order of the throws. -/
theorem rockPaperScissorsWinners_perm (hsame : judgers.Same judgers') :
    (rockPaperScissorsWinners judgers).Perm (rockPaperScissorsWinners judgers') := by
  have hwinners : (rpsWinners judgers).Perm (rpsWinners judgers') := by
    unfold rpsWinners
    simp only [wins_congr hsame]
    exact (List.Perm.filter _ hsame).map _
  have hlosers : (rpsLosers judgers).Perm (rpsLosers judgers') := by
    unfold rpsLosers
    simp only [wins_congr hsame]
    exact (List.Perm.filter _ hsame).map _
  rw [List.perm_iff_count]
  intro p
  rw [count_rockPaperScissorsWinners, count_rockPaperScissorsWinners, hlosers.length_eq]
  simp only [hwinners.mem_iff]

end Data

namespace Logic

/-- The same signal, with its maps and the names of `requestRpsForActionOrder`
compared up to order. -/
inductive Signal.Same : Signal → Signal → Prop where
  | refl (signal : Signal) : Signal.Same signal signal
  | rpsResult {replies replies' : QHash String RockPaperScissors} (hsame : replies.Same replies') :
      Signal.Same (.rpsResult replies) (.rpsResult replies')
  | actionOrderResult {result result' : QHash Int String} (hsame : result.Same result') :
      Signal.Same (.actionOrderResult result) (.actionOrderResult result')
  | requestRpsForActionOrder {names names' : List String} (hperm : names.Perm names')
      (strivedOrder : Int) :
      Signal.Same (.requestRpsForActionOrder names strivedOrder)
        (.requestRpsForActionOrder names' strivedOrder)
  | upgradeResult {upgrades upgrades' : QHash String (List UpgradeItem)}
      (hsame : upgrades.Same upgrades') :
      Signal.Same (.upgradeResult upgrades) (.upgradeResult upgrades')

end Logic

/-- The same private data: the same room and the same state, and containers with
the same contents. -/
structure LogicP.Same (d d' : LogicP) : Prop where
  room : d.room = d'.room
  state : d.state = d'.state
  rpsForActionReplies : d.rpsForActionReplies.Same d'.rpsForActionReplies
  rpsForActionWinners : d.rpsForActionWinners.Perm d'.rpsForActionWinners
  rpsForActionTieStreak : d.rpsForActionTieStreak = d'.rpsForActionTieStreak
  desiredActionOrders : d.desiredActionOrders.Perm d'.desiredActionOrders
  confirmedActionOrders : d.confirmedActionOrders.Same d'.confirmedActionOrders
  actionOrderRemainingSelections :
    d.actionOrderRemainingSelections.Same d'.actionOrderRemainingSelections
  actionOrderYields : d.actionOrderYields.Same d'.actionOrderYields
  currentStrivingActionOrder : d.currentStrivingActionOrder = d'.currentStrivingActionOrder
  rpsForActionOrderReplies : d.rpsForActionOrderReplies.Same d'.rpsForActionOrderReplies
  currentActionOrder : d.currentActionOrder = d'.currentActionOrder
  upgrades : d.upgrades.Same d'.upgrades

/-- The same logic, with the same signals in the same order. -/
structure Logic.Same (logic logic' : Logic (List Signal)) : Prop where
  d : logic.d.Same logic'.d
  env : List.Forall₂ Signal.Same logic.env logic'.env

namespace LogicP

variable {d d' d'' : LogicP}

theorem Same.refl (d : LogicP) : d.Same d :=
  ⟨rfl, rfl, .refl _, .refl _, rfl, .refl _, .refl _, .refl _, .refl _, rfl, .refl _, rfl, .refl _⟩

theorem Same.trans (h : d.Same d') (h' : d'.Same d'') : d.Same d'' where
  room := h.room.trans h'.room
  state := h.state.trans h'.state
  rpsForActionReplies := h.rpsForActionReplies.trans h'.rpsForActionReplies
  rpsForActionWinners := h.rpsForActionWinners.trans h'.rpsForActionWinners
  rpsForActionTieStreak := h.rpsForActionTieStreak.trans h'.rpsForActionTieStreak
  desiredActionOrders := h.desiredActionOrders.trans h'.desiredActionOrders
  confirmedActionOrders := h.confirmedActionOrders.trans h'.confirmedActionOrders
  actionOrderRemainingSelections :=
    h.actionOrderRemainingSelections.trans h'.actionOrderRemainingSelections
  actionOrderYields := h.actionOrderYields.trans h'.actionOrderYields
  currentStrivingActionOrder := h.currentStrivingActionOrder.trans h'.currentStrivingActionOrder
  rpsForActionOrderReplies := h.rpsForActionOrderReplies.trans h'.rpsForActionOrderReplies
  currentActionOrder := h.currentActionOrder.trans h'.currentActionOrder
  upgrades := h.upgrades.trans h'.upgrades

/-- Taking orders out one after another leaves those that are not taken out. -/
theorem foldl_filter_ne {V : Type} (entries : List (Sigma fun _ : Int => V)) (orders : List Int) :
    entries.foldl (fun orders entry => orders.filter (· ≠ entry.1)) orders =
      orders.filter fun order => order ∉ entries.map fun entry => entry.1 := by
  induction entries generalizing orders with
  | nil => simp
  | cons entry rest ih =>
    rw [List.foldl_cons, ih, List.filter_filter]
    refine List.filter_congr fun order _ => ?_
    simp only [List.map_cons, List.mem_cons, not_or, Bool.decide_and]
    rw [Bool.and_comm]

/-- Confirming orders changes nothing but who desires and who holds them. -/
theorem foldl_confirmOrder (orders : List Int) (d : LogicP) :
    orders.foldl confirmOrder d =
      { d with
        confirmedActionOrders := (orders.foldl confirmOrder d).confirmedActionOrders
        desiredActionOrders := (orders.foldl confirmOrder d).desiredActionOrders } := by
  induction orders generalizing d with
  | nil => rfl
  | cons first rest ih =>
    rw [List.foldl_cons, ih]
    unfold confirmOrder
    split <;> rfl

/-- What stays desired is what several players desire. -/
theorem foldl_confirmOrder_desiredActionOrders (orders : List Int) (d : LogicP) :
    (orders.foldl confirmOrder d).desiredActionOrders =
      d.desiredActionOrders.filter fun entry =>
        ¬ (entry.1 ∈ orders ∧ d.desiredActionOrders.count entry.1 = 1) := by
  induction orders generalizing d with
  | nil => simp
  | cons first rest ih =>
    rw [List.foldl_cons, ih]
    by_cases hsingle : d.desiredActionOrders.count first = 1
    · simp only [count_confirmOrder]
      rw [confirmOrder, if_pos hsingle, QMultiHash.removeKey, List.filter_filter]
      refine List.filter_congr fun entry _ => ?_
      by_cases hentry : entry.1 = first <;> simp [hentry, hsingle]
    · rw [confirmOrder, if_neg hsingle]
      refine List.filter_congr fun entry _ => ?_
      by_cases hentry : entry.1 = first <;> simp [hentry, hsingle]

/-- The orders that one player alone desires are that player's. -/
theorem lookup_foldl_confirmOrder (orders : List Int) (d : LogicP) (order : Int) :
    (orders.foldl confirmOrder d).confirmedActionOrders.lookup order =
      if order ∈ orders ∧ d.desiredActionOrders.count order = 1 then
        some (d.desiredActionOrders.value order "")
      else d.confirmedActionOrders.lookup order := by
  induction orders generalizing d with
  | nil => simp
  | cons first rest ih =>
    rw [List.foldl_cons, ih, count_confirmOrder]
    by_cases hsingle : d.desiredActionOrders.count first = 1
    · by_cases horder : order = first
      · subst horder
        simp [confirmOrder, hsingle]
      · have hvalue : (d.desiredActionOrders.removeKey first).value order "" =
            d.desiredActionOrders.value order "" := by
          rw [QMultiHash.value, QMultiHash.values_removeKey, if_neg horder, QMultiHash.value]
        rw [confirmOrder, if_pos hsingle]
        simp [horder, hvalue, AList.lookup_insert_ne]
    · rw [confirmOrder, if_neg hsingle]
      by_cases horder : order = first <;> simp [horder, hsingle]

/-- The loop over the unique keys comes past every order that counts. -/
theorem uniqueKeys_loop (o : IterationOrder Loop) (d : LogicP) (order : Int) :
    (order ∈ o.order .uniqueKeys d.desiredActionOrders.uniqueKeys ∧
      d.desiredActionOrders.count order = 1) ↔ d.desiredActionOrders.count order = 1 := by
  rw [(o.perm _ _).mem_iff]
  exact ⟨And.right, fun hsingle => ⟨QMultiHash.mem_uniqueKeys_of_count hsingle, hsingle⟩⟩

theorem confirmUncontestedBy_desiredActionOrders (o : IterationOrder Loop) (d : LogicP) :
    (d.confirmUncontestedBy o).desiredActionOrders =
      d.desiredActionOrders.filter fun entry => ¬ d.desiredActionOrders.count entry.1 = 1 := by
  rw [confirmUncontestedBy, foldl_confirmOrder_desiredActionOrders]
  simp only [uniqueKeys_loop]

theorem lookup_confirmUncontestedBy (o : IterationOrder Loop) (d : LogicP) (order : Int) :
    (d.confirmUncontestedBy o).confirmedActionOrders.lookup order =
      if d.desiredActionOrders.count order = 1 then some (d.desiredActionOrders.value order "")
      else d.confirmedActionOrders.lookup order := by
  rw [confirmUncontestedBy, lookup_foldl_confirmOrder]
  simp only [uniqueKeys_loop]

/-- Handing out the same orders to the same players. -/
theorem handOut_related (orders : List Int) (players : List String) (orderIndex : Nat)
    {confirmed confirmed' : QHash Int String} (hsame : confirmed.Same confirmed') :
    Except.Related QHash.Same (handOut orders orderIndex players confirmed)
      (handOut orders orderIndex players confirmed') := by
  induction players generalizing orderIndex confirmed confirmed' with
  | nil => exact .ok hsame
  | cons player rest ih =>
    simp only [handOut]
    cases orders[orderIndex]? with
    | none => exact .error _ _
    | some order => exact ih (orderIndex + 1) (hsame.insert order player)

/-- A player's upgrades leave the other players alone. -/
theorem player_of_upgradePlayer {room : Room} {conf : LogicConfiguration} {name other : String}
    {p up : Player} {items : List UpgradeItem} (hplayer : room.player name = some p)
    (hup : upgradePlayer conf p items = .ok up) (hne : name ≠ other) :
    (room.setPlayer up).player other = room.player other ∧ up.objectName = name := by
  have hname : up.objectName = name :=
    (upgradePlayer_sameSeat hup).objectName.trans (Room.player_eq_some.mp hplayer).2
  rw [Room.player_setPlayer, hname, if_neg hne]
  exact ⟨rfl, rfl⟩

/-- Two players are upgraded in either order. -/
theorem performUpgrades_swap (room : Room)
    {first second : Sigma fun _ : String => List UpgradeItem} (hne : first.1 ≠ second.1)
    (rest : List (Sigma fun _ : String => List UpgradeItem)) :
    Except.Related Eq (performUpgrades room (first :: second :: rest))
      (performUpgrades room (second :: first :: rest)) := by
  cases hq : room.player second.1 with
  | none =>
    cases hp : room.player first.1 with
    | none =>
      simp only [performUpgrades, hp, hq]
      exact .error _ _
    | some p =>
      simp only [performUpgrades, hp, hq]
      cases hup : upgradePlayer room.logicConfiguration p first.2 with
      | error fault => exact .error _ _
      | ok up =>
        simp only [Except.ok_bind, (player_of_upgradePlayer hp hup hne).1, hq]
        exact .error _ _
  | some q =>
    cases hp : room.player first.1 with
    | none =>
      simp only [performUpgrades, hp, hq]
      cases huq : upgradePlayer room.logicConfiguration q second.2 with
      | error fault => exact .error _ _
      | ok uq =>
        simp only [Except.ok_bind, (player_of_upgradePlayer hq huq hne.symm).1, hp]
        exact .error _ _
    | some p =>
      simp only [performUpgrades, hp, hq]
      cases hup : upgradePlayer room.logicConfiguration p first.2 with
      | error fault =>
        cases huq : upgradePlayer room.logicConfiguration q second.2 with
        | error fault => exact .error _ _
        | ok uq =>
          simp only [Except.ok_bind, (player_of_upgradePlayer hq huq hne.symm).1, hp,
            Room.setPlayer_logicConfiguration, hup]
          exact .error _ _
      | ok up =>
        obtain ⟨hother, hname⟩ := player_of_upgradePlayer hp hup hne
        simp only [Except.ok_bind, hother, hq, Room.setPlayer_logicConfiguration]
        cases huq : upgradePlayer room.logicConfiguration q second.2 with
        | error fault => exact .error _ _
        | ok uq =>
          obtain ⟨hother', hname'⟩ := player_of_upgradePlayer hq huq hne.symm
          have hcomm : (room.setPlayer up).setPlayer uq = (room.setPlayer uq).setPlayer up := by
            simp only [Room.setPlayer]
            rw [OrderedMap.replace_comm _ (by rwa [hname, hname'])]
          simp only [Except.ok_bind, hother', hp, hup, hcomm]
          exact .refl (fun _ => rfl) _

theorem performUpgrades_perm {entries entries' : List (Sigma fun _ : String => List UpgradeItem)}
    (hperm : entries.Perm entries') (hnodup : entries.NodupKeys) (room : Room) :
    Except.Related Eq (performUpgrades room entries) (performUpgrades room entries') := by
  induction hperm generalizing room with
  | nil => exact .ok rfl
  | cons entry _ ih =>
    have hrest := (List.nodupKeys_cons.mp hnodup).2
    simp only [performUpgrades]
    cases room.player entry.1 with
    | none => exact .error _ _
    | some p => exact .bind_same fun up _ => ih hrest _
  | swap first second rest =>
    obtain ⟨hne, -⟩ := List.nodupKeys_cons.mp hnodup
    exact performUpgrades_swap room (fun heq => hne (by simp [List.keys, heq])) rest
  | trans hperm _ ih ih' =>
    exact (ih hnodup room).trans (fun _ _ _ => Eq.trans)
      (ih' ((List.perm_nodupKeys hperm).mp hnodup) room)

/-- What is chosen depends on how many orders there are and on which of them are
taken. -/
theorem chosenOrders_congr (hlength : d.rpsForActionWinners.length = d'.rpsForActionWinners.length)
    (hcontains : ∀ order,
      d.confirmedActionOrders.contains order = d'.confirmedActionOrders.contains order)
    (selections : Int) (desired : List Int) :
    d.chosenOrders selections desired = d'.chosenOrders selections desired := by
  have hcheck (chosen : List Int) (yields : Nat) :
      d.checkDesiredOrders desired chosen yields = d'.checkDesiredOrders desired chosen yields := by
    induction desired generalizing chosen yields with
    | nil => rfl
    | cons order rest ih => simp only [checkDesiredOrders, ih, hlength, hcontains]
  simp only [chosenOrders, hcheck]

section

variable (h : d.Same d') (o o' : IterationOrder Loop)

include h

theorem Same.allOrders : d.allOrders = d'.allOrders := by
  rw [LogicP.allOrders, LogicP.allOrders, h.rpsForActionWinners.length_eq]

theorem Same.remainingActionCountBy :
    (d.remainingActionCountBy o).Same (d'.remainingActionCountBy o') := by
  have hwinners := QHash.Same.addEach (.refl ∅) 1 h.rpsForActionWinners
  have hholders := (h.confirmedActionOrders.loop o o' .confirmedActionOrders).map
    fun entry => entry.2
  exact ((hwinners.addEach (-1) hholders).loop o o' .remainingActionCount).filterMap _

theorem Same.remainingActionOrdersBy :
    d.remainingActionOrdersBy o = d'.remainingActionOrdersBy o' := by
  have hkeys := (h.confirmedActionOrders.loop o o' .confirmedActionOrders).map
    fun entry => entry.1
  rw [LogicP.remainingActionOrdersBy, LogicP.remainingActionOrdersBy, foldl_filter_ne,
    foldl_filter_ne, h.allOrders]
  refine List.filter_congr fun order _ => ?_
  simp only [List.Perm.mem_iff hkeys]

theorem Same.strivingActionCountBy :
    (d.strivingActionCountBy o).Same (d'.strivingActionCountBy o') := by
  unfold LogicP.strivingActionCountBy
  simp only [h.actionOrderYields.value]
  exact ((h.remainingActionCountBy o o').loop o o' .strivingActionCount).filterMap _

theorem Same.leftoverPlayersBy : d.leftoverPlayersBy o = d'.leftoverPlayersBy o' := by
  have hcount := h.remainingActionCountBy o o'
  unfold LogicP.leftoverPlayersBy
  simp only [hcount.value, (hcount.loop o o' .remainingPlayers).sortedKeys]

theorem Same.nothingLeftToFightForBy :
    d.nothingLeftToFightForBy o = d'.nothingLeftToFightForBy o' := by
  unfold LogicP.nothingLeftToFightForBy
  rw [h.rpsForActionWinners.dedup.length_eq, (h.strivingActionCountBy o o').count]

theorem Same.strivingNamesBy : d.strivingNamesBy o = d'.strivingNamesBy o' :=
  ((h.strivingActionCountBy o o').loop o o' .strivingNames).sortedKeys

theorem Same.enterActionOrderBy : (d.enterActionOrderBy o).Same (d'.enterActionOrderBy o') := by
  have hselections : (d.enterActionOrderBy o).actionOrderRemainingSelections =
      (d'.enterActionOrderBy o').actionOrderRemainingSelections := by
    simp only [LogicP.enterActionOrderBy, h.strivingNamesBy o o',
      (h.strivingActionCountBy o o').value]
  exact { h with
    state := rfl
    desiredActionOrders := .refl _
    actionOrderRemainingSelections := by rw [hselections] }

theorem Same.confirmUncontestedBy :
    (d.confirmUncontestedBy o).Same (d'.confirmUncontestedBy o') := by
  have hdesired : (d.confirmUncontestedBy o).desiredActionOrders.Perm
      (d'.confirmUncontestedBy o').desiredActionOrders := by
    simp only [confirmUncontestedBy_desiredActionOrders,
      QMultiHash.count_perm h.desiredActionOrders]
    exact h.desiredActionOrders.filter _
  have hconfirmed : (d.confirmUncontestedBy o).confirmedActionOrders.Same
      (d'.confirmUncontestedBy o').confirmedActionOrders := by
    refine QHash.same_of_lookup fun order => ?_
    simp only [lookup_confirmUncontestedBy, ← QMultiHash.count_perm h.desiredActionOrders,
      h.confirmedActionOrders.lookup]
    split
    · next hsingle => rw [QMultiHash.value_perm h.desiredActionOrders hsingle]
    · rfl
  unfold LogicP.confirmUncontestedBy at hdesired hconfirmed ⊢
  rw [foldl_confirmOrder _ d, foldl_confirmOrder _ d']
  exact { h with desiredActionOrders := hdesired, confirmedActionOrders := hconfirmed }

theorem Same.lowestContestedOrder : d.lowestContestedOrder = d'.lowestContestedOrder := by
  unfold LogicP.lowestContestedOrder
  simp only [h.allOrders, QMultiHash.contains_perm h.desiredActionOrders]

theorem Same.enterRpsForAction : d.enterRpsForAction.Same d'.enterRpsForAction where
  room := h.room
  state := rfl
  rpsForActionReplies := .refl _
  rpsForActionWinners := .refl _
  rpsForActionTieStreak := by
    simp only [LogicP.enterRpsForAction, h.state, h.rpsForActionTieStreak]
  desiredActionOrders := h.desiredActionOrders
  confirmedActionOrders := h.confirmedActionOrders
  actionOrderRemainingSelections := h.actionOrderRemainingSelections
  actionOrderYields := h.actionOrderYields
  currentStrivingActionOrder := h.currentStrivingActionOrder
  rpsForActionOrderReplies := h.rpsForActionOrderReplies
  currentActionOrder := h.currentActionOrder
  upgrades := h.upgrades

theorem Same.enterRpsForActionOrder (order : Int) :
    (d.enterRpsForActionOrder order).Same (d'.enterRpsForActionOrder order) :=
  { h with
    state := rfl
    currentStrivingActionOrder := rfl
    rpsForActionOrderReplies := .refl _ }

theorem Same.confirmedPlayer (order : Int) : d.confirmedPlayer order = d'.confirmedPlayer order :=
  h.confirmedActionOrders.value order ""

theorem Same.deref (name : String) : d.deref name = d'.deref name := by
  rw [LogicP.deref, LogicP.deref, h.room]

theorem Same.dropLosers {striving striving' winners winners' : List String}
    (hstriving : striving.Perm striving') (hwinners : winners.Perm winners') :
    (d.dropLosers striving winners).Same (d'.dropLosers striving' winners') := by
  have hdesired : (d.dropLosers striving winners).desiredActionOrders.Perm
      (d'.dropLosers striving' winners').desiredActionOrders := by
    have hnil : winners = [] ↔ winners' = [] := by
      rw [← List.length_eq_zero_iff, hwinners.length_eq, List.length_eq_zero_iff]
    simp only [LogicP.dropLosers, QMultiHash.foldl_removeEntry, h.currentStrivingActionOrder, hnil]
    split
    · simpa using h.desiredActionOrders
    · simp only [List.mem_filter, hstriving.mem_iff, hwinners.mem_iff]
      exact h.desiredActionOrders.filter _
  exact { h with desiredActionOrders := hdesired }

theorem Same.nextOrder : d.nextOrder.Same d'.nextOrder :=
  { h with currentActionOrder := by simp only [LogicP.nextOrder, h.currentActionOrder] }

theorem Same.setState (state : State) : (d.setState state).Same (d'.setState state) :=
  { h with state := rfl }

theorem Same.setPlayer (p : Player) : (d.setPlayer p).Same (d'.setPlayer p) :=
  { h with room := by simp only [LogicP.setPlayer, h.room] }

theorem Same.chosenOrders (selections : Int) (desired : List Int) :
    d.chosenOrders selections desired = d'.chosenOrders selections desired :=
  chosenOrders_congr h.rpsForActionWinners.length_eq h.confirmedActionOrders.contains _ _

theorem Same.recordActionOrder (name : String) (chosen : List Int) (yields : Nat) :
    (d.recordActionOrder name chosen yields).Same (d'.recordActionOrder name chosen yields) :=
  { h with
    desiredActionOrders := QMultiHash.foldl_insert_perm h.desiredActionOrders chosen name
    actionOrderYields := by
      simp only [LogicP.recordActionOrder]
      split
      · exact h.actionOrderYields.addEach _ (.refl _)
      · exact h.actionOrderYields
    actionOrderRemainingSelections := h.actionOrderRemainingSelections.erase name }

theorem Same.actionFeasible (name : String) (action : Action) (toPlayer : String) (toPlace : Int) :
    d.actionFeasible name action toPlayer toPlace =
      d'.actionFeasible name action toPlayer toPlace := by
  simp only [LogicP.actionFeasible, h.deref, h.room]

theorem Same.upgradeFeasible (name : String) (items : List UpgradeItem) :
    d.upgradeFeasible name items = d'.upgradeFeasible name items := by
  simp only [LogicP.upgradeFeasible, h.deref, h.room]

theorem Same.performAction (name : String) (action : Action) (toPlayer : String) (toPlace : Int) :
    Except.Related (fun r r' => r.1 = r'.1 ∧ r.2.Same r'.2)
      (d.performAction name action toPlayer toPlace)
      (d'.performAction name action toPlayer toPlace) := by
  simp only [LogicP.performAction, h.deref, h.room]
  refine .bind_same fun source _ => ?_
  cases action with
  | DoNothing => exact .ok ⟨rfl, h⟩
  | BuyKnife => exact .ok ⟨rfl, h.setPlayer _⟩
  | BuyHorse => exact .ok ⟨rfl, h.setPlayer _⟩
  | Slash => exact .bind_same fun target _ => .ok ⟨rfl, (h.setPlayer _).setPlayer _⟩
  | Kick => exact .bind_same fun target _ => .ok ⟨rfl, (h.setPlayer _).setPlayer _⟩
  | Move => exact .ok ⟨rfl, h.setPlayer _⟩
  | LetMove => exact .bind_same fun target _ => .ok ⟨rfl, h.setPlayer _⟩

end

end LogicP

namespace Logic

variable {self self' : Logic (List Signal)}

theorem Same.refl (self : Logic (List Signal)) : self.Same self :=
  ⟨.refl _, List.forall₂_same.mpr fun signal _ => .refl signal⟩

section

variable (h : self.Same self') (o o' : IterationOrder Loop)

include h

theorem Same.modify {f f' : LogicP → LogicP} (hd : (f self.d).Same (f' self'.d)) :
    (self.modify f).Same (self'.modify f') := ⟨hd, h.env⟩

theorem Same.emit {signal signal' : Signal} (hsignal : signal.Same signal') :
    Except.Related Same (post signal self) (post signal' self') :=
  .ok ⟨h.d, List.rel_append h.env (.cons hsignal .nil)⟩

theorem Same.startRpsForAction :
    Except.Related Same (startRpsForAction post self) (startRpsForAction post self') := by
  unfold Logic.startRpsForAction
  have hnames : (self.modify LogicP.enterRpsForAction).d.room.alivePlayerNames =
      (self'.modify LogicP.enterRpsForAction).d.room.alivePlayerNames := by
    simp only [modify_d, LogicP.enterRpsForAction, h.d.room]
  dsimp only
  rw [hnames]
  exact (h.modify h.d.enterRpsForAction).emit (.refl _)

theorem Same.requestUpgrades (names : List String) :
    Except.Related Same (requestUpgrades post names self) (requestUpgrades post names self') := by
  induction names generalizing self self' with
  | nil => exact .ok h
  | cons name rest ih =>
    simp only [Logic.requestUpgrades, h.d.deref]
    refine .bind_same fun p _ => ?_
    split
    · exact ((h.modify (h.d.setState .Upgrade)).emit (.refl _)).bind fun _ _ hnext => ih hnext
    · exact ih h

theorem Same.startUpgrade :
    Except.Related Same (startUpgrade post self) (startUpgrade post self') := by
  simp only [Logic.startUpgrade, h.d.room]
  split
  · have hd : LogicP.Same { self.d with upgrades := ∅ } { self'.d with upgrades := ∅ } :=
      { h.d with upgrades := .refl _ }
    simpa only [modify_d, h.d.room] using (h.modify hd).requestUpgrades self'.d.room.playerNames
  · exact .error _ _

theorem Same.nextAction (left : Nat) :
    Except.Related Same (nextAction post left self) (nextAction post left self') := by
  induction left generalizing self self' with
  | zero => exact (h.modify h.d.nextOrder).startRpsForAction
  | succ left ih =>
    have hnext := h.modify h.d.nextOrder
    simp only [Logic.nextAction, hnext.d.deref, hnext.d.confirmedPlayer,
      hnext.d.currentActionOrder, hnext.d.room]
    refine .bind_same fun p _ => ?_
    split
    · exact (hnext.modify (hnext.d.setState .Action)).emit (.refl _)
    · exact ih hnext

theorem Same.startAction : Except.Related Same (startAction post self) (startAction post self') := by
  simp only [Logic.startAction, h.d.room, h.d.rpsForActionWinners.length_eq, h.d.currentActionOrder]
  split
  · exact h.nextAction _
  · exact (h.emit (.refl _)).bind fun _ _ hnext => hnext.startUpgrade

theorem Same.requestActionOrders (orders : List Int) {striving striving' : QHash String Int}
    (hstriving : striving.Same striving') (names : List String) :
    Except.Related Same (requestActionOrders post orders striving names self)
      (requestActionOrders post orders striving' names self') := by
  induction names generalizing self self' with
  | nil => exact .ok h
  | cons name rest ih =>
    simp only [Logic.requestActionOrders, h.d.rpsForActionWinners.length_eq, hstriving.value]
    exact (h.emit (.refl _)).bind fun _ _ hnext => ih hnext

theorem Same.startActionOrderBy :
    Except.Related Same (startActionOrderBy o post self) (startActionOrderBy o' post self') := by
  simp only [Logic.startActionOrderBy, h.d.nothingLeftToFightForBy o o',
    h.d.remainingActionOrdersBy o o', h.d.leftoverPlayersBy o o', h.d.strivingNamesBy o o']
  split
  · refine (LogicP.handOut_related _ _ 0 h.d.confirmedActionOrders).bind
      fun confirmed confirmed' hconfirmed => ?_
    have hgiven : LogicP.Same { self.d with confirmedActionOrders := confirmed }
        { self'.d with confirmedActionOrders := confirmed' } :=
      { h.d with confirmedActionOrders := hconfirmed }
    refine ((h.modify hgiven).emit (.actionOrderResult hconfirmed)).bind fun next next' hnext => ?_
    have hfirst : LogicP.Same { next.d with currentActionOrder := 0 }
        { next'.d with currentActionOrder := 0 } :=
      { hnext.d with currentActionOrder := rfl }
    exact (hnext.modify hfirst).startAction
  · exact (h.modify (h.d.enterActionOrderBy o o')).requestActionOrders _
      (h.d.strivingActionCountBy o o') _

theorem Same.rpsForActionBy :
    Except.Related Same (rpsForActionBy o post self) (rpsForActionBy o' post self') := by
  simp only [Logic.rpsForActionBy, h.d.rpsForActionReplies.count, h.d.room]
  split
  · refine (h.emit (.rpsResult h.d.rpsForActionReplies)).bind fun next next' hnext => ?_
    have hwinners := rockPaperScissorsWinners_perm
      (hnext.d.rpsForActionReplies.loop o o' .judgers)
    have hnil : rockPaperScissorsWinners (o.hash .judgers next.d.rpsForActionReplies) = [] ↔
        rockPaperScissorsWinners (o'.hash .judgers next'.d.rpsForActionReplies) = [] := by
      rw [← List.length_eq_zero_iff, hwinners.length_eq, List.length_eq_zero_iff]
    simp only [hnil]
    split
    · have hagain : Logic.Same
          ⟨{ next.d with
              rpsForActionWinners :=
                rockPaperScissorsWinners (o.hash .judgers next.d.rpsForActionReplies)
              rpsForActionTieStreak := next.d.rpsForActionTieStreak + 1 }, next.env⟩
          ⟨{ next'.d with
              rpsForActionWinners :=
                rockPaperScissorsWinners (o'.hash .judgers next'.d.rpsForActionReplies)
              rpsForActionTieStreak := next'.d.rpsForActionTieStreak + 1 }, next'.env⟩ :=
        ⟨{ hnext.d with
            rpsForActionWinners := hwinners
            rpsForActionTieStreak := by rw [hnext.d.rpsForActionTieStreak] }, hnext.env⟩
      exact hagain.startRpsForAction
    · have hdecided : Logic.Same
          ⟨{ next.d with
              rpsForActionWinners :=
                rockPaperScissorsWinners (o.hash .judgers next.d.rpsForActionReplies)
              confirmedActionOrders := ∅
              actionOrderYields := ∅ }, next.env⟩
          ⟨{ next'.d with
              rpsForActionWinners :=
                rockPaperScissorsWinners (o'.hash .judgers next'.d.rpsForActionReplies)
              confirmedActionOrders := ∅
              actionOrderYields := ∅ }, next'.env⟩ :=
        ⟨{ hnext.d with
            rpsForActionWinners := hwinners
            confirmedActionOrders := .refl _
            actionOrderYields := .refl _ }, hnext.env⟩
      exact hdecided.startActionOrderBy o o'
  · exact .ok h

theorem Same.startRpsForActionOrderBy :
    Except.Related Same (startRpsForActionOrderBy o post self)
      (startRpsForActionOrderBy o' post self') := by
  have hconfirmed := h.modify (h.d.confirmUncontestedBy o o')
  have hdesired := hconfirmed.d.desiredActionOrders
  have hnil : (self.modify (·.confirmUncontestedBy o)).d.desiredActionOrders = [] ↔
      (self'.modify (·.confirmUncontestedBy o')).d.desiredActionOrders = [] := by
    rw [← List.length_eq_zero_iff, hdesired.length_eq, List.length_eq_zero_iff]
  simp only [Logic.startRpsForActionOrderBy, hnil, hconfirmed.d.lowestContestedOrder]
  split
  · exact hconfirmed.startActionOrderBy o o'
  · split
    · exact .error _ _
    · exact (hconfirmed.modify (hconfirmed.d.enterRpsForActionOrder _)).emit
        (.requestRpsForActionOrder (QMultiHash.values_perm hdesired _) _)

theorem Same.actionOrderBy :
    Except.Related Same (actionOrderBy o post self) (actionOrderBy o' post self') := by
  simp only [Logic.actionOrderBy, h.d.actionOrderRemainingSelections.count]
  split
  · exact h.startRpsForActionOrderBy o o'
  · exact .ok h

theorem Same.rpsForActionOrderBy :
    Except.Related Same (rpsForActionOrderBy o post self) (rpsForActionOrderBy o' post self') := by
  have hstriving := QMultiHash.values_perm h.d.desiredActionOrders
    self.d.currentStrivingActionOrder
  simp only [Logic.rpsForActionOrderBy, h.d.rpsForActionOrderReplies.count, hstriving.length_eq,
    ← h.d.currentStrivingActionOrder]
  split
  · refine (h.emit (.rpsResult h.d.rpsForActionOrderReplies)).bind fun next next' hnext => ?_
    have hwinners := rockPaperScissorsWinners_perm
      (hnext.d.rpsForActionOrderReplies.loop o o' .judgers)
    exact (hnext.modify (hnext.d.dropLosers hstriving hwinners)).startRpsForActionOrderBy o o'
  · exact .ok h

theorem Same.upgradeBy :
    Except.Related Same (upgradeBy o post self) (upgradeBy o' post self') := by
  have hloop := h.d.upgrades.loop o o' .upgrades
  simp only [Logic.upgradeBy, h.d.upgrades.count, h.d.room]
  split
  · split
    · refine (LogicP.performUpgrades_perm hloop (o.hash .upgrades self.d.upgrades).nodupKeys
        self'.d.room).bind fun room room' hroom => ?_
      subst hroom
      have hover (room : Room) : Logic.Same
          ⟨{ self.d with room := room, state := .BeforeRoundStart }, self.env⟩
          ⟨{ self'.d with room := room, state := .BeforeRoundStart }, self'.env⟩ :=
        ⟨{ h.d with room := rfl, state := rfl }, h.env⟩
      refine .ite Iff.rfl (fun _ => ?_) fun _ => ?_
      · exact (hover room.resetUpgrades).emit (.refl _)
      · exact (hover room).emit (.upgradeResult h.d.upgrades)
    · exact .ok h
  · exact .ok h

theorem Same.rpsReplyBy (name : String) (rps : RockPaperScissors) :
    Except.Related (fun r r' => r.1 = r'.1 ∧ r.2.Same r'.2) (self.rpsReplyBy o post name rps)
      (self'.rpsReplyBy o' post name rps) := by
  simp only [Logic.rpsReplyBy, h.d.room, h.d.state, h.d.rpsForActionReplies.contains,
    h.d.rpsForActionOrderReplies.contains]
  refine .ite Iff.rfl (fun _ => ?_) fun _ => .ok ⟨rfl, h⟩
  refine .ite Iff.rfl (fun _ => ?_) fun _ => .ite Iff.rfl (fun _ => ?_) fun _ => .ok ⟨rfl, h⟩
  · have hreplied : Logic.Same
        (self.modify fun d =>
          { d with rpsForActionReplies := AList.insert name rps d.rpsForActionReplies })
        (self'.modify fun d =>
          { d with rpsForActionReplies := AList.insert name rps d.rpsForActionReplies }) :=
      h.modify { h.d with rpsForActionReplies := h.d.rpsForActionReplies.insert name rps }
    exact (hreplied.rpsForActionBy o o').bind fun _ _ hnext => .ok ⟨rfl, hnext⟩
  · have hreplied : Logic.Same
        (self.modify fun d =>
          { d with rpsForActionOrderReplies := AList.insert name rps d.rpsForActionOrderReplies })
        (self'.modify fun d =>
          { d with
            rpsForActionOrderReplies := AList.insert name rps d.rpsForActionOrderReplies }) :=
      h.modify { h.d with rpsForActionOrderReplies := h.d.rpsForActionOrderReplies.insert name rps }
    exact (hreplied.rpsForActionOrderBy o o').bind fun _ _ hnext => .ok ⟨rfl, hnext⟩

theorem Same.actionOrderReplyBy (name : String) (desired : List Int) :
    Except.Related (fun r r' => r.1 = r'.1 ∧ r.2.Same r'.2)
      (self.actionOrderReplyBy o post name desired)
      (self'.actionOrderReplyBy o' post name desired) := by
  simp only [Logic.actionOrderReplyBy, h.d.room, h.d.state,
    h.d.actionOrderRemainingSelections.value, h.d.chosenOrders]
  refine .ite Iff.rfl (fun _ => .ite Iff.rfl (fun _ => ?_) fun _ => .ok ⟨rfl, h⟩) fun _ =>
    .ok ⟨rfl, h⟩
  exact Except.Related.bind ((h.modify (h.d.recordActionOrder _ _ _)).actionOrderBy o o')
    fun _ _ hnext => .ok ⟨rfl, hnext⟩

theorem Same.actionReply (name : String) (action : Action) (toPlayer : String) (toPlace : Int) :
    Except.Related (fun r r' => r.1 = r'.1 ∧ r.2.Same r'.2)
      (self.actionReply post name action toPlayer toPlace)
      (self'.actionReply post name action toPlayer toPlace) := by
  simp only [Logic.actionReply, h.d.room, h.d.state, h.d.actionFeasible]
  refine .ite Iff.rfl (fun _ => .bind_same fun accepted _ => ?_) fun _ => .ok ⟨rfl, h⟩
  have happly (done : Action) : Except.Related (fun r r' => r.1 = r'.1 ∧ r.2.Same r'.2)
      (applyAction post self name done toPlayer toPlace)
      (applyAction post self' name done toPlayer toPlace) :=
    (h.emit (.refl _)).bind fun next next' hnext =>
      (hnext.d.performAction name done toPlayer toPlace).bind fun _ _ hdone =>
        .ok ⟨hdone.1, hdone.2, hnext.env⟩
  exact (happly _).bind fun _ _ hdone => hdone.2.startAction.bind fun _ _ hnext =>
    .ok ⟨rfl, hnext⟩

theorem Same.upgradeReplyBy (name : String) (items : List UpgradeItem) :
    Except.Related (fun r r' => r.1 = r'.1 ∧ r.2.Same r'.2)
      (self.upgradeReplyBy o post name items) (self'.upgradeReplyBy o' post name items) := by
  simp only [Logic.upgradeReplyBy, h.d.room, h.d.state, h.d.upgrades.contains,
    h.d.upgradeFeasible]
  cases self'.d.room.player name with
  | none => exact .ok ⟨rfl, h⟩
  | some p =>
    refine .ite Iff.rfl (fun _ => .bind_same fun accepted _ => ?_) fun _ => .ok ⟨rfl, h⟩
    have hreplied (done : List UpgradeItem) : Logic.Same
        (self.modify fun d => { d with upgrades := AList.insert name done d.upgrades })
        (self'.modify fun d => { d with upgrades := AList.insert name done d.upgrades }) :=
      h.modify { h.d with upgrades := h.d.upgrades.insert name done }
    exact ((hreplied _).upgradeBy o o').bind fun _ _ hnext => .ok ⟨rfl, hnext⟩

theorem Same.roundStart :
    Except.Related (fun r r' => r.1 = r'.1 ∧ r.2.Same r'.2) (self.roundStart post)
      (self'.roundStart post) := by
  simp only [Logic.roundStart, h.d.room, h.d.state]
  refine .ite Iff.rfl (fun _ => ?_) fun _ => .ok ⟨rfl, h⟩
  have hseated : Logic.Same
      (self.modify fun d => { d with room := d.room.prepareForRoundStart })
      (self'.modify fun d => { d with room := d.room.prepareForRoundStart }) :=
    h.modify { h.d with room := by rw [h.d.room] }
  exact hseated.startRpsForAction.bind fun _ _ hnext => .ok ⟨rfl, hnext⟩

theorem Same.addPlayer (name : String) :
    Except.Related (fun r r' => r.1 = r'.1 ∧ r.2.Same r'.2) (self.addPlayer name)
      (self'.addPlayer name) := by
  simp only [Logic.addPlayer, h.d.room, h.d.state]
  refine .ite Iff.rfl (fun _ => ?_) fun _ => .ok ⟨rfl, h⟩
  obtain ⟨ok, room⟩ := self'.d.room.addPlayer name
  cases ok with
  | true =>
    have hroom : LogicP.Same { self.d with room := room.resetUpgrades }
        { self'.d with room := room.resetUpgrades } := { h.d with room := rfl }
    exact .ok ⟨rfl, hroom, h.env⟩
  | false => exact .ok ⟨rfl, h⟩

theorem Same.removePlayer (name : String) :
    Except.Related (fun r r' => r.1 = r'.1 ∧ r.2.Same r'.2) (self.removePlayer name)
      (self'.removePlayer name) := by
  simp only [Logic.removePlayer, h.d.room, h.d.state]
  refine .ite Iff.rfl (fun _ => ?_) fun _ => .ok ⟨rfl, h⟩
  obtain ⟨ok, room⟩ := self'.d.room.removePlayer name
  cases ok with
  | true =>
    have hroom : LogicP.Same { self.d with room := room.resetUpgrades }
        { self'.d with room := room.resetUpgrades } := { h.d with room := rfl }
    exact .ok ⟨rfl, hroom, h.env⟩
  | false => exact .ok ⟨rfl, h⟩

/-- The order of the loops over hashes changes nothing that a call does. -/
theorem Same.callBy (c : Call) :
    Except.Related (fun r r' => r.1 = r'.1 ∧ r.2.Same r'.2) (self.callBy o post c)
      (self'.callBy o' post c) := by
  cases c with
  | addPlayer name => exact h.addPlayer name
  | removePlayer name => exact h.removePlayer name
  | roundStart => exact h.roundStart
  | rpsReply name rps => exact h.rpsReplyBy o o' name rps
  | actionOrderReply name desired => exact h.actionOrderReplyBy o o' name desired
  | actionReply name action toPlayer toPlace => exact h.actionReply name action toPlayer toPlace
  | upgradeReply name items => exact h.upgradeReplyBy o o' name items

end

end Logic

end QMdmmCore
