import Mathlib.Algebra.Order.BigOperators.Group.List
import QMdmm.Bot.Styles
import QMdmm.Core.Capacity
import QMdmm.Networking.DefaultReply

namespace QMdmmBot

open QMdmmCore Data Logic LogicP QMdmmNetworking

variable {Score : Type} {bot : Bot Score} {d : LogicP} {p peer : Player}

/-- What every state of a logic keeps to while a round is on (`lawful_of_reachable`). -/
structure Lawful (d : LogicP) : Prop where
  accepted : d.room.logicConfiguration.Accepted
  statsInBounds : ∀ p ∈ d.room.players.toList, p.StatsInBounds d.room.logicConfiguration
  withinCapacity : ∀ p ∈ d.room.players.toList, p.WithinCapacity d.room.logicConfiguration

/-- What the logic can ask a player for. No order is offered twice. -/
def Grants (d : LogicP) (name : String) : Request → Prop
  | .rockPaperScissors _ _ => name ∈ d.room.playerNames
  | .actionOrder remainedOrders _ selectionNum =>
    remainedOrders.Nodup ∧ (∀ order ∈ remainedOrders, order ∈ d.remainingActionOrders) ∧
      (1 ≤ selectionNum ∧ selectionNum ≤ remainedOrders.length) ∧
      d.actionOrderRemainingSelections.value name (-1) = selectionNum
  | .action _ => ∃ p, d.room.player name = some p ∧ p.alive d.room.logicConfiguration = true
  | .upgrade remainingTimes =>
    ∃ p, d.room.player name = some p ∧ p.upgradePoint = remainingTimes ∧ 0 < remainingTimes

/-- A reply of the kind that is asked for, which the logic applies as it is sent. -/
structure Suits (d : LogicP) (name : String) (req : Request) (reply : Reply) : Prop where
  requestId : reply.requestId = req.requestId
  legal : Legal d (LogicRunnerP.replied name reply)

/-- A bot that has signed in, with the very room of the logic for its mirror. -/
structure Plays (bot : Bot Score) (d : LogicP) (p : Player) : Prop where
  room : bot.room = d.room
  player : d.room.player bot.objectName = some p

namespace Plays

theorem selfPlayer (h : Plays bot d p) : bot.selfPlayer = some p := by
  rw [Bot.selfPlayer, h.room]
  exact h.player

theorem logicConfiguration (h : Plays bot d p) :
    bot.logicConfiguration = d.room.logicConfiguration := congrArg _ h.room

variable {currentOrder toPlace : Int}

theorem doNothing (h : Plays bot d p) (halive : p.alive d.room.logicConfiguration = true) :
    Suits d bot.objectName (.action currentOrder) (.action .DoNothing "" 0) := by
  refine ⟨rfl, ?_⟩
  rw [LogicRunnerP.replied, Legal, actionFeasible, deref_eq_ok.mpr h.player]
  exact congrArg Except.ok halive

theorem buyKnife (h : Plays bot d p) (hcan : p.canBuyKnife bot.logicConfiguration = true) :
    Suits d bot.objectName (.action currentOrder) (.action .BuyKnife "" 0) := by
  rw [h.logicConfiguration] at hcan
  refine ⟨rfl, ?_⟩
  rw [LogicRunnerP.replied, Legal, actionFeasible, deref_eq_ok.mpr h.player]
  exact congrArg Except.ok hcan

theorem buyHorse (h : Plays bot d p) (hcan : p.canBuyHorse bot.logicConfiguration = true) :
    Suits d bot.objectName (.action currentOrder) (.action .BuyHorse "" 0) := by
  rw [h.logicConfiguration] at hcan
  refine ⟨rfl, ?_⟩
  rw [LogicRunnerP.replied, Legal, actionFeasible, deref_eq_ok.mpr h.player]
  exact congrArg Except.ok hcan

theorem slash (h : Plays bot d p) (hpeer : bot.room.player peer.objectName = some peer)
    (hcan : p.canSlash bot.logicConfiguration peer = true) :
    Suits d bot.objectName (.action currentOrder) (.action .Slash peer.objectName 0) := by
  rw [h.logicConfiguration] at hcan
  rw [h.room] at hpeer
  refine ⟨rfl, ?_⟩
  rw [LogicRunnerP.replied, Legal, actionFeasible, deref_eq_ok.mpr h.player, hpeer]
  exact congrArg Except.ok hcan

theorem kick (h : Plays bot d p) (hpeer : bot.room.player peer.objectName = some peer)
    (hcan : p.canKick bot.logicConfiguration peer = true) :
    Suits d bot.objectName (.action currentOrder) (.action .Kick peer.objectName 0) := by
  rw [h.logicConfiguration] at hcan
  rw [h.room] at hpeer
  refine ⟨rfl, ?_⟩
  rw [LogicRunnerP.replied, Legal, actionFeasible, deref_eq_ok.mpr h.player, hpeer]
  exact congrArg Except.ok hcan

theorem move (h : Plays bot d p) (hcan : p.canMove bot.logicConfiguration toPlace = true) :
    Suits d bot.objectName (.action currentOrder) (.action .Move "" toPlace) := by
  rw [h.logicConfiguration] at hcan
  refine ⟨rfl, ?_⟩
  rw [LogicRunnerP.replied, Legal, actionFeasible, deref_eq_ok.mpr h.player]
  exact congrArg Except.ok hcan

theorem letMove (h : Plays bot d p) {name : String} (hpeer : bot.room.player name = some peer)
    (hcan : p.canLetMove bot.logicConfiguration peer toPlace = true) :
    Suits d bot.objectName (.action currentOrder) (.action .LetMove name toPlace) := by
  rw [h.logicConfiguration] at hcan
  rw [h.room] at hpeer
  refine ⟨rfl, ?_⟩
  rw [LogicRunnerP.replied, Legal, actionFeasible, deref_eq_ok.mpr h.player, hpeer]
  exact congrArg Except.ok hcan

end Plays

namespace Bot

theorem mem_opponents (hpeer : peer ∈ bot.opponents) :
    bot.room.player peer.objectName = some peer := by
  have halive := (List.mem_filter.mp hpeer).1
  exact Room.player_eq_some.mpr ⟨(List.mem_filter.mp halive).1, rfl⟩

theorem canSlash_of_canSlashSafely (hself : bot.selfPlayer = some p)
    (hsafe : bot.canSlashSafely peer = true) : p.canSlash bot.logicConfiguration peer = true := by
  rw [canSlashSafely, hself] at hsafe
  dsimp only at hsafe
  split at hsafe
  · cases hsafe
  · next hcan => simpa using hcan

variable [LT Score] [DecidableLT Score]

/-- Whoever the loop has picked is one of those it has been through. -/
theorem consider_foldl {P : Player → Prop} (bot : Bot Score) (place : Int) {peers : List Player}
    (hpeers : ∀ peer ∈ peers, P peer) (seen : Candidates Score)
    (hfirst : ∀ peer, seen.firstHere = some peer → P peer)
    (hbest : ∀ peer, seen.bestScored = some peer → P peer) :
    (∀ peer, (peers.foldl (bot.consider place) seen).firstHere = some peer → P peer) ∧
      ∀ peer, (peers.foldl (bot.consider place) seen).bestScored = some peer → P peer := by
  induction peers generalizing seen with
  | nil => exact ⟨hfirst, hbest⟩
  | cons peer rest ih =>
    obtain ⟨hpeer, hrest⟩ := List.forall_mem_cons.mp hpeers
    have hfirst' : ∀ other, seen.firstHere.or (some peer) = some other → P other := by
      intro other hother
      rcases Option.or_eq_some_iff.mp hother with hother | ⟨-, hother⟩
      · exact hfirst other hother
      · exact Option.some.inj hother ▸ hpeer
    rw [List.foldl_cons, consider]
    split
    · exact ih hrest _ hfirst hbest
    · dsimp only
      split
      · exact ih hrest _ hfirst' fun _ h => Option.some.inj h ▸ hpeer
      · exact ih hrest _ hfirst' hbest

theorem player_of_attackTarget [Zero Score] (htarget : bot.attackTarget = some peer) :
    bot.room.player peer.objectName = some peer := by
  unfold attackTarget at htarget
  split at htarget
  · cases htarget
  · next p _ =>
    obtain ⟨hfirst, hbest⟩ := consider_foldl bot p.place (fun _ => mem_opponents) ⟨none, none, 0⟩
      (fun _ h => by cases h) (fun _ h => by cases h)
    rcases Option.or_eq_some_iff.mp htarget with htarget | ⟨-, htarget⟩
    · exact hbest peer htarget
    · exact hfirst peer htarget

end Bot

namespace Bot

/-- As many orders as are asked for, each from another place of the offer. -/
theorem desiredActionOrders_spec (bot : Bot Score) {remainedOrders : List Int} {selectionNum : Int}
    (hlo : 1 ≤ selectionNum) (hhi : selectionNum ≤ remainedOrders.length) :
    ((bot.desiredActionOrders remainedOrders selectionNum).length : Int) = selectionNum ∧
      (bot.desiredActionOrders remainedOrders selectionNum).Sublist
        (remainedOrders.insertionSort (· ≤ ·)) := by
  have hlength := List.length_insertionSort (· ≤ ·) remainedOrders
  have hcount : min selectionNum ((remainedOrders.insertionSort (· ≤ ·)).length : Int) =
      selectionNum := by
    rw [hlength]
    exact min_eq_left hhi
  simp only [desiredActionOrders, hcount]
  rw [if_neg (by omega)]
  split
  · refine ⟨?_, List.drop_sublist _ _⟩
    rw [List.length_drop, hlength]
    omega
  · refine ⟨?_, List.take_sublist _ _⟩
    rw [List.length_take, hlength]
    omega

theorem desiredActionOrders_suits {remainedOrders : List Int} {maximumOrder selectionNum : Int}
    (hreq : Grants d bot.objectName (.actionOrder remainedOrders maximumOrder selectionNum)) :
    Suits d bot.objectName (.actionOrder remainedOrders maximumOrder selectionNum)
      (.actionOrder (bot.desiredActionOrders remainedOrders selectionNum)) := by
  obtain ⟨hnodup, hremaining, ⟨hlo, hhi⟩, hselections⟩ := hreq
  obtain ⟨hlength, hsub⟩ := desiredActionOrders_spec bot hlo hhi
  have hperm := List.perm_insertionSort (· ≤ ·) remainedOrders
  refine ⟨rfl, ?_⟩
  rw [LogicRunnerP.replied, Legal, hselections, chosenOrders_of_remaining hlength
    ((hperm.nodup_iff.mpr hnodup).sublist hsub)
    fun order horder => hremaining order (hperm.subset (hsub.subset horder))]

variable {conf : LogicConfiguration}

theorem take_eq {items : List UpgradeItem} {left : Int} {item : UpgradeItem} (hleft : 0 ≤ left)
    (hint : left ≤ intMax) (hremaining : 0 ≤ p.remainingTimes conf item) :
    take conf p (items, left) item =
      (items ++ List.replicate (min left (p.remainingTimes conf item)).toNat item,
        left - min left (p.remainingTimes conf item)) := by
  have hrest : int32 (left - min left (p.remainingTimes conf item)) =
      left - min left (p.remainingTimes conf item) :=
    int32_eq_self (by unfold intMax; omega) (by omega)
  rw [take, hrest]

/-- Through any list of different items, no item is taken too often, and points are left
only when nothing is left to spend them on. -/
theorem foldl_take_spec {priorities : List UpgradeItem} (hnodup : priorities.Nodup)
    (hremaining : ∀ item, 0 ≤ p.remainingTimes conf item) (items : List UpgradeItem) (left : Int)
    (hleft : 0 ≤ left) (hint : left ≤ intMax) :
    (∀ item, (((priorities.foldl (take conf p) (items, left)).1.count item : Nat) : Int) ≤
      items.count item + if item ∈ priorities then p.remainingTimes conf item else 0) ∧
      ((priorities.foldl (take conf p) (items, left)).1.length : Int) =
        items.length + min left (priorities.map (p.remainingTimes conf)).sum := by
  induction priorities generalizing items left with
  | nil =>
    refine ⟨fun item => ?_, ?_⟩
    · simp
    · simp [hleft]
  | cons item rest ih =>
    obtain ⟨hitem, hrest⟩ := List.nodup_cons.mp hnodup
    have hpos := hremaining item
    have hsum : 0 ≤ (rest.map (p.remainingTimes conf)).sum :=
      List.sum_nonneg (by simpa using fun other _ => hremaining other)
    rw [List.foldl_cons, take_eq hleft hint hpos]
    obtain ⟨hcount, hlength⟩ := ih hrest
      (items ++ List.replicate (min left (p.remainingTimes conf item)).toNat item)
      (left - min left (p.remainingTimes conf item)) (by omega) (by omega)
    constructor
    · intro other
      have hother := hcount other
      rw [List.count_append, List.count_replicate] at hother
      by_cases hsame : item = other
      · subst hsame
        simp only [hitem, if_false, beq_self_eq_true, if_true, List.mem_cons_self] at hother ⊢
        omega
      · have hne : ¬ other = item := fun heq => hsame heq.symm
        simp only [beq_iff_eq, hsame, if_false, List.mem_cons, hne, false_or] at hother ⊢
        omega
    · rw [hlength, List.length_append, List.length_replicate, List.map_cons, List.sum_cons]
      omega

/-- With every item among the priorities, the whole capacity of a player can be spent. -/
theorem spendPoints_suits (hlaws : Lawful d) (h : Plays bot d p) {priorities : List UpgradeItem}
    (hnodup : priorities.Nodup) (hall : ∀ item, item ∈ priorities) {remainingTimes : Int}
    (hreq : Grants d bot.objectName (.upgrade remainingTimes)) :
    ∃ reply, bot.spendPoints priorities remainingTimes = [.reply reply] ∧
      Suits d bot.objectName (.upgrade remainingTimes) reply := by
  obtain ⟨q, hplayer, hpoint, hpos⟩ := hreq
  obtain rfl : p = q := Option.some.inj (h.player.symm.trans hplayer)
  have hp := (Room.player_eq_some.mp hplayer).1
  have hsound := hlaws.accepted.sound
  have hstats := hlaws.statsInBounds p hp
  have hcapacity := hlaws.withinCapacity p hp (hpoint ▸ hpos)
  rw [hpoint] at hcapacity
  have hle := hcapacity.trans (hstats.upgradeRemainingTimes_le hsound)
  obtain ⟨hknife, hhorse, hmaxHp⟩ := hstats.remainingTimes_eq hsound
  have hremaining (item : UpgradeItem) :
      0 ≤ p.remainingTimes d.room.logicConfiguration item := by
    obtain ⟨hknife', hhorse', hmaxHp'⟩ := hstats
    cases item <;> rw [Player.remainingTimes] <;> omega
  have hperm : priorities.Perm [.UpgradeKnife, .UpgradeHorse, .UpgradeMaxHp] := by
    refine (List.perm_ext_iff_of_nodup hnodup (by decide)).mpr fun item => ?_
    refine iff_of_true (hall item) ?_
    cases item <;> decide
  have hsum : (priorities.map (p.remainingTimes d.room.logicConfiguration)).sum =
      p.upgradesLeft d.room.logicConfiguration := by
    rw [(hperm.map _).sum_eq]
    simp only [List.map_cons, List.map_nil, List.sum_cons, List.sum_nil, Player.remainingTimes,
      hknife, hhorse, hmaxHp, Player.upgradesLeft]
    omega
  obtain ⟨hcount, hlength⟩ := foldl_take_spec hnodup hremaining [] remainingTimes hpos.le
    (hcapacity.trans (int32_le_intMax _))
  rw [hsum, min_eq_left hle] at hlength
  simp only [spendPoints, h.selfPlayer, h.logicConfiguration]
  rw [if_neg (show ¬ int32 _ < remainingTimes from not_lt.mpr hcapacity)]
  refine ⟨_, rfl, rfl, upgradeFeasible_eq_ok hplayer (iff_of_true rfl ⟨fun item => ?_, ?_⟩)⟩
  · have hitem := hcount item
    rw [if_pos (hall item)] at hitem
    simpa using hitem
  · rw [hlength, hpoint]
    simp

end Bot

namespace KnifePreferredBot

variable {reply : Reply} {currentOrder : Int}

theorem canSlash_of_slashIsWorthItsPunish (hself : bot.selfPlayer = some p)
    (hworth : slashIsWorthItsPunish bot peer = true) :
    p.canSlash bot.logicConfiguration peer = true := by
  rw [slashIsWorthItsPunish, hself] at hworth
  dsimp only at hworth
  split at hworth
  · cases hworth
  · next hcan => simpa using hcan

theorem buyKnifeFirst_suits (h : Plays bot d p) (hreply : buyKnifeFirst bot p = some reply) :
    Suits d bot.objectName (.action currentOrder) reply := by
  simp only [buyKnifeFirst] at hreply
  split_ifs at hreply with hknife hcan
  · cases hreply
    exact h.buyKnife hcan
  · obtain ⟨place, hfind, rfl⟩ := Option.map_eq_some_iff.mp hreply
    exact h.move (List.find?_some hfind)

theorem buyHorseForReach_suits (h : Plays bot d p) (hreply : buyHorseForReach bot p = some reply) :
    Suits d bot.objectName (.action currentOrder) reply := by
  unfold buyHorseForReach at hreply
  split at hreply
  · next hcan =>
    cases hreply
    exact h.buyHorse (Bool.and_eq_true_iff.mp hcan).2
  · cases hreply

variable [Zero Score] [LT Score] [DecidableLT Score]

theorem strike_suits (h : Plays bot d p) (hreply : strike bot p = some reply) :
    Suits d bot.objectName (.action currentOrder) reply := by
  unfold strike at hreply
  split at hreply
  · cases hreply
  · next peer htarget =>
    have hpeer := Bot.player_of_attackTarget htarget
    split_ifs at hreply with hslash hkick
    · cases hreply
      apply h.slash hpeer
      rcases Bool.or_eq_true_iff.mp hslash with hsafe | hworth
      · exact Bot.canSlash_of_canSlashSafely h.selfPlayer hsafe
      · exact canSlash_of_slashIsWorthItsPunish h.selfPlayer hworth
    · cases hreply
      exact h.kick hpeer hkick

theorem walk_suits (h : Plays bot d p) (hreply : walk bot p = some reply) :
    Suits d bot.objectName (.action currentOrder) reply := by
  simp only [walk] at hreply
  split at hreply
  · cases hreply
  · split_ifs at hreply with hvillage hcan hcan <;> cases hreply <;> exact h.move hcan

/-- Whichever block returns, its reply is feasible; a living player may do nothing. -/
theorem handleActionRequest_suits (h : Plays bot d p)
    (halive : p.alive d.room.logicConfiguration = true) :
    ∃ reply, handleActionRequest bot = [.reply reply] ∧
      Suits d bot.objectName (.action currentOrder) reply := by
  simp only [handleActionRequest, h.selfPlayer]
  split
  · next reply hreply =>
    refine ⟨reply, rfl, ?_⟩
    rcases Option.or_eq_some_iff.mp hreply with hreply | ⟨-, hreply⟩
    · exact buyKnifeFirst_suits h hreply
    rcases Option.or_eq_some_iff.mp hreply with hreply | ⟨-, hreply⟩
    · exact strike_suits h hreply
    rcases Option.or_eq_some_iff.mp hreply with hreply | ⟨-, hreply⟩
    · exact buyHorseForReach_suits h hreply
    · exact walk_suits h hreply
  · exact ⟨_, rfl, h.doNothing halive⟩

end KnifePreferredBot

namespace HorsePreferredBot

variable {reply : Reply} {currentOrder : Int}

theorem buyHorseFirst_suits (h : Plays bot d p) (hreply : buyHorseFirst bot p = some reply) :
    Suits d bot.objectName (.action currentOrder) reply := by
  unfold buyHorseFirst at hreply
  split at hreply
  · next hcan =>
    cases hreply
    exact h.buyHorse (Bool.and_eq_true_iff.mp hcan).2
  · cases hreply

theorem buyKnife_suits (h : Plays bot d p) (hreply : buyKnife bot p = some reply) :
    Suits d bot.objectName (.action currentOrder) reply := by
  unfold buyKnife at hreply
  split at hreply
  · next hcan =>
    cases hreply
    exact h.buyKnife (Bool.and_eq_true_iff.mp hcan).2
  · cases hreply

variable [Zero Score] [LT Score] [DecidableLT Score]

theorem strike_suits (h : Plays bot d p) (hreply : strike bot p = some reply) :
    Suits d bot.objectName (.action currentOrder) reply := by
  unfold strike at hreply
  split at hreply
  · cases hreply
  · next peer htarget =>
    have hpeer := Bot.player_of_attackTarget htarget
    split_ifs at hreply with hkick hsafe
    · cases hreply
      exact h.kick hpeer hkick
    · cases hreply
      exact h.slash hpeer (Bot.canSlash_of_canSlashSafely h.selfPlayer hsafe)

/-- A victim is the peer of the best score, and the rules let the bot pull it. -/
theorem pullTarget_spec (hself : bot.selfPlayer = some p) (hvictim : pullTarget bot ≠ "") :
    ∃ victim, bot.room.player (pullTarget bot) = some victim ∧
      p.canLetMove bot.logicConfiguration victim p.place = true ∧
      pullTarget bot = bot.selectTarget := by
  simp only [pullTarget, hself] at hvictim ⊢
  split at hvictim
  · exact absurd rfl hvictim
  next hplace =>
  split at hvictim
  · exact absurd rfl hvictim
  next hrated =>
  split at hvictim
  · exact absurd rfl hvictim
  next victim hplayer =>
  split at hvictim
  · exact absurd rfl hvictim
  next hcan =>
  rw [if_neg hplace, if_neg hrated, if_neg hcan]
  exact ⟨victim, hplayer, by simpa using hcan, rfl⟩

theorem pull_suits (h : Plays bot d p) (hreply : pull bot p = some reply) :
    Suits d bot.objectName (.action currentOrder) reply := by
  simp only [pull] at hreply
  split at hreply
  · cases hreply
  · next hvictim =>
    cases hreply
    obtain ⟨victim, hplayer, hcan, -⟩ := pullTarget_spec h.selfPlayer hvictim
    exact h.letMove hplayer hcan

theorem walk_suits (h : Plays bot d p) (hreply : walk bot p = some reply) :
    Suits d bot.objectName (.action currentOrder) reply := by
  simp only [walk] at hreply
  split at hreply
  · generalize (if p.canMove bot.logicConfiguration (wantedPlace bot) = true then wantedPlace bot
      else Village) = dest at hreply
    split at hreply
    · next hcan =>
      cases hreply
      exact h.move hcan
    · cases hreply
  · cases hreply

theorem handleActionRequest_suits (h : Plays bot d p)
    (halive : p.alive d.room.logicConfiguration = true) :
    ∃ reply, handleActionRequest bot = [.reply reply] ∧
      Suits d bot.objectName (.action currentOrder) reply := by
  simp only [handleActionRequest, h.selfPlayer]
  split
  · next reply hreply =>
    refine ⟨reply, rfl, ?_⟩
    rcases Option.or_eq_some_iff.mp hreply with hreply | ⟨-, hreply⟩
    · exact strike_suits h hreply
    rcases Option.or_eq_some_iff.mp hreply with hreply | ⟨-, hreply⟩
    · exact buyHorseFirst_suits h hreply
    rcases Option.or_eq_some_iff.mp hreply with hreply | ⟨-, hreply⟩
    · exact pull_suits h hreply
    rcases Option.or_eq_some_iff.mp hreply with hreply | ⟨-, hreply⟩
    · exact buyKnife_suits h hreply
    · exact walk_suits h hreply
  · exact ⟨_, rfl, h.doNothing halive⟩

end HorsePreferredBot

/-- A round has begun, so the room keeps to the laws. -/
theorem lawful_of_reachable {logic : Logic (List Signal)} (hreach : Logic.system.Reachable logic)
    (hconf : logic.d.room.logicConfiguration.Accepted) (hround : logic.d.state ≠ .BeforeRoundStart) :
    Lawful logic.d where
  accepted := hconf
  statsInBounds := ((solvent_invariant _ hconf.sound).of_reachable hreach rfl).statsInBounds
  withinCapacity := withinCapacity_invariant.of_reachable hreach hround

section Requests

variable [Zero Score] [LT Score] [DecidableLT Score] {req : Request}

/-- Whatever is asked for, the one verb of the handler is a reply that suits. -/
theorem handle_suits (hlaws : Lawful d) (hroom : bot.room = d.room)
    (hreq : Grants d bot.objectName req) (index : Fin 3) (style : Style) :
    ∃ reply, bot.handle index style req = [.reply reply] ∧ Suits d bot.objectName req reply := by
  cases req with
  | rockPaperScissors => cases style <;> exact ⟨_, rfl, rfl, trivial⟩
  | actionOrder => cases style <;> exact ⟨_, rfl, Bot.desiredActionOrders_suits hreq⟩
  | action =>
    obtain ⟨p, hplayer, halive⟩ := hreq
    have hplays : Plays bot d p := ⟨hroom, hplayer⟩
    cases style with
    | knifePreferred => exact KnifePreferredBot.handleActionRequest_suits hplays halive
    | horsePreferred => exact HorsePreferredBot.handleActionRequest_suits hplays halive
  | upgrade =>
    have hgranted := hreq
    obtain ⟨p, hplayer, -⟩ := hgranted
    have hplays : Plays bot d p := ⟨hroom, hplayer⟩
    cases style with
    | knifePreferred =>
      exact Bot.spendPoints_suits hlaws hplays (by decide) (by rintro (_ | _ | _) <;> decide) hreq
    | horsePreferred =>
      exact Bot.spendPoints_suits hlaws hplays (by decide) (by rintro (_ | _ | _) <;> decide) hreq

/-- What a bot is asked for it answers once, and the checks of the logic on the very room
it has looked at let the answer pass as it is sent. -/
theorem bot_reply_legal (hlaws : Lawful d) (hroom : bot.room = d.room)
    (hreq : Grants d bot.objectName req) (index : Fin 3) (style : Style) :
    ∃ reply, bot.handle index style req = [.reply reply] ∧ reply.requestId = req.requestId ∧
      (∀ action toPlayer toPlace, reply = .action action toPlayer toPlace →
        d.actionFeasible bot.objectName action toPlayer toPlace = .ok true) ∧
      (∀ orders, reply = .actionOrder orders → (d.chosenOrders
        (d.actionOrderRemainingSelections.value bot.objectName (-1)) orders).1 = true) ∧
      ∀ items, reply = .upgrade items → d.upgradeFeasible bot.objectName items = .ok true := by
  obtain ⟨reply, hreply, hkind, hlegal⟩ := handle_suits hlaws hroom hreq index style
  refine ⟨reply, hreply, hkind, fun action toPlayer toPlace heq => ?_, fun orders heq => ?_,
    fun items heq => ?_⟩ <;>
  subst heq <;> exact hlegal

/-- A slashed B, and its bot is asked to spend the point. -/
theorem bot_reply_legal_upgrade : ∃ (d : LogicP) (bot : Bot Int) (reply : Reply),
    bot.handle 0 .knifePreferred (.upgrade 1) = [.reply reply] ∧
      reply.requestId = .RequestUpgrade ∧
      ∀ items, reply = .upgrade items → d.upgradeFeasible "A" items = .ok true := by
  obtain ⟨self, hreach, hconf, hslashed⟩ := exists_accepted_run
    (sets [("initialMaxHp", 1), ("punishHpModifier", 0)]) slashCalls
    (fun self => decide (self.d.state = .Upgrade ∧
      (self.d.room.player "A").map (·.upgradePoint) = some 1)) (by decide)
  obtain ⟨hstate, hpoint⟩ := of_decide_eq_true hslashed
  obtain ⟨p, hplayer, hpoint⟩ := Option.map_eq_some_iff.mp hpoint
  have hlaws := lawful_of_reachable (.of_guarded hreach) hconf (by rw [hstate]; decide)
  have hroom : (⟨{ ClientP.new "A" "A" with room := self.d.room }, fun _ => 0⟩ : Bot Int).room =
      self.d.room := rfl
  have hreq : Grants self.d "A" (.upgrade 1) := ⟨p, hplayer, hpoint, by decide⟩
  obtain ⟨reply, hreply, hkind, -, -, hfeasible⟩ :=
    bot_reply_legal hlaws hroom hreq 0 .knifePreferred
  exact ⟨self.d, _, reply, hreply, hkind, hfeasible⟩

end Requests

end QMdmmBot
