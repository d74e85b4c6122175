import QMdmm.Core.ActionFrame
import QMdmm.Gui.GameClient

namespace QMdmmGui

open QMdmmCore Data QMdmmNetworking

/-- A logic that plays in a room. -/
def logicIn (room : Room) : LogicP := { LogicP.new room.logicConfiguration with room := room }

/-- A move of `p` that the game accepts, to a place the room has or at another
living player; what an action does not take is left at the menu's default. -/
structure LegalMove (room : Room) (p : Player) (action : Action) (target : String) (place : Int) :
    Prop where
  feasible : (logicIn room).actionFeasible p.objectName action target place = .ok true
  place : if action.hasPlace then 0 ≤ place ∧ place ≤ room.playerNames.length else place = -1
  target : if action.hasTarget then
      ∃ q, room.player target = some q ∧ q.alive room.logicConfiguration = true ∧
        target ≠ p.objectName
    else target = ""

/-- The legal moves with another bound on the places. -/
def LegalUpTo (bound : Int) (room : Room) (p : Player) (action : Action) (target : String)
    (place : Int) : Prop :=
  (if action.hasPlace then 0 ≤ place ∧ place ≤ bound else place = -1) ∧
    if action.hasTarget then
      ∃ q, room.player target = some q ∧ q.alive room.logicConfiguration = true ∧
        target ≠ p.objectName ∧ p.can room.logicConfiguration q place action = true
    else target = "" ∧ p.can room.logicConfiguration p place action = true

variable {room : Room} {p q : Player} {action : Action} {target : String} {place : Int}

theorem ne_of_isPlaceAdjacent {here there : Int} (h : isPlaceAdjacent here there = true) :
    there ≠ here := by
  rintro rfl
  simp [isPlaceAdjacent] at h

/-- One end of a movement is the Village. -/
theorem isPlaceAdjacent_city {here there : Int} (hcity : there ≠ Village) :
    isPlaceAdjacent here there = true ↔ here = Village := by
  simp [isPlaceAdjacent, hcity]

theorem legalMove_iff (hp : room.player p.objectName = some p) :
    LegalMove room p action target place ↔
      LegalUpTo room.playerNames.length room p action target place := by
  have hjudged {q : Player} (hgiven : action.hasTarget = true → room.player target = some q) :
      (logicIn room).actionFeasible p.objectName action target place = .ok true ↔
        p.can room.logicConfiguration q place action = true := by
    rw [LogicP.actionFeasible_eq place hp hgiven]
    simp [logicIn]
  unfold LegalUpTo
  constructor
  · rintro ⟨hfeasible, hplace, htarget⟩
    refine ⟨hplace, ?_⟩
    split
    · next hhas =>
      rw [if_pos hhas] at htarget
      obtain ⟨q, hq, halive, hne⟩ := htarget
      exact ⟨q, hq, halive, hne, (hjudged fun _ => hq).mp hfeasible⟩
    · next hhas =>
      rw [if_neg hhas] at htarget
      exact ⟨htarget, (hjudged (q := p) fun h => absurd h hhas).mp hfeasible⟩
  · rintro ⟨hplace, htarget⟩
    split at htarget
    · next hhas =>
      obtain ⟨q, hq, halive, hne, hcan⟩ := htarget
      exact ⟨(hjudged fun _ => hq).mpr hcan, hplace, by rw [if_pos hhas]; exact ⟨q, hq, halive, hne⟩⟩
    · next hhas =>
      exact ⟨(hjudged fun h => absurd h hhas).mpr htarget.2, hplace, by rw [if_neg hhas]; exact htarget.1⟩

namespace QMdmmGameClient

variable {game : QMdmmGameClient}

/-- The menu lists a move. -/
def Lists (game : QMdmmGameClient) (action : Action) (target : String) (place : Int) : Prop :=
  ∃ entry ∈ game.getActionOptions,
    entry.action = action ∧ entry.target = target ∧ entry.place = place

theorem mem_places {playerCount place : Int} :
    place ∈ places playerCount ↔ 0 ≤ place ∧ place ≤ playerCount := by
  simp only [places, List.mem_map, List.mem_range]
  constructor
  · rintro ⟨n, hn, rfl⟩
    omega
  · rintro ⟨hlo, hhi⟩
    exact ⟨place.toNat, by omega, by omega⟩

theorem mem_moveOptions {conf : LogicConfiguration} {entry : ActionOption} :
    entry ∈ game.moveOptions conf p ↔ ∃ place, 0 ≤ place ∧ place ≤ game.playerCount ∧
      p.canMove conf place = true ∧ entry = ⟨.Move, "Move to " ++ placeName place, "", place⟩ := by
  simp only [moveOptions, List.mem_map, List.mem_filter, mem_places, Bool.and_eq_true,
    decide_eq_true_eq]
  constructor
  · rintro ⟨place, ⟨⟨hlo, hhi⟩, -, -, hcan⟩, rfl⟩
    exact ⟨place, hlo, hhi, hcan, rfl⟩
  · rintro ⟨place, hlo, hhi, hcan, rfl⟩
    have hadjacent : isPlaceAdjacent p.place place = true := by
      simp only [Player.canMove, Bool.and_eq_true] at hcan
      exact hcan.2
    exact ⟨place, ⟨⟨hlo, hhi⟩, ne_of_isPlaceAdjacent hadjacent, hadjacent, hcan⟩, rfl⟩

/-- A player moves another one next to where that one is. -/
theorem canLetMove_adjacent {conf : LogicConfiguration} (hne : q.objectName ≠ p.objectName)
    (hcan : p.canLetMove conf q place = true) : isPlaceAdjacent q.place place = true := by
  unfold Player.canLetMove at hcan
  rw [if_neg (by simpa using hne.symm)] at hcan
  by_contra hfar
  simp [hfar] at hcan

/-- The entries about one other player. -/
theorem mem_optionsOn (game : QMdmmGameClient) {conf : LogicConfiguration}
    (hne : q.objectName ≠ p.objectName) :
    (∃ option ∈ game.optionsOn conf p q, option.action = action ∧ option.target = target ∧
      option.place = place) ↔
      target = q.objectName ∧ action.hasTarget = true ∧
        (if action.hasPlace then 0 ≤ place ∧ place ≤ game.playerCount else place = -1) ∧
        p.can conf q place action = true := by
  simp only [optionsOn, List.mem_append, List.mem_map, List.mem_filter, mem_places,
    Bool.and_eq_true, decide_eq_true_eq]
  have hblow {can : Bool} {blow option : ActionOption} :
      option ∈ (if can then [blow] else []) ↔ can = true ∧ option = blow := by
    cases can <;> simp
  simp only [hblow]
  constructor
  · rintro ⟨option, (⟨hcan, rfl⟩ | ⟨hcan, rfl⟩) | ⟨to', ⟨⟨hlo, hhi⟩, -, -, hcan⟩, rfl⟩, rfl, rfl, rfl⟩
    · exact ⟨rfl, rfl, rfl, hcan⟩
    · exact ⟨rfl, rfl, rfl, hcan⟩
    · exact ⟨rfl, rfl, ⟨hlo, hhi⟩, hcan⟩
  · rintro ⟨rfl, hhas, hplace, hcan⟩
    cases action with
    | DoNothing | BuyKnife | BuyHorse | Move => cases hhas
    | Slash => exact ⟨_, .inl (.inl ⟨hcan, rfl⟩), rfl, rfl, hplace.symm⟩
    | Kick => exact ⟨_, .inl (.inr ⟨hcan, rfl⟩), rfl, rfl, hplace.symm⟩
    | LetMove =>
      have hadjacent := canLetMove_adjacent hne hcan
      exact ⟨_, .inr ⟨place, ⟨hplace, ne_of_isPlaceAdjacent hadjacent, hadjacent, hcan⟩, rfl⟩,
        rfl, rfl, rfl⟩

/-- The menu lists the legal moves up to the bound of its own. -/
theorem lists_iff (hroom : game.room = some room) (hlocal : game.localPlayer = some p) :
    game.Lists action target place ↔ LegalUpTo game.playerCount room p action target place := by
  have hself {can : Bool} {option entry : ActionOption} :
      option ∈ (if can then [entry] else []) ↔ can = true ∧ option = entry := by
    cases can <;> simp
  simp only [Lists, getActionOptions, hlocal, actionListFor, hroom, List.mem_append, hself,
    mem_moveOptions, List.mem_flatMap, List.mem_filter, Bool.and_eq_true, decide_eq_true_eq]
  unfold LegalUpTo
  constructor
  · rintro ⟨option, ((((⟨hcan, rfl⟩ | ⟨hcan, rfl⟩) | ⟨hcan, rfl⟩) | ⟨to', hlo, hhi, hcan, rfl⟩) |
      ⟨q, ⟨hq, hne, halive⟩, hoption⟩), rfl, rfl, rfl⟩
    · exact ⟨rfl, rfl, hcan⟩
    · exact ⟨rfl, rfl, hcan⟩
    · exact ⟨rfl, rfl, hcan⟩
    · exact ⟨⟨hlo, hhi⟩, rfl, hcan⟩
    · obtain ⟨htarget, hhas, hplace, hcan⟩ :=
        (game.mem_optionsOn hne).mp ⟨option, hoption, rfl, rfl, rfl⟩
      refine ⟨hplace, ?_⟩
      rw [if_pos hhas, htarget]
      exact ⟨q, Room.player_eq_some.mpr ⟨hq, rfl⟩, halive, hne, hcan⟩
  · rintro ⟨hplace, htarget⟩
    cases action with
    | DoNothing => exact ⟨_, .inl (.inl (.inl (.inl ⟨htarget.2, rfl⟩))), rfl, htarget.1.symm, hplace.symm⟩
    | BuyKnife => exact ⟨_, .inl (.inl (.inl (.inr ⟨htarget.2, rfl⟩))), rfl, htarget.1.symm, hplace.symm⟩
    | BuyHorse => exact ⟨_, .inl (.inl (.inr ⟨htarget.2, rfl⟩)), rfl, htarget.1.symm, hplace.symm⟩
    | Move =>
      exact ⟨_, .inl (.inr ⟨place, hplace.1, hplace.2, htarget.2, rfl⟩), rfl, htarget.1.symm, rfl⟩
    | Slash | Kick | LetMove =>
      obtain ⟨q, hq, halive, hne, hcan⟩ := htarget
      obtain ⟨hmem, hname⟩ := Room.player_eq_some.mp hq
      rw [← hname] at hne
      obtain ⟨option, hoption, haction, htarget, hplace⟩ :=
        (game.mem_optionsOn hne).mpr ⟨hname.symm, rfl, hplace, hcan⟩
      exact ⟨option, .inr ⟨q, ⟨hmem, hne, halive⟩, hoption⟩, haction, htarget, hplace⟩

/-- The menu is exactly the legal moves. -/
def MenuExact (game : QMdmmGameClient) (room : Room) (p : Player) : Prop :=
  ∀ action target place, game.Lists action target place ↔ LegalMove room p action target place

/-- A city that only one of the two bounds admits. -/
def Between (game : QMdmmGameClient) (room : Room) (place : Int) : Prop :=
  min game.playerCount room.playerNames.length < place ∧
    place ≤ max game.playerCount room.playerNames.length

/-- The bound of the menu is the size of the room, or no city that only one of
them admits is within reach of the player: it is in no such place itself with
somebody to pull out of the Village, and not in the Village. -/
def BoundFits (game : QMdmmGameClient) (room : Room) (p : Player) : Prop :=
  game.playerCount = room.playerNames.length ∨
    (p.place ≠ Village ∧
      ¬ (game.Between room p.place ∧ room.logicConfiguration.enableLetMove = true ∧
        ∃ q ∈ room.alivePlayers, q.objectName ≠ p.objectName ∧ q.place = Village))

theorem Between.city (hbetween : game.Between room place) : place ≠ Village := by
  have := game.playerCount_bounds
  unfold Between at hbetween
  unfold Village
  omega

/-- The city that the bounds disagree on. -/
theorem Between.bound_iff (hbetween : game.Between room place) :
    ¬ (0 ≤ place ∧ place ≤ game.playerCount ↔ 0 ≤ place ∧ place ≤ room.playerNames.length) := by
  have := game.playerCount_bounds
  unfold Between at hbetween
  omega

/-- What a player in reach of such a city can do there: walk there out of the
Village, or pull somebody out of the Village to it. -/
theorem canMove_between {conf : LogicConfiguration} (hbetween : game.Between room place) :
    p.canMove conf place = true ↔ p.alive conf = true ∧ p.place = Village := by
  rw [Player.canMove, Bool.and_eq_true, isPlaceAdjacent_city hbetween.city]

theorem canLetMove_between {conf : LogicConfiguration} (hne : q.objectName ≠ p.objectName)
    (hbetween : game.Between room place) (hcity : p.place ≠ Village) :
    p.canLetMove conf q place = true ↔ conf.enableLetMove = true ∧ p.alive conf = true ∧
      q.alive conf = true ∧ q.place = Village ∧ p.place = place := by
  have hself : (p.objectName == q.objectName) = false := by simpa using hne.symm
  have hadjacent := @isPlaceAdjacent_city q.place place hbetween.city
  unfold Player.canLetMove Player.alive
  rw [hself, if_neg Bool.false_ne_true]
  by_cases hvillage : q.place = Village
  · have hpull : isPlaceAdjacent p.place q.place = true := by
      rw [hvillage]
      simp [isPlaceAdjacent, hcity]
    have hpush : (p.place == q.place) = false := by
      rw [hvillage]
      simpa using hcity
    rw [hadjacent.mpr hvillage, hpull, hpush]
    cases conf.enableLetMove <;> cases p.dead conf <;> cases q.dead conf <;>
      simp [hvillage, @eq_comm _ place]
  · have hfar : isPlaceAdjacent q.place place = false := by
      simpa using fun h => hvillage (hadjacent.mp h)
    simp [hfar, hvillage]

/-- Bounds that both fit admit the same moves. -/
theorem legalUpTo_of_fits {bound other : Int}
    (hbounds : bound = game.playerCount ∧ other = room.playerNames.length ∨
      bound = room.playerNames.length ∧ other = game.playerCount)
    (hfits : game.BoundFits room p) (h : LegalUpTo bound room p action target place) :
    LegalUpTo other room p action target place := by
  obtain ⟨hplace, htarget⟩ := h
  refine ⟨?_, htarget⟩
  split
  · next hhas =>
    rw [if_pos hhas] at hplace
    refine ⟨hplace.1, ?_⟩
    by_contra hover
    have hbetween : game.Between room place := by
      unfold Between
      omega
    obtain heq | ⟨hcity, hreach⟩ := hfits
    · omega
    · cases action with
      | DoNothing | BuyKnife | BuyHorse | Slash | Kick => cases hhas
      | Move => exact hcity ((canMove_between hbetween).mp htarget.2).2
      | LetMove =>
        obtain ⟨q, hq, halive, hne, hcan⟩ := htarget
        obtain ⟨hmem, hname⟩ := Room.player_eq_some.mp hq
        rw [← hname] at hne
        obtain ⟨hlet, -, -, hvillage, hhere⟩ := (canLetMove_between hne hbetween hcity).mp hcan
        exact hreach ⟨hhere ▸ hbetween, hlet, q, List.mem_filter.mpr ⟨hmem, halive⟩, hne, hvillage⟩
  · next hhas => rwa [if_neg hhas] at hplace

/-- The menu is right exactly if its bound fits. -/
theorem menuExact_iff (hroom : game.room = some room) (hlocal : game.localPlayer = some p)
    (halive : p.alive room.logicConfiguration = true) :
    game.MenuExact room p ↔ game.BoundFits room p := by
  have hp : room.player p.objectName = some p := by
    unfold localPlayer at hlocal
    split at hlocal
    · cases hlocal
    · rw [hroom, Option.bind_some] at hlocal
      rwa [(Room.player_eq_some.mp hlocal).2]
  have hexact : game.MenuExact room p ↔ ∀ action target place,
      LegalUpTo game.playerCount room p action target place ↔
        LegalUpTo room.playerNames.length room p action target place := by
    simp only [MenuExact, lists_iff hroom hlocal, legalMove_iff hp]
  rw [hexact]
  constructor
  · intro h
    by_contra hmisfit
    unfold BoundFits at hmisfit
    push Not at hmisfit
    obtain ⟨hne, hreach⟩ := hmisfit
    by_cases hcity : p.place = Village
    · have hbetween : game.Between room (max game.playerCount room.playerNames.length) := by
        unfold Between
        omega
      have hmove := h .Move "" (max game.playerCount room.playerNames.length)
      have hcan : p.canMove room.logicConfiguration (max game.playerCount room.playerNames.length) =
          true := (canMove_between hbetween).mpr ⟨halive, hcity⟩
      simp only [LegalUpTo, Action.hasPlace, Action.hasTarget, if_true, Bool.false_eq_true, if_false,
        Player.can, hcan, and_true] at hmove
      exact hbetween.bound_iff hmove
    · obtain ⟨hbetween, hlet, q, hq, hother, hvillage⟩ := hreach hcity
      obtain ⟨hmem, hqalive⟩ := List.mem_filter.mp hq
      have hmove := h .LetMove q.objectName p.place
      have hcan : p.canLetMove room.logicConfiguration q p.place = true :=
        (canLetMove_between hother hbetween hcity).mpr ⟨hlet, halive, hqalive, hvillage, rfl⟩
      have htarget : ∃ q', room.player q.objectName = some q' ∧
          q'.alive room.logicConfiguration = true ∧ q.objectName ≠ p.objectName ∧
          p.can room.logicConfiguration q' p.place .LetMove = true :=
        ⟨q, Room.player_eq_some.mpr ⟨hmem, rfl⟩, hqalive, hother, hcan⟩
      simp only [LegalUpTo, Action.hasPlace, Action.hasTarget, if_true, htarget, and_true] at hmove
      exact hbetween.bound_iff hmove
  · intro hfits action target place
    exact ⟨legalUpTo_of_fits (.inl ⟨rfl, rfl⟩) hfits, legalUpTo_of_fits (.inr ⟨rfl, rfl⟩) hfits⟩

/-- A game of two players, the first of whom plays here; the bound is the default one. -/
def seatedGame : QMdmmGameClient :=
  { new with
    human := some { ClientP.new "A" "A" with room := LogicP.twoSeated.room }
    localName := "A" }

theorem menuExact_iff_seated :
    seatedGame.MenuExact LogicP.twoSeated.room (LogicP.seated "A" 1) ↔
      seatedGame.BoundFits LogicP.twoSeated.room (LogicP.seated "A" 1) :=
  menuExact_iff rfl (by decide +kernel) (by decide +kernel)

/-- Joining a room of two players, whose first round begins with a walk to the Village. -/
def joinTwo : List Event :=
  let added (name : String) : Event := .packetReceived (.ofNotify .NotifyPlayerAdded (.object
    [("agentState", .ofInt 16), ("playerName", .string name), ("screenName", .string name)]))
  [.connectOnline "A" "" 0 true,
    .packetReceived (.ofNotify .NotifyLogicConfiguration (.object [])),
    added "A", added "B",
    .packetReceived (.ofNotify .NotifyGameStart (.object [])),
    .packetReceived (.ofNotify .NotifyRoundStart (.object [])),
    .packetReceived (.ofNotify .NotifyAction (.object
      [("action", .ofInt 5), ("playerName", .string "A"), ("toPlace", .ofInt 0)]))]

/-- The third city is on the menu of a game that has two. -/
theorem menuExact_fails : ∃ game room p, system.Reachable game ∧ game.room = some room ∧
    game.localPlayer = some p ∧ p.alive room.logicConfiguration = true ∧
    ¬ game.MenuExact room p := by
  have hrun : (play joinTwo).any (fun game => game.room.any fun room => game.localPlayer.any fun p =>
      p.alive room.logicConfiguration && room.playerNames.length == 2 &&
        game.getActionOptions.any fun entry =>
          entry.action = .Move && (entry.target = "" && entry.place = 3)) = true := by
    decide +kernel
  obtain ⟨game, hgame, htest⟩ := (Option.any_eq_true _ _).mp hrun
  obtain ⟨room, hroom, htest⟩ := (Option.any_eq_true _ _).mp htest
  obtain ⟨p, hlocal, htest⟩ := (Option.any_eq_true _ _).mp htest
  simp only [Bool.and_eq_true, beq_iff_eq, List.any_eq_true, decide_eq_true_eq] at htest
  obtain ⟨⟨halive, htwo⟩, entry, hentry, haction, htarget, hplace⟩ := htest
  refine ⟨game, room, p, reachable_of_play hgame, hroom, hlocal, halive, fun hexact => ?_⟩
  have hlegal := (hexact .Move "" 3).mp ⟨entry, hentry, haction, htarget, hplace⟩
  have hbound := hlegal.place
  simp [Action.hasPlace, htwo] at hbound

end QMdmmGameClient

end QMdmmGui
