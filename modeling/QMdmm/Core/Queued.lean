import QMdmm.Core.Logic
import QMdmm.Support.ExceptBind

namespace QMdmmCore

open Data

namespace LogicP

theorem deref_eq_ok {d : LogicP} {name : String} {p : Player} :
    d.deref name = .ok p ↔ d.room.player name = some p := by
  unfold deref
  cases d.room.player name <;> simp

theorem deref_of_mem {d : LogicP} {name : String} (hname : name ∈ d.room.playerNames) :
    ∃ p, d.deref name = .ok p := by
  obtain ⟨p, hp⟩ := Room.player_of_mem_playerNames hname
  exact ⟨p, deref_eq_ok.mpr hp⟩

theorem deref_objectName {d : LogicP} {name : String} {p : Player} (hp : d.deref name = .ok p) :
    p.objectName = name :=
  (Room.player_eq_some.mp (deref_eq_ok.mp hp)).2

@[simp] theorem setPlayer_room (d : LogicP) (p : Player) :
    (d.setPlayer p).room = d.room.setPlayer p := rfl

/-- What performing an action does, with the value the player's method returns. -/
inductive PerformAction (d : LogicP) (name : String) :
    Action → String → Int → Bool → LogicP → Prop where
  | doNothing {source : Player} {toPlayer : String} {toPlace : Int}
      (hsource : d.deref name = .ok source) :
      PerformAction d name .DoNothing toPlayer toPlace (source.doNothing d.room.logicConfiguration) d
  | buyKnife {source : Player} {toPlayer : String} {toPlace : Int}
      (hsource : d.deref name = .ok source) :
      PerformAction d name .BuyKnife toPlayer toPlace (source.buyKnife d.room.logicConfiguration).1
        (d.setPlayer (source.buyKnife d.room.logicConfiguration).2)
  | buyHorse {source : Player} {toPlayer : String} {toPlace : Int}
      (hsource : d.deref name = .ok source) :
      PerformAction d name .BuyHorse toPlayer toPlace (source.buyHorse d.room.logicConfiguration).1
        (d.setPlayer (source.buyHorse d.room.logicConfiguration).2)
  | slash {source target : Player} {toPlayer : String} {toPlace : Int}
      (hsource : d.deref name = .ok source) (htarget : d.deref toPlayer = .ok target) :
      PerformAction d name .Slash toPlayer toPlace
        (source.slash d.room.logicConfiguration target).1
        ((d.setPlayer (source.slash d.room.logicConfiguration target).2.1).setPlayer
          (source.slash d.room.logicConfiguration target).2.2)
  | kick {source target : Player} {toPlayer : String} {toPlace : Int}
      (hsource : d.deref name = .ok source) (htarget : d.deref toPlayer = .ok target) :
      PerformAction d name .Kick toPlayer toPlace
        (source.kick d.room.logicConfiguration target).1
        ((d.setPlayer (source.kick d.room.logicConfiguration target).2.1).setPlayer
          (source.kick d.room.logicConfiguration target).2.2)
  | move {source : Player} {toPlayer : String} {toPlace : Int}
      (hsource : d.deref name = .ok source) :
      PerformAction d name .Move toPlayer toPlace
        (source.move d.room.logicConfiguration toPlace).1
        (d.setPlayer (source.move d.room.logicConfiguration toPlace).2)
  | letMove {source target : Player} {toPlayer : String} {toPlace : Int}
      (hsource : d.deref name = .ok source) (htarget : d.deref toPlayer = .ok target) :
      PerformAction d name .LetMove toPlayer toPlace
        (source.letMove d.room.logicConfiguration target toPlace).1
        (d.setPlayer (source.letMove d.room.logicConfiguration target toPlace).2)

theorem performAction_cases {d d' : LogicP} {name toPlayer : String} {action : Action}
    {toPlace : Int} {ok : Bool}
    (hperform : d.performAction name action toPlayer toPlace = .ok (ok, d')) :
    PerformAction d name action toPlayer toPlace ok d' := by
  obtain ⟨source, hsource, hperform⟩ := Except.bind_eq_ok.mp hperform
  cases action with
  | DoNothing =>
    cases hperform
    exact .doNothing hsource
  | BuyKnife =>
    cases hperform
    exact .buyKnife hsource
  | BuyHorse =>
    cases hperform
    exact .buyHorse hsource
  | Slash =>
    obtain ⟨target, htarget, hperform⟩ := Except.bind_eq_ok.mp hperform
    cases hperform
    exact .slash hsource htarget
  | Kick =>
    obtain ⟨target, htarget, hperform⟩ := Except.bind_eq_ok.mp hperform
    cases hperform
    exact .kick hsource htarget
  | Move =>
    cases hperform
    exact .move hsource
  | LetMove =>
    obtain ⟨target, htarget, hperform⟩ := Except.bind_eq_ok.mp hperform
    cases hperform
    exact .letMove hsource htarget

/-- An action changes the room alone, and there neither the names nor the rules. -/
theorem PerformAction.frame {d d' : LogicP} {name toPlayer : String} {action : Action}
    {toPlace : Int} {ok : Bool} (hperform : PerformAction d name action toPlayer toPlace ok d') :
    d' = { d with room := d'.room } ∧ d'.room.playerNames = d.room.playerNames ∧
      d'.room.logicConfiguration = d.room.logicConfiguration := by
  cases hperform <;> simp [setPlayer]

/-- The players `startUpgrade` asks. -/
def upgraders (d : LogicP) : List Player :=
  d.room.players.toList.filter fun p => p.upgradePoint > 0

/-- The holders of the orders between the current one and a later one are dead. -/
def SkipsTo (d : LogicP) (order : Nat) : Prop :=
  ∀ k : Nat, d.currentActionOrder < k → k < order → d.confirmedPlayer k ∉ d.room.alivePlayerNames

def enterUpgrade (d : LogicP) : LogicP :=
  { d with upgrades := ∅, state := if d.upgraders = [] then d.state else .Upgrade }

end LogicP

namespace Logic

open Data LogicP

variable {self self' : Logic (List Signal)}

@[simp] theorem post_apply (signal : Signal) (self : Logic (List Signal)) :
    post signal self = .ok ⟨self.d, self.env ++ [signal]⟩ := rfl

theorem startRpsForAction_post (self : Logic (List Signal)) :
    startRpsForAction post self =
      .ok ⟨self.d.enterRpsForAction, self.env ++ [.requestRpsForAction self.d.room.alivePlayerNames]⟩ :=
  rfl

/-- The loop of `startUpgrade` over some of the players. -/
theorem requestUpgrades_post (self : Logic (List Signal)) (players : List Player)
    (hplayers : ∀ p ∈ players, p ∈ self.d.room.players.toList) :
    requestUpgrades post (players.map (·.objectName)) self =
      .ok ⟨{ self.d with
          state := if players.filter (·.upgradePoint > 0) = [] then self.d.state else .Upgrade },
        self.env ++ (players.filter (·.upgradePoint > 0)).map fun p =>
          .requestUpgrade p.objectName p.upgradePoint⟩ := by
  induction players generalizing self with
  | nil => simp [requestUpgrades]
  | cons p rest ih =>
    have hp : self.d.deref p.objectName = .ok p :=
      deref_eq_ok.mpr (Room.player_eq_some.mpr ⟨hplayers p List.mem_cons_self, rfl⟩)
    have hrest : ∀ q ∈ rest, q ∈ self.d.room.players.toList := fun q hq =>
      hplayers q (List.mem_cons_of_mem _ hq)
    simp only [List.map_cons, requestUpgrades, hp, Except.ok_bind]
    by_cases hpoints : p.upgradePoint > 0
    · rw [if_pos hpoints, post_apply, Except.ok_bind, ih _ (by exact hrest)]
      simp [hpoints, setState]
    · rw [if_neg hpoints, ih _ hrest]
      simp [hpoints]

theorem startUpgrade_post (hover : self.d.room.isRoundOver = true) :
    startUpgrade post self =
      .ok ⟨self.d.enterUpgrade, self.env ++ self.d.upgraders.map fun p =>
        .requestUpgrade p.objectName p.upgradePoint⟩ := by
  unfold startUpgrade
  rw [if_pos hover]
  exact requestUpgrades_post _ _ fun _ hp => hp

/-- Where the loop of `startAction` ends: at the next order whose holder lives,
or in a new Rock-Paper-Scissors for actions. -/
inductive NextAction (self : Logic (List Signal)) : Logic (List Signal) → Prop where
  | turn {order : Nat} {p : Player} (hlater : self.d.currentActionOrder < order)
      (horder : order ≤ self.d.rpsForActionWinners.length)
      (hplayer : self.d.deref (self.d.confirmedPlayer order) = .ok p)
      (halive : p.alive self.d.room.logicConfiguration = true)
      (hskipped : self.d.SkipsTo order) :
      NextAction self
        ⟨{ self.d with currentActionOrder := order, state := .Action },
          self.env ++ [.requestAction (self.d.confirmedPlayer order) order]⟩
  | again {order : Nat} (hlater : self.d.currentActionOrder < order)
      (hskipped : self.d.SkipsTo (self.d.rpsForActionWinners.length + 1)) :
      NextAction self
        ⟨{ self.d with currentActionOrder := order }.enterRpsForAction,
          self.env ++ [.requestRpsForAction self.d.room.alivePlayerNames]⟩

theorem nextAction_cases {left : Nat}
    (hleft : self.d.rpsForActionWinners.length - self.d.currentActionOrder = left)
    (hnext : nextAction post left self = .ok self') : NextAction self self' := by
  induction left generalizing self with
  | zero =>
    rw [nextAction, startRpsForAction_post] at hnext
    cases hnext
    refine .again (Nat.lt_succ_self _) fun k hlater hbefore => ?_
    omega
  | succ left ih =>
    simp only [nextAction] at hnext
    obtain ⟨p, hp, hnext⟩ := Except.bind_eq_ok.mp hnext
    split at hnext
    · next halive =>
      cases hnext
      have hroom : self.d.currentActionOrder + 1 ≤ self.d.rpsForActionWinners.length := by omega
      refine .turn (Nat.lt_succ_self _) hroom hp halive fun k hlater hbefore => ?_
      simp only [modify_d, nextOrder] at hbefore
      omega
    · next hdead =>
      have hfirst : self.d.confirmedPlayer (self.d.currentActionOrder + 1 : Nat) ∉
          self.d.room.alivePlayerNames := by
        intro hmem
        obtain ⟨q, hq, halive⟩ := Room.mem_alivePlayerNames.mp hmem
        have hsame := (deref_eq_ok.mp hp).symm.trans hq
        exact hdead (Option.some.inj hsame ▸ halive)
      have hskips {order : Nat} (h : (self.modify nextOrder).d.SkipsTo order) :
          self.d.SkipsTo order := by
        intro k hlater hbefore
        obtain rfl | hlater : k = self.d.currentActionOrder + 1 ∨ self.d.currentActionOrder + 1 < k := by
          omega
        · exact hfirst
        · exact h k hlater hbefore
      have hstep := ih (by simp only [modify_d, nextOrder]; omega) hnext
      cases hstep with
      | turn hlater horder hplayer halive hskipped =>
        exact .turn (by simp only [modify_d, nextOrder] at hlater; omega) horder hplayer halive
          (hskips hskipped)
      | again hlater hskipped =>
        exact .again (by simp only [modify_d, nextOrder] at hlater; omega) (hskips hskipped)

/-- The loop only stops at a null player, never when every order left is held
by a player of the room. -/
theorem nextAction_ok {left : Nat}
    (hleft : self.d.rpsForActionWinners.length - self.d.currentActionOrder = left)
    (hholders : ∀ order : Nat, self.d.currentActionOrder < order →
      order ≤ self.d.rpsForActionWinners.length →
      self.d.confirmedPlayer order ∈ self.d.room.playerNames) :
    ∃ self', nextAction post left self = .ok self' := by
  induction left generalizing self with
  | zero => exact ⟨_, rfl⟩
  | succ left ih =>
    obtain ⟨p, hp⟩ := deref_of_mem (hholders (self.d.currentActionOrder + 1) (by omega) (by omega))
    have hnext : (self.modify nextOrder).d.deref ((self.modify nextOrder).d.confirmedPlayer
        (self.modify nextOrder).d.currentActionOrder) = .ok p := hp
    simp only [nextAction, hnext, Except.ok_bind]
    split
    · exact ⟨_, rfl⟩
    · refine ih (by simp only [modify_d, nextOrder]; omega) fun order hlater horder => ?_
      simp only [modify_d, nextOrder] at hlater horder ⊢
      exact hholders order (by omega) horder

inductive StartAction (self : Logic (List Signal)) : Logic (List Signal) → Prop where
  | next {self' : Logic (List Signal)} (hgoing : self.d.room.isRoundOver = false)
      (hnext : NextAction self self') : StartAction self self'
  | roundOver (hover : self.d.room.isRoundOver = true) :
      StartAction self ⟨self.d.enterUpgrade, self.env ++ [.roundOver] ++
        self.d.upgraders.map fun p => .requestUpgrade p.objectName p.upgradePoint⟩

theorem startAction_cases (hstart : startAction post self = .ok self') : StartAction self self' := by
  unfold startAction at hstart
  split at hstart
  · next hgoing => exact .next (by simpa using hgoing) (nextAction_cases rfl hstart)
  · next hover =>
    rw [post_apply, Except.ok_bind, startUpgrade_post (by simpa using hover)] at hstart
    cases hstart
    exact .roundOver (by simpa using hover)

theorem startAction_ok (self : Logic (List Signal))
    (hholders : ∀ order : Nat, self.d.currentActionOrder < order →
      order ≤ self.d.rpsForActionWinners.length →
      self.d.confirmedPlayer order ∈ self.d.room.playerNames) :
    ∃ self', startAction post self = .ok self' := by
  unfold startAction
  split
  · exact nextAction_ok rfl hholders
  · next hover =>
    rw [post_apply, Except.ok_bind, startUpgrade_post (by simpa using hover)]
    exact ⟨_, rfl⟩

theorem requestActionOrders_post (orders : List Int) (striving : QHash String Int)
    (names : List String) (self : Logic (List Signal)) :
    requestActionOrders post orders striving names self =
      .ok ⟨self.d, self.env ++ names.map fun name =>
        .requestActionOrder name orders self.d.rpsForActionWinners.length
          (striving.value name 0)⟩ := by
  induction names generalizing self with
  | nil => simp [requestActionOrders]
  | cons name rest ih => simp [requestActionOrders, ih]

/-- The requests of a contested negotiation. -/
def actionOrderRequests (d : LogicP) : List Signal :=
  d.strivingNames.map fun name =>
    .requestActionOrder name d.remainingActionOrders d.rpsForActionWinners.length
      (d.strivingActionCount.value name 0)

inductive StartActionOrder (self : Logic (List Signal)) : Logic (List Signal) → Prop where
  | settled {confirmed : QHash Int String} {self' : Logic (List Signal)}
      (hnothing : self.d.nothingLeftToFightFor = true)
      (hhand : handOut self.d.remainingActionOrders 0 self.d.leftoverPlayers
        self.d.confirmedActionOrders = .ok confirmed)
      (haction : StartAction
        ⟨{ self.d with confirmedActionOrders := confirmed, currentActionOrder := 0 },
          self.env ++ [.actionOrderResult confirmed]⟩ self') : StartActionOrder self self'
  | contested (hnothing : self.d.nothingLeftToFightFor = false) :
      StartActionOrder self
        ⟨self.d.enterActionOrder, self.env ++ actionOrderRequests self.d⟩

theorem startActionOrder_cases (hstart : startActionOrder post self = .ok self') :
    StartActionOrder self self' := by
  unfold startActionOrder at hstart
  split at hstart
  · next hnothing =>
    obtain ⟨confirmed, hhand, hstart⟩ := Except.bind_eq_ok.mp hstart
    exact .settled hnothing hhand (startAction_cases hstart)
  · next hnothing =>
    rw [requestActionOrders_post] at hstart
    cases hstart
    exact .contested (by simpa using hnothing)

inductive StartRpsForActionOrder (self : Logic (List Signal)) : Logic (List Signal) → Prop where
  | uncontested {self' : Logic (List Signal)}
      (hnone : self.d.confirmUncontested.desiredActionOrders = [])
      (hstart : StartActionOrder ⟨self.d.confirmUncontested, self.env⟩ self') :
      StartRpsForActionOrder self self'
  | contested {order : Int} (hsome : self.d.confirmUncontested.desiredActionOrders ≠ [])
      (horder : self.d.confirmUncontested.lowestContestedOrder = order) (hnot : order ≠ 0) :
      StartRpsForActionOrder self
        ⟨self.d.confirmUncontested.enterRpsForActionOrder order, self.env ++
          [.requestRpsForActionOrder
            (self.d.confirmUncontested.desiredActionOrders.values order) order]⟩

theorem startRpsForActionOrder_cases (hstart : startRpsForActionOrder post self = .ok self') :
    StartRpsForActionOrder self self' := by
  unfold startRpsForActionOrder at hstart
  dsimp only [modify] at hstart
  split at hstart
  · next hnone => exact .uncontested hnone (startActionOrder_cases hstart)
  · next hsome =>
    split at hstart
    · cases hstart
    · next hnot =>
      cases hstart
      exact .contested hsome rfl hnot

/-- A round of Rock-Paper-Scissors for actions, after a reply. -/
inductive RpsForAction (self : Logic (List Signal)) : Logic (List Signal) → Prop where
  | waiting (hcount : self.d.rpsForActionReplies.count ≠ self.d.room.alivePlayersCount) :
      RpsForAction self self
  | tie {streak : Nat} (hcount : self.d.rpsForActionReplies.count = self.d.room.alivePlayersCount)
      (htie : rockPaperScissorsWinners self.d.rpsForActionReplies = []) :
      RpsForAction self
        ⟨{ self.d with rpsForActionWinners := [], rpsForActionTieStreak := streak }.enterRpsForAction,
          self.env ++ [.rpsResult self.d.rpsForActionReplies] ++
            [.requestRpsForAction self.d.room.alivePlayerNames]⟩
  | decided {winners : List String} {self' : Logic (List Signal)}
      (hcount : self.d.rpsForActionReplies.count = self.d.room.alivePlayersCount)
      (hwinners : rockPaperScissorsWinners self.d.rpsForActionReplies = winners)
      (hsome : winners ≠ [])
      (hstart : StartActionOrder
        ⟨{ self.d with
            rpsForActionWinners := winners, confirmedActionOrders := ∅, actionOrderYields := ∅ },
          self.env ++ [.rpsResult self.d.rpsForActionReplies]⟩ self') : RpsForAction self self'

theorem rpsForAction_cases (hrps : rpsForAction post self = .ok self') : RpsForAction self self' := by
  unfold rpsForAction at hrps
  split at hrps
  · next hcount =>
    simp only [post_apply, Except.ok_bind] at hrps
    split at hrps
    · next htie =>
      rw [startRpsForAction_post] at hrps
      cases hrps
      simp only [modify_d, modify_env, htie]
      exact .tie hcount htie
    · next hsome => exact .decided hcount rfl hsome (startActionOrder_cases hrps)
  · next hcount =>
    cases hrps
    exact .waiting hcount

inductive RpsForActionOrder (self : Logic (List Signal)) : Logic (List Signal) → Prop where
  | waiting (hcount : self.d.rpsForActionOrderReplies.count ≠
        (self.d.desiredActionOrders.values self.d.currentStrivingActionOrder).length) :
      RpsForActionOrder self self
  | decided {self' : Logic (List Signal)}
      (hcount : self.d.rpsForActionOrderReplies.count =
        (self.d.desiredActionOrders.values self.d.currentStrivingActionOrder).length)
      (hstart : StartRpsForActionOrder
        ⟨self.d.dropLosers (self.d.desiredActionOrders.values self.d.currentStrivingActionOrder)
            (rockPaperScissorsWinners self.d.rpsForActionOrderReplies),
          self.env ++ [.rpsResult self.d.rpsForActionOrderReplies]⟩ self') :
      RpsForActionOrder self self'

theorem rpsForActionOrder_cases (hrps : rpsForActionOrder post self = .ok self') :
    RpsForActionOrder self self' := by
  unfold rpsForActionOrder at hrps
  dsimp only at hrps
  split at hrps
  · next hcount => exact .decided hcount (startRpsForActionOrder_cases hrps)
  · next hcount =>
    cases hrps
    exact .waiting hcount

inductive UpgradeStep (self : Logic (List Signal)) : Logic (List Signal) → Prop where
  | waiting (hcount : self.d.room.isRoundOver = false ∨
        self.d.upgrades.count ≠ self.d.upgraders.length) : UpgradeStep self self
  | gameOver {room : Room} (hover : self.d.room.isRoundOver = true)
      (hcount : self.d.upgrades.count = self.d.upgraders.length)
      (hroom : performUpgrades self.d.room self.d.upgrades.entries = .ok room)
      (hgame : room.isGameOver = true) :
      UpgradeStep self
        ⟨{ self.d with room := room.resetUpgrades, state := .BeforeRoundStart },
          self.env ++ [.gameOver room.winnerPlayerNames]⟩
  | result {room : Room} (hover : self.d.room.isRoundOver = true)
      (hcount : self.d.upgrades.count = self.d.upgraders.length)
      (hroom : performUpgrades self.d.room self.d.upgrades.entries = .ok room)
      (hgame : room.isGameOver = false) :
      UpgradeStep self
        ⟨{ self.d with room := room, state := .BeforeRoundStart },
          self.env ++ [.upgradeResult self.d.upgrades]⟩

theorem upgrade_cases (hupgrade : upgrade post self = .ok self') : UpgradeStep self self' := by
  unfold upgrade at hupgrade
  split at hupgrade
  · next hover =>
    split at hupgrade
    · next hcount =>
      obtain ⟨room, hroom, hupgrade⟩ := Except.bind_eq_ok.mp hupgrade
      dsimp only at hupgrade
      split at hupgrade
      · next hgame =>
        cases hupgrade
        exact .gameOver hover hcount hroom hgame
      · next hgame =>
        cases hupgrade
        exact .result hover hcount hroom (by simpa using hgame)
    · next hcount =>
      cases hupgrade
      exact .waiting (.inr hcount)
  · next hgoing =>
    cases hupgrade
    exact .waiting (.inl (by simpa using hgoing))

end Logic

end QMdmmCore
