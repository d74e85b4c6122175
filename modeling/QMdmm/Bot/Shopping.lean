import QMdmm.Bot.LegalReply
import QMdmm.Bot.Turns
import QMdmm.Core.Places

namespace QMdmmCore

open Data

theorem Room.setPlayer_back {room : Room} {p q : Player} (hp : p ∈ room.players.toList)
    (hname : q.objectName = p.objectName) : (room.setPlayer q).setPlayer p = room := by
  refine Eq.trans ?_ (Room.setPlayer_of_mem hp)
  rw [setPlayer, setPlayer, setPlayer, OrderedMap.replace_replace _ hname]

theorem Data.isPlaceAdjacent_village {place : Int} :
    isPlaceAdjacent Village place = true ↔ place ≠ Village := by
  simp [isPlaceAdjacent]

theorem Data.isPlaceAdjacent_city {city place : Int} (hcity : city ≠ Village) :
    isPlaceAdjacent city place = true ↔ place = Village := by
  simp [isPlaceAdjacent, hcity]

end QMdmmCore

namespace QMdmmBot

open QMdmmCore Data QMdmmNetworking

namespace BotP

variable {Score : Type} {self : BotP Score} {p peer victim : Player} {place : Int}

def conf (self : BotP Score) : LogicConfiguration := self.client.room.logicConfiguration

/-- The bot lives, holds no weapon, and has a city of the room for its starting one. -/
structure Bare (botP : BotP Score) (p : Player) : Prop where
  player : botP.client.room.player botP.client.objectName = some p
  alive : p.alive botP.conf = true
  knife : p.knife = false
  horse : p.horse = false
  initialPlace : 1 ≤ p.initialPlace ∧ p.initialPlace ≤ botP.client.room.playerNames.length
  placesExist : botP.client.room.PlacesExist

/-- The bot's own player is put somewhere. -/
def standing (self : BotP Score) (p : Player) (place : Int) : BotP Score :=
  self.withRoom (self.client.room.setPlayer { p with place := place })

/-- Somebody else is put where the bot is. -/
def dragged (self : BotP Score) (p victim : Player) : BotP Score :=
  self.withRoom (self.client.room.setPlayer { victim with place := p.place })

namespace Bare

theorem mem (h : self.Bare p) : p ∈ self.client.room.players.toList :=
  (Room.player_eq_some.mp h.player).1

theorem objectName (h : self.Bare p) : p.objectName = self.client.objectName :=
  (Room.player_eq_some.mp h.player).2

theorem standing (h : self.Bare p)
    (hplace : 0 ≤ place ∧ place ≤ self.client.room.playerNames.length) :
    (self.standing p place).Bare { p with place := place } where
  player := by
    simp only [BotP.standing, withRoom]
    rw [Room.player_setPlayer, if_pos h.objectName, h.player]
    rfl
  alive := h.alive
  knife := h.knife
  horse := h.horse
  initialPlace := by
    simp only [BotP.standing, withRoom, Room.setPlayer_playerNames]
    exact h.initialPlace
  placesExist := h.placesExist.setPlayer hplace

theorem dragged (h : self.Bare p) {name : String}
    (hvictim : self.client.room.player name = some victim) (hother : name ≠ self.client.objectName) :
    (self.dragged p victim).Bare p where
  player := by
    have hname := (Room.player_eq_some.mp hvictim).2
    simp only [BotP.dragged, withRoom]
    rw [Room.player_setPlayer, if_neg]
    · exact h.player
    · rw [hname]
      exact hother
  alive := h.alive
  knife := h.knife
  horse := h.horse
  initialPlace := by
    simp only [BotP.dragged, withRoom, Room.setPlayer_playerNames]
    exact h.initialPlace
  placesExist := h.placesExist.setPlayer (h.placesExist p h.mem)

/-- To go somewhere and back leaves no trace. -/
theorem standing_back (h : self.Bare p) (place : Int) :
    (self.standing p place).standing { p with place := place } p.place = self := by
  have hback : (self.client.room.setPlayer { p with place := place }).setPlayer p =
      self.client.room := Room.setPlayer_back h.mem rfl
  simp only [BotP.standing, withRoom]
  rw [hback]

theorem standing_self (h : self.Bare p) : self.standing p p.place = self := by
  have hsame : self.client.room.setPlayer p = self.client.room := Room.setPlayer_of_mem h.mem
  simp only [BotP.standing, withRoom]
  rw [hsame]

theorem canMove_eq (h : self.Bare p) (place : Int) :
    p.canMove self.conf place = isPlaceAdjacent p.place place := by
  rw [Player.canMove, h.alive, Bool.true_and]

theorem canBuyKnife_eq (h : self.Bare p) : p.canBuyKnife self.conf = p.atShop self.conf := by
  rw [Player.canBuyKnife, h.alive, h.knife]
  rfl

theorem canBuyHorse_eq (h : self.Bare p) : p.canBuyHorse self.conf = p.atShop self.conf := by
  rw [Player.canBuyHorse, h.alive, h.horse]
  rfl

theorem not_canSlash (h : self.Bare p) : p.canSlash self.conf peer = false := by
  simp [Player.canSlash, h.knife]

theorem not_canKick (h : self.Bare p) : p.canKick self.conf peer = false := by
  simp [Player.canKick, h.horse]

/-- The Village sells nothing. -/
theorem not_atShop_village (h : self.Bare p) (hvillage : p.place = Village) :
    p.atShop self.conf = false := by
  have hinitial := h.initialPlace
  rw [Player.atShop, hvillage]
  unfold Village
  split
  · exact beq_false_of_ne (by omega)
  · rfl

end Bare

end BotP

namespace Bot

variable {Score : Type} [Zero Score] [LT Score] [DecidableLT Score] {bot : Bot Score} {peer : Player}

/-- The peer the score picks, if it picks one. -/
def rated (bot : Bot Score) : Option Player :=
  if bot.selectTarget = "" then none else bot.room.player bot.selectTarget

theorem selectTarget_spec (bot : Bot Score) :
    bot.selectTarget = "" ∨ ∃ peer ∈ bot.opponents, peer.objectName = bot.selectTarget := by
  refine List.foldlRecOn (motive := fun best : Score × String =>
    best.2 = "" ∨ ∃ peer ∈ bot.opponents, peer.objectName = best.2) bot.room.alivePlayers _
    (.inl rfl) fun best ih player hplayer => ?_
  split_ifs with hself hbetter
  · exact ih
  · exact .inr ⟨player, List.mem_filter.mpr ⟨hplayer, by simpa using hself⟩, rfl⟩
  · exact ih

theorem rated_mem (hrated : bot.rated = some peer) : peer ∈ bot.opponents := by
  rw [rated] at hrated
  split_ifs at hrated with hnobody
  obtain hempty | ⟨other, hother, hname⟩ := bot.selectTarget_spec
  · exact absurd hempty hnobody
  · have hplayer := mem_opponents hother
    rw [hname, hrated] at hplayer
    exact Option.some.inj hplayer ▸ hother

end Bot

namespace BotP

variable {Score : Type} [Zero Score] [Add Score] [Mul Score] [IntCast Score] [OfScientific Score]
  {self : BotP Score} {p peer : Player} {place : Int}

theorem Bare.selfPlayer (h : self.Bare p) : self.bot.selfPlayer = some p := h.player

theorem Bare.unarmed (h : self.Bare p) (style : Style) : self.armed style = false := by
  rw [armed, h.selfPlayer]
  cases style with
  | knifePreferred => exact h.knife
  | horsePreferred => exact h.horse

theorem Bare.not_canSlashSafely (h : self.Bare p) : self.bot.canSlashSafely peer = false := by
  rw [Bool.eq_false_iff]
  intro hsafe
  have hcan : p.canSlash self.conf peer = true := Bot.canSlash_of_canSlashSafely h.selfPlayer hsafe
  rw [h.not_canSlash] at hcan
  cases hcan

theorem Bare.armed_setPlayer {style : Style} {q : Player} (h : self.Bare p)
    (hname : q.objectName = p.objectName) (hweapon : style.weapon q = true) :
    (self.withRoom (self.client.room.setPlayer q)).armed style = true := by
  simp only [armed, Bot.selfPlayer, Bot.room, Bot.objectName, bot, withRoom]
  rw [Room.player_setPlayer, if_pos (hname.trans h.objectName), h.player]
  exact hweapon

variable [LT Score] [DecidableLT Score]

theorem turn_of_reply {style : Style} {action : Action} {toPlayer : String} {room : Room}
    (hreply : self.handleActionRequest style = [.reply (.action action toPlayer place)])
    (happly : ClientP.applyAction self.client.room self.client.objectName action toPlayer place =
      .ok (true, room)) :
    self.turn style = .ok (self.withRoom room) := by
  rw [turn, hreply]
  dsimp only
  rw [happly]
  rfl

theorem Bare.turn_move {style : Style} (h : self.Bare p)
    (hreply : self.handleActionRequest style = [.reply (.action .Move "" place)])
    (hadjacent : isPlaceAdjacent p.place place = true) :
    self.turn style = .ok (self.standing p place) := by
  apply turn_of_reply hreply
  have hcan : p.canMove self.client.room.logicConfiguration place = true :=
    (h.canMove_eq place).trans hadjacent
  simp [ClientP.applyAction, ClientP.deref, h.player, Player.move, hcan]

section KnifePreferred

theorem Bare.knife_strike (h : self.Bare p) : KnifePreferredBot.strike self.bot p = none := by
  rw [KnifePreferredBot.strike]
  split
  · rfl
  · next peer _ =>
    have hworth : KnifePreferredBot.slashIsWorthItsPunish self.bot peer = false := by
      rw [Bool.eq_false_iff]
      intro hworth
      have hcan : p.canSlash self.conf peer = true :=
        KnifePreferredBot.canSlash_of_slashIsWorthItsPunish h.selfPlayer hworth
      rw [h.not_canSlash] at hcan
      cases hcan
    have hkick : p.canKick self.bot.logicConfiguration peer = false := h.not_canKick
    rw [h.not_canSlashSafely, hworth, hkick]
    rfl

/-- A knife is bought before anything else is thought of. -/
theorem Bare.knife_buys (h : self.Bare p) (hshop : p.atShop self.conf = true) :
    self.BuysWithin .knifePreferred 1 := by
  have hcan : p.canBuyKnife self.bot.logicConfiguration = true := h.canBuyKnife_eq.trans hshop
  have hreply : self.handleActionRequest .knifePreferred = [.reply (.action .BuyKnife "" 0)] := by
    simp only [handleActionRequest, KnifePreferredBot.handleActionRequest, h.selfPlayer,
      KnifePreferredBot.buyKnifeFirst, h.knife, hcan]
    rfl
  have hturn : self.turn .knifePreferred =
      .ok (self.withRoom (self.client.room.setPlayer { p with knife := true })) := by
    apply turn_of_reply hreply
    have hcan : p.canBuyKnife self.client.room.logicConfiguration = true := hcan
    simp [ClientP.applyAction, ClientP.deref, h.player, Player.buyKnife, hcan]
  exact buysWithin_one hturn (h.armed_setPlayer rfl rfl)

/-- From the Village the style steps to the first city. -/
theorem Bare.knife_turn_village (h : self.Bare p) (hvillage : p.place = Village) :
    self.turn .knifePreferred = .ok (self.standing p 1) := by
  have hadjacent : isPlaceAdjacent p.place 1 = true := by
    rw [hvillage]
    rfl
  refine h.turn_move ?_ hadjacent
  have hshop : p.canBuyKnife self.bot.logicConfiguration = false :=
    h.canBuyKnife_eq.trans (h.not_atShop_village hvillage)
  have hmove : p.canMove self.bot.logicConfiguration 1 = true := (h.canMove_eq 1).trans hadjacent
  have hseats : ∃ n, self.bot.room.playerNames.length = n + 1 :=
    Nat.exists_eq_succ_of_ne_zero fun hempty => by
      have hinitial := h.initialPlace
      have hempty : self.client.room.playerNames.length = 0 := hempty
      omega
  obtain ⟨n, hn⟩ := hseats
  have hfirst : KnifePreferredBot.buyKnifeFirst self.bot p = some (.action .Move "" 1) := by
    simp only [KnifePreferredBot.buyKnifeFirst, h.knife, hshop, hn, List.range'_succ, List.map_cons,
      Int.ofNat_eq_natCast, Nat.cast_one]
    rw [List.find?_cons_of_pos hmove]
    rfl
  simp only [handleActionRequest, KnifePreferredBot.handleActionRequest, h.selfPlayer, hfirst]
  rfl

/-- In a city the knife style can only go to the Village, and only after an opponent. -/
theorem Bare.knife_turn_city (h : self.Bare p) (hcity : p.place ≠ Village)
    (hshop : p.atShop self.conf = false) :
    self.turn .knifePreferred =
      .ok (if self.bot.opponents = [] then self else self.standing p Village) := by
  have hknife : p.canBuyKnife self.bot.logicConfiguration = false := h.canBuyKnife_eq.trans hshop
  have hhorse : p.canBuyHorse self.bot.logicConfiguration = false := h.canBuyHorse_eq.trans hshop
  have hmove (place : Int) : p.canMove self.bot.logicConfiguration place = true ↔ place = Village :=
    (Bool.eq_iff_iff.mp (h.canMove_eq place)).trans (isPlaceAdjacent_city hcity)
  have hfirst : KnifePreferredBot.buyKnifeFirst self.bot p = none := by
    simp only [KnifePreferredBot.buyKnifeFirst, h.knife, hknife]
    simp only [Bool.false_eq_true, if_false, Option.map_eq_none_iff, List.find?_eq_none, hmove]
    simp only [List.mem_map, List.mem_range'_1, Village]
    rintro place ⟨seat, hseat, rfl⟩
    simp only [Int.ofNat_eq_natCast]
    omega
  have hhorseFirst : KnifePreferredBot.buyHorseForReach self.bot p = none := by
    simp [KnifePreferredBot.buyHorseForReach, hhorse]
  split_ifs with hopponents
  · have hrated : self.bot.rated = none := by
      rw [Option.eq_none_iff_forall_ne_some]
      intro peer hpeer
      have := Bot.rated_mem hpeer
      rw [hopponents] at this
      cases this
    have hwalk : KnifePreferredBot.walk self.bot p = none := by
      rw [Bot.rated] at hrated
      simp [KnifePreferredBot.walk, hrated, hopponents]
    have hreply : self.handleActionRequest .knifePreferred = [.reply (.action .DoNothing "" 0)] := by
      simp only [handleActionRequest, KnifePreferredBot.handleActionRequest, h.selfPlayer, hfirst,
        h.knife_strike, hhorseFirst, hwalk]
      rfl
    apply turn_of_reply hreply
    simp [ClientP.applyAction, ClientP.deref, h.player, Player.doNothing]
    exact h.alive
  · refine h.turn_move ?_ ((isPlaceAdjacent_city hcity).mpr rfl)
    obtain ⟨marchOn, hmarchOn⟩ : ∃ peer, self.bot.rated.or self.bot.opponents.head? = some peer := by
      cases hrated : self.bot.rated with
      | some peer => exact ⟨peer, rfl⟩
      | none => exact Option.isSome_iff_exists.mp (List.isSome_head?.mpr hopponents)
    have hwalk : KnifePreferredBot.walk self.bot p = some (.action .Move "" Village) := by
      rw [Bot.rated] at hmarchOn
      simp only [KnifePreferredBot.walk, hmarchOn]
      rw [if_neg hcity, if_pos ((hmove Village).mpr rfl)]
    simp only [handleActionRequest, KnifePreferredBot.handleActionRequest, h.selfPlayer, hfirst,
      h.knife_strike, hhorseFirst, hwalk]
    rfl

theorem atShop_iff {conf : LogicConfiguration} : p.atShop conf = true ↔
    if conf.canBuyOnlyInInitialCity = true then p.place = p.initialPlace else p.place ≠ Village := by
  rw [Player.atShop]
  split <;> simp

theorem not_atShop {conf : LogicConfiguration} (honly : conf.canBuyOnlyInInitialCity = true)
    (haway : p.place ≠ p.initialPlace) : p.atShop conf = false := by
  rw [Bool.eq_false_iff, Ne, atShop_iff, if_pos honly]
  exact haway

/-- Where shops are kept to the starting city, the knife style has to stand in it, or it has
to be city 1, which the style goes to from the Village, and to the Village after an opponent. -/
def KnifeInReach (self : BotP Score) (p : Player) : Prop :=
  self.conf.canBuyOnlyInInitialCity = true → p.place = p.initialPlace ∨
    p.initialPlace = 1 ∧ (p.place = Village ∨ self.bot.opponents ≠ [])

/-- Out of reach of its shop the style stays so. -/
theorem Bare.knife_turn_lost (h : self.Bare p) (hlost : ¬ self.KnifeInReach p) :
    ∃ after q, self.turn .knifePreferred = .ok after ∧ after.Bare q ∧ ¬ after.KnifeInReach q := by
  have hinitial := h.initialPlace
  simp only [KnifeInReach, Classical.not_imp, not_or, not_and_or, not_not] at hlost
  obtain ⟨honly, haway, hfar⟩ := hlost
  have hmoved {place : Int} (hplace : 0 ≤ place ∧ place ≤ self.client.room.playerNames.length)
      (haway : place ≠ p.initialPlace) (hfar : p.initialPlace ≠ 1) :
      (self.standing p place).Bare { p with place := place } ∧
        ¬ (self.standing p place).KnifeInReach { p with place := place } := by
    refine ⟨h.standing hplace, fun hreach => ?_⟩
    obtain hback | ⟨hfirst, -⟩ := hreach honly
    · exact haway hback
    · exact hfar hfirst
  by_cases hvillage : p.place = Village
  · have hfar : p.initialPlace ≠ 1 := hfar.resolve_right fun hfar => hfar.1 hvillage
    exact ⟨_, _, h.knife_turn_village hvillage, hmoved (by omega) hfar.symm hfar⟩
  · have hturn := h.knife_turn_city hvillage (not_atShop honly haway)
    split_ifs at hturn with hopponents
    · refine ⟨self, p, hturn, h, fun hreach => ?_⟩
      obtain hback | ⟨hfirst, hgoes⟩ := hreach honly
      · exact haway hback
      · exact hgoes.elim hvillage fun hmore => hmore hopponents
    · have hfar : p.initialPlace ≠ 1 := hfar.resolve_right fun hfar => hopponents hfar.2
      refine ⟨_, _, hturn, hmoved ?_ ?_ hfar⟩ <;> unfold Village <;> omega

theorem Bare.knife_never (h : self.Bare p) (hlost : ¬ self.KnifeInReach p) (n : Nat) :
    ¬ self.BuysWithin .knifePreferred n := by
  induction n generalizing self p with
  | zero => exact buysWithin_zero (h.unarmed _)
  | succ n ih =>
    obtain ⟨after, q, hturn, hbare, hlost⟩ := h.knife_turn_lost hlost
    rw [buysWithin_succ (h.unarmed _) hturn]
    exact ih hbare hlost

theorem Bare.knife_buys_village (h : self.Bare p) (hvillage : p.place = Village)
    (hreach : self.conf.canBuyOnlyInInitialCity = true → p.initialPlace = 1) :
    self.BuysWithin .knifePreferred 2 := by
  have hinitial := h.initialPlace
  rw [buysWithin_succ (h.unarmed _) (h.knife_turn_village hvillage)]
  apply (h.standing (by omega)).knife_buys
  rw [atShop_iff]
  split_ifs with honly
  · exact (hreach honly).symm
  · exact (by decide : (1 : Int) ≠ Village)

/-- The knife style buys its knife within three turns, or never. -/
theorem Bare.knife_iff (h : self.Bare p) {n : Nat} (hn : 3 ≤ n) :
    self.BuysWithin .knifePreferred n ↔ self.KnifeInReach p := by
  refine ⟨fun hbuys => ?_, fun hreach => ?_⟩
  · by_contra hlost
    exact h.knife_never hlost n hbuys
  · have hinitial := h.initialPlace
    by_cases hvillage : p.place = Village
    · refine (h.knife_buys_village hvillage fun honly => ?_).mono (by omega)
      have haway : p.place ≠ p.initialPlace := by
        rw [hvillage]
        unfold Village
        omega
      exact ((hreach honly).resolve_left haway).1
    · cases hshop : p.atShop self.conf with
      | true => exact (h.knife_buys hshop).mono (by omega)
      | false =>
        rw [Bool.eq_false_iff, Ne, atShop_iff] at hshop
        split_ifs at hshop with honly
        · obtain ⟨hfirst, hgoes⟩ := (hreach honly).resolve_left hshop
          have hturn := h.knife_turn_city hvillage (not_atShop honly hshop)
          rw [if_neg (hgoes.resolve_left hvillage)] at hturn
          refine BuysWithin.mono ((buysWithin_succ (h.unarmed _) hturn).mpr ?_) hn
          exact (h.standing (by unfold Village; omega)).knife_buys_village rfl fun _ => hfirst
        · exact absurd hvillage hshop

end KnifePreferred

section HorsePreferred

open HorsePreferredBot (pullTarget)

/-- What the bot of the horse style sees once it has pulled the peer in its reach. -/
def afterPull (self : BotP Score) (p : Player) : BotP Score :=
  if pullTarget self.bot = "" then self
  else
    match self.client.room.player (pullTarget self.bot) with
    | some victim => self.dragged p victim
    | none => self

/-- No rated peer stands in a city but the bot's starting one. -/
def HeadsHome (self : BotP Score) (p : Player) : Prop :=
  ∀ peer, self.bot.rated = some peer → peer.place = Village ∨ peer.place = p.initialPlace

/-- Where shops are kept to the starting city, the horse style has to stand in it, or to head
for it once it has pulled the peer in its reach, if there is one, and stands in the Village. -/
def HorseInReach (self : BotP Score) (p : Player) : Prop :=
  self.conf.canBuyOnlyInInitialCity = true → p.place = p.initialPlace ∨
    pullTarget (self.afterPull p).bot = "" ∧ ((self.afterPull p).standing p Village).HeadsHome p

theorem Bare.horse_strike (h : self.Bare p) : HorsePreferredBot.strike self.bot p = none := by
  rw [HorsePreferredBot.strike]
  split
  · rfl
  · next peer _ =>
    have hkick : p.canKick self.bot.logicConfiguration peer = false := h.not_canKick
    rw [hkick, h.not_canSlashSafely]
    rfl

theorem Bare.horse_buys (h : self.Bare p) (hshop : p.atShop self.conf = true) :
    self.BuysWithin .horsePreferred 1 := by
  have hcan : p.canBuyHorse self.bot.logicConfiguration = true := h.canBuyHorse_eq.trans hshop
  have hreply : self.handleActionRequest .horsePreferred = [.reply (.action .BuyHorse "" 0)] := by
    simp only [handleActionRequest, HorsePreferredBot.handleActionRequest, h.selfPlayer,
      h.horse_strike, HorsePreferredBot.buyHorseFirst, h.horse, hcan]
    rfl
  have hturn : self.turn .horsePreferred =
      .ok (self.withRoom (self.client.room.setPlayer { p with horse := true })) := by
    apply turn_of_reply hreply
    have hcan : p.canBuyHorse self.client.room.logicConfiguration = true := hcan
    simp [ClientP.applyAction, ClientP.deref, h.player, Player.buyHorse, hcan]
  exact buysWithin_one hturn (h.armed_setPlayer rfl rfl)

/-- Where nothing is for sale the answer is left to the pull and to the walk. -/
theorem Bare.horse_reply (h : self.Bare p) (hshop : p.atShop self.conf = false) {reply : Reply}
    (hreply : (HorsePreferredBot.pull self.bot p).or (HorsePreferredBot.walk self.bot p) =
      some reply) : self.handleActionRequest .horsePreferred = [.reply reply] := by
  have hknife : p.canBuyKnife self.bot.logicConfiguration = false := h.canBuyKnife_eq.trans hshop
  have hhorse : p.canBuyHorse self.bot.logicConfiguration = false := h.canBuyHorse_eq.trans hshop
  have hhorseFirst : HorsePreferredBot.buyHorseFirst self.bot p = none := by
    simp [HorsePreferredBot.buyHorseFirst, hhorse]
  have hknifeNext : HorsePreferredBot.buyKnife self.bot p = none := by
    simp [HorsePreferredBot.buyKnife, hknife]
  simp only [handleActionRequest, HorsePreferredBot.handleActionRequest, h.selfPlayer,
    h.horse_strike, hhorseFirst, hknifeNext, Option.none_or, hreply]

theorem Bare.pull_eq_none (hpull : pullTarget self.bot = "") :
    HorsePreferredBot.pull self.bot p = none := by
  rw [HorsePreferredBot.pull, hpull]
  rfl

/-- The place a walk leads to while the bot is short of a weapon. -/
theorem Bare.wantedPlace_eq (h : self.Bare p) (hshop : p.atShop self.conf = false) :
    HorsePreferredBot.wantedPlace self.bot =
      match self.bot.rated.filter fun peer => isPlaceAdjacent p.place peer.place with
      | some peer => peer.place
      | none => p.initialPlace := by
  have hhorse : p.canBuyHorse self.bot.logicConfiguration = false := h.canBuyHorse_eq.trans hshop
  have hmove (place : Int) : p.canMove self.bot.logicConfiguration place =
      isPlaceAdjacent p.place place := h.canMove_eq place
  simp only [HorsePreferredBot.wantedPlace, h.selfPlayer, hmove, h.horse, hhorse, Bot.rated]
  rfl

/-- The place the horse style steps to from the Village. -/
def heading (self : BotP Score) (p : Player) : Int :=
  match self.bot.rated.filter fun peer => peer.place ≠ Village with
  | some peer => peer.place
  | none => p.initialPlace

theorem Bare.rated_place (h : self.Bare p) (hrated : self.bot.rated = some peer) :
    0 ≤ peer.place ∧ peer.place ≤ self.client.room.playerNames.length :=
  h.placesExist peer (List.mem_filter.mp (List.mem_filter.mp (Bot.rated_mem hrated)).1).1

theorem Bare.heading_spec (h : self.Bare p) :
    1 ≤ self.heading p ∧ self.heading p ≤ self.client.room.playerNames.length := by
  rw [heading]
  split
  · next peer hpeer =>
    obtain ⟨hrated, hcity⟩ := Option.filter_eq_some_iff.mp hpeer
    have hplace := h.rated_place hrated
    have hcity : peer.place ≠ 0 := of_decide_eq_true hcity
    omega
  · exact h.initialPlace

theorem Bare.heading_eq_iff (h : self.Bare p) :
    self.heading p = p.initialPlace ↔ self.HeadsHome p := by
  have hinitial := h.initialPlace
  rw [heading]
  split
  · next peer hpeer =>
    obtain ⟨hrated, hcity⟩ := Option.filter_eq_some_iff.mp hpeer
    have hcity : peer.place ≠ Village := of_decide_eq_true hcity
    constructor
    · intro hhome other hother
      rw [hrated] at hother
      cases hother
      exact .inr hhome
    · exact fun hheads => (hheads peer hrated).resolve_left hcity
  · next hnone =>
    refine iff_of_true rfl fun peer hpeer => ?_
    by_contra hcity
    have hcity := not_or.mp hcity
    rw [hpeer] at hnone
    simp [hcity.1] at hnone

theorem Bare.horse_turn_village (h : self.Bare p) (hvillage : p.place = Village) :
    self.turn .horsePreferred = .ok (self.standing p (self.heading p)) := by
  have hheading := h.heading_spec
  have hshop := h.not_atShop_village hvillage
  have hadjacent : isPlaceAdjacent p.place (self.heading p) = true := by
    rw [hvillage, isPlaceAdjacent_village]
    unfold Village
    omega
  have hpull : pullTarget self.bot = "" := by
    simp [pullTarget, h.selfPlayer, hvillage]
  have hwanted : HorsePreferredBot.wantedPlace self.bot = self.heading p := by
    have hcity : (fun peer : Player => isPlaceAdjacent Village peer.place) =
        fun peer => decide (peer.place ≠ Village) := by
      funext peer
      rw [Bool.eq_iff_iff, isPlaceAdjacent_village, decide_eq_true_iff]
    rw [h.wantedPlace_eq hshop, heading, hvillage, hcity]
  have hmove : p.canMove self.bot.logicConfiguration (self.heading p) = true :=
    (h.canMove_eq _).trans hadjacent
  refine h.turn_move (h.horse_reply hshop ?_) hadjacent
  rw [pull_eq_none hpull, Option.none_or, HorsePreferredBot.walk]
  simp only [hwanted, hmove, if_true]
  rw [if_pos (by omega)]

theorem Bare.horse_turn_city (h : self.Bare p) (hcity : p.place ≠ Village)
    (hshop : p.atShop self.conf = false) (hpull : pullTarget self.bot = "") :
    self.turn .horsePreferred = .ok (self.standing p Village) := by
  have hadjacent : isPlaceAdjacent p.place Village = true := (isPlaceAdjacent_city hcity).mpr rfl
  have hmove (place : Int) : p.canMove self.bot.logicConfiguration place =
      isPlaceAdjacent p.place place := h.canMove_eq place
  have hinitial := h.initialPlace
  have hwanted : 0 ≤ HorsePreferredBot.wantedPlace self.bot := by
    rw [h.wantedPlace_eq hshop]
    split
    · next peer hpeer => exact (h.rated_place (Option.filter_eq_some_iff.mp hpeer).1).1
    · omega
  generalize hplace : HorsePreferredBot.wantedPlace self.bot = wanted at hwanted
  have hdest : (if isPlaceAdjacent p.place wanted = true then wanted else Village) = Village := by
    split_ifs with hwalk
    · exact (isPlaceAdjacent_city hcity).mp hwalk
    · rfl
  refine h.turn_move (h.horse_reply hshop ?_) hadjacent
  rw [pull_eq_none hpull, Option.none_or, HorsePreferredBot.walk]
  simp only [hplace, hmove, hdest]
  rw [if_pos hwanted, if_pos hadjacent]

theorem Bare.horse_turn_pull (h : self.Bare p) (hshop : p.atShop self.conf = false)
    (hpull : pullTarget self.bot ≠ "") :
    self.turn .horsePreferred = .ok (self.afterPull p) ∧ (self.afterPull p).Bare p ∧
      (self.afterPull p).conf = self.conf := by
  obtain ⟨victim, hvictim, hcan, hselect⟩ :=
    HorsePreferredBot.pullTarget_spec h.selfPlayer hpull
  have hvictim : self.client.room.player (pullTarget self.bot) = some victim := hvictim
  have hafter : self.afterPull p = self.dragged p victim := by
    rw [afterPull, if_neg hpull, hvictim]
  rw [hafter]
  have hother : pullTarget self.bot ≠ self.client.objectName := by
    obtain ⟨peer, hpeer, hname⟩ := self.bot.selectTarget_spec.resolve_left (hselect ▸ hpull)
    rw [hselect, ← hname]
    exact of_decide_eq_true (List.mem_filter.mp hpeer).2
  refine ⟨?_, h.dragged hvictim hother, rfl⟩
  have hreply : HorsePreferredBot.pull self.bot p =
      some (.action .LetMove (pullTarget self.bot) p.place) := by
    rw [HorsePreferredBot.pull]
    exact if_neg hpull
  apply turn_of_reply (h.horse_reply hshop (by rw [hreply]; rfl))
  have hcan : p.canLetMove self.client.room.logicConfiguration victim p.place = true := hcan
  simp [ClientP.applyAction, ClientP.deref, h.player, hvictim, Player.letMove, hcan]

/-- A turn away from the shops leaves the bot bare, somewhere on its way. -/
theorem Bare.horse_turn_away (h : self.Bare p) (hshop : p.atShop self.conf = false) :
    ∃ after q, self.turn .horsePreferred = .ok after ∧ after.Bare q ∧ after.conf = self.conf ∧
      q.initialPlace = p.initialPlace ∧ (p.place ≠ Village → q.place = Village ∨ q.place = p.place) := by
  by_cases hvillage : p.place = Village
  · have hheading := h.heading_spec
    exact ⟨_, _, h.horse_turn_village hvillage, h.standing (by omega), rfl, rfl,
      fun hcity => absurd hvillage hcity⟩
  · by_cases hpull : pullTarget self.bot = ""
    · exact ⟨_, _, h.horse_turn_city hvillage hshop hpull,
        h.standing (by unfold Village; omega), rfl, rfl, fun _ => .inl rfl⟩
    · obtain ⟨hturn, hbare, hconf⟩ := h.horse_turn_pull hshop hpull
      exact ⟨_, p, hturn, hbare, hconf, rfl, fun _ => .inr rfl⟩

theorem Bare.horse_not_within_one (h : self.Bare p) (hshop : p.atShop self.conf = false) :
    ¬ self.BuysWithin .horsePreferred 1 := by
  obtain ⟨after, q, hturn, hbare, -⟩ := h.horse_turn_away hshop
  rw [buysWithin_succ (h.unarmed _) hturn]
  exact buysWithin_zero (hbare.unarmed _)

/-- From another city the way to the shop is two steps long. -/
theorem Bare.horse_not_within_two (h : self.Bare p)
    (honly : self.conf.canBuyOnlyInInitialCity = true) (hcity : p.place ≠ Village)
    (haway : p.place ≠ p.initialPlace) : ¬ self.BuysWithin .horsePreferred 2 := by
  obtain ⟨after, q, hturn, hbare, hconf, hinitial, hplace⟩ :=
    h.horse_turn_away (not_atShop honly haway)
  rw [buysWithin_succ (h.unarmed _) hturn]
  apply hbare.horse_not_within_one
  obtain hvillage | hsame := hplace hcity
  · exact hbare.not_atShop_village hvillage
  · refine not_atShop (hconf ▸ honly) ?_
    rw [hsame, hinitial]
    exact haway

theorem Bare.horse_buys_village (h : self.Bare p) (hvillage : p.place = Village)
    (hreach : self.conf.canBuyOnlyInInitialCity = true → self.HeadsHome p) :
    self.BuysWithin .horsePreferred 2 := by
  have hheading := h.heading_spec
  rw [buysWithin_succ (h.unarmed _) (h.horse_turn_village hvillage)]
  apply (h.standing (by omega)).horse_buys
  rw [atShop_iff]
  split_ifs with honly
  · exact h.heading_eq_iff.mpr (hreach honly)
  · have hcity : self.heading p ≠ 0 := by omega
    exact hcity

/-- A rated peer in another city is called on again and again: the bot leaves that city for
the Village, where it sees what it has seen before. -/
theorem Bare.horse_not_within_four (h : self.Bare p)
    (honly : self.conf.canBuyOnlyInInitialCity = true) (hvillage : p.place = Village)
    (hheads : ¬ self.HeadsHome p) : ¬ self.BuysWithin .horsePreferred 4 := by
  have hheading := h.heading_spec
  have haway : self.heading p ≠ p.initialPlace := fun hhome => hheads (h.heading_eq_iff.mp hhome)
  have hcity : self.heading p ≠ Village := by
    unfold Village
    omega
  have hturn := h.horse_turn_village hvillage
  have hthere : (self.standing p (self.heading p)).Bare { p with place := self.heading p } :=
    h.standing (by omega)
  have hshop : Player.atShop (self.standing p (self.heading p)).conf
      { p with place := self.heading p } = false := not_atShop honly haway
  rw [buysWithin_succ (h.unarmed _) hturn]
  by_cases hpull : pullTarget (self.standing p (self.heading p)).bot = ""
  · have hback := hthere.horse_turn_city hcity hshop hpull
    rw [← hvillage, h.standing_back] at hback
    rw [buysWithin_succ (hthere.unarmed _) hback, buysWithin_succ (h.unarmed _) hturn]
    exact hthere.horse_not_within_one hshop
  · obtain ⟨hdrag, hbare, hconf⟩ := hthere.horse_turn_pull hshop hpull
    rw [buysWithin_succ (hthere.unarmed _) hdrag]
    exact hbare.horse_not_within_two (hconf ▸ honly) hcity haway

theorem Bare.horse_village_iff (h : self.Bare p)
    (honly : self.conf.canBuyOnlyInInitialCity = true) (hvillage : p.place = Village) {n : Nat}
    (hlo : 2 ≤ n) (hhi : n ≤ 4) : self.BuysWithin .horsePreferred n ↔ self.HeadsHome p := by
  constructor
  · intro hbuys
    by_contra hheads
    exact h.horse_not_within_four honly hvillage hheads (hbuys.mono hhi)
  · exact fun hheads => (h.horse_buys_village hvillage fun _ => hheads).mono hlo

/-- One step from the Village, which the bot takes unless it has a peer to pull. -/
theorem Bare.horse_city_iff (h : self.Bare p)
    (honly : self.conf.canBuyOnlyInInitialCity = true) (hcity : p.place ≠ Village)
    (haway : p.place ≠ p.initialPlace) {n : Nat} (hlo : 3 ≤ n) (hhi : n ≤ 4)
    (hpull : pullTarget self.bot = "") :
    self.BuysWithin .horsePreferred n ↔ (self.standing p Village).HeadsHome p := by
  have hinitial := h.initialPlace
  have hthere : (self.standing p Village).Bare { p with place := Village } :=
    h.standing (by unfold Village; omega)
  obtain ⟨n, rfl⟩ := Nat.exists_eq_succ_of_ne_zero (show n ≠ 0 by omega)
  rw [buysWithin_succ (h.unarmed _) (h.horse_turn_city hcity (not_atShop honly haway) hpull)]
  exact hthere.horse_village_iff honly rfl (by omega) (by omega)

/-- With a second pull the four turns are up before the bot is back. -/
theorem Bare.horse_away_iff (h : self.Bare p)
    (honly : self.conf.canBuyOnlyInInitialCity = true) (haway : p.place ≠ p.initialPlace) :
    self.BuysWithin .horsePreferred 4 ↔ pullTarget (self.afterPull p).bot = "" ∧
      ((self.afterPull p).standing p Village).HeadsHome p := by
  have hshop := not_atShop honly haway
  by_cases hvillage : p.place = Village
  · have hpull : pullTarget self.bot = "" := by
      simp [pullTarget, h.selfPlayer, hvillage]
    have hafter : self.afterPull p = self := if_pos hpull
    rw [hafter, ← hvillage, h.standing_self, h.horse_village_iff honly hvillage (by omega) le_rfl]
    exact (and_iff_right hpull).symm
  · by_cases hpull : pullTarget self.bot = ""
    · have hafter : self.afterPull p = self := if_pos hpull
      rw [hafter, h.horse_city_iff honly hvillage haway (by omega) le_rfl hpull]
      exact (and_iff_right hpull).symm
    · obtain ⟨hturn, hbare, hconf⟩ := h.horse_turn_pull hshop hpull
      have honly' : (self.afterPull p).conf.canBuyOnlyInInitialCity = true := hconf ▸ honly
      rw [buysWithin_succ (h.unarmed _) hturn]
      by_cases hagain : pullTarget (self.afterPull p).bot = ""
      · rw [hbare.horse_city_iff honly' hvillage haway le_rfl (by omega) hagain]
        exact (and_iff_right hagain).symm
      · obtain ⟨hturn', hbare', hconf'⟩ :=
          hbare.horse_turn_pull (not_atShop honly' haway) hagain
        rw [buysWithin_succ (hbare.unarmed _) hturn']
        exact iff_of_false (hbare'.horse_not_within_two (hconf' ▸ honly') hvillage haway)
          fun hreach => hagain hreach.1

theorem Bare.horse_iff (h : self.Bare p) :
    self.BuysWithin .horsePreferred 4 ↔ self.HorseInReach p := by
  cases hshop : p.atShop self.conf with
  | true =>
    refine iff_of_true ((h.horse_buys hshop).mono (by omega)) fun honly => .inl ?_
    rwa [atShop_iff, if_pos honly] at hshop
  | false =>
    rw [Bool.eq_false_iff, Ne, atShop_iff] at hshop
    split_ifs at hshop with honly
    · rw [h.horse_away_iff honly hshop]
      exact ⟨fun hreach _ => .inr hreach, fun hreach => (hreach honly).resolve_left hshop⟩
    · have hvillage : p.place = Village := not_not.mp hshop
      refine iff_of_true ?_ fun hkept => absurd hkept honly
      exact (h.horse_buys_village hvillage fun hkept => absurd hkept honly).mono (by omega)

end HorsePreferred

def ShopInReach (self : BotP Score) (p : Player) : Style → Prop
  | .knifePreferred => self.KnifeInReach p
  | .horsePreferred => self.HorseInReach p

theorem back_in_shop_iff (h : self.Bare p) (style : Style) :
    self.BuysWithin style 4 ↔ self.ShopInReach p style := by
  cases style with
  | knifePreferred => exact h.knife_iff (by omega)
  | horsePreferred => exact h.horse_iff

/-- Everybody shops at home. -/
def homeShops : LogicConfiguration :=
  (LogicConfiguration.deserialize (.object [("canBuyOnlyInInitialCity", .bool true)])).getD .defaults

/-- The bot B, that a kick has put into the Village, and A with a knife in city 1. -/
def kicked : BotP ℚ :=
  let seated := (((Room.new homeShops).addPlayer "A").2.addPlayer "B").2.prepareForRoundStart
  { client := { ClientP.new "B" "B" with
      room := (seated.setPlayer
        { (Player.new homeShops "A").prepareForRoundStart 1 with knife := true }).setPlayer
        { (Player.new homeShops "B").prepareForRoundStart 2 with place := Village } }
    revenge := ∅ }

/-- The player of the bot. -/
def kickedPlayer : Player :=
  { (Player.new homeShops "B").prepareForRoundStart 2 with place := Village }

theorem kicked_bare : kicked.Bare kickedPlayer where
  player := by decide +kernel
  alive := by decide +kernel
  knife := by decide +kernel
  horse := by decide +kernel
  initialPlace := by decide +kernel
  placesExist := by
    unfold Room.PlacesExist
    decide +kernel

theorem back_in_shop_iff_kicked :
    kicked.BuysWithin .knifePreferred 4 ↔ kicked.ShopInReach kickedPlayer .knifePreferred :=
  back_in_shop_iff kicked_bare .knifePreferred

/-- The knife style goes to city 1 and back for ever, and the horse style calls on A there. -/
theorem shop_out_of_reach : kicked.conf.Accepted ∧ kicked.conf.canBuyOnlyInInitialCity = true ∧
    kicked.Bare kickedPlayer ∧ (∀ n, ¬ kicked.BuysWithin .knifePreferred n) ∧
    ¬ kicked.BuysWithin .horsePreferred 4 := by
  have honly : kicked.conf.canBuyOnlyInInitialCity = true := by decide +kernel
  refine ⟨⟨.object [("canBuyOnlyInInitialCity", .bool true)], rfl⟩, honly, kicked_bare,
    kicked_bare.knife_never ?_, kicked_bare.horse_not_within_four honly rfl ?_⟩
  · intro hreach
    have hplaces : kickedPlayer.place ≠ kickedPlayer.initialPlace ∧ kickedPlayer.initialPlace ≠ 1 := by
      decide +kernel
    obtain hhome | ⟨hfirst, -⟩ := hreach honly
    · exact hplaces.1 hhome
    · exact hplaces.2 hfirst
  · intro hheads
    have hrated : kicked.bot.rated.map (·.place) = some 1 := by decide +kernel
    obtain ⟨peer, hpeer, hplace⟩ := Option.map_eq_some_iff.mp hrated
    have hcity : (1 : Int) ≠ Village ∧ 1 ≠ kickedPlayer.initialPlace := by decide +kernel
    obtain hvillage | hhome := hheads peer hpeer
    · exact hcity.1 (hplace.symm.trans hvillage)
    · exact hcity.2 (hplace.symm.trans hhome)

end BotP

end QMdmmBot
