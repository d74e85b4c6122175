import QMdmm.Bot.Styles

namespace QMdmmBot

open QMdmmCore Data QMdmmNetworking

/-- The members of `Bot`: the client it is a child of, and its revenge memory. -/
structure BotP (Score : Type) where
  client : ClientP
  revenge : QHash String Score

/-- The weapon a style is named after. -/
def Style.weapon : Style → Player → Bool
  | .knifePreferred => Player.knife
  | .horsePreferred => Player.horse

namespace BotP

variable {Score : Type} [Zero Score] [Add Score] [Mul Score] [IntCast Score] [OfScientific Score]

-- Nothing is asked of the arithmetic of `Score`, so that it may round as a `double` does.
def threatSamePlaceWeight : Score := 1.0

def threatAdjacentWeight : Score := 0.5

def revengeWeight : Score := 1.0

def threatWeight : Score := 1.0

def revengeScore (self : BotP Score) (playerName : String) : Score :=
  self.revenge.value playerName 0

/-- The offensive power of a peer, discounted by how far away it is. -/
def threatScore (self : BotP Score) (playerName : String) : Score :=
  let room := self.client.room
  let conf := room.logicConfiguration
  match room.player self.client.objectName, room.player playerName with
  | some player, some threat =>
    if player.dead conf || threat.dead conf then 0
    else
      let damage : Score := if threat.knife then 0 + (threat.knifeDamage : Score) else 0
      let damage := if threat.horse && player.place ≠ Village then
        damage + (threat.horseDamage : Score) else damage
      if threat.place = player.place then threatSamePlaceWeight * damage
      else if isPlaceAdjacent threat.place player.place then threatAdjacentWeight * damage
      else 0
  | _, _ => 0

def targetScore (self : BotP Score) (playerName : String) : Score :=
  let grudge := revengeWeight * self.revengeScore playerName
  let threat := threatWeight * self.threatScore playerName
  grudge + threat

def bot (self : BotP Score) : Bot Score := ⟨self.client, self.targetScore⟩

/-- What happens to the bot is what happens to its mirror. -/
def withRoom (self : BotP Score) (room : Room) : BotP Score :=
  { self with client := { self.client with room := room } }

variable [LT Score] [DecidableLT Score]

def handleActionRequest (self : BotP Score) : Style → List Verb
  | .knifePreferred => KnifePreferredBot.handleActionRequest self.bot
  | .horsePreferred => HorsePreferredBot.handleActionRequest self.bot

/-- A turn of the bot, whose answer the mirror goes through. An action of its own gives the
bot no grudge. -/
def turn (style : Style) (self : BotP Score) : Except Logic.Fault (BotP Score) :=
  match self.handleActionRequest style with
  | [.reply (.action action toPlayer toPlace)] => do
    let result ← ClientP.applyAction self.client.room self.client.objectName action toPlayer toPlace
    return self.withRoom result.2
  | _ => return self

/-- Turns of the bot between which nobody else acts. -/
def turns (style : Style) : Nat → BotP Score → Except Logic.Fault (BotP Score)
  | 0, self => .ok self
  | n + 1, self => do turns style n (← self.turn style)

/-- The bot has bought the weapon of its style. -/
def armed (style : Style) (self : BotP Score) : Bool := self.bot.selfPlayer.any style.weapon

/-- No more turns than that arm the bot. -/
def BuysWithin (style : Style) (n : Nat) (self : BotP Score) : Prop :=
  ∃ k ≤ n, ∃ after, self.turns style k = .ok after ∧ after.armed style = true

variable {style : Style} {self after : BotP Score} {n : Nat}

theorem BuysWithin.mono {m : Nat} (h : self.BuysWithin style n) (hle : n ≤ m) :
    self.BuysWithin style m := by
  obtain ⟨k, hk, hturns⟩ := h
  exact ⟨k, hk.trans hle, hturns⟩

theorem buysWithin_one (hturn : self.turn style = .ok after) (harmed : after.armed style = true) :
    self.BuysWithin style 1 := by
  refine ⟨1, le_rfl, after, ?_, harmed⟩
  rw [turns, hturn]
  rfl

/-- A bot without its weapon has to take its turn. -/
theorem buysWithin_zero (hunarmed : self.armed style = false) : ¬ self.BuysWithin style 0 := by
  rintro ⟨k, hk, after, hturns, harmed⟩
  obtain rfl : k = 0 := by omega
  cases hturns
  rw [hunarmed] at harmed
  cases harmed

theorem buysWithin_succ (hunarmed : self.armed style = false) (hturn : self.turn style = .ok after) :
    self.BuysWithin style (n + 1) ↔ after.BuysWithin style n := by
  have hturns (k : Nat) : self.turns style (k + 1) = after.turns style k := by
    rw [turns, hturn]
    rfl
  constructor
  · rintro ⟨k, hk, last, hlast, harmed⟩
    cases k with
    | zero =>
      cases hlast
      rw [hunarmed] at harmed
      cases harmed
    | succ k =>
      rw [hturns] at hlast
      exact ⟨k, by omega, last, hlast, harmed⟩
  · rintro ⟨k, hk, last, hlast, harmed⟩
    exact ⟨k + 1, by omega, last, (hturns k).trans hlast, harmed⟩

end BotP

end QMdmmBot
