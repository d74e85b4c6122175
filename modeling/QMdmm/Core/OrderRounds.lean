import QMdmm.Core.OrderAccount

namespace QMdmmCore

open Data Logic

/-- A round of `requestActionOrder`: the (order, player) claims of its replies,
and the decided tie-breaks since. -/
structure Round where
  claims : Nat
  tieBreaks : Nat
  deriving DecidableEq

/-- What a listener counts between two decided Rock-Paper-Scissors for actions:
the orders at stake, and the rounds so far, the last one first. -/
structure Tally where
  orders : Nat
  rounds : List Round
  deriving DecidableEq

namespace Logic

def Signal.asksForOrders : Signal → Bool
  | .requestActionOrder _ _ _ _ => true
  | _ => false

section Listening

variable {α : Type} {observe : α → Signal → α} {newRound : α → α}

/-- What a listener makes of the signals of one call: the requests for orders
among them open one round. -/
def listen (observe : α → Signal → α) (newRound : α → α) (signals : List Signal) (heard : α) : α :=
  if signals.any Signal.asksForOrders then newRound (signals.foldl observe heard)
  else signals.foldl observe heard

theorem listen_quiet {signals : List Signal}
    (hasks : ∀ signal ∈ signals, signal.asksForOrders = false)
    (hquiet : ∀ signal ∈ signals, ∀ heard, observe heard signal = heard) (heard : α) :
    listen observe newRound signals heard = heard := by
  have hnone : signals.any Signal.asksForOrders = false := by
    rw [List.any_eq_false]
    intro signal hsignal
    simp [hasks signal hsignal]
  rw [listen, hnone, if_neg Bool.false_ne_true]
  clear hnone hasks
  induction signals with
  | nil => rfl
  | cons signal rest ih =>
    rw [List.foldl_cons, hquiet signal List.mem_cons_self]
    exact ih fun other hother => hquiet other (List.mem_cons_of_mem _ hother)

theorem listen_cons {signal : Signal} (hasks : signal.asksForOrders = false)
    (signals : List Signal) (heard : α) :
    listen observe newRound (signal :: signals) heard =
      listen observe newRound signals (observe heard signal) := by
  rw [listen, listen, List.any_cons, hasks, Bool.false_or, List.foldl_cons]

/-- The requests of a round count as one. -/
theorem listen_actionOrderRequests {d : LogicP} (hnothing : d.nothingLeftToFightFor = false)
    (hquiet : ∀ heard name orders maximum selections,
      observe heard (.requestActionOrder name orders maximum selections) = heard) (heard : α) :
    listen observe newRound (actionOrderRequests d) heard = newRound heard := by
  have hasks : (actionOrderRequests d).any Signal.asksForOrders = true := by
    obtain ⟨signal, hsignal⟩ := List.exists_mem_of_ne_nil _ (actionOrderRequests_ne_nil hnothing)
    obtain ⟨name, _, rfl⟩ := List.mem_map.mp hsignal
    exact List.any_eq_true.mpr ⟨_, hsignal, rfl⟩
  rw [listen, hasks, if_pos rfl]
  congr 1
  unfold actionOrderRequests
  induction d.strivingNames with
  | nil => rfl
  | cons name rest ih => rw [List.map_cons, List.foldl_cons, hquiet, ih]

end Listening

/-- The claims that a reply makes. -/
def claims (d : LogicP) : Call → Nat
  | .actionOrderReply name desired =>
    if d.Accepts (.actionOrderReply name desired) then
      (d.chosenOrders (d.actionOrderRemainingSelections.value name (-1)) desired).2.1.length
    else 0
  | _ => 0

end Logic

namespace Tally

/-- A result is one of the Rock-Paper-Scissors the machine is in. -/
def observe (state : State) (tally : Tally) : Signal → Tally
  | .rpsResult replies =>
    if state = .RpsForAction then
      ⟨(rpsWinners replies).length * (rpsLosers replies).length, []⟩
    else if rockPaperScissorsWinners replies = [] then tally
    else { tally with
      rounds := tally.rounds.modifyHead fun round => { round with tieBreaks := round.tieBreaks + 1 } }
  | _ => tally

/-- The signals of one call, made in `state`. -/
def hear (state : State) (signals : List Signal) (tally : Tally) : Tally :=
  let heard := signals.foldl (observe state) tally
  if signals.any Signal.asksForOrders then { heard with rounds := ⟨0, 0⟩ :: heard.rounds } else heard

def claim (n : Nat) (tally : Tally) : Tally :=
  { tally with
    rounds := tally.rounds.modifyHead fun round => { round with claims := round.claims + n } }

def note (before : Logic (List Signal)) (c : Call) (after : Logic (List Signal)) (tally : Tally) :
    Tally :=
  (tally.claim (claims before.d c)).hear before.d.state (after.env.drop before.env.length)

/-- The logic under queued delivery, with the rounds of its negotiations counted. -/
def system : TransitionSystem (Logic (List Signal) × Tally) Call :=
  Logic.system.recorded ⟨0, []⟩ note

/-- No more rounds than orders, and in each no more decided tie-breaks than claims. -/
structure Bounded (tally : Tally) : Prop where
  rounds : tally.rounds.length ≤ tally.orders
  tieBreaks : ∀ round ∈ tally.rounds, round.tieBreaks ≤ round.claims

/-- A signal that is counted for nothing. -/
def Quiet (signal : Signal) : Prop :=
  signal.asksForOrders = false ∧ ∀ state (tally : Tally), tally.observe state signal = tally

@[simp] theorem hear_nil (state : State) (tally : Tally) : hear state [] tally = tally := rfl

theorem hear_eq_listen (state : State) (signals : List Signal) (tally : Tally) :
    hear state signals tally =
      listen (observe state) (fun heard => { heard with rounds := ⟨0, 0⟩ :: heard.rounds }) signals
        tally := rfl

theorem hear_quiet {signals : List Signal} (hquiet : ∀ signal ∈ signals, Quiet signal)
    (state : State) (tally : Tally) : hear state signals tally = tally := by
  rw [hear_eq_listen]
  apply listen_quiet
  · intro signal hsignal
    exact (hquiet signal hsignal).1
  · intro signal hsignal
    exact (hquiet signal hsignal).2 state

theorem hear_cons {signal : Signal} (hasks : signal.asksForOrders = false) (signals : List Signal)
    (state : State) (tally : Tally) :
    hear state (signal :: signals) tally = hear state signals (tally.observe state signal) := by
  rw [hear_eq_listen, listen_cons hasks]
  rfl

/-- The requests of a round count as one. -/
theorem hear_actionOrderRequests {d : LogicP} (hnothing : d.nothingLeftToFightFor = false)
    (state : State) (tally : Tally) :
    hear state (actionOrderRequests d) tally = { tally with rounds := ⟨0, 0⟩ :: tally.rounds } := by
  rw [hear_eq_listen, listen_actionOrderRequests hnothing]
  exact fun _ _ _ _ _ => rfl

/-- A step as computed; a fault ends the run. -/
def call (s : Logic (List Signal) × Tally) (c : Call) : Option (Logic (List Signal) × Tally) :=
  (s.1.call post c).toOption.map fun result => (result.2, note s.1 c result.2 s.2)

/-- A run from the start, as computed. -/
theorem exists_run (logicConfiguration : LogicConfiguration)
    (guard : Logic (List Signal) → Call → Bool) (calls : List Call)
    (P : Logic (List Signal) × Tally → Bool)
    (hrun : (calls.foldlM (fun s c => if guard s.1 c then call s c else none)
      (Logic.start logicConfiguration, ⟨0, []⟩)).any P = true) :
    ∃ s, (system.guarded fun s c => guard s.1 c = true).Reachable s ∧ P s = true :=
  exists_recorded_run logicConfiguration guard calls P hrun

theorem claim_zero (tally : Tally) : tally.claim 0 = tally := by
  obtain ⟨orders, rounds⟩ := tally
  cases rounds <;> rfl

/-- Claims go into the round that is on. -/
theorem Bounded.claim {tally : Tally} (h : tally.Bounded) (n : Nat) : (tally.claim n).Bounded := by
  obtain ⟨orders, rounds⟩ := tally
  cases rounds with
  | nil => exact h
  | cons round rest =>
    obtain ⟨hround, hrest⟩ := List.forall_mem_cons.mp h.tieBreaks
    refine ⟨h.rounds, List.forall_mem_cons.mpr ⟨?_, hrest⟩⟩
    dsimp only
    omega

theorem claim_of_rounds {tally : Tally} {round : Round} {rest : List Round}
    (hrounds : tally.rounds = round :: rest) (n : Nat) : tally.claim n =
      ⟨tally.orders, { round with claims := round.claims + n } :: rest⟩ := by
  simp [claim, hrounds]

theorem note_of_env {before after : Logic (List Signal)} {signals : List Signal}
    (henv : after.env = before.env ++ signals) (c : Call) (tally : Tally) :
    note before c after tally =
      (tally.claim (claims before.d c)).hear before.d.state signals := by
  rw [note, henv, List.drop_left]

end Tally

namespace Logic

open LogicP

variable {self self' : Logic (List Signal)} {tally : Tally}

/-- Orders are being claimed or fought for. -/
def Negotiates (d : LogicP) : Prop := d.state = .ActionOrder ∨ d.state = .RpsForActionOrder

/-- What is counted fits what the machine has left to do. -/
def RoundsInv (d : LogicP) (tally : Tally) : Prop :=
  match d.state with
  | .ActionOrder => d.RepliesAsked ∧ (∀ p, d.accounted p = d.rpsForActionWinners.count p) ∧
      tally.rounds.length + d.unsettled ≤ tally.orders + 1 ∧
      ∃ round rest, tally.rounds = round :: rest ∧ round.tieBreaks = 0 ∧
        round.claims = d.desiredActionOrders.length
  | .RpsForActionOrder => d.RepliesAsked ∧ d.Affordable ∧
      tally.rounds.length + d.unsettled ≤ tally.orders + 1 ∧
      ∃ round rest, tally.rounds = round :: rest ∧
        round.tieBreaks + d.desiredActionOrders.length ≤ round.claims
  | _ => True

theorem RoundsInv.of_not_negotiates {d : LogicP} (hstate : ¬ Negotiates d) : RoundsInv d tally := by
  unfold Negotiates at hstate
  unfold RoundsInv
  cases hd : d.state with
  | ActionOrder | RpsForActionOrder => simp [hd] at hstate
  | _ => trivial

/-- A signal that is no part of a negotiation. -/
def Still (signal : Signal) : Prop :=
  signal.asksForOrders = false ∧ (∀ replies, signal ≠ .rpsResult replies) ∧
    ∀ result, signal ≠ .actionOrderResult result

theorem Still.quiet {signal : Signal} (h : Still signal) : Tally.Quiet signal := by
  obtain ⟨hasks, hresult, _⟩ := h
  refine ⟨hasks, fun state tally => ?_⟩
  cases signal with
  | rpsResult replies => exact absurd rfl (hresult replies)
  | _ => rfl

theorem StartAction.still (hstep : StartAction self self') :
    Appends Still self.env self'.env := by
  cases hstep with
  | next _ hnext =>
    cases hnext with
    | turn | again => exact .append (by simp [Still, Signal.asksForOrders])
  | roundOver =>
    refine Appends.trans (.append ?_) (.append ?_)
    · simp [Still, Signal.asksForOrders]
    · simp [Still, Signal.asksForOrders]

theorem StartAction.quiet (hstep : StartAction self self') :
    Appends Tally.Quiet self.env self'.env :=
  hstep.still.mono fun _ => Still.quiet

/-- A round that goes on has nobody negotiate any more. -/
theorem StartAction.not_negotiates (hstep : StartAction self self')
    (hstate : self.d.room.isRoundOver = false ∨ self.d.state = .Action) : ¬ Negotiates self'.d := by
  unfold Negotiates
  cases hstep with
  | next _ hnext => cases hnext <;> simp [enterRpsForAction]
  | roundOver hover =>
    have hstate : self.d.state = .Action := by
      obtain hgoing | hstate := hstate
      · rw [hover] at hgoing
        cases hgoing
      · exact hstate
    by_cases hnone : self.d.upgraders = []
    · simp [enterUpgrade, hnone, hstate]
    · simp [enterUpgrade, hnone]

theorem StartActionOrder.outcome (hstep : StartActionOrder self self')
    (hgoing : self.d.room.isRoundOver = false) :
    (¬ Negotiates self'.d ∧ Appends Tally.Quiet self.env self'.env) ∨
      (self.d.nothingLeftToFightFor = false ∧
        self' = ⟨self.d.enterActionOrder, self.env ++ actionOrderRequests self.d⟩) := by
  cases hstep with
  | settled _ _ haction =>
    refine .inl ⟨haction.not_negotiates (.inl hgoing), Appends.trans (.append ?_) haction.quiet⟩
    simp [Tally.Quiet, Signal.asksForOrders, Tally.observe]
  | contested hnothing => exact .inr ⟨hnothing, rfl⟩

/-- Once the uncontested orders are confirmed the negotiation is over, or a new
round is for less than the one before, or there is a tie-break. -/
theorem StartRpsForActionOrder.outcome (hstep : StartRpsForActionOrder self self')
    (h : self.d.Conserved) (hafford : self.d.Affordable)
    (hgoing : self.d.room.isRoundOver = false)
    (hclaims : self.d.desiredActionOrders = [] → self.d.unsettled = 0) :
    (¬ Negotiates self'.d ∧ Appends Tally.Quiet self.env self'.env) ∨
      (∃ d, d.Shared ∧ (∀ p, 0 ≤ d.unsettledOf p) ∧ d.nothingLeftToFightFor = false ∧
        d.unsettled < self.d.unsettled ∧
        self' = ⟨d.enterActionOrder, self.env ++ actionOrderRequests d⟩) ∨
      ∃ names order, self' = ⟨self.d.confirmUncontested.enterRpsForActionOrder order,
        self.env ++ [.requestRpsForActionOrder names order]⟩ := by
  have hconfirm := h.confirmUncontested.1
  cases hstep with
  | contested => exact .inr (.inr ⟨_, _, rfl⟩)
  | uncontested hnone hstart =>
    have hroom := (confirmUncontested_room self.d).symm ▸ hgoing
    obtain hdone | ⟨hnothing, rfl⟩ := hstart.outcome hroom
    · exact .inl hdone
    · have hnonneg (p : String) : 0 ≤ self.d.confirmUncontested.unsettledOf p := by
        have hafford := hafford p
        rw [← h.accounted_confirmUncontested] at hafford
        have hselections := hconfirm.selections_nonneg p
        unfold accounted at hafford
        unfold unsettledOf
        rw [confirmUncontested_rpsForActionWinners]
        omega
      refine .inr (.inl ⟨_, hconfirm.shared, hnonneg, hnothing, ?_, rfl⟩)
      have hpos := hconfirm.shared.unsettled_pos hnonneg hnothing
      by_cases hempty : self.d.desiredActionOrders = []
      · have hzero := hclaims hempty
        have hle := h.unsettled_confirmUncontested_le
        omega
      · exact h.unsettled_confirmUncontested_lt hafford hempty hnone

/-- What is counted once the signals after `env` have been heard. -/
def Heard (env : List Signal) (state : State) (tally : Tally) (logic : Logic (List Signal)) : Prop :=
  ∃ signals, logic.env = env ++ signals ∧ (tally.hear state signals).Bounded ∧
    RoundsInv logic.d (tally.hear state signals)

theorem Heard.after {env : List Signal} {state : State} (signal : Signal)
    (hasks : signal.asksForOrders = false)
    (h : Heard (env ++ [signal]) state (tally.observe state signal) self) :
    Heard env state tally self := by
  obtain ⟨signals, henv, hheard⟩ := h
  refine ⟨signal :: signals, by rw [henv, List.append_assoc, List.singleton_append], ?_⟩
  rwa [Tally.hear_cons hasks]

theorem Heard.quiet {env : List Signal} {state : State} (hbounded : tally.Bounded)
    (hstate : ¬ Negotiates self.d) (hquiet : Appends Tally.Quiet env self.env) :
    Heard env state tally self := by
  obtain ⟨signals, henv, hquiet⟩ := hquiet
  refine ⟨signals, henv, ?_⟩
  rw [Tally.hear_quiet hquiet]
  exact ⟨hbounded, .of_not_negotiates hstate⟩

/-- A new round is counted against what is unsettled. -/
theorem heard_enterActionOrder {d : LogicP} {env : List Signal} {state : State} (h : d.Shared)
    (hnonneg : ∀ p, 0 ≤ d.unsettledOf p) (hnothing : d.nothingLeftToFightFor = false)
    (hbounded : tally.Bounded) (hroom : tally.rounds.length + d.unsettled ≤ tally.orders) :
    Heard env state tally ⟨d.enterActionOrder, env ++ actionOrderRequests d⟩ := by
  have hpos := h.unsettled_pos hnonneg hnothing
  refine ⟨_, rfl, ?_⟩
  rw [Tally.hear_actionOrderRequests hnothing]
  constructor
  · constructor
    · rw [List.length_cons]
      dsimp only
      omega
    · exact List.forall_mem_cons.mpr ⟨Nat.le_refl 0, hbounded.tieBreaks⟩
  · refine ⟨⟨List.nodup_nil, fun entry hentry => absurd hentry List.not_mem_nil⟩,
      h.accounted_enterActionOrder hnonneg, ?_, _, _, rfl, rfl, rfl⟩
    have hsame : d.enterActionOrder.unsettled = d.unsettled := rfl
    rw [List.length_cons, hsame]
    dsimp only
    omega

theorem StartRpsForActionOrder.heard {state : State} {round : Round} {rest : List Round}
    (hstep : StartRpsForActionOrder self self') (h : self.d.Conserved)
    (hafford : self.d.Affordable) (hgoing : self.d.room.isRoundOver = false)
    (hnodup : self.d.desiredActionOrders.Nodup)
    (hclaims : self.d.desiredActionOrders = [] → self.d.unsettled = 0) (hbounded : tally.Bounded)
    (hrounds : tally.rounds = round :: rest)
    (hround : round.tieBreaks + self.d.desiredActionOrders.length ≤ round.claims)
    (hroom : tally.rounds.length + self.d.unsettled ≤ tally.orders + 1) :
    Heard self.env state tally self' := by
  have hadvances := hstep.advances hgoing hnodup
  obtain ⟨hdone, hquiet⟩ | ⟨d, hshared, hnonneg, hnothing, hless, rfl⟩ | ⟨names, order, rfl⟩ :=
    hstep.outcome h hafford hgoing hclaims
  · exact .quiet hbounded hdone hquiet
  · exact heard_enterActionOrder hshared hnonneg hnothing hbounded (by omega)
  · have hquiet : Tally.Quiet (.requestRpsForActionOrder names order) := ⟨rfl, fun _ _ => rfl⟩
    refine ⟨_, rfl, ?_⟩
    rw [Tally.hear_quiet (List.forall_mem_singleton.mpr hquiet)]
    refine ⟨hbounded, hadvances.repliesAsked, fun p => ?_, ?_, _, _, hrounds, ?_⟩
    · have haccounted := h.accounted_confirmUncontested p
      have hwinners := confirmUncontested_rpsForActionWinners self.d
      have hle := hafford p
      rw [← haccounted, ← hwinners] at hle
      exact hle
    · have hle : (self.d.confirmUncontested.enterRpsForActionOrder order).unsettled ≤
          self.d.unsettled := h.unsettled_confirmUncontested_le
      dsimp only
      omega
    · have hle : (self.d.confirmUncontested.enterRpsForActionOrder
          order).desiredActionOrders.length ≤ self.d.desiredActionOrders.length :=
        self.d.confirmUncontested_sublist.length_le
      dsimp only
      omega

theorem RpsForAction.heard {state : State} (hstate : state = .RpsForAction)
    (hstep : RpsForAction self self') (hwaiting : ¬ Negotiates self.d)
    (hreplies : ∀ p ∈ self.d.rpsForActionReplies, p ∈ self.d.room.playerNames)
    (hbounded : tally.Bounded) : Heard self.env state tally self' := by
  subst hstate
  have hfresh (replies : QHash String RockPaperScissors) :
      (tally.observe .RpsForAction (.rpsResult replies)).Bounded :=
    ⟨Nat.zero_le _, fun _ hround => absurd hround List.not_mem_nil⟩
  cases hstep with
  | waiting => exact .quiet hbounded hwaiting (.refl _)
  | tie =>
    apply Heard.after (.rpsResult self.d.rpsForActionReplies) rfl
    refine .quiet (hfresh _) (by simp [Negotiates, enterRpsForAction]) (.append ?_)
    simp [Tally.Quiet, Signal.asksForOrders, Tally.observe]
  | @decided winners _ hcount hwinners hsome hstart =>
    have htwo := two_le_count_of_winners (hwinners ▸ hsome)
    have hgoing : self.d.room.isRoundOver = false := by
      rw [hcount] at htwo
      simp only [Room.isRoundOver, decide_eq_false_iff_not]
      omega
    subst hwinners
    apply Heard.after (.rpsResult self.d.rpsForActionReplies) rfl
    obtain ⟨hdone, hquiet⟩ | ⟨hnothing, rfl⟩ := hstart.outcome hgoing
    · exact .quiet (hfresh _) hdone hquiet
    · apply heard_enterActionOrder (.start hreplies) _ hnothing (hfresh _)
      · rw [unsettled_of_fresh (fun _ => rfl) fun _ => rfl]
        simp only [length_rockPaperScissorsWinners, Tally.observe, if_true, List.length_nil]
        omega
      · intro p
        have hheld : held (∅ : QHash Int String) p = 0 := rfl
        have hyields : QHash.value (∅ : QHash String Int) p 0 = 0 := rfl
        unfold unsettledOf
        dsimp only
        omega

/-- The claims `d'` left of those of `d` by a tie-break that all strivers took part in. -/
structure Resolves (d : LogicP) (replies : QHash String RockPaperScissors) (d' : LogicP) : Prop where
  room : d'.room = d.room
  conserved : d'.Conserved
  affordable : d'.Affordable
  claims_ne_nil : d'.desiredActionOrders ≠ []
  claims_sublist : d'.desiredActionOrders.Sublist d.desiredActionOrders
  claims_lt : rockPaperScissorsWinners replies ≠ [] →
    d'.desiredActionOrders.length < d.desiredActionOrders.length
  unsettled : d'.unsettled = d.unsettled

theorem RpsForActionOrder.resolves {name : String} {rps : RockPaperScissors}
    (h : self.d.Conserved) (hafford : self.d.Affordable)
    (hreplies : self.d.desiredActionOrders.Nodup ∧ ∀ p ∈ self.d.rpsForActionOrderReplies,
      p ∈ self.d.desiredActionOrders.values self.d.currentStrivingActionOrder)
    (hasked : name ∈ self.d.desiredActionOrders.values self.d.currentStrivingActionOrder)
    (hstep : RpsForActionOrder
      ⟨{ self.d with
          rpsForActionOrderReplies := AList.insert name rps self.d.rpsForActionOrderReplies },
        self.env⟩ self') :
    self' = ⟨{ self.d with
        rpsForActionOrderReplies := AList.insert name rps self.d.rpsForActionOrderReplies },
      self.env⟩ ∨
    ∃ d, Resolves self.d (AList.insert name rps self.d.rpsForActionOrderReplies) d ∧
      StartRpsForActionOrder
        ⟨d, self.env ++ [.rpsResult (AList.insert name rps self.d.rpsForActionOrderReplies)]⟩
        self' := by
  cases hstep with
  | waiting => exact .inl rfl
  | decided hcount hstart =>
    refine .inr ⟨_, ?_, hstart⟩
    have hsub : ∀ p ∈ AList.insert name rps self.d.rpsForActionOrderReplies,
        p ∈ self.d.desiredActionOrders.values self.d.currentStrivingActionOrder := by
      intro p hp
      obtain rfl | hp := (AList.mem_insert _).mp hp
      · exact hasked
      · exact hreplies.2 p hp
    have hall := (QHash.count_eq_length_iff (QMultiHash.values_nodup hreplies.1 _) hsub).mp hcount
    have hstrivers (p : String) : p ∈ AList.insert name rps self.d.rpsForActionOrderReplies ↔
        p ∈ self.d.desiredActionOrders.values self.d.currentStrivingActionOrder :=
      ⟨hsub p, hall p⟩
    have hclaims := dropLosers_sublist { self.d with
        rpsForActionOrderReplies := AList.insert name rps self.d.rpsForActionOrderReplies }
      (self.d.desiredActionOrders.values self.d.currentStrivingActionOrder)
      (rockPaperScissorsWinners (AList.insert name rps self.d.rpsForActionOrderReplies))
    constructor
    · rfl
    · exact (h.reply _).dropLosers _ _
    · exact LogicP.Affordable.dropLosers hafford _ _
    · exact dropLosers_ne_nil hstrivers ((AList.mem_insert _).mpr (.inl rfl))
    · exact hclaims
    · exact dropLosers_decided hstrivers
    · rfl

theorem RpsForActionOrder.heard {name : String} {rps : RockPaperScissors}
    (hstate : self.d.state = .RpsForActionOrder) (h : self.d.Conserved)
    (hgoing : self.d.room.isRoundOver = false)
    (hasked : name ∈ self.d.desiredActionOrders.values self.d.currentStrivingActionOrder)
    (hbounded : tally.Bounded) (hinv : RoundsInv self.d tally)
    (hstep : RpsForActionOrder
      ⟨{ self.d with
          rpsForActionOrderReplies := AList.insert name rps self.d.rpsForActionOrderReplies },
        self.env⟩ self') : Heard self.env self.d.state tally self' := by
  simp only [RoundsInv, RepliesAsked, hstate] at hinv
  obtain ⟨hreplies, hafford, hroom, round, rest, hrounds, hround⟩ := hinv
  obtain rfl | ⟨d, hd, hstart⟩ := hstep.resolves h hafford hreplies hasked
  · refine ⟨[], (List.append_nil _).symm, hbounded, ?_⟩
    simp only [RoundsInv, RepliesAsked, hstate, Tally.hear_nil]
    refine ⟨⟨hreplies.1, fun p hp => ?_⟩, hafford, hroom, round, rest, hrounds, hround⟩
    obtain rfl | hp := (AList.mem_insert _).mp hp
    · exact hasked
    · exact hreplies.2 p hp
  · rw [hstate]
    apply Heard.after (.rpsResult (AList.insert name rps self.d.rpsForActionOrderReplies)) rfl
    have hgoing' : d.room.isRoundOver = false := hd.room ▸ hgoing
    have hnodup := hreplies.1.sublist hd.claims_sublist
    have hsettled : d.desiredActionOrders = [] → d.unsettled = 0 :=
      fun hnone => absurd hnone hd.claims_ne_nil
    have hroom' : tally.rounds.length + d.unsettled ≤ tally.orders + 1 := by
      rw [hd.unsettled]
      exact hroom
    by_cases hdecided :
        rockPaperScissorsWinners (AList.insert name rps self.d.rpsForActionOrderReplies) = []
    · have hsame : tally.observe .RpsForActionOrder
          (.rpsResult (AList.insert name rps self.d.rpsForActionOrderReplies)) = tally := by
        simp [Tally.observe, hdecided]
      have hlength := hd.claims_sublist.length_le
      rw [hsame]
      exact hstart.heard hd.conserved hd.affordable hgoing' hnodup hsettled hbounded hrounds
        (by dsimp only; omega) hroom'
    · have hnext : tally.observe .RpsForActionOrder
          (.rpsResult (AList.insert name rps self.d.rpsForActionOrderReplies)) =
            ⟨tally.orders, { round with tieBreaks := round.tieBreaks + 1 } :: rest⟩ := by
        simp [Tally.observe, hdecided, hrounds]
      have hlength := hd.claims_lt hdecided
      have hcount := hbounded.rounds
      have hrest := hbounded.tieBreaks
      rw [hrounds] at hroom' hcount hrest
      rw [hnext]
      refine hstart.heard hd.conserved hd.affordable hgoing' hnodup hsettled ⟨hcount, ?_⟩ rfl ?_
        hroom'
      · refine List.forall_mem_cons.mpr ⟨?_, (List.forall_mem_cons.mp hrest).2⟩
        dsimp only
        omega
      · dsimp only
        omega

/-- The claims and selections once a reply that makes `n` claims is recorded. -/
structure Claims (d : LogicP) (n : Nat) (d' : LogicP) : Prop where
  room : d'.room = d.room
  conserved : d'.Conserved
  balanced : ∀ p, d'.accounted p = d'.rpsForActionWinners.count p
  claims_nodup : d'.desiredActionOrders.Nodup
  claims_picked : ∀ entry ∈ d'.desiredActionOrders, entry.2 ∉ d'.actionOrderRemainingSelections
  claims_length : d'.desiredActionOrders.length = d.desiredActionOrders.length + n
  unsettled_le : d'.unsettled ≤ d.unsettled

theorem recordActionOrder_claims {d : LogicP} {name : String} {desired chosen : List Int}
    {accepted : Bool} {yields : Nat} (h : d.Conserved)
    (hbalanced : ∀ p, d.accounted p = d.rpsForActionWinners.count p)
    (hnodup : d.desiredActionOrders.Nodup)
    (hpicked : ∀ entry ∈ d.desiredActionOrders, entry.2 ∉ d.actionOrderRemainingSelections)
    (hasked : 0 ≤ d.actionOrderRemainingSelections.value name (-1))
    (hchosen : d.chosenOrders (d.actionOrderRemainingSelections.value name (-1)) desired
      = (accepted, chosen, yields)) :
    Claims d chosen.length (d.recordActionOrder name chosen yields) := by
  obtain ⟨hclaims, hpicked'⟩ := recordActionOrder_desired hchosen hnodup hpicked
    ((mem_selections_iff h).mpr hasked)
  constructor
  · rfl
  · exact h.recordActionOrder hasked hchosen
  · intro p
    rw [accounted_recordActionOrder hasked hchosen]
    exact hbalanced p
  · exact hclaims
  · exact hpicked'
  · exact length_foldl_insert name chosen d.desiredActionOrders
  · have hwinners : (d.recordActionOrder name chosen yields).rpsForActionWinners =
        d.rpsForActionWinners := rfl
    apply unsettled_le hwinners
    intro p
    have hyields := yields_recordActionOrder d name chosen yields p
    unfold unsettledOf
    rw [hyields]
    simp only [recordActionOrder]
    split <;> omega

/-- Once everybody has picked, what is unsettled is claimed. -/
theorem Claims.unsettled_eq {d d' : LogicP} {n : Nat} (h : Claims d n d')
    (hlast : d'.actionOrderRemainingSelections.count = 0) :
    d'.desiredActionOrders.length = d'.unsettled := by
  apply length_desiredActionOrders h.conserved h.balanced
  intro p
  rw [QHash.value, AList.lookup_eq_none.mpr (QHash.count_eq_zero_iff.mp hlast p)]
  rfl

theorem claims_actionOrderReply {d : LogicP} {name : String} {desired chosen : List Int}
    {accepted : Bool} {yields : Nat} (hmember : name ∈ d.room.playerNames)
    (hstate : d.state = .ActionOrder)
    (hasked : 0 ≤ d.actionOrderRemainingSelections.value name (-1))
    (hchosen : d.chosenOrders (d.actionOrderRemainingSelections.value name (-1)) desired
      = (accepted, chosen, yields)) :
    claims d (.actionOrderReply name desired) = chosen.length := by
  have haccepts : d.Accepts (.actionOrderReply name desired) := ⟨hmember, hstate, hasked⟩
  rw [claims, if_pos haccepts, hchosen]

/-- The throws of a tie-break are those of the players that fight. -/
def OnlyContenders (logic : Logic (List Signal)) (c : Call) : Prop :=
  logic.d.state = .RpsForActionOrder → logic.d.Accepts c → ∀ name, c.replier = some name →
    name ∈ logic.d.desiredActionOrders.values logic.d.currentStrivingActionOrder

instance (logic : Logic (List Signal)) (c : Call) : Decidable (OnlyContenders logic c) := by
  unfold OnlyContenders
  cases c.replier with
  | none => exact .isTrue fun _ _ _ hname => by cases hname
  | some name =>
    refine decidable_of_iff (logic.d.state = .RpsForActionOrder → logic.d.Accepts c →
      name ∈ logic.d.desiredActionOrders.values logic.d.currentStrivingActionOrder) ?_
    simp

theorem claims_of_state {d : LogicP} {c : Call} (hstate : d.state ≠ .ActionOrder) :
    claims d c = 0 := by
  cases c with
  | actionOrderReply name desired => exact if_neg fun haccepts => hstate haccepts.2.1
  | _ => rfl

/-- One slot call. -/
theorem CallStep.heard {c : Call} {ret : Bool} (hneg : NegotiationInv self)
    (honly : OnlyContenders self c) (hbounded : tally.Bounded) (hinv : RoundsInv self.d tally)
    (hstep : CallStep self c ret self') :
    Heard self.env self.d.state (tally.claim (claims self.d c)) self' := by
  have hphase := hneg.phase
  unfold PhaseInv at hphase
  have hother (hstate : self.d.state ≠ .ActionOrder) : tally.claim (claims self.d c) = tally := by
    rw [claims_of_state hstate, Tally.claim_zero]
  cases hstep with
  | rejected hreject =>
    have hnone : claims self.d c = 0 := by
      cases c with
      | actionOrderReply => exact if_neg hreject
      | _ => rfl
    rw [hnone, Tally.claim_zero]
    exact ⟨[], (List.append_nil _).symm, hbounded, hinv⟩
  | addPlayer hstate | removePlayer hstate =>
    rw [hother (by simp [hstate])]
    exact .quiet hbounded (by simp [Negotiates, hstate]) (.refl _)
  | roundStart hstate =>
    rw [hother (by simp [hstate])]
    apply Heard.quiet hbounded
    · simp [Negotiates, enterRpsForAction]
    · exact .append (by simp [Tally.Quiet, Signal.asksForOrders, Tally.observe])
  | rpsForAction hmember hstate _ hstep =>
    rw [hother (by simp [hstate])]
    rw [hstate] at hphase
    have hheard := hstep.heard hstate (by simp [Negotiates, hstate]) (fun p hp => by
      obtain rfl | hp := (AList.mem_insert _).mp hp
      · exact hmember
      · exact hphase.1 p hp) hbounded
    exact hheard
  | rpsForActionOrder hmember hstate hnew hstep =>
    rw [hother (by simp [hstate])]
    rw [hstate] at hphase
    have hcontends := honly hstate ⟨hmember, .inr ⟨hstate, hnew⟩⟩ _ rfl
    exact hstep.heard hstate hphase.2.1 hphase.1.going hcontends hbounded hinv
  | @pick name _ _ chosen yields _ hmember hstate hasked hchosen hrecord =>
    rw [hstate] at hphase
    simp only [RoundsInv, RepliesAsked, hstate] at hinv
    obtain ⟨⟨hnodup, hpicked⟩, hbalanced, hroom, round, rest, hrounds, hnone, hclaims⟩ := hinv
    have hd := recordActionOrder_claims hphase.2 hbalanced hnodup hpicked hasked hchosen
    subst hrecord
    rw [claims_actionOrderReply hmember hstate hasked hchosen]
    refine ⟨[], (List.append_nil _).symm, hbounded.claim _, ?_⟩
    have hstate' : (self.d.recordActionOrder name chosen yields).state = .ActionOrder := hstate
    simp only [RoundsInv, RepliesAsked, hstate', Tally.hear_nil]
    rw [Tally.claim_of_rounds hrounds]
    refine ⟨⟨hd.claims_nodup, hd.claims_picked⟩, hd.balanced, ?_, _, _, rfl, hnone, ?_⟩
    · have hle := hd.unsettled_le
      rw [hrounds] at hroom
      simp only [List.length_cons] at hroom ⊢
      omega
    · rw [hd.claims_length, hclaims]
  | lastPick hmember hstate hasked hchosen hrecord hlast hstep =>
    rw [hstate] at hphase
    simp only [RoundsInv, RepliesAsked, hstate] at hinv
    obtain ⟨⟨hnodup, hpicked⟩, hbalanced, hroom, round, rest, hrounds, hnone, hclaims⟩ := hinv
    have hd := recordActionOrder_claims hphase.2 hbalanced hnodup hpicked hasked hchosen
    subst hrecord
    have hgoing := hd.room.symm ▸ hphase.1.going
    have hunsettled := hd.unsettled_eq hlast
    have hlength := hd.claims_length
    have hle := hd.unsettled_le
    rw [claims_actionOrderReply hmember hstate hasked hchosen]
    refine hstep.heard hd.conserved (fun p => (hd.balanced p).le) hgoing hd.claims_nodup ?_
      (hbounded.claim _) (congrArg Tally.rounds (Tally.claim_of_rounds hrounds _)) ?_ ?_
    · intro hempty
      rw [← hunsettled, hempty]
      rfl
    · dsimp only
      omega
    · rw [Tally.claim_of_rounds hrounds]
      rw [hrounds] at hroom
      simp only [List.length_cons] at hroom ⊢
      omega
  | action _ hstate _ _ hperform hstep =>
    rw [hother (by simp [hstate])]
    obtain ⟨hframe, _, _⟩ := (performAction_cases hperform).frame
    refine .quiet hbounded (hstep.not_negotiates (.inr ?_)) (Appends.trans (.append ?_) hstep.quiet)
    · rw [hframe]
      exact hstate
    · simp [Tally.Quiet, Signal.asksForOrders, Tally.observe]
  | upgrade _ hstate _ _ _ hstep =>
    rw [hother (by simp [hstate])]
    cases hstep with
    | waiting => exact .quiet hbounded (by simp [Negotiates, hstate]) (.refl _)
    | gameOver | result =>
      apply Heard.quiet hbounded (by simp [Negotiates])
      exact .append (by simp [Tally.Quiet, Signal.asksForOrders, Tally.observe])

theorem heard_note {c : Call} {after : Logic (List Signal)}
    (h : Heard self.env self.d.state (tally.claim (claims self.d c)) after) :
    (Tally.note self c after tally).Bounded ∧ RoundsInv after.d (Tally.note self c after tally) := by
  obtain ⟨signals, henv, hheard⟩ := h
  rwa [Tally.note_of_env henv]

theorem rounds_invariant : (Tally.system.guarded fun s c => OnlyContenders s.1 c).Invariant
    fun s => NegotiationInv s.1 ∧ s.2.Bounded ∧ RoundsInv s.1.d s.2 := by
  refine .guarded ?_ fun s c t honly h hstep => ?_
  · rintro ⟨logic, tally⟩ ⟨⟨conf, rfl⟩, rfl⟩
    refine ⟨negotiationInv_invariant.init _ ⟨conf, rfl⟩, ⟨Nat.le_refl 0, ?_⟩, trivial⟩
    exact fun _ hround => absurd hround List.not_mem_nil
  · obtain ⟨hneg, hbounded, hinv⟩ := h
    obtain ⟨⟨ret, hcall⟩, hnote⟩ := hstep
    have hcases := call_cases hcall
    have hheard := heard_note (hcases.heard hneg honly hbounded hinv)
    rw [hnote]
    exact ⟨hneg.call hcases, hheard⟩

/-- From the orders claimed in `d` the negotiation goes on with less to do. -/
theorem StartRpsForActionOrder.measure {bound : Nat} (hstep : StartRpsForActionOrder self self')
    (h : self.d.Conserved) (hafford : self.d.Affordable)
    (hgoing : self.d.room.isRoundOver = false)
    (hclaims : self.d.desiredActionOrders = [] → self.d.unsettled = 0)
    (hbound : self.d.desiredActionOrders.length < bound) (hgoes : Negotiates self'.d) :
    Prod.Lex (· < ·) (· < ·) self'.d.negotiationMeasure (self.d.unsettled, bound) := by
  obtain ⟨hdone, _⟩ | ⟨d, _, _, _, hless, rfl⟩ | ⟨names, order, rfl⟩ :=
    hstep.outcome h hafford hgoing hclaims
  · exact absurd hgoes hdone
  · apply Prod.Lex.left
    exact hless
  · have hmeasure : (self.d.confirmUncontested.enterRpsForActionOrder order).negotiationMeasure =
        (self.d.confirmUncontested.unsettled,
          self.d.confirmUncontested.desiredActionOrders.length) := rfl
    have hle := h.unsettled_confirmUncontested_le
    have hlength := self.d.confirmUncontested_sublist.length_le
    rw [hmeasure, Prod.lex_def]
    dsimp only
    omega

theorem lex_of_fst_le {a a' b : Nat} {p : Nat × Nat} (hle : a ≤ a')
    (h : Prod.Lex (· < ·) (· < ·) p (a, b)) : Prod.Lex (· < ·) (· < ·) p (a', b) := by
  rw [Prod.lex_def] at h ⊢
  dsimp only at h ⊢
  omega

/-- A completed step: signals are emitted, and no tied result is among them. -/
def Completes (before after : Logic (List Signal)) : Prop :=
  ∃ signals, after.env = before.env ++ signals ∧ signals ≠ [] ∧
    ∀ replies, .rpsResult replies ∈ signals → rockPaperScissorsWinners replies ≠ []

theorem Completes.env_ne {before after : Logic (List Signal)} (h : Completes before after) :
    after.env ≠ before.env := by
  obtain ⟨signals, henv, hsome, _⟩ := h
  rw [henv]
  simpa using hsome

theorem CallStep.measure {c : Call} {ret : Bool} (hneg : NegotiationInv self)
    (honly : OnlyContenders self c) (hinv : RoundsInv self.d tally)
    (hstep : CallStep self c ret self') (hgoing : Negotiates self.d) (hgoes : Negotiates self'.d)
    (hcompletes : Completes self self') :
    Prod.Lex (· < ·) (· < ·) self'.d.negotiationMeasure self.d.negotiationMeasure := by
  have hphase := hneg.phase
  unfold PhaseInv at hphase
  unfold Negotiates at hgoing
  have hemits := hcompletes.env_ne
  cases hstep with
  | rejected | addPlayer | removePlayer | pick => exact absurd rfl hemits
  | roundStart hstate | rpsForAction _ hstate | action _ hstate | upgrade _ hstate =>
    simp [hstate] at hgoing
  | rpsForActionOrder hmember hstate hnew hstep =>
    rw [hstate] at hphase
    have hcontends := honly hstate ⟨hmember, .inr ⟨hstate, hnew⟩⟩ _ rfl
    simp only [RoundsInv, RepliesAsked, hstate] at hinv
    obtain ⟨hreplies, hafford, _⟩ := hinv
    obtain rfl | ⟨d, hd, hstart⟩ := hstep.resolves hphase.2.1 hafford hreplies hcontends
    · exact absurd rfl hemits
    · obtain ⟨signals, henv, _, hdecided⟩ := hcompletes
      obtain ⟨later, hlater, _⟩ := hstart.plain
      rw [List.append_assoc] at hlater
      obtain rfl := List.append_cancel_left (henv.symm.trans hlater)
      have hless := hd.claims_lt (hdecided _ (List.mem_append_left _ (List.mem_singleton_self _)))
      have hnot : self.d.state ≠ .ActionOrder := by simp [hstate]
      have hmeasure : self.d.negotiationMeasure =
          (d.unsettled, self.d.desiredActionOrders.length) := by
        rw [negotiationMeasure, if_neg hnot, hd.unsettled]
      rw [hmeasure]
      refine hstart.measure hd.conserved hd.affordable ?_ ?_ hless hgoes
      · exact hd.room.symm ▸ hphase.1.going
      · exact fun hnone => absurd hnone hd.claims_ne_nil
  | lastPick hmember hstate hasked hchosen hrecord hlast hstep =>
    rw [hstate] at hphase
    simp only [RoundsInv, RepliesAsked, hstate] at hinv
    obtain ⟨⟨hnodup, hpicked⟩, hbalanced, _⟩ := hinv
    have hd := recordActionOrder_claims hphase.2 hbalanced hnodup hpicked hasked hchosen
    subst hrecord
    have hunsettled := hd.unsettled_eq hlast
    have hle := hd.unsettled_le
    have hmeasure : self.d.negotiationMeasure = (self.d.unsettled, self.d.unsettled + 1) := by
      rw [negotiationMeasure, if_pos hstate]
    rw [hmeasure]
    refine lex_of_fst_le hle (hstep.measure hd.conserved (fun p => (hd.balanced p).le) ?_ ?_ ?_ hgoes)
    · exact hd.room.symm ▸ hphase.1.going
    · intro hempty
      rw [← hunsettled, hempty]
      rfl
    · dsimp only
      omega

/-- The players that signals ask for orders. -/
def orderPickers (signals : List Signal) : List String :=
  signals.flatMap fun signal => if signal.asksForOrders then signal.asks else []

/-- The signals since `env` ask nobody twice for orders. -/
def AsksOnce (env : List Signal) (logic : Logic (List Signal)) : Prop :=
  ∃ signals, logic.env = env ++ signals ∧ (orderPickers signals).Nodup

theorem AsksOnce.after {env : List Signal} (signal : Signal) (hasks : signal.asksForOrders = false)
    (h : AsksOnce (env ++ [signal]) self) : AsksOnce env self := by
  obtain ⟨signals, henv, hnodup⟩ := h
  refine ⟨signal :: signals, by rw [henv, List.append_assoc, List.singleton_append], ?_⟩
  simpa [orderPickers, hasks] using hnodup

theorem AsksOnce.quiet {env : List Signal} (hquiet : Appends Tally.Quiet env self.env) :
    AsksOnce env self := by
  obtain ⟨signals, henv, hquiet⟩ := hquiet
  refine ⟨signals, henv, ?_⟩
  have hnobody : orderPickers signals = [] := by
    rw [orderPickers, List.flatMap_eq_nil_iff]
    intro signal hsignal
    simp [(hquiet signal hsignal).1]
  rw [hnobody]
  exact List.nodup_nil

theorem StartActionOrder.asksOnce (hstep : StartActionOrder self self') : AsksOnce self.env self' := by
  cases hstep with
  | settled _ _ haction => exact .after _ rfl (.quiet haction.quiet)
  | contested =>
    refine ⟨_, rfl, ?_⟩
    have hpickers : orderPickers (actionOrderRequests self.d) = self.d.strivingNames := by
      unfold orderPickers actionOrderRequests
      rw [List.flatMap_map]
      simp [Signal.asksForOrders, Signal.asks]
    rw [hpickers, strivingNames, (List.perm_insertionSort _ _).nodup_iff]
    exact self.d.strivingActionCount.nodupKeys

theorem StartRpsForActionOrder.asksOnce (hstep : StartRpsForActionOrder self self') :
    AsksOnce self.env self' := by
  cases hstep with
  | uncontested _ hstart => exact hstart.asksOnce
  | contested => exact .quiet (.append (by simp [Tally.Quiet, Signal.asksForOrders, Tally.observe]))

theorem CallStep.asksOnce {c : Call} {ret : Bool} (hstep : CallStep self c ret self') :
    AsksOnce self.env self' := by
  cases hstep with
  | rejected | addPlayer | removePlayer | pick => exact .quiet (.refl _)
  | roundStart => exact .quiet (.append (by simp [Tally.Quiet, Signal.asksForOrders, Tally.observe]))
  | rpsForAction _ _ _ hstep =>
    cases hstep with
    | waiting => exact .quiet (.refl _)
    | tie =>
      apply AsksOnce.after (.rpsResult _) rfl
      exact .quiet (.append (by simp [Tally.Quiet, Signal.asksForOrders, Tally.observe]))
    | decided _ _ _ hstart => exact .after _ rfl hstart.asksOnce
  | rpsForActionOrder _ _ _ hstep =>
    cases hstep with
    | waiting => exact .quiet (.refl _)
    | decided _ hstart => exact .after _ rfl hstart.asksOnce
  | lastPick _ _ _ _ _ _ hstep => exact hstep.asksOnce
  | action _ _ _ _ _ hstep => exact .after _ rfl (.quiet hstep.quiet)
  | upgrade _ _ _ _ _ hstep =>
    cases hstep with
    | waiting => exact .quiet (.refl _)
    | gameOver | result =>
      exact .quiet (.append (by simp [Tally.Quiet, Signal.asksForOrders, Tally.observe]))

/-- As long as nobody but the contenders takes part in a tie-break, a negotiation
for N orders has at most N rounds, with one request a player, and in each no more
tie-breaks are decided than orders were claimed; every completed step of it
other than a tied tie-break leaves less to do. -/
theorem negotiation_terminates {s : Logic (List Signal) × Tally}
    (hreach : (Tally.system.guarded fun s c => OnlyContenders s.1 c).Reachable s) :
    s.2.rounds.length ≤ s.2.orders ∧ (∀ round ∈ s.2.rounds, round.tieBreaks ≤ round.claims) ∧
    ∀ c t, OnlyContenders s.1 c → Tally.system.step s c t →
      (orderPickers (t.1.env.drop s.1.env.length)).Nodup ∧
      (Negotiates s.1.d → Negotiates t.1.d → Completes s.1 t.1 →
        Prod.Lex (· < ·) (· < ·) t.1.d.negotiationMeasure s.1.d.negotiationMeasure) := by
  obtain ⟨hneg, hbounded, hinv⟩ := rounds_invariant.of_reachable hreach
  refine ⟨hbounded.rounds, hbounded.tieBreaks, fun c t honly hstep => ?_⟩
  obtain ⟨⟨ret, hcall⟩, _⟩ := hstep
  constructor
  · obtain ⟨signals, henv, hnodup⟩ := (call_cases hcall).asksOnce
    rwa [henv, List.drop_left]
  · intro hgoing hgoes hcompletes
    exact (call_cases hcall).measure hneg honly hinv hgoing hgoes hcompletes

def twoWinners : List Call := [
  .addPlayer "A", .addPlayer "B", .addPlayer "C", .roundStart,
  .rpsReply "A" .Rock, .rpsReply "B" .Rock, .rpsReply "C" .Scissors]

/-- A and B won against C and both want the first order; C throws in the tie-break
in B's place, so that both are dropped and asked again. -/
def strayTieBreak : List Call := [
  .actionOrderReply "A" [1], .actionOrderReply "B" [1], .rpsReply "C" .Rock,
  .rpsReply "A" .Scissors]

/-- The two orders take three rounds, and there is no end to it. -/
theorem negotiation_terminates_fails :
    ∃ s, Tally.system.Reachable s ∧ s.2.orders = 2 ∧ s.2.rounds.length = 3 ∧
      Negotiates s.1.d := by
  obtain ⟨s, hreach, hrounds⟩ := Tally.exists_run .defaults (fun _ _ => true)
    (twoWinners ++ strayTieBreak ++ strayTieBreak)
    (fun s => decide (s.2.orders = 2 ∧ s.2.rounds.length = 3 ∧ s.1.d.state = .ActionOrder))
    (by decide +kernel)
  obtain ⟨horders, hrounds, hstate⟩ := of_decide_eq_true hrounds
  exact ⟨s, .of_guarded hreach, horders, hrounds, .inl hstate⟩

/-- The tie-break between A and B is decided, and the loser of it asked again. -/
theorem negotiation_terminates_contested :
    ∃ s, (Tally.system.guarded fun s c => OnlyContenders s.1 c).Reachable s ∧
      s.2 = ⟨2, [⟨0, 0⟩, ⟨2, 1⟩]⟩ ∧ s.2.rounds.length ≤ s.2.orders := by
  obtain ⟨s, hreach, htally⟩ := Tally.exists_run .defaults
    (fun logic c => decide (OnlyContenders logic c))
    (twoWinners ++ [.actionOrderReply "A" [1], .actionOrderReply "B" [1], .rpsReply "A" .Rock,
      .rpsReply "B" .Paper])
    (fun s => decide (s.2 = ⟨2, [⟨0, 0⟩, ⟨2, 1⟩]⟩)) (by decide +kernel)
  simp only [decide_eq_true_eq] at hreach
  have honly := hreach
  exact ⟨s, honly, of_decide_eq_true htally, (negotiation_terminates honly).1⟩

end Logic

end QMdmmCore
