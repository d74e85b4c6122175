import QMdmm.Core.Negotiation

namespace QMdmmCore

open Data Logic

/-- What the signals so far say about the last Rock-Paper-Scissors for actions:
whether it is the one being played, and its throws once it is over. -/
structure Outcome where
  forAction : Bool
  judgers : QHash String RockPaperScissors

namespace Outcome

def observe (outcome : Outcome) : Signal → Outcome
  | .requestRpsForAction _ => { outcome with forAction := true }
  | .requestRpsForActionOrder _ _ => { outcome with forAction := false }
  | .rpsResult replies => if outcome.forAction then { outcome with judgers := replies } else outcome
  | _ => outcome

def of (signals : List Signal) : Outcome := signals.foldl observe ⟨false, ∅⟩

@[simp] theorem of_append_singleton (signals : List Signal) (signal : Signal) :
    of (signals ++ [signal]) = (of signals).observe signal := by
  simp [of]

/-- Signals that request or report no Rock-Paper-Scissors. -/
theorem of_append_quiet {signals later : List Signal}
    (hquiet : ∀ signal ∈ later, ∀ outcome : Outcome, outcome.observe signal = outcome) :
    of (signals ++ later) = of signals := by
  unfold of
  rw [List.foldl_append]
  generalize signals.foldl observe ⟨false, ∅⟩ = outcome
  induction later with
  | nil => rfl
  | cons signal rest ih =>
    rw [List.foldl_cons, hquiet signal List.mem_cons_self]
    exact ih fun other hother => hquiet other (List.mem_cons_of_mem _ hother)

end Outcome

/-- With w winners and l losers, the orders 1..w*l go to the winners alone, l
of them to each. -/
structure PerfectPartition (judgers : QHash String RockPaperScissors)
    (result : QHash Int String) : Prop where
  orders : ∀ order, order ∈ result ↔
    1 ≤ order ∧ order ≤ (rpsWinners judgers).length * (rpsLosers judgers).length
  shares : ∀ p ∈ rpsWinners judgers, held result p = (rpsLosers judgers).length
  holders : ∀ entry ∈ result.entries, entry.2 ∈ rpsWinners judgers

/-- A map that takes 1..N and gives each player its count among the winners. -/
theorem PerfectPartition.of_held {judgers : QHash String RockPaperScissors}
    {result : QHash Int String}
    (horders : ∀ order, order ∈ result ↔
      1 ≤ order ∧ order ≤ (rockPaperScissorsWinners judgers).length)
    (hheld : ∀ p, held result p = (rockPaperScissorsWinners judgers).count p) :
    PerfectPartition judgers result where
  orders order := by rw [horders, length_rockPaperScissorsWinners, Nat.cast_mul]
  shares p hp := by rw [hheld, count_rockPaperScissorsWinners, if_pos hp]
  holders entry hentry := by
    have hpos : 0 < held result entry.2 := List.count_pos_iff.mpr (List.mem_map_of_mem hentry)
    rw [hheld] at hpos
    exact mem_rpsWinners_of_mem (List.count_pos_iff.mp hpos)

/-- Every action order result so far is a perfect partition. -/
def Partitions (signals : List Signal) : Prop :=
  ∀ earlier result later, signals = earlier ++ .actionOrderResult result :: later →
    PerfectPartition (Outcome.of earlier).judgers result

theorem Partitions.append_singleton {signals : List Signal} {signal : Signal}
    (h : Partitions signals)
    (hnew : ∀ result, signal = .actionOrderResult result →
      PerfectPartition (Outcome.of signals).judgers result) : Partitions (signals ++ [signal]) := by
  intro earlier result later hsplit
  rcases List.eq_nil_or_concat later with rfl | ⟨later, last, rfl⟩
  · obtain ⟨rfl, hsignal⟩ := List.append_inj' hsplit rfl
    exact hnew result (by simpa using hsignal)
  · rw [List.concat_eq_append, ← List.cons_append, ← List.append_assoc] at hsplit
    exact h earlier result later (List.append_inj' hsplit rfl).1

theorem Partitions.append_quiet {signals later : List Signal} (h : Partitions signals)
    (hquiet : ∀ signal ∈ later, ∀ result, signal ≠ .actionOrderResult result) :
    Partitions (signals ++ later) := by
  induction later generalizing signals with
  | nil => simpa using h
  | cons signal rest ih =>
    rw [← List.singleton_append, ← List.append_assoc]
    refine ih (h.append_singleton fun result heq => ?_) fun other hother =>
      hquiet other (List.mem_cons_of_mem _ hother)
    exact absurd heq (hquiet signal List.mem_cons_self result)

namespace Logic

open LogicP

variable {self self' : Logic (List Signal)}

/-- The holders of all the orders are players of the room. -/
def Holders (d : LogicP) : Prop :=
  ∀ order : Nat, 1 ≤ order → order ≤ d.rpsForActionWinners.length →
    d.confirmedPlayer order ∈ d.room.playerNames

/-- A complete hand-out gives every order to a winner. -/
theorem holders_of_handOut {d : LogicP} {confirmed : QHash Int String} (h : d.Shared)
    (hheld : ∀ p, held confirmed p = d.rpsForActionWinners.count p)
    (horders : ∀ order, order ∈ confirmed ↔ 1 ≤ order ∧ order ≤ d.rpsForActionWinners.length) :
    Holders { d with confirmedActionOrders := confirmed, currentActionOrder := 0 } := by
  intro order hlo hhi
  obtain ⟨p, hp⟩ := Option.isSome_iff_exists.mp
    (AList.lookup_isSome.mpr ((horders order).mpr ⟨by exact_mod_cast hlo, by exact_mod_cast hhi⟩))
  have hvalue : confirmed.value (order : Int) "" = p := by rw [QHash.value, hp]; rfl
  have hpos := held_pos_of_lookup hp
  rw [hheld] at hpos
  unfold confirmedPlayer
  rw [hvalue]
  exact h.winners_mem p (List.count_pos_iff.mp hpos)

/-- Between the decided Rock-Paper-Scissors and the first action. -/
structure Negotiating (logic : Logic (List Signal)) : Prop where
  shared : logic.d.Shared
  going : logic.d.room.isRoundOver = false
  outcome : logic.d.rpsForActionWinners =
    rockPaperScissorsWinners (Outcome.of logic.env).judgers

/-- What holds in each state of the machine. -/
def PhaseInv (self : Logic (List Signal)) : Prop :=
  match self.d.state with
  | .RpsForAction => (∀ p ∈ self.d.rpsForActionReplies, p ∈ self.d.room.playerNames) ∧
      (Outcome.of self.env).forAction = true
  | .ActionOrder => Negotiating self ∧ self.d.Conserved
  | .RpsForActionOrder => Negotiating self ∧ self.d.Conserved ∧
      (Outcome.of self.env).forAction = false
  | .Action => Holders self.d
  | _ => True

structure NegotiationInv (logic : Logic (List Signal)) : Prop where
  phase : PhaseInv logic
  partitions : Partitions logic.env

private theorem enterRpsForAction_inv {d : LogicP} {env : List Signal} {names : List String}
    (hparts : Partitions env) :
    NegotiationInv ⟨d.enterRpsForAction, env ++ [.requestRpsForAction names]⟩ where
  phase := ⟨fun _ hp => absurd hp (AList.notMem_empty _), by simp [Outcome.observe]⟩
  partitions := hparts.append_quiet (by simp)

theorem StartAction.inv (hstep : StartAction self self') (hholders : Holders self.d)
    (hgoing : self.d.room.isRoundOver = false ∨ self.d.state = .Action)
    (hparts : Partitions self.env) : NegotiationInv self' := by
  cases hstep with
  | next _ hnext =>
    cases hnext with
    | turn => exact ⟨hholders, hparts.append_quiet (by simp)⟩
    | again => exact enterRpsForAction_inv hparts
  | roundOver hover =>
    have hstate : self.d.state = .Action := by
      rcases hgoing with hgoing | hstate
      · rw [hover] at hgoing
        cases hgoing
      · exact hstate
    refine ⟨?_, (hparts.append_quiet (by simp)).append_quiet (by simp)⟩
    unfold PhaseInv enterUpgrade
    by_cases hnone : self.d.upgraders = []
    · simp only [hnone, if_true, hstate]
      exact hholders
    · simp [hnone]

theorem StartActionOrder.inv (hstep : StartActionOrder self self') (hneg : Negotiating self)
    (hparts : Partitions self.env) : NegotiationInv self' := by
  cases hstep with
  | @settled confirmed _ _ hhand haction =>
    obtain ⟨result, hresult, hheld, horders, _⟩ := hneg.shared.handOut
    obtain rfl : confirmed = result := Except.ok.inj (hhand.symm.trans hresult)
    refine haction.inv (holders_of_handOut hneg.shared hheld horders) (.inl hneg.going)
      (hparts.append_singleton fun other heq => ?_)
    cases heq
    rw [hneg.outcome] at hheld horders
    exact .of_held horders hheld
  | contested =>
    have hquiet : ∀ signal ∈ actionOrderRequests self.d,
        ∃ name orders maximum selections,
          signal = .requestActionOrder name orders maximum selections := by
      intro signal hsignal
      obtain ⟨name, _, rfl⟩ := List.mem_map.mp hsignal
      exact ⟨_, _, _, _, rfl⟩
    have houtcome : Outcome.of (self.env ++ actionOrderRequests self.d) = Outcome.of self.env := by
      refine Outcome.of_append_quiet fun signal hsignal outcome => ?_
      obtain ⟨_, _, _, _, rfl⟩ := hquiet signal hsignal
      rfl
    refine ⟨⟨⟨hneg.shared.enterActionOrder.shared, hneg.going, ?_⟩, hneg.shared.enterActionOrder⟩,
      hparts.append_quiet fun signal hsignal result heq => ?_⟩
    · rw [houtcome]
      exact hneg.outcome
    · obtain ⟨_, _, _, _, rfl⟩ := hquiet signal hsignal
      cases heq

theorem StartRpsForActionOrder.inv (hstep : StartRpsForActionOrder self self')
    (hneg : Negotiating self) (hconserved : self.d.Conserved) (hparts : Partitions self.env) :
    NegotiationInv self' := by
  have hconfirm := hconserved.confirmUncontested.1
  have hgoing : self.d.confirmUncontested.room.isRoundOver = false := by
    rw [confirmUncontested_room]
    exact hneg.going
  have hnext : Negotiating ⟨self.d.confirmUncontested, self.env⟩ :=
    ⟨hconfirm.shared, hgoing, (confirmUncontested_rpsForActionWinners self.d).trans hneg.outcome⟩
  cases hstep with
  | uncontested _ hstart => exact hstart.inv hnext hparts
  | contested =>
    refine ⟨⟨⟨?_, hnext.going, ?_⟩, ?_, ?_⟩, hparts.append_quiet (by simp)⟩
    · exact ⟨hconfirm.winners_mem, hconfirm.confirmed_range, hconfirm.yields_nonneg,
        hconfirm.shared.held_le⟩
    · rw [Outcome.of_append_singleton]
      exact hnext.outcome
    · exact ⟨hconfirm.winners_mem, hconfirm.confirmed_range, hconfirm.desired_open,
        hconfirm.selections_nonneg, hconfirm.yields_nonneg, hconfirm.shares⟩
    · rw [Outcome.of_append_singleton]
      rfl

theorem RpsForAction.inv (hstep : RpsForAction self self')
    (hreplies : ∀ p ∈ self.d.rpsForActionReplies, p ∈ self.d.room.playerNames)
    (hstate : self.d.state = .RpsForAction)
    (hforAction : (Outcome.of self.env).forAction = true) (hparts : Partitions self.env) :
    NegotiationInv self' := by
  cases hstep with
  | waiting => exact ⟨by unfold PhaseInv; rw [hstate]; exact ⟨hreplies, hforAction⟩, hparts⟩
  | tie => exact enterRpsForAction_inv (hparts.append_quiet (by simp))
  | @decided winners _ hcount hwinners hsome hstart =>
    refine hstart.inv ⟨?_, ?_, ?_⟩ (hparts.append_quiet (by simp))
    · subst hwinners
      exact .start hreplies
    · have htwo := two_le_count_of_winners (hwinners ▸ hsome)
      rw [hcount] at htwo
      simp only [Room.isRoundOver, decide_eq_false_iff_not]
      omega
    · rw [Outcome.of_append_singleton]
      simp only [Outcome.observe, hforAction, if_true]
      exact hwinners.symm

theorem RpsForActionOrder.inv (hstep : RpsForActionOrder self self')
    (hstate : self.d.state = .RpsForActionOrder) (hneg : Negotiating self)
    (hconserved : self.d.Conserved) (hforAction : (Outcome.of self.env).forAction = false)
    (hparts : Partitions self.env) : NegotiationInv self' := by
  cases hstep with
  | waiting =>
    refine ⟨?_, hparts⟩
    unfold PhaseInv
    rw [hstate]
    exact ⟨hneg, hconserved, hforAction⟩
  | decided _ hstart =>
    have hdrop := hconserved.dropLosers
      (self.d.desiredActionOrders.values self.d.currentStrivingActionOrder)
      (rockPaperScissorsWinners self.d.rpsForActionOrderReplies)
    refine hstart.inv ⟨hdrop.shared, hneg.going, ?_⟩ hdrop (hparts.append_quiet (by simp))
    rw [Outcome.of_append_singleton]
    simp only [Outcome.observe, hforAction, Bool.false_eq_true, if_false]
    exact hneg.outcome

theorem UpgradeStep.inv (hstep : UpgradeStep self self') (hstate : self.d.state = .Upgrade)
    (hparts : Partitions self.env) : NegotiationInv self' := by
  cases hstep with
  | waiting =>
    refine ⟨?_, hparts⟩
    unfold PhaseInv
    rw [hstate]
    trivial
  | gameOver | result => exact ⟨trivial, hparts.append_quiet (by simp)⟩

/-- One slot call, by anybody and with any arguments. -/
theorem NegotiationInv.call {c : Call} {ret : Bool} (h : NegotiationInv self)
    (hstep : CallStep self c ret self') : NegotiationInv self' := by
  have hphase := h.phase
  unfold PhaseInv at hphase
  cases hstep with
  | rejected => exact h
  | addPlayer hstate | removePlayer hstate =>
    refine ⟨?_, h.partitions⟩
    unfold PhaseInv
    simp only [hstate]
  | roundStart => exact enterRpsForAction_inv h.partitions
  | rpsForAction hmember hstate _ hstep =>
    rw [hstate] at hphase
    refine hstep.inv (fun p hp => ?_) hstate hphase.2 h.partitions
    rcases (AList.mem_insert _).mp hp with rfl | hp
    · exact hmember
    · exact hphase.1 p hp
  | rpsForActionOrder _ hstate _ hstep =>
    rw [hstate] at hphase
    obtain ⟨hneg, hconserved, hforAction⟩ := hphase
    exact hstep.inv hstate ⟨(hconserved.reply _).shared, hneg.going, hneg.outcome⟩
      (hconserved.reply _) hforAction h.partitions
  | pick _ hstate hasked hchosen hrecord =>
    rw [hstate] at hphase
    have hrecorded := hphase.2.recordActionOrder hasked hchosen
    rw [← hrecord] at hrecorded
    refine ⟨?_, h.partitions⟩
    unfold PhaseInv
    simp only [hrecord, recordActionOrder, hstate] at hrecorded ⊢
    exact ⟨⟨hrecorded.shared, hphase.1.going, hphase.1.outcome⟩, hrecorded⟩
  | lastPick _ hstate hasked hchosen hrecord _ hstep =>
    rw [hstate] at hphase
    have hrecorded := hphase.2.recordActionOrder hasked hchosen
    rw [← hrecord] at hrecorded
    refine hstep.inv ⟨hrecorded.shared, ?_, ?_⟩ hrecorded h.partitions
    · rw [hrecord]
      exact hphase.1.going
    · rw [hrecord]
      exact hphase.1.outcome
  | action _ hstate _ _ hperform hstep =>
    rw [hstate] at hphase
    obtain ⟨hframe, hnames, _⟩ := (performAction_cases hperform).frame
    refine hstep.inv ?_ (.inr ?_) (h.partitions.append_quiet (by simp))
    · intro order hlo hhi
      rw [hnames]
      rw [hframe] at hhi ⊢
      exact hphase order hlo hhi
    · rw [hframe]
      exact hstate
  | upgrade _ hstate _ _ _ hstep => exact hstep.inv hstate h.partitions

theorem negotiationInv_invariant : system.Invariant NegotiationInv where
  init self hinit := by
    obtain ⟨conf, rfl⟩ := hinit
    refine ⟨trivial, fun earlier result later hsplit => ?_⟩
    simp at hsplit
  step self c self' h hstep := by
    obtain ⟨ret, hcall⟩ := hstep
    exact h.call (call_cases hcall)

end Logic

end QMdmmCore
