import QMdmm.Core.Requests
import QMdmm.Core.Waiting

namespace QMdmmCore

open Data

namespace LogicP

/-- A round is about to start, or somebody has a request. -/
def Busy (d : LogicP) : Prop := d.state = .BeforeRoundStart ∨ ∃ name, d.AskedPlayer name

end LogicP

namespace Logic

open LogicP

variable {self self' : Logic (List Signal)} {conf : LogicConfiguration}

/-- The signals that a round ends with. -/
def Signal.concludes : Signal → Bool
  | .upgradeResult _ | .gameOver _ => true
  | _ => false

/-- Where a call leaves a game: somebody has a request, the round has just ended, or the
next one has not started yet. -/
inductive Onward (self : Logic (List Signal)) (c : Call) (self' : Logic (List Signal)) : Prop where
  | asks {name : String} (hasked : self'.d.AskedPlayer name)
  | concludes {signal : Signal} (hstate : self'.d.state = .BeforeRoundStart)
      (hsignal : signal.concludes = true) (henv : self'.env = self.env ++ [signal])
  | rests (hrested : self.d.state = .BeforeRoundStart) (hstate : self'.d.state = .BeforeRoundStart)
      (henv : self'.env = self.env) (hnot : c = .roundStart → ¬ self.d.Accepts c)

theorem Onward.busy {c : Call} (h : Onward self c self') : self'.d.Busy := by
  cases h with
  | asks hasked => exact .inr ⟨_, hasked⟩
  | concludes hstate | rests _ hstate => exact .inl hstate

/-- A signal that asks somebody leaves somebody with a request. -/
theorem Collects.onward {c : Call} {name : String} {signals : List Signal}
    (h : Collects self name self') (henv : self'.env = self.env ++ signals) {signal : Signal}
    (hsignal : signal ∈ signals) (hasks : signal.asks ≠ []) : Onward self c self' := by
  obtain ⟨signals', henv', -, hiff⟩ := h.asks
  obtain rfl := List.append_cancel_left (henv.symm.trans henv')
  obtain ⟨other, hother⟩ := List.exists_mem_of_ne_nil _ hasks
  exact .asks ((hiff other).mpr (.inr ⟨signal, hsignal, hother⟩))

/-- Where rounds end for points, the reply of one player leaves another with a request,
or ends the round. -/
theorem CallStep.onward_of_reply {c : Call} {ret : Bool} {name : String} (h : NegotiationInv self)
    (hreplies : self.d.RepliesAsked) (hsound : conf.Sound) (hlivable : conf.Livable)
    (hending : EndingInv conf self.d) (hname : c.replier = some name)
    (hmember : name ∈ self.d.room.playerNames) (hasked : self.d.Asked c)
    (hstep : CallStep self c ret self') : Onward self c self' := by
  have hcollects := hstep.collects h hreplies hname hmember hasked
  have haccepts := h.accepts_of_asked hname hmember hasked
  obtain ⟨signals, henv, hsome, hiff⟩ := hcollects.asks
  by_cases hnone : signals = []
  · -- The phase goes on, so somebody else has a request left.
    have hleft : ¬ ∀ other, self.d.AskedPlayer other → other = name :=
      fun hall => hsome.mpr hall hnone
    push Not at hleft
    obtain ⟨other, hother, hne⟩ := hleft
    exact .asks ((hiff other).mpr (.inl ⟨hother, hne⟩))
  · by_cases hupgrade : self.d.state = .Upgrade
    · cases hstep with
      | upgrade _ _ _ _ _ hstep =>
        cases hstep with
        | waiting => exact absurd (List.append_right_eq_self.mp henv.symm) hnone
        | gameOver | result => exact .concludes rfl rfl rfl
      | rejected hreject => exact absurd haccepts hreject
      | addPlayer hstate | removePlayer hstate | roundStart hstate | rpsForAction _ hstate
      | rpsForActionOrder _ hstate | pick _ hstate | lastPick _ hstate | action _ hstate =>
        cases hstate.symm.trans hupgrade
    · have hround : InRound self.d := by
        refine ⟨fun hstate => ?_, hupgrade⟩
        have hnobody := Dialogue.askedPlayer_of_asked hname hasked
        rw [AskedPlayer, hstate] at hnobody
        exact hnobody
      obtain ⟨hsame, -⟩ | ⟨issued, hissued, hproceeds⟩ := hstep.proceeds h hname haccepts hround
      · exact absurd (List.append_right_eq_self.mp (henv.symm.trans hsame)) hnone
      · obtain rfl := List.append_cancel_left (hissued.symm.trans henv)
        obtain ⟨signal, hsignal, hasks⟩ | ⟨hover, -⟩ := hproceeds
        · exact hcollects.onward henv hsignal hasks
        · -- A round that is over asks for upgrades.
          obtain ⟨-, hends⟩ | ⟨⟨quiet, hquiet, hnot⟩, -⟩ := hstep.ends
          · obtain ⟨-, p, -, -, hrequest⟩ :=
              hends.requests ((hending.call hsound hlivable hstep).2 hround) henv
            exact hcollects.onward henv hrequest (List.cons_ne_nil _ _)
          · obtain rfl := List.append_cancel_left (hquiet.symm.trans henv)
            exact absurd rfl (hnot _ hover)

/-- In a game whose rounds end, somebody has a request from the start of a round to its
end, as long as only replies that were asked for count. -/
theorem onward {c : Call} {ret : Bool} (h : NegotiationInv self)
    (hreplies : self.d.RepliesAsked) (hsound : conf.Sound) (hlivable : conf.Livable)
    (hending : EndingInv conf self.d) (honly : OnlyAsked self c) (hbusy : self.d.Busy)
    (hcall : self.call post c = .ok (ret, self')) : Onward self c self' := by
  by_cases haccepts : self.d.Accepts c
  · cases hname : c.replier with
    | some name =>
      have hmember := member_of_accepts hname haccepts
      have hasked : self.d.Asked c := by
        by_contra hnot
        obtain hasked | hunheeded := honly name hname hmember
        · exact hnot hasked
        · exact (h.accepts_iff hname hmember hnot).mp haccepts hunheeded
      exact (call_cases hcall).onward_of_reply h hreplies hsound hlivable hending hname hmember hasked
    | none =>
      cases call_cases hcall with
      | rejected hreject => exact absurd haccepts hreject
      | addPlayer hstate | removePlayer hstate => exact .rests hstate hstate rfl nofun
      | roundStart hstate htwo =>
        have halive := hending.alive hlivable (.roundStart hstate htwo)
        have hsome : self.d.room.prepareForRoundStart.alivePlayerNames ≠ [] := by
          apply alivePlayerNames_ne_nil
          simp only [Room.isRoundOver, decide_eq_false_iff_not]
          exact Nat.not_le.mpr halive
        obtain ⟨name, hname⟩ := List.exists_mem_of_ne_nil _ hsome
        exact .asks ⟨hname, AList.notMem_empty _⟩
      | _ => cases hname
  · rw [call_of_not_accepts haccepts] at hcall
    cases hcall
    obtain hstate | ⟨name, hasked⟩ := hbusy
    · exact .rests hstate hstate rfl fun _ => haccepts
    · exact .asks hasked

/-- In a game whose rounds end, where only replies that were asked for count, there is
no state between the rounds in which nobody has a request. -/
theorem busy_invariant (conf : LogicConfiguration) (hsound : conf.Sound) (hends : conf.RoundsEnd) :
    (system.guarded OnlyAsked).Invariant fun logic =>
      logic.d.room.logicConfiguration = conf →
        (NegotiationInv logic ∧ logic.d.RepliesAsked) ∧ EndingInv conf logic.d ∧ logic.d.Busy where
  init logic hinit hlogic := by
    refine ⟨repliesAsked_invariant.init _ hinit,
      (endingInv_invariant conf hsound hends).init _ hinit hlogic, ?_⟩
    obtain ⟨conf', rfl⟩ := hinit
    exact .inl rfl
  step logic c logic' h hstep hlogic := by
    obtain ⟨honly, ret, hcall⟩ := hstep
    have hsame := (call_cases hcall).room.logicConfiguration
    obtain ⟨hreplies, hending, hbusy⟩ := h (hsame.symm.trans hlogic)
    refine ⟨repliesAsked_invariant.step _ _ _ hreplies ⟨honly, ret, hcall⟩,
      (hending.call hsound hends.1 (call_cases hcall)).1, ?_⟩
    exact (Logic.onward hreplies.1 hreplies.2 hsound hends.1 hending honly hbusy hcall).busy

end Logic

end QMdmmCore
