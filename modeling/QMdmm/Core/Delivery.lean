import QMdmm.Core.DirectPhases

namespace QMdmmCore

open Data Logic

namespace Logic

section

open LogicP

variable {emit : Emit Direct} {mid : Logic (List Signal)}

theorem addPlayer_follows (self : Logic Direct) {name : String} {ret : Bool}
    (hpost : self.queued.addPlayer name = .ok (ret, mid)) :
    ∃ after, self.addPlayer name = .ok (ret, after) ∧ Follows self.env.answers mid after := by
  rw [Logic.addPlayer] at hpost ⊢
  split at hpost
  · next hstate =>
    rw [if_pos (by exact hstate)]
    simp only [queued] at hpost
    rcases hadd : self.d.room.addPlayer name with ⟨ok, room⟩
    rw [hadd] at hpost
    cases ok with
    | true =>
      cases hpost
      exact ⟨_, rfl, .refl (self.modify fun d => { d with room := room.resetUpgrades })⟩
    | false =>
      cases hpost
      exact ⟨_, rfl, .refl self⟩
  · next hstate =>
    rw [if_neg (by exact hstate)]
    cases hpost
    exact ⟨_, rfl, .refl self⟩

theorem removePlayer_follows (self : Logic Direct) {name : String} {ret : Bool}
    (hpost : self.queued.removePlayer name = .ok (ret, mid)) :
    ∃ after, self.removePlayer name = .ok (ret, after) ∧ Follows self.env.answers mid after := by
  rw [Logic.removePlayer] at hpost ⊢
  split at hpost
  · next hstate =>
    rw [if_pos (by exact hstate)]
    simp only [queued] at hpost
    rcases hremove : self.d.room.removePlayer name with ⟨ok, room⟩
    rw [hremove] at hpost
    cases ok with
    | true =>
      cases hpost
      exact ⟨_, rfl, .refl (self.modify fun d => { d with room := room.resetUpgrades })⟩
    | false =>
      cases hpost
      exact ⟨_, rfl, .refl self⟩
  · next hstate =>
    rw [if_neg (by exact hstate)]
    cases hpost
    exact ⟨_, rfl, .refl self⟩

theorem Delivers.roundStart (he : Delivers emit) (self : Logic Direct) {ret : Bool}
    (hcalm : self.env.disturbed = false) (hpost : self.queued.roundStart post = .ok (ret, mid))
    (hreach : system.Reachable mid) :
    ∃ after, self.roundStart emit = .ok (ret, after) ∧ Follows self.env.answers mid after := by
  rw [Logic.roundStart] at hpost ⊢
  split at hpost
  · next hready =>
    rw [if_pos (by exact hready)]
    obtain ⟨next, hnext, hpost⟩ := Except.bind_eq_ok.mp hpost
    cases hpost
    obtain ⟨after, hafter, hfollows⟩ := he.startRpsForAction
      (self.modify fun d => { d with room := d.room.prepareForRoundStart }) hcalm hnext hreach
    rw [hafter]
    exact ⟨after, rfl, hfollows⟩
  · next hready =>
    rw [if_neg (by exact hready)]
    cases hpost
    exact ⟨_, rfl, .refl self⟩

theorem Delivers.rpsReply (he : Delivers emit) (self : Logic Direct) {name : String}
    {rps : RockPaperScissors} {ret : Bool} (hcalm : self.env.disturbed = false)
    (hpost : self.queued.rpsReply post name rps = .ok (ret, mid)) (hreach : system.Reachable mid) :
    ∃ after, self.rpsReply emit name rps = .ok (ret, after) ∧
      Follows self.env.answers mid after := by
  rw [Logic.rpsReply] at hpost ⊢
  split at hpost
  · next hplayer =>
    rw [if_pos (by exact hplayer)]
    split at hpost
    · next hready =>
      rw [if_pos (by exact hready)]
      obtain ⟨next, hnext, hpost⟩ := Except.bind_eq_ok.mp hpost
      cases hpost
      obtain ⟨after, hafter, hfollows⟩ := he.rpsForAction
        (self.modify fun d =>
          { d with rpsForActionReplies := AList.insert name rps d.rpsForActionReplies })
        hcalm hnext hreach
      rw [hafter]
      exact ⟨after, rfl, hfollows⟩
    · next hnotAction =>
      rw [if_neg (by exact hnotAction)]
      split at hpost
      · next hready =>
        rw [if_pos (by exact hready)]
        obtain ⟨next, hnext, hpost⟩ := Except.bind_eq_ok.mp hpost
        cases hpost
        obtain ⟨after, hafter, hfollows⟩ := he.rpsForActionOrder
          (self.modify fun d =>
            { d with rpsForActionOrderReplies := AList.insert name rps d.rpsForActionOrderReplies })
          hcalm hnext hreach
        rw [hafter]
        exact ⟨after, rfl, hfollows⟩
      · next hnotOrder =>
        rw [if_neg (by exact hnotOrder)]
        cases hpost
        exact ⟨_, rfl, .refl self⟩
  · next hplayer =>
    rw [if_neg (by exact hplayer)]
    cases hpost
    exact ⟨_, rfl, .refl self⟩

theorem Delivers.actionOrderReply (he : Delivers emit) (self : Logic Direct) {name : String}
    {desired : List Int} {ret : Bool} (hcalm : self.env.disturbed = false)
    (hpost : self.queued.actionOrderReply post name desired = .ok (ret, mid))
    (hreach : system.Reachable mid) :
    ∃ after, self.actionOrderReply emit name desired = .ok (ret, after) ∧
      Follows self.env.answers mid after := by
  rw [Logic.actionOrderReply] at hpost ⊢
  split at hpost
  · next hready =>
    rw [if_pos (by exact hready)]
    dsimp only [queued] at hpost ⊢
    rcases hchosen : self.d.chosenOrders
      (self.d.actionOrderRemainingSelections.value name (-1)) desired with ⟨accepted, chosen, yields⟩
    rw [hchosen] at hpost
    split at hpost
    · next hasked =>
      rw [if_pos hasked]
      obtain ⟨next, hnext, hpost⟩ := Except.bind_eq_ok.mp hpost
      cases hpost
      obtain ⟨after, hafter, hfollows⟩ := he.actionOrder
        (self.modify fun d => d.recordActionOrder name chosen yields) hcalm hnext hreach
      refine ⟨after, ?_, hfollows⟩
      dsimp only
      rw [hafter]
      rfl
    · next hasked =>
      rw [if_neg hasked]
      cases hpost
      exact ⟨_, rfl, .refl self⟩
  · next hready =>
    rw [if_neg (by exact hready)]
    cases hpost
    exact ⟨_, rfl, .refl self⟩

theorem Delivers.actionReply (he : Delivers emit) (self : Logic Direct) {name : String}
    {action : Action} {toPlayer : String} {toPlace : Int} {ret : Bool}
    (hcalm : self.env.disturbed = false)
    (hpost : self.queued.actionReply post name action toPlayer toPlace = .ok (ret, mid))
    (hreach : system.Reachable mid) :
    ∃ after, self.actionReply emit name action toPlayer toPlace = .ok (ret, after) ∧
      Follows self.env.answers mid after := by
  rw [Logic.actionReply] at hpost ⊢
  split at hpost
  · next hready =>
    rw [if_pos (by exact hready)]
    obtain ⟨accepted, hfeasible, hpost⟩ := Except.bind_eq_ok.mp hpost
    obtain ⟨⟨ok, applied⟩, happly, hpost⟩ := Except.bind_eq_ok.mp hpost
    obtain ⟨next, hnext, hpost⟩ := Except.bind_eq_ok.mp hpost
    cases hpost
    rw [Logic.applyAction, post_apply, Except.ok_bind] at happly
    obtain ⟨⟨done, d'⟩, hperform, happly⟩ := Except.bind_eq_ok.mp happly
    cases happly
    generalize hchosen : (if ret then action else Action.DoNothing) = chosen at hperform hnext
    have hfeasible' : self.d.actionFeasible name action toPlayer toPlace = .ok ret := hfeasible
    have hperform' : self.d.performAction name chosen toPlayer toPlace = .ok (ok, d') := hperform
    obtain ⟨after, hafter, hfollows⟩ := he.startAction
      ⟨d', (self.signalled (.actionResult name chosen toPlayer toPlace)).env⟩ hcalm hnext hreach
    rw [hfeasible', Except.ok_bind]
    dsimp only
    rw [hchosen]
    refine ⟨after, ?_, hfollows⟩
    rw [Logic.applyAction, he.silent _ self fun c => rfl, Except.ok_bind]
    dsimp only [signalled]
    rw [hperform']
    simp only [Except.ok_bind, Except.pure_eq_ok]
    dsimp only [signalled] at hafter
    rw [hafter]
    rfl
  · next hready =>
    rw [if_neg (by exact hready)]
    cases hpost
    exact ⟨_, rfl, .refl self⟩

theorem Delivers.upgradeReply (he : Delivers emit) (self : Logic Direct) {name : String}
    {items : List UpgradeItem} {ret : Bool} (hcalm : self.env.disturbed = false)
    (hpost : self.queued.upgradeReply post name items = .ok (ret, mid))
    (hreach : system.Reachable mid) :
    ∃ after, self.upgradeReply emit name items = .ok (ret, after) ∧
      Follows self.env.answers mid after := by
  rw [Logic.upgradeReply] at hpost ⊢
  split at hpost
  · next hnone =>
    have hnone' : self.d.room.player name = none := hnone
    rw [hnone']
    cases hpost
    exact ⟨_, rfl, .refl self⟩
  · next p hplayer =>
    have hplayer' : self.d.room.player name = some p := hplayer
    rw [hplayer']
    split at hpost
    · next hready =>
      obtain ⟨accepted, hfeasible, hpost⟩ := Except.bind_eq_ok.mp hpost
      obtain ⟨next, hnext, hpost⟩ := Except.bind_eq_ok.mp hpost
      cases hpost
      have hfeasible' : self.d.upgradeFeasible name items = .ok ret := hfeasible
      obtain ⟨after, hafter, hfollows⟩ := he.upgrade (self.modify fun d =>
        { d with
          upgrades := AList.insert name (if ret then items
            else LogicP.feasibleItems self.d.room.logicConfiguration p) d.upgrades })
        hcalm hnext hreach
      dsimp only
      rw [if_pos (by exact hready), hfeasible', Except.ok_bind, hafter]
      exact ⟨after, rfl, hfollows⟩
    · next hready =>
      dsimp only
      rw [if_neg (by exact hready)]
      cases hpost
      exact ⟨_, rfl, .refl self⟩

/-- Every slot call gets where the same call and the calls made inside it get one
after another. -/
theorem Delivers.call (he : Delivers emit) (self : Logic Direct) {c : Call} {ret : Bool}
    (hcalm : self.env.disturbed = false) (hpost : self.queued.call post c = .ok (ret, mid))
    (hreach : system.Reachable mid) :
    ∃ after, self.call emit c = .ok (ret, after) ∧ Follows self.env.answers mid after := by
  cases c with
  | addPlayer name => exact addPlayer_follows self hpost
  | removePlayer name => exact removePlayer_follows self hpost
  | roundStart => exact he.roundStart self hcalm hpost hreach
  | rpsReply name rps => exact he.rpsReply self hcalm hpost hreach
  | actionOrderReply name desired => exact he.actionOrderReply self hcalm hpost hreach
  | actionReply name action toPlayer toPlace => exact he.actionReply self hcalm hpost hreach
  | upgradeReply name items => exact he.upgradeReply self hcalm hpost hreach

theorem answer_disturbed (calls : List Call) (self : Logic Direct)
    (hdisturbed : self.env.disturbed = true) : answer emit calls self = .ok self := by
  cases calls with
  | nil => rfl
  | cons c rest => exact if_pos hdisturbed

theorem insertIdx_length_append {α : Type} (l later : List α) (a : α) :
    (l ++ later).insertIdx l.length a = l ++ a :: later := by
  induction l with
  | nil => rfl
  | cons b l ih => exact congrArg (b :: ·) ih

/-- Calls that emit nothing, under anything they keep. -/
theorem answer_quiet (emit : Emit Direct) {I : LogicP → Prop} {calls : List Call}
    (hquiet : ∀ c ∈ calls, ∀ d, I d → ∃ ret d', Quiet d c ret d' ∧ I d') (self : Logic Direct)
    (hcalm : self.env.disturbed = false) (hI : I self.d) :
    ∃ after later, answer emit calls self = .ok after ∧ I after.d ∧
      after.env.disturbed = false ∧ after.env.signals = self.env.signals ∧
      after.env.answers = self.env.answers ++ later ∧
      ∀ env, Logic.run post (later.map Prod.fst) ⟨self.d, env⟩ =
        .ok (later.map Prod.snd, ⟨after.d, env⟩) := by
  induction calls generalizing self with
  | nil => exact ⟨self, [], rfl, hI, hcalm, rfl, by simp, fun env => rfl⟩
  | cons c rest ih =>
    obtain ⟨ret, d', hcall, hI'⟩ := hquiet c List.mem_cons_self self.d hI
    obtain ⟨after, later, hafter, hI'', hcalm', hsignals, hanswers, hrun⟩ :=
      ih (fun c hc => hquiet c (List.mem_cons_of_mem _ hc))
        ((⟨d', self.env⟩ : Logic Direct).answered self.env.answers.length c ret) hcalm hI'
    refine ⟨after, (c, ret) :: later, ?_, hI'', hcalm', hsignals, ?_, fun env => ?_⟩
    · rw [answer, if_neg (by simp [hcalm]), hcall emit self.env]
      exact hafter
    · have hhere := insertIdx_length_append self.env.answers [] (c, ret)
      rw [List.append_nil] at hhere
      rw [hanswers, answered, hhere, List.append_assoc, List.singleton_append]
    · have hrun := hrun env
      dsimp only [answered] at hrun
      rw [List.map_cons, Logic.run, hcall post env]
      simp only [Except.ok_bind, hrun]
      rfl

/-- Calls, and the calls made inside them, get where they get one after another. -/
theorem Delivers.answer_replays (he : Delivers emit) (calls : List Call) (self : Logic Direct)
    (hcalm : self.env.disturbed = false) (hreach : system.Reachable self.queued) :
    ∃ after, answer emit calls self = .ok after ∧ Replays self.env.answers self.queued after ∧
      ((∀ c ∈ calls, c.changesNames = false) →
        after.d.room.playerNames = self.d.room.playerNames) := by
  induction calls generalizing self with
  | nil => exact ⟨self, rfl, .refl self, fun _ => rfl⟩
  | cons c rest ih =>
    obtain ⟨ret, mid, hpost⟩ := call_ok hreach c
    have hmid : system.Reachable mid := .step hreach ⟨ret, hpost⟩
    have hkeep := (call_cases hpost).room.playerNames
    obtain ⟨next, hnext, hfollows⟩ := he.call self hcalm hpost hmid
    rw [answer, if_neg (by simp [hcalm]), hnext]
    simp only [Except.ok_bind]
    by_cases hdisturbed : next.env.disturbed = true
    · rw [answer_disturbed rest _ (by exact hdisturbed)]
      refine ⟨_, rfl, fun hcalm => ?_, fun hnames => ?_⟩
      · cases hdisturbed.symm.trans hcalm
      · exact hfollows.names.trans (hkeep (hnames c List.mem_cons_self))
    · have hcalm' : next.env.disturbed = false := by simpa using hdisturbed
      obtain ⟨later, hlater, hrun⟩ := hfollows.run hcalm'
      obtain ⟨after, hafter, hrest, hkeep'⟩ := ih (next.answered self.env.answers.length c ret) hcalm'
        (reachable_run hmid hrun)
      have hearlier : (next.answered self.env.answers.length c ret).env.answers =
          self.env.answers ++ ((c, ret) :: later) := by
        dsimp only [answered]
        rw [hlater, insertIdx_length_append]
      rw [hearlier] at hrest
      refine ⟨after, hafter, hrest.prepend ?_, fun hnames => ?_⟩
      · rw [List.map_cons, Logic.run, hpost]
        simp only [Except.ok_bind, hrun]
        rfl
      · exact (hkeep' fun c hc => hnames c (List.mem_cons_of_mem _ hc)).trans
          (hfollows.names.trans (hkeep (hnames c List.mem_cons_self)))

theorem disturbs_self (signal : Signal) (d : LogicP) : disturbs signal d d = false := by
  cases signal <;> simp [disturbs]

theorem keepsNames_of_answers {signal : Signal} {c : Call} (hanswers : Answers signal c = true) :
    c.changesNames = false := by
  cases c with
  | addPlayer | removePlayer => cases signal <;> cases hanswers
  | _ => rfl

/-- At every depth. -/
theorem delivers_deliver (H : Handlers) (depth : Nat) : Delivers (deliver H depth) := by
  induction depth with
  | zero =>
    refine ⟨fun _ _ _ => rfl, fun _ _ _ => rfl, ?_, ?_⟩
    · intro I signal logic hcalm hI _ _
      exact ⟨logic.signalled signal, [], rfl, hI, hcalm, rfl, (List.append_nil _).symm, fun _ => rfl⟩
    · intro signal logic _ _
      exact ⟨logic.signalled signal, rfl, .refl (logic.signalled signal),
        fun _ => disturbs_self signal logic.d⟩
  | succ depth ih =>
    refine ⟨?silent, ?disturbed, ?quiet, ?last⟩
    case silent =>
      intro signal logic hsilent
      have hnone : H.answer signal (logic.signalled signal) = [] := by
        refine List.eq_nil_iff_forall_not_mem.mpr fun c hc => ?_
        have hanswers := H.answers signal _ c hc
        rw [hsilent c] at hanswers
        cases hanswers
      rw [deliver, hnone]
      have hkeep : disturbs signal logic.d (logic.signalled signal).d = false :=
        disturbs_self signal logic.d
      simp [answer, hkeep]
    case disturbed =>
      intro signal logic hdisturbed
      have hkeep : disturbs signal logic.d (logic.signalled signal).d = false :=
        disturbs_self signal logic.d
      rw [deliver, answer_disturbed _ _ (by exact hdisturbed)]
      simp [hkeep]
    case quiet =>
      intro I signal logic hcalm hI hquiet hkeep
      obtain ⟨after, later, hafter, hI', hrest⟩ := answer_quiet (deliver H depth)
        (fun c hc d hd => hquiet c d (H.answers signal _ c hc) hd) (logic.signalled signal) hcalm hI
      refine ⟨after, later, ?_, hI', hrest⟩
      rw [deliver, hafter]
      simp [hkeep _ _ hI hI']
    case last =>
      intro signal logic hcalm hreach
      obtain ⟨after, hafter, hreplays, hkeep⟩ :=
        ih.answer_replays (H.answer signal (logic.signalled signal)) (logic.signalled signal) hcalm
          hreach
      have hnames := hkeep fun c hc => keepsNames_of_answers (H.answers signal _ c hc)
      rw [deliver, hafter]
      simp only [Except.ok_bind]
      cases hdisturbs : disturbs signal logic.d after.d with
      | false => exact ⟨after, rfl, ⟨hnames, hreplays⟩, fun _ => hdisturbs⟩
      | true =>
        refine ⟨after.disturb, rfl, ⟨hnames, fun hcalm' => ?_⟩, fun hcalm' => ?_⟩
        · cases hcalm'
        · cases hcalm'

end

/-- The logic of a server that has not heard anything yet. -/
def fresh (conf : LogicConfiguration) : Logic Direct := ⟨.new conf, ⟨[], [], false⟩⟩

/-- Answering inside the emission of a request gets the same signals, the same
returned values and the same logic and room as making the same calls one after
another, whatever the answers and however deep they nest, as long as no loop of
`startUpgrade` is disturbed. -/
theorem direct_eq_queued (conf : LogicConfiguration) (H : Handlers) (depth : Nat)
    (calls : List Call) :
    ∃ after, answer (deliver H depth) calls (fresh conf) = .ok after ∧
      (after.env.disturbed = false →
        run post (after.env.answers.map Prod.fst) (start conf) =
          .ok (after.env.answers.map Prod.snd, after.queued)) := by
  obtain ⟨after, hafter, hreplays, _⟩ := (delivers_deliver H depth).answer_replays calls (fresh conf)
    rfl (.init ⟨conf, rfl⟩)
  refine ⟨after, hafter, fun hcalm => ?_⟩
  obtain ⟨later, hlater, hrun⟩ := hreplays hcalm
  rw [hlater]
  exact hrun

/-- Slots that know by the number of signals so far what to answer. -/
def scripted (script : List (Nat × List Call)) : Handlers where
  answer signal self :=
    ((script.lookup self.env.signals.length).getD []).filter fun c => Answers signal c
  answers _ _ _ hc := (List.mem_filter.mp hc).2

/-- A player wins against two others, and acts twice. -/
def winsTwice (winner loser other : String) (first second : Call) : List Call :=
  [.rpsReply winner .Rock, .rpsReply loser .Scissors, .rpsReply other .Scissors, first, second]

/-- A kills B and C. -/
def killCalls : List Call :=
  [.addPlayer "A", .addPlayer "B", .addPlayer "C", .roundStart] ++
    winsTwice "A" "B" "C" (.actionReply "A" .BuyKnife "" 0) (.actionReply "A" .Move "" 0) ++
    winsTwice "A" "B" "C" (.actionReply "A" .LetMove "B" 0) (.actionReply "A" .Slash "B" 0) ++
    [.rpsReply "A" .Rock, .rpsReply "C" .Scissors, .actionReply "A" .LetMove "C" 0,
      .rpsReply "A" .Rock, .rpsReply "C" .Scissors, .actionReply "A" .Slash "C" 0]

/-- The request for A's upgrades is answered at once, and so is everything up to
where C has killed B in the next round. -/
def nestedRound : List (Nat × List Call) := [
  (26, [.upgradeReply "A" [.UpgradeKnife, .UpgradeKnife]]),
  (27, [.roundStart]),
  (28, [.rpsReply "C" .Rock, .rpsReply "A" .Scissors, .rpsReply "B" .Scissors]),
  (31, [.actionReply "C" .BuyKnife "" 0]),
  (33, [.actionReply "C" .Move "" 0]),
  (35, [.rpsReply "C" .Rock, .rpsReply "A" .Scissors, .rpsReply "B" .Scissors]),
  (38, [.actionReply "C" .LetMove "B" 0]),
  (40, [.actionReply "C" .Slash "B" 0])]

/-- A run with scripted slots, as computed. -/
theorem exists_scripted_run (value : QJsonValue) (script : List (Nat × List Call))
    (P : LogicConfiguration → Logic Direct → Bool)
    (hrun : (match LogicConfiguration.deserialize value with
      | some conf => match answer (deliver (scripted script) script.length) killCalls (fresh conf) with
        | .ok after => P conf after
        | .error _ => false
      | none => false) = true) :
    ∃ conf after, conf.Accepted ∧
      answer (deliver (scripted script) script.length) killCalls (fresh conf) = .ok after ∧
      P conf after = true := by
  split at hrun
  · next conf hconf =>
    split at hrun
    · next after hafter => exact ⟨conf, after, ⟨value, hconf⟩, hafter, hrun⟩
    · cases hrun
  · cases hrun

/-- One after another, the same calls end in Rock-Paper-Scissors: nobody asks C
to upgrade in the middle of the round. -/
theorem direct_eq_queued_fails :
    ∃ (conf : LogicConfiguration) (H : Handlers) (depth : Nat) (calls : List Call)
      (after : Logic Direct), conf.Accepted ∧
      answer (deliver H depth) calls (fresh conf) = .ok after ∧
      run post (after.env.answers.map Prod.fst) (start conf) ≠
        .ok (after.env.answers.map Prod.snd, after.queued) := by
  obtain ⟨conf, after, hconf, hafter, hother⟩ := exists_scripted_run
    (.object [("initialMaxHp", .ofInt 1)]) nestedRound
    (fun conf after => decide (after.d.state = .Upgrade) &&
      match run post (after.env.answers.map Prod.fst) (start conf) with
      | .ok (_, last) => decide (last.d.state = .RpsForAction)
      | .error _ => false) (by decide +kernel)
  obtain ⟨hstate, hother⟩ := Bool.and_eq_true_iff.mp hother
  refine ⟨conf, scripted nestedRound, _, killCalls, after, hconf, hafter, fun hsame => ?_⟩
  rw [hsame] at hother
  cases (of_decide_eq_true hstate).symm.trans (of_decide_eq_true hother)

/-- Without C's actions the nested calls stop early in the next round, and the
loop that they were made in goes on over nobody. -/
theorem direct_eq_queued_nested :
    ∃ (conf : LogicConfiguration) (after : Logic Direct),
      answer (deliver (scripted (nestedRound.take 3)) 3) killCalls (fresh conf) = .ok after ∧
      after.d.state = .Action ∧ after.env.signals.length = 31 ∧
      run post (after.env.answers.map Prod.fst) (start conf) =
        .ok (after.env.answers.map Prod.snd, after.queued) := by
  obtain ⟨conf, after, _, hafter, hends⟩ := exists_scripted_run
    (.object [("initialMaxHp", .ofInt 1)]) (nestedRound.take 3)
    (fun _ after => decide (after.d.state = .Action ∧ after.env.signals.length = 31 ∧
      after.env.disturbed = false)) (by decide +kernel)
  obtain ⟨hstate, hsignals, hcalm⟩ := of_decide_eq_true hends
  obtain ⟨after', hafter', hrun⟩ :=
    direct_eq_queued conf (scripted (nestedRound.take 3)) 3 killCalls
  cases hafter'.symm.trans hafter
  exact ⟨conf, after, hafter, hstate, hsignals, hrun hcalm⟩

end Logic

end QMdmmCore
