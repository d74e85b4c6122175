import QMdmm.Core.OrderRounds
import QMdmm.Core.RoomInvariant

namespace QMdmmCore

open Data Logic

/-- An action phase on its way: the orders up to `passed` were asked or passed
over, and `asked` has a request that it has not acted on. -/
structure ActionPhase where
  result : QHash Int String
  passed : Int
  asked : Option String

namespace ActionPhase

/-- A request may only go to the living holder of a later order, while the round
goes on and nobody else is asked; those passed over for it are dead. -/
def MayAsk (phase : ActionPhase) (alive : List String) (p : String) (order : Int) : Prop :=
  phase.asked = none ∧ 1 < alive.length ∧ phase.passed < order ∧
    phase.result.lookup order = some p ∧ p ∈ alive ∧
    ∀ entry ∈ phase.result.entries, phase.passed < entry.1 → entry.1 < order → entry.2 ∉ alive

/-- A new Rock-Paper-Scissors may only follow once every order has been passed,
while the round goes on. -/
def MayPlayAgain (phase : ActionPhase) (alive : List String) : Prop :=
  phase.asked = none ∧ 1 < alive.length ∧
    ∀ entry ∈ phase.result.entries, phase.passed < entry.1 → entry.2 ∉ alive

/-- The round may only be over once at most one player is alive. -/
def MayEnd (phase : ActionPhase) (alive : List String) : Prop :=
  phase.asked = none ∧ alive.length ≤ 1

instance (phase : ActionPhase) (alive : List String) (p : String) (order : Int) :
    Decidable (phase.MayAsk alive p order) :=
  inferInstanceAs (Decidable (_ ∧ _ ∧ _ ∧ _ ∧ _ ∧ ∀ _ ∈ _, _ → _ → _))

instance (phase : ActionPhase) (alive : List String) : Decidable (phase.MayPlayAgain alive) :=
  inferInstanceAs (Decidable (_ ∧ _ ∧ ∀ _ ∈ _, _ → _))

instance (phase : ActionPhase) (alive : List String) : Decidable (phase.MayEnd alive) :=
  inferInstanceAs (Decidable (_ ∧ _))

end ActionPhase

/-- What somebody who listens to the signals knows of the action phase. -/
inductive Schedule where
  | idle
  | acting (phase : ActionPhase)
  /-- A signal came that the schedule of the phase does not allow. -/
  | broken

namespace Schedule

/-- One more signal, with the players alive once its call is over. -/
def observe (alive : List String) : Schedule → Signal → Schedule
  | .idle, .actionOrderResult result => .acting ⟨result, 0, none⟩
  | .acting _, .actionOrderResult _ => .broken
  | .acting phase, .requestAction p order =>
    if phase.MayAsk alive p order then .acting { phase with passed := order, asked := some p }
    else .broken
  | .acting phase, .actionResult p _ _ _ =>
    if phase.asked = some p then .acting { phase with asked := none } else .broken
  | .acting phase, .requestRpsForAction _ =>
    if phase.MayPlayAgain alive then .idle else .broken
  | .acting phase, .roundOver => if phase.MayEnd alive then .idle else .broken
  | schedule, _ => schedule

def hear (alive : List String) (signals : List Signal) (schedule : Schedule) : Schedule :=
  signals.foldl (observe alive) schedule

/-- The signals of one call. -/
def note (before : Logic (List Signal)) (_ : Call) (after : Logic (List Signal))
    (schedule : Schedule) : Schedule :=
  schedule.hear after.d.room.alivePlayerNames (after.env.drop before.env.length)

def system : TransitionSystem (Logic (List Signal) × Schedule) Call :=
  Logic.system.recorded .idle note

/-- The schedule is kept so far; a phase that is not over waits for a living player,
with another one alive. -/
def Kept (alive : List String) : Schedule → Prop
  | .idle => True
  | .acting phase => 1 < alive.length ∧ ∃ p ∈ alive, phase.asked = some p
  | .broken => False

instance (alive : List String) : (schedule : Schedule) → Decidable (schedule.Kept alive)
  | .idle => .isTrue trivial
  | .acting _ => inferInstanceAs (Decidable (_ ∧ ∃ _ ∈ _, _))
  | .broken => .isFalse id

end Schedule

/-- An action that counts is that of the player asked for it. -/
def InTurn (logic : Logic (List Signal)) : Call → Prop
  | .actionReply name _ _ _ => logic.d.state = .Action → logic.d.room.isRoundOver = false →
      name ∈ logic.d.room.playerNames → name = logic.d.confirmedPlayer logic.d.currentActionOrder
  | _ => True

namespace Schedule

theorem hear_cons (alive : List String) (signal : Signal) (signals : List Signal)
    (schedule : Schedule) :
    schedule.hear alive (signal :: signals) = (schedule.observe alive signal).hear alive signals :=
  rfl

@[simp] theorem hear_broken (alive : List String) (signals : List Signal) :
    hear alive signals .broken = .broken := by
  induction signals with
  | nil => rfl
  | cons signal rest ih => exact ih

/-- Signals that no phase is about. -/
theorem hear_of_forall {alive : List String} {signals : List Signal} {schedule : Schedule}
    (h : ∀ signal ∈ signals, schedule.observe alive signal = schedule) :
    schedule.hear alive signals = schedule := by
  induction signals with
  | nil => rfl
  | cons signal rest ih =>
    rw [hear_cons, h signal List.mem_cons_self]
    exact ih fun other hother => h other (List.mem_cons_of_mem _ hother)

theorem note_of_env {before after : Logic (List Signal)} {c : Call} {signals : List Signal}
    (henv : after.env = before.env ++ signals) (schedule : Schedule) :
    note before c after schedule = schedule.hear after.d.room.alivePlayerNames signals := by
  rw [note, henv, List.drop_left]

/-- A phase under way stands for the state of the logic between two calls. -/
structure Acting (d : LogicP) (phase : ActionPhase) : Prop where
  going : d.room.isRoundOver = false
  result_eq : phase.result = d.confirmedActionOrders
  passed_eq : phase.passed = d.currentActionOrder
  asked_eq : phase.asked = some (d.confirmedPlayer d.currentActionOrder)
  alive : d.confirmedPlayer d.currentActionOrder ∈ d.room.alivePlayerNames
  orders : ∀ order, order ∈ d.confirmedActionOrders ↔
    1 ≤ order ∧ order ≤ d.rpsForActionWinners.length

/-- What the listener knows in each state of the machine. -/
def Tracks (d : LogicP) (schedule : Schedule) : Prop :=
  if d.state = .Action ∧ d.room.isRoundOver = false then
    ∃ phase, schedule = .acting phase ∧ Acting d phase
  else schedule = .idle

theorem tracks_idle {d : LogicP} (h : d.state ≠ .Action ∨ d.room.isRoundOver = true) :
    Tracks d .idle := by
  have hnot : ¬ (d.state = .Action ∧ d.room.isRoundOver = false) := by
    rintro ⟨hstate, hgoing⟩
    obtain h | h := h
    · exact h hstate
    · rw [hgoing] at h
      cases h
  rw [Tracks, if_neg hnot]

/-- What a listener that knew `schedule` hears since `env`. -/
def Attends (env : List Signal) (schedule : Schedule) (logic : Logic (List Signal)) : Prop :=
  ∃ signals, logic.env = env ++ signals ∧
    Tracks logic.d (schedule.hear logic.d.room.alivePlayerNames signals)

theorem Attends.after {env : List Signal} {schedule : Schedule} {logic : Logic (List Signal)}
    (signal : Signal) (next : Schedule) (h : Attends (env ++ [signal]) next logic)
    (hnext : schedule.observe logic.d.room.alivePlayerNames signal = next) :
    Attends env schedule logic := by
  obtain ⟨signals, henv, hinv⟩ := h
  refine ⟨signal :: signals, by simp [henv], ?_⟩
  rw [hear_cons, hnext]
  exact hinv

theorem attends_idle {env : List Signal} {signals : List Signal} {d : LogicP}
    (hquiet : ∀ signal ∈ signals, ∀ alive, observe alive .idle signal = .idle)
    (h : d.state ≠ .Action ∨ d.room.isRoundOver = true) :
    Attends env .idle ⟨d, env ++ signals⟩ := by
  refine ⟨signals, rfl, ?_⟩
  rw [hear_of_forall fun signal hsignal => hquiet signal hsignal _]
  exact tracks_idle h

end Schedule

namespace LogicP

open Schedule

variable {d : LogicP}

/-- The holder of an entry of a complete hand-out. -/
theorem confirmedPlayer_of_mem {entry : Sigma fun _ : Int => String}
    (h : entry ∈ d.confirmedActionOrders.entries) : d.confirmedPlayer entry.1 = entry.2 := by
  rw [confirmedPlayer, QHash.value, QHash.lookup_eq_some.mpr h]
  rfl

/-- The orders that are skipped, as the result has them. -/
theorem SkipsTo.entries {order : Nat} (h : d.SkipsTo order)
    (hpos : ∀ k ∈ d.confirmedActionOrders, 1 ≤ k) {entry : Sigma fun _ : Int => String}
    (hentry : entry ∈ d.confirmedActionOrders.entries)
    (hlater : (d.currentActionOrder : Int) < entry.1) (hbefore : entry.1 < order) :
    entry.2 ∉ d.room.alivePlayerNames := by
  have hone := hpos entry.1 (List.mem_map_of_mem hentry)
  obtain ⟨k, hk⟩ := Int.eq_ofNat_of_zero_le (Int.le_trans Int.one_nonneg hone)
  rw [← confirmedPlayer_of_mem hentry, hk]
  exact h k (by omega) (by omega)

/-- Nobody comes back to life by an action. -/
theorem PerformAction.alivePlayerNames_subset {d' : LogicP} {name toPlayer : String}
    {action : Action} {toPlace : Int} {ok : Bool}
    (hperform : PerformAction d name action toPlayer toPlace ok d') :
    d'.room.alivePlayerNames ⊆ d.room.alivePlayerNames := by
  obtain ⟨-, hnames, hconf⟩ := hperform.frame
  intro other hother
  obtain ⟨q, hq, halive⟩ := Room.mem_alivePlayerNames.mp hother
  have hmember := Room.alivePlayerNames_subset hother
  rw [hnames] at hmember
  obtain ⟨p, hp, hname⟩ := List.mem_map.mp hmember
  obtain ⟨q', hq', hsame, hrests⟩ := hperform.rests p hp
  obtain rfl : q = q' := by
    have hfound := Room.player_eq_some.mpr ⟨hq', hsame.trans hname⟩
    exact Option.some.inj (hq.symm.trans hfound)
  refine Room.mem_alivePlayerNames.mpr ⟨p, Room.player_eq_some.mpr ⟨hp, hname⟩, ?_⟩
  rw [hconf] at halive
  by_contra hdead
  rw [Bool.not_eq_true, Player.alive_eq_false] at hdead
  have hstill := (hrests hdead).dead.trans hdead
  rw [Player.alive, hstill] at halive
  cases halive

theorem PerformAction.isRoundOver {d' : LogicP} {name toPlayer : String} {action : Action}
    {toPlace : Int} {ok : Bool} (hperform : PerformAction d name action toPlayer toPlace ok d')
    (hover : d.room.isRoundOver = true) : d'.room.isRoundOver = true := by
  have hle := (d'.room.alivePlayerNames_nodup.subperm hperform.alivePlayerNames_subset).length_le
  simp only [Room.length_alivePlayerNames, Room.isRoundOver, decide_eq_true_eq] at hle hover ⊢
  omega

end LogicP

namespace Logic

open LogicP Schedule

variable {self self' : Logic (List Signal)}

theorem one_lt_alive {room : Room} :
    1 < room.alivePlayerNames.length ↔ room.isRoundOver = false := by
  simp [Room.isRoundOver]

/-- The round ends: from a phase nobody is asked in, or when none is open. -/
theorem attends_roundOver {schedule : Schedule} (hover : self.d.room.isRoundOver = true)
    (hschedule : schedule.observe self.d.room.alivePlayerNames .roundOver = .idle) :
    Attends self.env schedule ⟨self.d.enterUpgrade, self.env ++ [.roundOver] ++
      self.d.upgraders.map fun p => .requestUpgrade p.objectName p.upgradePoint⟩ := by
  apply Attends.after .roundOver .idle
  · apply attends_idle
    · intro signal hsignal alive
      obtain ⟨p, -, rfl⟩ := List.mem_map.mp hsignal
      rfl
    · exact .inr hover
  · exact hschedule

/-- The loop of the action phase, after a result or after an action. -/
theorem StartAction.attends (hstep : StartAction self self')
    (horders : ∀ order, order ∈ self.d.confirmedActionOrders ↔
      1 ≤ order ∧ order ≤ self.d.rpsForActionWinners.length) :
    Attends self.env
      (.acting ⟨self.d.confirmedActionOrders, self.d.currentActionOrder, none⟩) self' := by
  cases hstep with
  | next hgoing hnext =>
    have hmany := one_lt_alive.mpr hgoing
    cases hnext with
    | @turn order p hlater hlast hplayer halive hskipped =>
      have hmember : self.d.confirmedPlayer order ∈ self.d.room.alivePlayerNames :=
        Room.mem_alivePlayerNames.mpr ⟨p, deref_eq_ok.mp hplayer, halive⟩
      have hkey : (order : Int) ∈ self.d.confirmedActionOrders :=
        (horders order).mpr ⟨by omega, by omega⟩
      obtain ⟨holder, hholder⟩ := Option.isSome_iff_exists.mp (AList.lookup_isSome.mpr hkey)
      have hlookup : (self.d.confirmedActionOrders.lookup (order : Int) : Option String) =
          some (self.d.confirmedPlayer order) := by
        rw [confirmedPlayer, QHash.value, hholder]
        rfl
      have hmay : ActionPhase.MayAsk
          ⟨self.d.confirmedActionOrders, self.d.currentActionOrder, none⟩
          self.d.room.alivePlayerNames (self.d.confirmedPlayer order) order := by
        refine ⟨rfl, hmany, Int.ofNat_lt.mpr hlater, hlookup, hmember, ?_⟩
        exact fun entry hentry => hskipped.entries (fun k hk => ((horders k).mp hk).1) hentry
      refine ⟨_, rfl, ?_⟩
      rw [hear_cons, Tracks, if_pos ⟨rfl, hgoing⟩]
      simp only [observe, if_pos hmay]
      exact ⟨_, rfl, hgoing, rfl, rfl, rfl, hmember, horders⟩
    | again hlater hskipped =>
      have hmay : ActionPhase.MayPlayAgain
          ⟨self.d.confirmedActionOrders, self.d.currentActionOrder, none⟩
          self.d.room.alivePlayerNames := by
        refine ⟨rfl, hmany, fun entry hentry hafter => ?_⟩
        have hrange := (horders entry.1).mp (List.mem_map_of_mem hentry)
        exact hskipped.entries (fun k hk => ((horders k).mp hk).1) hentry hafter (by omega)
      apply Attends.after _ .idle
      · refine ⟨[], (List.append_nil _).symm, ?_⟩
        exact tracks_idle (.inl (by simp [enterRpsForAction]))
      · exact if_pos hmay
  | roundOver hover =>
    have hmay : ActionPhase.MayEnd
        ⟨self.d.confirmedActionOrders, self.d.currentActionOrder, none⟩
        self.d.room.alivePlayerNames := by
      refine ⟨rfl, not_lt.mp fun hmany => ?_⟩
      rw [one_lt_alive.mp hmany] at hover
      cases hover
    exact attends_roundOver hover (if_pos hmay)

theorem StartActionOrder.attends (hstep : StartActionOrder self self')
    (hshared : self.d.Shared) : Attends self.env .idle self' := by
  cases hstep with
  | @settled confirmed _ _ hhand haction =>
    obtain ⟨result, hresult, -, horders, -⟩ := hshared.handOut
    obtain rfl : confirmed = result := Except.ok.inj (hhand.symm.trans hresult)
    exact (haction.attends horders).after _ _ rfl
  | contested =>
    apply attends_idle
    · intro signal hsignal alive
      obtain ⟨name, -, rfl⟩ := List.mem_map.mp hsignal
      rfl
    · exact .inl (by simp [enterActionOrder])

theorem StartRpsForActionOrder.attends (hstep : StartRpsForActionOrder self self')
    (hconserved : self.d.Conserved) : Attends self.env .idle self' := by
  cases hstep with
  | uncontested _ hstart => exact hstart.attends hconserved.confirmUncontested.1.shared
  | contested =>
    apply attends_idle
    · simp [observe]
    · exact .inl (by simp [enterRpsForActionOrder])

theorem RpsForAction.attends (hstep : RpsForAction self self')
    (hstate : self.d.state = .RpsForAction)
    (hreplies : ∀ p ∈ self.d.rpsForActionReplies, p ∈ self.d.room.playerNames) :
    Attends self.env .idle self' := by
  cases hstep with
  | waiting => exact ⟨[], (List.append_nil _).symm, tracks_idle (.inl (by simp [hstate]))⟩
  | tie =>
    apply Attends.after _ .idle
    · apply attends_idle
      · simp [observe]
      · exact .inl (by simp [enterRpsForAction])
    · rfl
  | decided _ hwinners _ hstart =>
    subst hwinners
    exact (hstart.attends (.start hreplies)).after _ _ rfl

theorem RpsForActionOrder.attends (hstep : RpsForActionOrder self self')
    (hstate : self.d.state = .RpsForActionOrder) (hconserved : self.d.Conserved) :
    Attends self.env .idle self' := by
  cases hstep with
  | waiting => exact ⟨[], (List.append_nil _).symm, tracks_idle (.inl (by simp [hstate]))⟩
  | decided _ hstart => exact (hstart.attends (hconserved.dropLosers _ _)).after _ _ rfl

/-- The action of a player, asked for or not, from what is known before it. -/
theorem StartAction.attends_action {d d' : LogicP} {name toPlayer : String} {done : Action}
    {toPlace : Int} {ok : Bool} (hperform : PerformAction d name done toPlayer toPlace ok d')
    {env : List Signal} (hstep : StartAction ⟨d', env⟩ self') (hstate : d.state = .Action)
    {schedule : Schedule} (hinv : Tracks d schedule)
    (hturn : d.room.isRoundOver = false → name = d.confirmedPlayer d.currentActionOrder) :
    ∃ next, (∀ alive, schedule.observe alive (.actionResult name done toPlayer toPlace) = next) ∧
      Attends env next self' := by
  obtain ⟨hframe, -, -⟩ := hperform.frame
  rw [Tracks] at hinv
  by_cases hgoing : d.room.isRoundOver = false
  · rw [if_pos ⟨hstate, hgoing⟩] at hinv
    obtain ⟨phase, rfl, hacting⟩ := hinv
    obtain ⟨result, passed, asked⟩ := phase
    obtain ⟨-, rfl, rfl, rfl, -, horders⟩ := hacting
    refine ⟨_, fun alive => if_pos (by rw [hturn hgoing]), ?_⟩
    rw [hframe] at hstep
    exact hstep.attends horders
  · rw [if_neg fun hboth => hgoing hboth.2] at hinv
    subst hinv
    refine ⟨.idle, fun alive => rfl, ?_⟩
    have hover := hperform.isRoundOver (by simpa using hgoing)
    cases hstep with
    | next hgoing =>
      have hgoing : d'.room.isRoundOver = false := hgoing
      rw [hover] at hgoing
      cases hgoing
    | roundOver => exact attends_roundOver hover rfl

/-- One slot call: the schedule goes on if the action is that of the player asked. -/
theorem CallStep.attends {c : Call} {ret : Bool} {schedule : Schedule} (hneg : NegotiationInv self)
    (hinv : Tracks self.d schedule) (hturn : InTurn self c) (hstep : CallStep self c ret self') :
    Attends self.env schedule self' := by
  have hphase := hneg.phase
  unfold PhaseInv at hphase
  have hidle (hstate : self.d.state ≠ .Action) : schedule = .idle := by
    rwa [Tracks, if_neg fun hboth => hstate hboth.1] at hinv
  cases hstep with
  | rejected => exact ⟨[], (List.append_nil _).symm, hinv⟩
  | addPlayer hstate | removePlayer hstate =>
    rw [hidle (by simp [hstate])]
    exact ⟨[], (List.append_nil _).symm, tracks_idle (.inl (by simp [hstate]))⟩
  | roundStart hstate =>
    rw [hidle (by simp [hstate])]
    apply attends_idle
    · simp [observe]
    · exact .inl (by simp [enterRpsForAction])
  | rpsForAction hmember hstate _ hstep =>
    rw [hidle (by simp [hstate])]
    rw [hstate] at hphase
    refine hstep.attends hstate fun p hp => ?_
    obtain rfl | hp := (AList.mem_insert _).mp hp
    · exact hmember
    · exact hphase.1 p hp
  | rpsForActionOrder _ hstate _ hstep =>
    rw [hidle (by simp [hstate])]
    rw [hstate] at hphase
    exact hstep.attends hstate (hphase.2.1.reply _)
  | pick _ hstate _ _ hrecord =>
    rw [hidle (by simp [hstate])]
    subst hrecord
    exact ⟨[], (List.append_nil _).symm, tracks_idle (.inl (by simp [recordActionOrder, hstate]))⟩
  | lastPick _ hstate hasked hchosen hrecord _ hstep =>
    rw [hidle (by simp [hstate])]
    rw [hstate] at hphase
    subst hrecord
    exact hstep.attends (hphase.2.recordActionOrder hasked hchosen)
  | action hmember hstate _ _ hperform hstep =>
    obtain ⟨next, hobserve, hattends⟩ := hstep.attends_action (performAction_cases hperform) hstate
      hinv fun hgoing => hturn hstate hgoing hmember
    exact hattends.after _ _ (hobserve _)
  | upgrade _ hstate _ _ _ hstep =>
    rw [hidle (by simp [hstate])]
    cases hstep with
    | waiting => exact ⟨[], (List.append_nil _).symm, tracks_idle (.inl (by simp [hstate]))⟩
    | gameOver | result =>
      apply attends_idle
      · simp [observe]
      · exact .inl (by simp)

/-- An action of another player breaks the schedule. -/
theorem CallStep.breaks {c : Call} {ret : Bool} {schedule : Schedule}
    (hinv : Tracks self.d schedule) (hturn : ¬ InTurn self c) (hstep : CallStep self c ret self') :
    schedule.hear self'.d.room.alivePlayerNames (self'.env.drop self.env.length) = .broken := by
  cases c with
  | actionReply name action toPlayer toPlace =>
    simp only [InTurn, Classical.not_imp] at hturn
    obtain ⟨hstate, hgoing, hmember, hother⟩ := hturn
    rw [Tracks, if_pos ⟨hstate, hgoing⟩] at hinv
    obtain ⟨phase, rfl, hacting⟩ := hinv
    cases hstep with
    | rejected hreject => exact absurd ⟨hmember, hstate⟩ hreject
    | action _ _ _ _ _ hstep =>
      obtain ⟨signals, henv, -⟩ := hstep.still
      have hasked : phase.asked ≠ some name := by
        rw [hacting.asked_eq]
        exact fun hsame => hother (Option.some.inj hsame).symm
      rw [henv, List.append_assoc, List.drop_left, List.singleton_append, hear_cons]
      simp only [observe, if_neg hasked, hear_broken]
  | _ => exact absurd trivial hturn

end Logic

namespace Schedule

variable {s t : Logic (List Signal) × Schedule}

theorem Tracks.kept {d : LogicP} {schedule : Schedule} (h : Tracks d schedule) :
    schedule.Kept d.room.alivePlayerNames := by
  rw [Tracks] at h
  split at h
  · obtain ⟨phase, rfl, hacting⟩ := h
    exact ⟨one_lt_alive.mpr hacting.going, _, hacting.alive, hacting.asked_eq⟩
  · subst h
    trivial

theorem tracks_invariant : (system.guarded fun s c => InTurn s.1 c).Invariant
    fun s => NegotiationInv s.1 ∧ Tracks s.1.d s.2 := by
  refine .guarded ?_ fun s c t hturn h hstep => ?_
  · rintro ⟨logic, schedule⟩ ⟨⟨conf, rfl⟩, rfl⟩
    exact ⟨negotiationInv_invariant.init _ ⟨conf, rfl⟩, tracks_idle (.inl fun hstate => by cases hstate)⟩
  · obtain ⟨hneg, hinv⟩ := h
    obtain ⟨⟨ret, hcall⟩, hnote⟩ := hstep
    have hcases := call_cases hcall
    obtain ⟨signals, henv, hnext⟩ := hcases.attends hneg hinv hturn
    rw [hnote, note_of_env henv]
    exact ⟨hneg.call hcases, hnext⟩

/-- The action phases of a run follow their schedule exactly as long as every
action in them is that of the player asked for it. -/
theorem kept_iff {calls : List Call} (hinit : system.init s) (hrun : system.Run s calls t) :
    t.2.Kept t.1.d.room.alivePlayerNames ↔
      (system.guarded fun s c => InTurn s.1 c).Run s calls t := by
  constructor
  · intro hkept
    have hnot : t.2 ≠ .broken := by
      intro hbroken
      rw [hbroken] at hkept
      exact hkept
    clear hkept
    induction hrun with
    | nil => exact .nil s
    | @snoc t u _ c _ hstep ih =>
      obtain ⟨⟨ret, hcall⟩, hnote⟩ := hstep
      have hbefore : t.2 ≠ .broken := by
        intro hbroken
        rw [hnote, note, hbroken, hear_broken] at hnot
        exact hnot rfl
      have hguarded := ih hbefore
      obtain ⟨-, hinv⟩ := tracks_invariant.of_reachable (.run (.init hinit) hguarded)
      refine .snoc hguarded ⟨?_, ⟨ret, hcall⟩, hnote⟩
      by_contra hturn
      rw [hnote] at hnot
      exact hnot ((call_cases hcall).breaks hinv hturn)
  · intro hguarded
    exact (tracks_invariant.of_reachable (.run (.init hinit) hguarded)).2.kept

/-- A run under the default rules, as computed. -/
theorem exists_run (calls : List Call) (P : Logic (List Signal) × Schedule → Bool)
    (hrun : (calls.foldlM (recordedCall note) (start .defaults, idle)).any P = true) :
    ∃ t, system.Run (start .defaults, idle) calls t ∧ P t = true := by
  cases hlast : calls.foldlM (recordedCall note) (start .defaults, idle) with
  | none => simp [hlast] at hrun
  | some t =>
    rw [hlast] at hrun
    exact ⟨t, .foldlM (fun _ _ _ hcall => step_of_recordedCall hcall) hlast, hrun⟩

theorem init_start : system.init (start .defaults, idle) := ⟨⟨_, rfl⟩, rfl⟩

/-- A buys a knife when it is asked to act, and the next round of throws is asked for. -/
theorem kept_iff_knife :
    let calls := firstActionCalls ++ [.actionReply "A" .BuyKnife "" 0]
    ∃ t, system.Run (start .defaults, idle) calls t ∧
      (system.guarded fun s c => InTurn s.1 c).Run (start .defaults, idle) calls t := by
  intro calls
  obtain ⟨t, hrun, hkept⟩ := exists_run calls
    (fun t => decide (t.2.Kept t.1.d.room.alivePlayerNames)) (by decide +kernel)
  exact ⟨t, hrun, (kept_iff init_start hrun).mp (of_decide_eq_true hkept)⟩

/-- A is asked to act, and B acts. -/
theorem kept_fails :
    ∃ t, system.Run (start .defaults, idle)
        (firstActionCalls ++ [.actionReply "B" .DoNothing "" 0]) t ∧
      ¬ t.2.Kept t.1.d.room.alivePlayerNames := by
  obtain ⟨t, hrun, hbroken⟩ := exists_run (firstActionCalls ++ [.actionReply "B" .DoNothing "" 0])
    (fun t => !decide (t.2.Kept t.1.d.room.alivePlayerNames)) (by decide +kernel)
  exact ⟨t, hrun, by simpa using hbroken⟩

end Schedule

end QMdmmCore
