import QMdmm.Core.NoFault

namespace QMdmmCore

open Data Logic

namespace Logic

/-- What directly connected slots have seen and done: the signals in the order of
their emission, and the calls in the order they were made, with the values they
returned. -/
structure Direct where
  signals : List Signal
  answers : List (Call × Bool)
  disturbed : Bool

/-- The calls that answer a signal. -/
def Answers : Signal → Call → Bool
  | .requestRpsForAction playerNames, .rpsReply playerName _ => playerName ∈ playerNames
  | .requestActionOrder asked _ _ _, .actionOrderReply playerName _ => playerName = asked
  | .requestRpsForActionOrder playerNames _, .rpsReply playerName _ => playerName ∈ playerNames
  | .requestAction asked _, .actionReply playerName _ _ _ => playerName = asked
  | .requestUpgrade asked _, .upgradeReply playerName _ => playerName = asked
  | .upgradeResult _, .roundStart => true
  | _, _ => false

/-- An assignment of answers: what the slot connected to a signal calls before it
returns, with all it can see of the logic and of what happened before. The
requests it leaves unanswered are answered later. -/
structure Handlers where
  answer : Signal → Logic Direct → List Call
  answers : ∀ signal self, ∀ c ∈ answer signal self, Answers signal c = true

/-- The players after `name` that have points, in the order `startUpgrade` asks
them. -/
def laterUpgraders (d : LogicP) (name : String) : List (String × Int) :=
  (d.upgraders.filter fun p => name < p.objectName).map fun p => (p.objectName, p.upgradePoint)

/-- A slot has returned, and the loop of `startUpgrade` that called it goes on
with other players than it would have without the call. -/
def disturbs : Signal → LogicP → LogicP → Bool
  | .requestUpgrade name _, d, d' => laterUpgraders d name ≠ laterUpgraders d' name
  | _, _, _ => false

def signalled (self : Logic Direct) (signal : Signal) : Logic Direct :=
  { self with env := { self.env with signals := self.env.signals ++ [signal] } }

/-- A call that was the `index`th one to be made has returned. -/
def answered (self : Logic Direct) (index : Nat) (c : Call) (ret : Bool) : Logic Direct :=
  { self with env := { self.env with answers := self.env.answers.insertIdx index (c, ret) } }

def disturb (self : Logic Direct) : Logic Direct :=
  { self with env := { self.env with disturbed := true } }

/-- Calls one after another. What happens after a loop has been disturbed is not
followed any further. -/
def answer (emit : Emit Direct) : List Call → Logic Direct → Except Fault (Logic Direct)
  | [], self => .ok self
  | c :: rest, self =>
    if self.env.disturbed then .ok self
    else do
      let result ← self.call emit c
      answer emit rest (result.2.answered self.env.answers.length c result.1)

/-- Direct delivery, with calls from slots nested up to a depth: the slot of a
signal makes its calls before the `emit` returns. -/
def deliver (H : Handlers) : Nat → Emit Direct
  | 0, signal, self => .ok (self.signalled signal)
  | depth + 1, signal, self => do
    let after ← answer (deliver H depth) (H.answer signal (self.signalled signal))
      (self.signalled signal)
    return if disturbs signal self.d after.d then after.disturb else after

/-- The same logic, as it is under queued delivery. -/
def queued (self : Logic Direct) : Logic (List Signal) := ⟨self.d, self.env.signals⟩

theorem run_append {G : Type} {emit : Emit G} {calls later : List Call} {rets rets' : List Bool}
    {self next last : Logic G} (hrun : run emit calls self = .ok (rets, next))
    (hlater : run emit later next = .ok (rets', last)) :
    run emit (calls ++ later) self = .ok (rets ++ rets', last) := by
  induction calls generalizing self rets with
  | nil =>
    cases hrun
    exact hlater
  | cons c rest ih =>
    obtain ⟨⟨ret, mid⟩, hcall, hrun⟩ := Except.bind_eq_ok.mp hrun
    obtain ⟨⟨rest', end'⟩, hrest, hrun⟩ := Except.bind_eq_ok.mp hrun
    cases hrun
    rw [List.cons_append, run, hcall]
    simp only [Except.ok_bind, ih hrest]
    rfl

theorem reachable_run {calls : List Call} {rets : List Bool} {self self' : Logic (List Signal)}
    (hself : system.Reachable self) (hrun : run post calls self = .ok (rets, self')) :
    system.Reachable self' := by
  induction calls generalizing self rets with
  | nil =>
    cases hrun
    exact hself
  | cons c rest ih =>
    obtain ⟨⟨ret, mid⟩, hcall, hrun⟩ := Except.bind_eq_ok.mp hrun
    obtain ⟨⟨rest', end'⟩, hrest, hrun⟩ := Except.bind_eq_ok.mp hrun
    cases hrun
    exact ih (.step hself ⟨ret, hcall⟩) hrest

/-- Queued delivery that has come as far as `mid`, and then makes the calls that
direct delivery has made since, gets to where direct delivery is. -/
def Replays (answers : List (Call × Bool)) (mid : Logic (List Signal)) (after : Logic Direct) :
    Prop :=
  after.env.disturbed = false → ∃ later, after.env.answers = answers ++ later ∧
    run post (later.map Prod.fst) mid = .ok (later.map Prod.snd, after.queued)

/-- The same, with the same players in the room. -/
structure Follows (answers : List (Call × Bool)) (mid : Logic (List Signal)) (after : Logic Direct) :
    Prop where
  names : after.d.room.playerNames = mid.d.room.playerNames
  run : Replays answers mid after

/-- The call does the same however signals are delivered: it emits none. -/
def Quiet (d : LogicP) (c : Call) (ret : Bool) (d' : LogicP) : Prop :=
  ∀ {G : Type} (emit : Emit G) (env : G), (⟨d, env⟩ : Logic G).call emit c = .ok (ret, ⟨d', env⟩)

/-- What the functions of the logic rely on when they emit a signal. -/
structure Delivers (emit : Emit Direct) : Prop where
  silent (signal : Signal) (logic : Logic Direct) (hsilent : ∀ c, Answers signal c = false) :
    emit signal logic = .ok (logic.signalled signal)
  disturbed (signal : Signal) (logic : Logic Direct) (hdisturbed : logic.env.disturbed = true) :
    emit signal logic = .ok (logic.signalled signal)
  quiet (I : LogicP → Prop) (signal : Signal) (logic : Logic Direct)
    (hcalm : logic.env.disturbed = false) (hI : I logic.d)
    (hquiet : ∀ c d, Answers signal c = true → I d → ∃ ret d', Quiet d c ret d' ∧ I d')
    (hkeep : ∀ d d', I d → I d' → disturbs signal d d' = false) :
    ∃ after later, emit signal logic = .ok after ∧ I after.d ∧ after.env.disturbed = false ∧
      after.env.signals = logic.env.signals ++ [signal] ∧
      after.env.answers = logic.env.answers ++ later ∧
      ∀ env, Logic.run post (later.map Prod.fst) ⟨logic.d, env⟩ =
        .ok (later.map Prod.snd, ⟨after.d, env⟩)
  last (signal : Signal) (logic : Logic Direct) (hcalm : logic.env.disturbed = false)
    (hreach : system.Reachable ⟨logic.d, logic.env.signals ++ [signal]⟩) :
    ∃ after, emit signal logic = .ok after ∧
      Follows logic.env.answers ⟨logic.d, logic.env.signals ++ [signal]⟩ after ∧
      (after.env.disturbed = false → disturbs signal logic.d after.d = false)

theorem Replays.refl (self : Logic Direct) : Replays self.env.answers self.queued self :=
  fun _ => ⟨[], by simp, rfl⟩

/-- Calls that were made before count as well. -/
theorem Replays.prepend {answers earlier : List (Call × Bool)} {start mid : Logic (List Signal)}
    {after : Logic Direct}
    (hearlier : Logic.run post (earlier.map Prod.fst) start = .ok (earlier.map Prod.snd, mid))
    (h : Replays (answers ++ earlier) mid after) : Replays answers start after := by
  intro hcalm
  obtain ⟨later, hlater, hrun⟩ := h hcalm
  refine ⟨earlier ++ later, by rw [hlater, List.append_assoc], ?_⟩
  rw [List.map_append, List.map_append]
  exact run_append hearlier hrun

theorem Follows.refl (self : Logic Direct) : Follows self.env.answers self.queued self :=
  ⟨rfl, .refl self⟩

theorem Follows.prepend {answers earlier : List (Call × Bool)} {start mid : Logic (List Signal)}
    {after : Logic Direct} (hnames : mid.d.room.playerNames = start.d.room.playerNames)
    (hearlier : Logic.run post (earlier.map Prod.fst) start = .ok (earlier.map Prod.snd, mid))
    (h : Follows (answers ++ earlier) mid after) : Follows answers start after where
  names := h.names.trans hnames
  run := h.run.prepend hearlier

end Logic

end QMdmmCore
