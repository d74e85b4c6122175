import QMdmm.Ctl.FetchSnapshot
import QMdmm.Support.TransitionSystem

namespace QMdmmCtl

open QMdmmNetworking QByteArray FirstMatch

/-- An exchange of the program with the control plane: what is on the way between the two
sockets, and both ends. -/
structure Exchange where
  toServer : List UInt8
  socket : ControlSocket
  toClient : List UInt8
  fetch : Fetch

namespace Exchange

/-- The program has connected and sent its request. -/
def new : Exchange := ⟨request, .new, [], .new⟩

inductive Event where
  /-- So much more of the request arrives. -/
  | delivers (size : Nat)
  | serverTimeout
  /-- So much more of the answer arrives. -/
  | arrives (size : Nat)
  /-- The program learns that the server has closed the connection. -/
  | closes
  /-- The connection breaks, and with it goes what was on the way. -/
  | lost
  | loop (timeUp : Bool)

/-- What keeps an exchange from its end. -/
def Event.disturbs : Event → Bool
  | .serverTimeout | .lost => true
  | .loop timeUp => timeUp
  | _ => false

/-- The connection is there for as long as the program has not learnt otherwise. -/
def handle (parse : List UInt8 → Except String QJsonValue) (status : List UInt8)
    (self : Exchange) : Event → Option Exchange
  | .delivers size =>
    if 0 < size ∧ size ≤ self.toServer.length ∧ self.socket.connected = true then
      let result := self.socket.readyRead status (self.toServer.take size)
      some { self with
        toServer := self.toServer.drop size
        socket := result.1
        toClient := self.toClient ++ result.2 }
    else none
  | .serverTimeout =>
    if self.socket.deadline then some { self with socket := self.socket.timeout } else none
  | .arrives size =>
    if 0 < size ∧ size ≤ self.toClient.length ∧ self.fetch.unconnected = false then
      some { self with
        toClient := self.toClient.drop size
        fetch := { self.fetch with available := self.fetch.available ++ self.toClient.take size } }
    else none
  | .closes =>
    if self.socket.connected = false ∧ self.toClient = [] ∧ self.fetch.unconnected = false then
      some { self with fetch := { self.fetch with unconnected := true } }
    else none
  | .lost =>
    some { self with
      toServer := []
      toClient := []
      fetch := { self.fetch with unconnected := true } }
  | .loop timeUp => (self.fetch.loop parse timeUp).map fun fetch => { self with fetch := fetch }

/-- The server goes on while it is asked. -/
inductive Happens (β : Type) where
  | server (event : β)
  | exchange (event : Event)

/-- What is to be remembered of an exchange. -/
structure Account (σ : Type) where
  /-- The server, as it was when it answered. -/
  asOf : Option σ
  undisturbed : Bool
  /-- How many events of the exchange there have been. -/
  steps : Nat

/-- An event of the exchange, with the server as it is by then. -/
def Account.after {σ : Type} (account : Account σ) (s : σ) (x : Exchange) (event : Event)
    (x' : Exchange) : Account σ where
  asOf := if !x.socket.answered && x'.socket.answered then some s else account.asOf
  undisturbed := account.undisturbed && !event.disturbs
  steps := account.steps + 1

section System

variable {σ β : Type} (parse : List UInt8 → Except String QJsonValue)
  (server : TransitionSystem σ β) (status : σ → List UInt8)

/-- An exchange with a server that has been running for any time. -/
def system : TransitionSystem (σ × Exchange) (Happens β) where
  init s := server.Reachable s.1 ∧ s.2 = new
  step
    | s, .server event, s' => server.step s.1 event s'.1 ∧ s'.2 = s.2
    | s, .exchange event, s' => s.2.handle parse (status s.1) event = some s'.2 ∧ s'.1 = s.1

def note (s : σ × Exchange) (a : Happens β) (s' : σ × Exchange) (account : Account σ) : Account σ :=
  match a with
  | .server _ => account
  | .exchange event => account.after s.1 s.2 event s'.2

/-- The runs with what is to be remembered of them. -/
def recorded : TransitionSystem ((σ × Exchange) × Account σ) (Happens β) :=
  (system parse server status).recorded ⟨none, true, 0⟩ note

end System

variable {σ β : Type} {parse : List UInt8 → Except String QJsonValue}
  {server : TransitionSystem σ β} {status : σ → List UInt8} {x x' : Exchange}
  {account : Account σ} {s : σ}

/-- How far an exchange is: what there is of the answer is a part of it, and all of it
while nothing has disturbed the exchange. -/
inductive Stage (status : σ → List UInt8) (account : Account σ) (x : Exchange) : Prop where
  | asking (hasOf : account.asOf = none) (hanswered : x.socket.answered = false)
      (hanswer : x.fetch.answer = []) (havailable : x.fetch.available = [])
      (hsilent : x.toClient = [])
      (hrequest : x.socket.received ++ x.toServer <+: request)
      (hopen : indexOf headerEnd x.socket.received = none)
      (hcalm : account.undisturbed = true → x.socket.received ++ x.toServer = request ∧
        x.socket.connected = true ∧ x.fetch.unconnected = false)
  | answered (s : σ) (hasOf : account.asOf = some s) (hanswered : x.socket.answered = true)
      (hclosed : x.socket.connected = false)
      (hpart : x.fetch.answer ++ (x.fetch.available ++ x.toClient) <+: snapshotResponse (status s))
      (hcalm : account.undisturbed = true →
        x.fetch.answer ++ (x.fetch.available ++ x.toClient) = snapshotResponse (status s) ∧
          (x.fetch.unconnected = true → x.toClient = []))

/-- What an exchange that is over has come to. -/
inductive Outcome (parse : List UInt8 → Except String QJsonValue) (undisturbed : Bool)
    (fetch : Fetch) : Except Failure (List UInt8) → Prop where
  | tooLong (size : Nat) (hlong : answerSizeLimit < fetch.answer.length) :
      Outcome parse undisturbed fetch (.error (.tooLong size))
  | unfinished (hdisturbed : undisturbed = false) :
      Outcome parse undisturbed fetch (.error .unfinished)
  | judged (havailable : fetch.available = []) (hunconnected : fetch.unconnected = true) :
      Outcome parse undisturbed fetch (judge parse fetch.answer)

/-- The header block that the program sends asks for the snapshot. -/
theorem asks_of_isPrefix {received : List UInt8} {i : Nat} (hstarts : received <+: request)
    (hfound : indexOf headerEnd received = some i) (body : List UInt8) :
    ControlSocket.answer body (received.take i) = snapshotResponse body := by
  have hrequest : indexOf headerEnd request = some 20 := by decide +kernel
  have hroom := add_length_le hfound
  obtain rfl := Option.some.inj
    ((indexOf_of_isPrefix headerEnd_ne_nil hstarts hfound).symm.trans hrequest)
  obtain ⟨rest, hrest⟩ := hstarts
  have hheader : received.take 20 = request.take 20 := by
    rw [← hrest, List.take_append_of_le_length (by omega)]
  have hasks : ControlSocket.asksForTheSnapshot (request.take 20) = true := by decide +kernel
  rw [hheader, ControlSocket.answer, if_pos hasks]
  rfl

theorem stage_new : Stage status ⟨none, true, 0⟩ new := by
  refine .asking rfl rfl rfl rfl rfl ?_ (by decide) fun _ => ⟨rfl, rfl, rfl⟩
  exact List.prefix_refl _

theorem Stage.delivers (h : Stage status account x) {size : Nat}
    (hstep : x.handle parse (status s) (.delivers size) = some x') :
    Stage status (account.after s x (.delivers size) x') x' := by
  obtain ⟨⟨-, -, hconnected⟩, hstep⟩ := Option.ite_none_right_eq_some.mp hstep
  cases h with
  | answered _ _ _ hclosed => exact absurd (hconnected.symm.trans hclosed) Bool.noConfusion
  | asking hasOf hanswered hanswer havailable hsilent hrequest hopen hcalm =>
    have hstream : x.socket.received ++ x.toServer.take size ++ x.toServer.drop size =
        x.socket.received ++ x.toServer := by
      rw [List.append_assoc, List.take_append_drop]
    have hstarts : x.socket.received ++ x.toServer.take size <+: request := by
      refine List.IsPrefix.trans ?_ hrequest
      rw [← hstream]
      exact List.prefix_append _ _
    simp only [ControlSocket.readyRead, hanswered, Bool.false_eq_true, if_false] at hstep
    split at hstep
    · next hnone =>
      cases hstep
      refine .asking ?_ rfl hanswer havailable ?_ ?_ hnone fun hundisturbed => ?_
      · simp only [Account.after, Bool.and_false, Bool.false_eq_true, if_false, hasOf]
      · simp only [hsilent, List.append_nil]
      · rw [hstream]
        exact hrequest
      · obtain ⟨hwhole, -, hunconnected⟩ := hcalm (Bool.and_eq_true _ _ ▸ hundisturbed).1
        refine ⟨hstream.trans hwhole, ?_, hunconnected⟩
        have hlength : request.length = 24 := by decide
        have hle := (hstarts.length_le.trans hlength.le).trans
          (show 24 ≤ controlRequestSizeLimit by decide)
        simp only [hconnected, decide_eq_true hle, Bool.and_self]
    · next i hfound =>
      cases hstep
      have hwhole : x.fetch.answer ++ (x.fetch.available ++ (x.toClient ++
          ControlSocket.answer (status s) ((x.socket.received ++ x.toServer.take size).take i))) =
          snapshotResponse (status s) := by
        rw [hanswer, havailable, hsilent, asks_of_isPrefix hstarts hfound]
        rfl
      refine .answered s ?_ rfl rfl (hwhole ▸ List.prefix_refl _) fun hundisturbed => ?_
      · simp only [Account.after, hanswered, Bool.not_false, Bool.and_self, if_true]
      · refine ⟨hwhole, fun hunconnected => ?_⟩
        obtain ⟨-, -, hstill⟩ := hcalm (Bool.and_eq_true _ _ ▸ hundisturbed).1
        exact absurd (hunconnected.symm.trans hstill) Bool.noConfusion

/-- An event that neither the server nor its socket has a part in. -/
theorem Account.asOf_after (hanswered : x'.socket.answered = x.socket.answered) {event : Event} :
    (account.after s x event x').asOf = account.asOf := by
  simp [Account.after, hanswered]

theorem Stage.arrives (h : Stage status account x) {size : Nat}
    (hstep : x.handle parse (status s) (.arrives size) = some x') :
    Stage status (account.after s x (.arrives size) x') x' := by
  obtain ⟨⟨hpos, hsize, hunconnected⟩, hstep⟩ := Option.ite_none_right_eq_some.mp hstep
  cases hstep
  cases h with
  | asking _ _ _ _ hsilent =>
    rw [hsilent] at hsize
    exact absurd hpos (Nat.not_lt.mpr hsize)
  | answered asOf hasOf hanswered hclosed hpart hcalm =>
    have hwhole : x.fetch.answer ++ (x.fetch.available ++ x.toClient.take size ++
        x.toClient.drop size) = x.fetch.answer ++ (x.fetch.available ++ x.toClient) := by
      rw [List.append_assoc, List.take_append_drop]
    refine .answered asOf ((Account.asOf_after rfl).trans hasOf) hanswered hclosed (hwhole ▸ hpart)
      fun hundisturbed => ?_
    obtain ⟨hall, -⟩ := hcalm (Bool.and_eq_true _ _ ▸ hundisturbed).1
    refine ⟨hwhole.trans hall, fun hgone => ?_⟩
    exact absurd (hgone.symm.trans hunconnected) Bool.noConfusion

theorem Stage.closes (h : Stage status account x)
    (hstep : x.handle parse (status s) .closes = some x') :
    Stage status (account.after s x .closes x') x' := by
  obtain ⟨⟨hconnected, hsilent, -⟩, hstep⟩ := Option.ite_none_right_eq_some.mp hstep
  cases hstep
  cases h with
  | asking hasOf hanswered hanswer havailable hsilent hrequest hopen hcalm =>
    refine .asking ((Account.asOf_after rfl).trans hasOf) hanswered hanswer havailable hsilent
      hrequest hopen fun hundisturbed => ?_
    obtain ⟨-, hstill, -⟩ := hcalm (Bool.and_eq_true _ _ ▸ hundisturbed).1
    exact absurd (hstill.symm.trans hconnected) Bool.noConfusion
  | answered asOf hasOf hanswered hclosed hpart hcalm =>
    refine .answered asOf ((Account.asOf_after rfl).trans hasOf) hanswered hclosed hpart
      fun hundisturbed => ?_
    exact ⟨(hcalm (Bool.and_eq_true _ _ ▸ hundisturbed).1).1, fun _ => hsilent⟩

/-- A disturbance that the program has not heard of takes nothing but what was on the way. -/
theorem Stage.disturbed (h : Stage status account x) {event : Event}
    (hdisturbs : event.disturbs = true) (hanswered' : x'.socket.answered = x.socket.answered)
    (hreceived : x'.socket.received = x.socket.received)
    (hconnected : x'.socket.connected = true → x.socket.connected = true)
    (hfetch : x'.fetch.answer = x.fetch.answer ∧ x'.fetch.available = x.fetch.available)
    (hserver : x'.toServer <+: x.toServer) (hclient : x'.toClient <+: x.toClient) :
    Stage status (account.after s x event x') x' := by
  have hundisturbed : (account.after s x event x').undisturbed ≠ true := by
    simp [Account.after, hdisturbs]
  cases h with
  | asking hasOf hanswered hanswer havailable hsilent hrequest hopen =>
    refine .asking ((Account.asOf_after hanswered').trans hasOf) (hanswered'.trans hanswered)
      (hfetch.1.trans hanswer) (hfetch.2.trans havailable) ?_ ?_ (hreceived ▸ hopen)
      fun hcalm => absurd hcalm hundisturbed
    · rw [hsilent] at hclient
      exact List.prefix_nil.mp hclient
    · rw [hreceived]
      exact ((List.prefix_append_right_inj _).mpr hserver).trans hrequest
  | answered asOf hasOf hanswered hclosed hpart =>
    refine .answered asOf ((Account.asOf_after hanswered').trans hasOf) (hanswered'.trans hanswered)
      ?_ ?_ fun hcalm => absurd hcalm hundisturbed
    · exact Bool.eq_false_iff.mpr fun hopen =>
        absurd ((hconnected hopen).symm.trans hclosed) Bool.noConfusion
    · rw [hfetch.1, hfetch.2]
      refine List.IsPrefix.trans ?_ hpart
      rw [List.prefix_append_right_inj, List.prefix_append_right_inj]
      exact hclient

theorem Stage.loop (h : Stage status account x) {timeUp : Bool}
    (hstep : x.handle parse (status s) (.loop timeUp) = some x') :
    Stage status (account.after s x (.loop timeUp) x') x' := by
  obtain ⟨fetch, hloop, rfl⟩ := Option.map_eq_some_iff.mp hstep
  have hbefore (hundisturbed : (account.undisturbed && !(Event.loop timeUp).disturbs) = true) :=
    (Bool.and_eq_true _ _ ▸ hundisturbed).1
  cases (Fetch.loop_cases parse hloop).2 with
  | takes hsome =>
    cases h with
    | asking _ _ _ havailable => exact absurd havailable hsome
    | answered asOf hasOf hanswered hclosed hpart hcalm =>
      have hwhole : x.fetch.take.answer ++ (x.fetch.take.available ++ x.toClient) =
          x.fetch.answer ++ (x.fetch.available ++ x.toClient) := by
        simp only [Fetch.take, List.append_assoc]
        rw [← List.append_assoc (x.fetch.available.take _), List.take_append_drop]
      refine .answered asOf ((Account.asOf_after rfl).trans hasOf) hanswered hclosed
        (hwhole ▸ hpart) fun hundisturbed => ?_
      obtain ⟨hall, hclosed⟩ := hcalm (hbefore hundisturbed)
      exact ⟨hwhole.trans hall, hclosed⟩
  | judges | givesUp =>
    cases h with
    | asking hasOf hanswered hanswer havailable hsilent hrequest hopen hcalm =>
      exact .asking ((Account.asOf_after rfl).trans hasOf) hanswered hanswer havailable hsilent
        hrequest hopen fun hundisturbed => hcalm (hbefore hundisturbed)
    | answered asOf hasOf hanswered hclosed hpart hcalm =>
      exact .answered asOf ((Account.asOf_after rfl).trans hasOf) hanswered hclosed hpart
        fun hundisturbed => hcalm (hbefore hundisturbed)

theorem Stage.handle (h : Stage status account x) {event : Event}
    (hstep : x.handle parse (status s) event = some x') :
    Stage status (account.after s x event x') x' := by
  cases event with
  | delivers => exact h.delivers hstep
  | arrives => exact h.arrives hstep
  | closes => exact h.closes hstep
  | loop => exact h.loop hstep
  | serverTimeout =>
    obtain ⟨-, hstep⟩ := Option.ite_none_right_eq_some.mp hstep
    cases hstep
    exact h.disturbed rfl rfl rfl (fun hopen => absurd hopen Bool.false_ne_true) ⟨rfl, rfl⟩
      (List.prefix_refl _) (List.prefix_refl _)
  | lost =>
    cases hstep
    exact h.disturbed rfl rfl rfl id ⟨rfl, rfl⟩ List.nil_prefix List.nil_prefix

/-- What the program has come to stands, as long as it has taken its socket for what it is. -/
theorem Outcome.mono {undisturbed undisturbed' : Bool} {fetch fetch' : Fetch}
    {result : Except Failure (List UInt8)} (h : Outcome parse undisturbed fetch result)
    (hundisturbed : undisturbed = false → undisturbed' = false)
    (hanswer : fetch'.answer = fetch.answer)
    (hjudged : fetch.unconnected = true → fetch'.unconnected = true ∧
      fetch'.available = fetch.available) : Outcome parse undisturbed' fetch' result := by
  cases h with
  | tooLong size hlong => exact .tooLong size (hanswer ▸ hlong)
  | unfinished hdisturbed => exact .unfinished (hundisturbed hdisturbed)
  | judged havailable hunconnected =>
    obtain ⟨hstill, hsame⟩ := hjudged hunconnected
    exact hanswer ▸ .judged (hsame.trans havailable) hstill

theorem outcome_loop {timeUp : Bool} {fetch : Fetch}
    (hloop : x.fetch.loop parse timeUp = some fetch) {result : Except Failure (List UInt8)}
    (hresult : fetch.result = some result) : Outcome parse (!timeUp) fetch result := by
  obtain ⟨hnone, hcases⟩ := Fetch.loop_cases parse hloop
  cases hcases with
  | takes =>
    simp only [Fetch.take] at hresult
    split at hresult
    · next hlong =>
      cases hresult
      exact .tooLong _ hlong
    · cases hresult
  | judges havailable hunconnected =>
    cases hresult
    exact .judged havailable hunconnected
  | givesUp =>
    cases hresult
    exact .unfinished rfl

theorem outcome_handle (hbefore : ∀ result, x.fetch.result = some result →
      Outcome parse account.undisturbed x.fetch result) {event : Event}
    (hstep : x.handle parse (status s) event = some x') (result : Except Failure (List UInt8))
    (hresult : x'.fetch.result = some result) :
    Outcome parse (account.after s x event x').undisturbed x'.fetch result := by
  have hundisturbed (hdisturbed : account.undisturbed = false) :
      (account.after s x event x').undisturbed = false := by
    simp only [Account.after, hdisturbed, Bool.false_and]
  cases event with
  | delivers =>
    obtain ⟨-, hstep⟩ := Option.ite_none_right_eq_some.mp hstep
    cases hstep
    exact (hbefore result hresult).mono hundisturbed rfl fun h => ⟨h, rfl⟩
  | serverTimeout =>
    obtain ⟨-, hstep⟩ := Option.ite_none_right_eq_some.mp hstep
    cases hstep
    exact (hbefore result hresult).mono hundisturbed rfl fun h => ⟨h, rfl⟩
  | arrives =>
    obtain ⟨⟨-, -, hopen⟩, hstep⟩ := Option.ite_none_right_eq_some.mp hstep
    cases hstep
    exact (hbefore result hresult).mono hundisturbed rfl fun h =>
      absurd (h.symm.trans hopen) Bool.noConfusion
  | closes =>
    obtain ⟨-, hstep⟩ := Option.ite_none_right_eq_some.mp hstep
    cases hstep
    exact (hbefore result hresult).mono hundisturbed rfl fun _ => ⟨rfl, rfl⟩
  | lost =>
    cases hstep
    exact (hbefore result hresult).mono hundisturbed rfl fun _ => ⟨rfl, rfl⟩
  | loop timeUp =>
    obtain ⟨fetch, hloop, rfl⟩ := Option.map_eq_some_iff.mp hstep
    refine (outcome_loop hloop hresult).mono (fun htime => ?_) rfl fun h => ⟨h, rfl⟩
    simp only [Account.after, Event.disturbs, htime, Bool.and_false]

/-- An answer that is not given up on is within the bound. -/
def Held (fetch : Fetch) : Prop := fetch.result = none → fetch.answer.length ≤ answerSizeLimit

theorem held_handle (h : Held x.fetch) {event : Event} {text : List UInt8}
    (hstep : x.handle parse text event = some x') : Held x'.fetch := by
  cases event with
  | delivers | serverTimeout | arrives | closes =>
    obtain ⟨-, hstep⟩ := Option.ite_none_right_eq_some.mp hstep
    cases hstep
    exact h
  | lost =>
    cases hstep
    exact h
  | loop timeUp =>
    obtain ⟨fetch, hloop, rfl⟩ := Option.map_eq_some_iff.mp hstep
    intro hnone
    cases (Fetch.loop_cases parse hloop).2 with
    | takes =>
      simp only [Fetch.take] at hnone ⊢
      split at hnone
      · cases hnone
      · next hle => exact Nat.not_lt.mp hle
    | judges => cases hnone
    | givesUp => cases hnone

/-- How many events there can still be once the server has answered. -/
def remaining (x : Exchange) : Nat :=
  2 * x.toClient.length + x.fetch.available.length + (if x.fetch.unconnected then 0 else 1) +
    if x.fetch.result.isSome then 0 else 1

/-- How many events there have been at most, of those that do not disturb the exchange. -/
def Counted (status : σ → List UInt8) (account : Account σ) (x : Exchange) : Prop :=
  match account.asOf with
  | none => account.steps + x.toServer.length ≤ request.length
  | some s =>
    account.steps + x.remaining ≤ request.length + (2 * (snapshotResponse (status s)).length + 2)

theorem remaining_le {n : Nat}
    (h : (x.fetch.answer ++ (x.fetch.available ++ x.toClient)).length ≤ n) :
    x.remaining ≤ 2 * n + 2 := by
  rw [List.length_append, List.length_append] at h
  unfold remaining
  split <;> split <;> omega

theorem remaining_handle (hclosed : x.socket.connected = false) (hheld : Held x.fetch)
    {event : Event} (hevent : event.disturbs = false) {text : List UInt8}
    (hstep : x.handle parse text event = some x') : x'.remaining + 1 ≤ x.remaining := by
  cases event with
  | delivers =>
    obtain ⟨⟨-, -, hconnected⟩, -⟩ := Option.ite_none_right_eq_some.mp hstep
    exact absurd (hconnected.symm.trans hclosed) Bool.noConfusion
  | serverTimeout | lost => cases hevent
  | arrives size =>
    obtain ⟨⟨hpos, hsize, -⟩, hstep⟩ := Option.ite_none_right_eq_some.mp hstep
    cases hstep
    simp only [remaining, List.length_drop, List.length_append, List.length_take]
    omega
  | closes =>
    obtain ⟨⟨-, -, hopen⟩, hstep⟩ := Option.ite_none_right_eq_some.mp hstep
    cases hstep
    simp only [remaining, hopen, if_true, Bool.false_eq_true, if_false]
    omega
  | loop timeUp =>
    obtain ⟨fetch, hloop, rfl⟩ := Option.map_eq_some_iff.mp hstep
    obtain ⟨hnone, hcases⟩ := Fetch.loop_cases parse hloop
    have hroom := hheld hnone
    cases hcases with
    | takes hsome =>
      have hpos := List.length_pos_iff.mpr hsome
      have htaken : x.fetch.take.available.length + 1 ≤ x.fetch.available.length := by
        simp only [Fetch.take, List.length_drop]
        omega
      have hunconnected : x.fetch.take.unconnected = x.fetch.unconnected := rfl
      have hone : (if x.fetch.take.result.isSome then 0 else 1) ≤ 1 := by split <;> omega
      simp only [remaining, hunconnected, hnone, Option.isSome_none, Bool.false_eq_true, if_false]
      omega
    | judges =>
      simp only [remaining, hnone, Option.isSome_none, Option.isSome_some, Bool.false_eq_true,
        if_false, if_true]
      omega
    | givesUp => cases hevent

theorem Counted.handle (h : Counted status account x) (hstage : Stage status account x)
    (hheld : Held x.fetch) (hundisturbed : account.undisturbed = true) {event : Event}
    (hevent : event.disturbs = false) (hstep : x.handle parse (status s) event = some x') :
    Counted status (account.after s x event x') x' := by
  have hafter := hstage.handle hstep
  cases hstage with
  | answered asOf hasOf hanswered hclosed =>
    have hless := remaining_handle hclosed hheld hevent hstep
    have hsame : (account.after s x event x').asOf = some asOf := by
      simp only [Account.after, hanswered, Bool.not_true, Bool.false_and, Bool.false_eq_true,
        if_false, hasOf]
    simp only [Counted, hasOf] at h
    simp only [Counted, hsame]
    change account.steps + 1 + x'.remaining ≤ _
    omega
  | asking hasOf hanswered hanswer havailable hsilent hrequest hopen hcalm =>
    obtain ⟨-, hconnected, hunconnected⟩ := hcalm hundisturbed
    simp only [Counted, hasOf] at h
    cases event with
    | serverTimeout | lost => cases hevent
    | arrives size =>
      obtain ⟨⟨hpos, hsize, -⟩, -⟩ := Option.ite_none_right_eq_some.mp hstep
      rw [hsilent] at hsize
      exact absurd hpos (Nat.not_lt.mpr hsize)
    | closes =>
      obtain ⟨⟨hclosed, -⟩, -⟩ := Option.ite_none_right_eq_some.mp hstep
      exact absurd (hconnected.symm.trans hclosed) Bool.noConfusion
    | loop timeUp =>
      obtain ⟨fetch, hloop, rfl⟩ := Option.map_eq_some_iff.mp hstep
      cases (Fetch.loop_cases parse hloop).2 with
      | takes hsome => exact absurd havailable hsome
      | judges _ hgone => exact absurd (hgone.symm.trans hunconnected) Bool.noConfusion
      | givesUp => cases hevent
    | delivers size =>
      obtain ⟨⟨hpos, hsize, -⟩, hstep⟩ := Option.ite_none_right_eq_some.mp hstep
      cases hstep
      cases hafter with
      | asking hasOf' =>
        simp only [Counted, hasOf', List.length_drop]
        change account.steps + 1 + _ ≤ _
        omega
      | answered asOf hasOf' _ _ hpart =>
        have hremaining := remaining_le hpart.length_le
        simp only [Counted, hasOf']
        change account.steps + 1 + _ ≤ _
        omega

/-- Until it is over, an exchange that nothing disturbs goes on. -/
theorem Stage.continues (h : Stage status account x) (hundisturbed : account.undisturbed = true)
    (hnone : x.fetch.result = none) (text : List UInt8) :
    ∃ event, event.disturbs = false ∧ (x.handle parse text event).isSome = true := by
  cases h with
  | asking hasOf hanswered hanswer havailable hsilent hrequest hopen hcalm =>
    obtain ⟨hwhole, hconnected, -⟩ := hcalm hundisturbed
    have hleft : 0 < x.toServer.length := by
      rw [List.length_pos_iff]
      intro hempty
      rw [hempty, List.append_nil] at hwhole
      rw [hwhole] at hopen
      exact absurd hopen (by decide +kernel)
    refine ⟨.delivers 1, rfl, ?_⟩
    rw [Exchange.handle, if_pos ⟨Nat.one_pos, hleft, hconnected⟩]
    rfl
  | answered s hasOf hanswered hclosed =>
    cases hunconnected : x.fetch.unconnected with
    | false =>
      by_cases hsilent : x.toClient = []
      · refine ⟨.closes, rfl, ?_⟩
        rw [Exchange.handle, if_pos ⟨hclosed, hsilent, hunconnected⟩]
        rfl
      · refine ⟨.arrives 1, rfl, ?_⟩
        rw [Exchange.handle, if_pos ⟨Nat.one_pos, List.length_pos_iff.mpr hsilent, hunconnected⟩]
        rfl
    | true =>
      refine ⟨.loop false, rfl, ?_⟩
      rw [Exchange.handle, Option.isSome_map, Fetch.loop, hnone, hunconnected]
      by_cases havailable : x.fetch.available = []
      · simp [havailable]
      · simp [havailable]

/-- What holds of an exchange at any time. -/
structure Inv (parse : List UInt8 → Except String QJsonValue) (server : TransitionSystem σ β)
    (status : σ → List UInt8) (r : (σ × Exchange) × Account σ) : Prop where
  reachable : server.Reachable r.1.1
  asOf : ∀ s, r.2.asOf = some s → server.Reachable s
  stage : Stage status r.2 r.1.2
  outcome : ∀ result, r.1.2.fetch.result = some result →
    Outcome parse r.2.undisturbed r.1.2.fetch result
  held : Held r.1.2.fetch
  counted : r.2.undisturbed = true → Counted status r.2 r.1.2

theorem inv_invariant : (recorded parse server status).Invariant (Inv parse server status) where
  init := by
    rintro ⟨⟨s, x⟩, account⟩ ⟨⟨hreachable, hx⟩, haccount⟩
    cases hx
    cases haccount
    refine ⟨hreachable, fun s hs => ?_, stage_new, fun result hresult => ?_,
      fun _ => Nat.zero_le _, fun _ => (Nat.zero_add _).le⟩
    · cases hs
    · cases hresult
  step := by
    rintro ⟨⟨s, x⟩, account⟩ happens ⟨⟨s', x'⟩, account'⟩ h ⟨hstep, haccount⟩
    cases happens with
    | server event =>
      cases haccount
      obtain ⟨hstep, hsame⟩ := hstep
      cases hsame
      exact ⟨h.reachable.step hstep, h.asOf, h.stage, h.outcome, h.held, h.counted⟩
    | exchange event =>
      dsimp only [note] at haccount
      subst haccount
      obtain ⟨hstep, hsame⟩ := hstep
      cases hsame
      refine ⟨h.reachable, fun asOf hasOf => ?_, h.stage.handle hstep,
        outcome_handle h.outcome hstep, held_handle h.held hstep, fun hundisturbed => ?_⟩
      · simp only [Account.after] at hasOf
        split at hasOf
        · cases hasOf
          exact h.reachable
        · exact h.asOf asOf hasOf
      · obtain ⟨hbefore, hevent⟩ := Bool.and_eq_true _ _ ▸ hundisturbed
        exact (h.counted hbefore).handle h.stage h.held hbefore
          (Bool.not_eq_true' _ ▸ hevent) hstep

variable {r : (σ × Exchange) × Account σ}

/-- Whatever happens, a body that the program takes is a part of what was served. -/
theorem Inv.served (h : Inv parse server status r) {body : List UInt8}
    (hresult : r.1.2.fetch.result = some (.ok body)) : ∃ s, r.2.asOf = some s ∧
      server.Reachable s ∧ body <+: status s ∧ isTheSnapshot parse body = true := by
  have hjudge : judge parse r.1.2.fetch.answer = .ok body := by
    have houtcome := h.outcome _ hresult
    generalize hgot : Except.ok body = result at houtcome
    cases houtcome with
    | tooLong | unfinished => cases hgot
    | judged => rfl
  cases h.stage with
  | asking _ _ hanswer =>
    rw [hanswer] at hjudge
    cases hjudge
  | answered s hasOf _ _ hpart =>
    obtain ⟨hbody, hsnapshot⟩ := prefix_of_judge ((List.prefix_append _ _).trans hpart) hjudge
    exact ⟨s, hasOf, h.asOf s hasOf, hbody, hsnapshot⟩

/-- An exchange that is over, and that nothing has disturbed, has come to all that was served. -/
theorem Inv.fetched (h : Inv parse server status r) (hundisturbed : r.2.undisturbed = true)
    {result : Except Failure (List UInt8)} (hresult : r.1.2.fetch.result = some result)
    (hsize : ∀ s, r.2.asOf = some s → (snapshotResponse (status s)).length ≤ answerSizeLimit)
    (hsnapshot : ∀ s, r.2.asOf = some s → isTheSnapshot parse (status s) = true) :
    ∃ s, r.2.asOf = some s ∧ server.Reachable s ∧ result = .ok (status s) := by
  have houtcome := h.outcome _ hresult
  cases h.stage with
  | asking _ _ hanswer _ _ _ _ hcalm =>
    obtain ⟨-, -, hunconnected⟩ := hcalm hundisturbed
    cases houtcome with
    | tooLong size hlong =>
      rw [hanswer] at hlong
      exact absurd hlong (Nat.not_lt_zero _)
    | unfinished hdisturbed => exact absurd (hundisturbed.symm.trans hdisturbed) Bool.noConfusion
    | judged _ hgone => exact absurd (hgone.symm.trans hunconnected) Bool.noConfusion
  | answered s hasOf _ _ hpart hcalm =>
    obtain ⟨hwhole, hclosed⟩ := hcalm hundisturbed
    cases houtcome with
    | tooLong size hlong =>
      have hle := (List.prefix_append _ _).length_le.trans hpart.length_le
      have hfits := hsize s hasOf
      omega
    | unfinished hdisturbed => exact absurd (hundisturbed.symm.trans hdisturbed) Bool.noConfusion
    | judged havailable hgone =>
      rw [havailable, hclosed hgone, List.append_nil, List.append_nil] at hwhole
      rw [hwhole, judge_snapshotResponse (hsnapshot s hasOf)]
      exact ⟨s, hasOf, h.asOf s hasOf, rfl⟩

end Exchange

end QMdmmCtl
