import QMdmm.Ctl.Exchange
import QMdmm.Networking.Snapshots

namespace QMdmmCtl

open QMdmmCore Data QMdmmNetworking QByteArray

/-- What is relied on of the text of an object: it is read back as the object, and no part
of it is one. -/
structure ReadsBack (parse : List UInt8 → Except String QJsonValue)
    (toJson : QJsonObject → List UInt8) (ob : QJsonObject) : Prop where
  whole : parse (toJson ob) = .ok (.object ob)
  part : ∀ part members, part <+: toJson ob → parse part = .ok (.object members) → part = toJson ob

section

variable {parse : List UInt8 → Except String QJsonValue} {toJson : QJsonObject → List UInt8}
  {s : Reporting}

/-- What the server reports is taken for what it is. -/
theorem ReadsBack.isTheSnapshot (h : ReadsBack parse toJson s.status) :
    isTheSnapshot parse (toJson s.status) = true := by
  rw [QMdmmCtl.isTheSnapshot, h.whole]
  simp [Reporting.status, QJsonValue.isDouble, QJsonValue.isArray, QJsonValue.ofInt]

/-- No part of it is. -/
theorem ReadsBack.eq_of_isTheSnapshot {ob : QJsonObject} (h : ReadsBack parse toJson ob)
    {body : List UInt8} (hbody : body <+: toJson ob)
    (hsnapshot : QMdmmCtl.isTheSnapshot parse body = true) : body = toJson ob := by
  unfold QMdmmCtl.isTheSnapshot at hsnapshot
  split at hsnapshot
  · next members hparse => exact h.part body members hbody hparse
  · cases hsnapshot

end

namespace Exchange

section

variable (parse : List UInt8 → Except String QJsonValue) (toJson : QJsonObject → List UInt8)

/-- What the control plane of a server serves. -/
def served (server : Reporting) : List UInt8 := toJson server.status

/-- Exchanges with the control plane of a server, which goes on meanwhile. -/
def statusSystem (n m : Int) :
    TransitionSystem ((Reporting × Exchange) × Account Reporting) (Happens Reporting.Event) :=
  recorded parse (Reporting.system n m) (served toJson)

end

variable {parse : List UInt8 → Except String QJsonValue} {toJson : QJsonObject → List UInt8}
  {n m : Int} {r : (Reporting × Exchange) × Account Reporting}

/-- However the bytes arrive, whoever closes or breaks the connection and whatever the server
does meanwhile: what the program prints is the whole status of the server, as it was at the
moment that the server answered. -/
theorem printed_is_the_status (hreach : (statusSystem parse toJson n m).Reachable r)
    (hjson : ∀ s, r.2.asOf = some s → ReadsBack parse toJson s.status) {body : List UInt8}
    (hresult : r.1.2.fetch.result = some (.ok body)) :
    ∃ s, r.2.asOf = some s ∧ (Reporting.system n m).Reachable s ∧ body = toJson s.status := by
  have hinv := inv_invariant.of_reachable hreach
  obtain ⟨s, hasOf, hreachable, hbody, hsnapshot⟩ := hinv.served hresult
  exact ⟨s, hasOf, hreachable, (hjson s hasOf).eq_of_isTheSnapshot hbody hsnapshot⟩

/-- An exchange with neither end's time up and no connection lost goes on until it is over,
after as many events as the bytes of the request and twice those of the answer, and two, at
most; and it comes to the status of the server as of its answer, where that fits. -/
theorem undisturbed_is_answered (hreach : (statusSystem parse toJson n m).Reachable r)
    (hundisturbed : r.2.undisturbed = true)
    (hjson : ∀ s, r.2.asOf = some s → ReadsBack parse toJson s.status)
    (hfits : ∀ s, r.2.asOf = some s →
      (snapshotResponse (toJson s.status)).length ≤ answerSizeLimit) :
    (r.1.2.fetch.result = none → ∃ event, event.disturbs = false ∧
      (r.1.2.handle parse (toJson r.1.1.status) event).isSome = true) ∧
    (r.2.asOf = none → r.2.steps ≤ request.length) ∧
    (∀ s, r.2.asOf = some s →
      r.2.steps ≤ request.length + 2 * (snapshotResponse (toJson s.status)).length + 2) ∧
    ∀ result, r.1.2.fetch.result = some result →
      ∃ s, r.2.asOf = some s ∧ (Reporting.system n m).Reachable s ∧
        result = .ok (toJson s.status) := by
  have hinv := inv_invariant.of_reachable hreach
  have hcounted := hinv.counted hundisturbed
  refine ⟨fun hnone => hinv.stage.continues hundisturbed hnone _, fun hasOf => ?_, fun s hasOf => ?_,
    fun result hresult => hinv.fetched hundisturbed hresult hfits fun s hasOf => ?_⟩
  · simp only [Counted, hasOf] at hcounted
    exact (Nat.le_add_right _ _).trans hcounted
  · simp only [Counted, hasOf] at hcounted
    exact (Nat.le_add_right _ _).trans (hcounted.trans (Nat.add_assoc _ _ _).ge)
  · exact (hjson s hasOf).isTheSnapshot

section Computed

/-- A run that can be computed, with its record. -/
def statusHandle (parse : List UInt8 → Except String QJsonValue) (toJson : QJsonObject → List UInt8)
    (r : (Reporting × Exchange) × Account Reporting) :
    Happens Reporting.Event → Option ((Reporting × Exchange) × Account Reporting)
  | .server event => (r.1.1.handle event).map fun server => ((server, r.1.2), r.2)
  | .exchange event => (r.1.2.handle parse (toJson r.1.1.status) event).map fun exchange =>
      ((r.1.1, exchange), r.2.after r.1.1 r.1.2 event exchange)

theorem step_of_statusHandle (r : (Reporting × Exchange) × Account Reporting)
    (happens : Happens Reporting.Event) (r' : (Reporting × Exchange) × Account Reporting)
    (h : statusHandle parse toJson r happens = some r') :
    (statusSystem parse toJson n m).step r happens r' := by
  cases happens with
  | server event =>
    obtain ⟨server, hstep, rfl⟩ := Option.map_eq_some_iff.mp h
    exact ⟨⟨hstep, rfl⟩, rfl⟩
  | exchange event =>
    obtain ⟨exchange, hstep, rfl⟩ := Option.map_eq_some_iff.mp h
    exact ⟨⟨hstep, rfl⟩, rfl⟩

/-- The status of a server that nobody has signed in to. -/
def idleStatus : QJsonObject :=
  [("games", .ofInt 0), ("players", .ofInt 0), ("roomList", .array []), ("rooms", .ofInt 0)]

/-- The status once somebody waits in a room. -/
def waitingStatus : QJsonObject :=
  [("games", .ofInt 0), ("players", .ofInt 1),
    ("roomList", .array [.object [("id", .ofInt 1), ("players", .ofInt 1), ("rounds", .ofInt 0)]]),
    ("rooms", .ofInt 1)]

def idleText : List UInt8 :=
  ofLiteral "\x7b\"games\":0,\"players\":0,\"roomList\":[],\"rooms\":0\x7d"

def waitingText : List UInt8 :=
  ofLiteral ("\x7b\"games\":0,\"players\":1,\"roomList\":[\x7b\"id\":1,\"players\":1," ++
    "\"rounds\":0\x7d],\"rooms\":1\x7d")

/-- The reading of these two texts. -/
def parseStatus (text : List UInt8) : Except String QJsonValue :=
  if text = idleText then .ok (.object idleStatus)
  else if text = waitingText then .ok (.object waitingStatus)
  else .error "unterminated object"

/-- The text of these two objects. -/
def statusText (ob : QJsonObject) : List UInt8 :=
  if (ob.value "rooms").toInt 0 = 0 then idleText else waitingText

theorem status_idle {s : Reporting} (h : s.rooms.server.runners = []) : s.status = idleStatus := by
  simp only [Reporting.status, Reporting.games, Reporting.players, Reporting.sorted, h,
    List.mergeSort_nil]
  rfl

theorem status_waiting {s : Reporting} {runner : LogicRunner}
    (h : s.rooms.server.runners = [runner])
    (hfull : runner.full s.rooms.server.playerNumPerRoom = false)
    (hplayers : Reporting.roomPlayers runner = 1) (hid : s.id runner.pointer = 1)
    (hrounds : s.rounds runner.pointer = 0) : s.status = waitingStatus := by
  simp only [Reporting.status, Reporting.games, Reporting.players, Reporting.sorted, h,
    List.mergeSort_singleton, List.countP_singleton, List.map_singleton, List.sum_singleton,
    Reporting.entry, hfull, hplayers, hid, hrounds]
  rfl

theorem readsBack_idle : ReadsBack parseStatus statusText idleStatus where
  whole := if_pos rfl
  part part members hpart hparse := by
    unfold parseStatus at hparse
    split at hparse
    · assumption
    · split at hparse
      · next htext =>
        subst htext
        exact absurd hpart (by decide +kernel)
      · cases hparse

/-- The server is asked in two pieces, and somebody connects and signs in before the answer
is read. -/
def askedInPieces : List (Happens Reporting.Event) := [
  .exchange (.delivers 10), .exchange (.delivers 14), .server (.rooms (.server .newConnection)),
  .exchange (.arrives 20), .exchange (.loop false),
  .server (.rooms (.server (.signIn 0 (ServerP.signInValue "A" 16)))),
  .exchange (.arrives ((snapshotResponse idleText).length - 20)), .exchange .closes,
  .exchange (.loop false), .exchange (.loop false)]

/-- How it ends: the status is another one by now. -/
theorem exists_askedInPieces : ∃ (r : (Reporting × Exchange) × Account Reporting)
    (result : Except Failure (List UInt8)),
    (statusSystem parseStatus statusText 3 0).Reachable r ∧
      r.1.2.fetch.result = some result ∧ result.toBool = true ∧ r.2.undisturbed = true ∧
      (∀ s, r.2.asOf = some s → s.status = idleStatus) ∧ r.1.1.status = waitingStatus := by
  have hrun : (askedInPieces.foldlM (statusHandle parseStatus statusText)
      ((Reporting.new (.new .defaults 3 0 20) 0, new), ⟨none, true, 0⟩)).any (fun r =>
        r.1.2.fetch.result.any Except.toBool && r.2.undisturbed &&
          (r.2.asOf.all fun s => s.rooms.server.runners.isEmpty) &&
          decide (r.1.1.rooms.server.runners.length = 1) &&
          r.1.1.rooms.server.runners.all fun runner =>
            !runner.full r.1.1.rooms.server.playerNumPerRoom &&
            Reporting.roomPlayers runner = 1 && r.1.1.id runner.pointer = 1 &&
            r.1.1.rounds runner.pointer = 0) = true := by
    decide +kernel
  obtain ⟨r, hlast, hend⟩ := (Option.any_eq_true _ _).mp hrun
  simp only [Bool.and_eq_true] at hend
  obtain ⟨⟨⟨⟨hresult, hundisturbed⟩, hidle⟩, hone⟩, hwaiting⟩ := hend
  obtain ⟨result, hresult, hok⟩ := (Option.any_eq_true _ _).mp hresult
  obtain ⟨runner, hrunner⟩ := List.length_eq_one_iff.mp (of_decide_eq_true hone)
  have hreach : (statusSystem parseStatus statusText 3 0).Reachable r :=
    .foldlM step_of_statusHandle
      (.init ⟨⟨.init ⟨_, 0, ⟨.defaults, 20, rfl⟩, rfl⟩, rfl⟩, rfl⟩) hlast
  refine ⟨r, result, hreach, hresult, hok, hundisturbed, fun s hasOf => status_idle ?_, ?_⟩
  · rw [hasOf] at hidle
    exact List.isEmpty_iff.mp hidle
  · have hseated := List.all_eq_true.mp hwaiting runner
      (hrunner ▸ List.mem_singleton_self _)
    simp only [Bool.and_eq_true, Bool.not_eq_true', decide_eq_true_eq] at hseated
    obtain ⟨⟨⟨hfull, hplayers⟩, hid⟩, hrounds⟩ := hseated
    exact status_waiting hrunner hfull hplayers hid hrounds

theorem printed_is_the_status_idle : ∃ r : (Reporting × Exchange) × Account Reporting,
    (statusSystem parseStatus statusText 3 0).Reachable r ∧
      r.1.2.fetch.result = some (.ok (statusText idleStatus)) ∧
      r.1.1.status = waitingStatus := by
  obtain ⟨r, result, hreach, hresult, hok, -, hidle, hwaiting⟩ := exists_askedInPieces
  have hjson (s : Reporting) (hasOf : r.2.asOf = some s) :
      ReadsBack parseStatus statusText s.status := by
    rw [hidle s hasOf]
    exact readsBack_idle
  cases result with
  | error => cases hok
  | ok body =>
    obtain ⟨s, hasOf, -, rfl⟩ := printed_is_the_status hreach hjson hresult
    rw [hidle s hasOf] at hresult
    exact ⟨r, hreach, hresult, hwaiting⟩

theorem undisturbed_is_answered_idle : ∃ r : (Reporting × Exchange) × Account Reporting,
    (statusSystem parseStatus statusText 3 0).Reachable r ∧
      r.1.2.fetch.result = some (.ok (statusText idleStatus)) ∧
      r.1.1.status = waitingStatus ∧
      r.2.steps ≤ request.length + 2 * (snapshotResponse (statusText idleStatus)).length + 2 := by
  obtain ⟨r, result, hreach, hresult, -, hundisturbed, hidle, hwaiting⟩ := exists_askedInPieces
  have hjson (s : Reporting) (hasOf : r.2.asOf = some s) :
      ReadsBack parseStatus statusText s.status := by
    rw [hidle s hasOf]
    exact readsBack_idle
  have hfits (s : Reporting) (hasOf : r.2.asOf = some s) :
      (snapshotResponse (statusText s.status)).length ≤ answerSizeLimit := by
    rw [hidle s hasOf]
    decide +kernel
  obtain ⟨-, -, hsteps, hover⟩ := undisturbed_is_answered hreach hundisturbed hjson hfits
  obtain ⟨s, hasOf, -, rfl⟩ := hover result hresult
  have hsteps := hsteps s hasOf
  rw [hidle s hasOf] at hresult hsteps
  exact ⟨r, hreach, hresult, hwaiting, hsteps⟩

end Computed

end Exchange

end QMdmmCtl
