import QMdmm.Networking.Server

namespace QMdmmNetworking

open QMdmmCore Data Protocol

namespace ServerConnectionP

/-- `roundEventLog.at(i)`, which has to be inside of the log. -/
def eventAt (self : ServerConnectionP) (i : Int) : Except Logic.Fault Packet :=
  if 0 ≤ i then (self.roundEventLog[i.toNat]?).elim (.error .indexOutOfRange) .ok
  else .error .indexOutOfRange

/-- The loop of `replayMissedRoundEvents`, as the source has it. -/
def replayLoop (self : ServerConnectionP) (i : Int) : Except Logic.Fault (List Effect) :=
  if i < self.roundEventLog.length then do
    let packet ← self.eventAt i
    let rest ← self.replayLoop (i + 1)
    return self.send packet ++ rest
  else return []
termination_by (self.roundEventLog.length - i).toNat

/-- The indices that the loop reads if every read succeeds. A read that fails is the
first one. -/
def replayIndices (size : Nat) (i : Int) : List Int :=
  if i < size then i :: replayIndices size (i + 1) else []
termination_by (size - i).toNat

theorem mem_replayIndices {size : Nat} {i k : Int} :
    k ∈ replayIndices size i ↔ i ≤ k ∧ k < size := by
  induction i using replayIndices.induct size with
  | case1 i hlt ih =>
    rw [replayIndices, if_pos hlt, List.mem_cons, ih]
    omega
  | case2 i hge =>
    rw [replayIndices, if_neg hge]
    simp only [List.not_mem_nil, false_iff]
    omega

theorem eventAt_of_lt {self : ServerConnectionP} {i : Int} (hnonneg : 0 ≤ i)
    (hlt : i.toNat < self.roundEventLog.length) :
    self.eventAt i = .ok (self.roundEventLog.get ⟨i.toNat, hlt⟩) := by
  rw [eventAt, if_pos hnonneg, List.getElem?_eq_getElem hlt]
  rfl

/-- From a position inside of the log or past its end, the loop sends the rest of the log. -/
theorem replayLoop_of_nonneg (self : ServerConnectionP) {i : Int} (hnonneg : 0 ≤ i) :
    self.replayLoop i = .ok ((self.roundEventLog.drop i.toNat).flatMap self.send) := by
  induction i using replayLoop.induct self with
  | case1 i hlt ih =>
    have hindex : i.toNat < self.roundEventLog.length := by omega
    have hsucc : (i + 1).toNat = i.toNat + 1 := by omega
    rw [replayLoop, if_pos hlt, eventAt_of_lt hnonneg hindex, ih (by omega), hsucc,
      List.drop_eq_getElem_cons hindex, List.flatMap_cons]
    rfl
  | case2 i hge =>
    rw [replayLoop, if_neg hge, List.drop_eq_nil_of_le (by omega)]
    rfl

/-- Before the beginning of the log, the first read is out of bounds. -/
theorem replayLoop_of_neg (self : ServerConnectionP) {i : Int} (hneg : i < 0) :
    self.replayLoop i = .error .indexOutOfRange := by
  have hlt : i < self.roundEventLog.length := by omega
  rw [replayLoop, if_pos hlt, eventAt, if_neg (by omega)]
  rfl

theorem replayMissedRoundEvents_eq_replayLoop (self : ServerConnectionP) (lastRoundEventSeq : Int) :
    self.replayMissedRoundEvents lastRoundEventSeq = self.replayLoop lastRoundEventSeq := by
  rw [replayMissedRoundEvents]
  by_cases hneg : lastRoundEventSeq < 0
  · rw [if_pos hneg, replayLoop_of_neg self hneg]
  · rw [if_neg hneg, replayLoop_of_nonneg self (by omega)]

/-- What a reconnect sends: the rest of the log, to the new socket. -/
theorem reconnect_of_nonneg (self : ServerConnectionP) (socket : Socket) {lastRoundEventSeq : Int}
    (hnonneg : 0 ≤ lastRoundEventSeq) :
    self.reconnect socket lastRoundEventSeq = .ok ((self.setSocket socket).1,
      self.socket.toList.map .deleteLater ++
        (self.roundEventLog.drop lastRoundEventSeq.toNat).map .sendPacket) := by
  have hsend : (self.setSocket socket).1.send = fun packet => [.sendPacket packet] := rfl
  have hlog : (self.setSocket socket).1.roundEventLog = self.roundEventLog := rfl
  rw [reconnect, setSocket]
  change ((self.setSocket socket).1.replayMissedRoundEvents lastRoundEventSeq >>= _) = _
  rw [replayMissedRoundEvents, if_neg (by omega), hsend, hlog, ← List.map_eq_flatMap]
  rfl

theorem reconnect_of_neg (self : ServerConnectionP) (socket : Socket) {lastRoundEventSeq : Int}
    (hneg : lastRoundEventSeq < 0) :
    self.reconnect socket lastRoundEventSeq = .error .indexOutOfRange := by
  rw [reconnect, setSocket]
  change ((self.setSocket socket).1.replayMissedRoundEvents lastRoundEventSeq >>= _) = _
  rw [replayMissedRoundEvents, if_pos hneg]
  rfl

end ServerConnectionP

/-- A whole number of the `int` range, below zero. -/
def NegativeInt (v : QJsonValue) : Prop := ∃ n : Int, FitsInt n ∧ n < 0 ∧ v = .ofInt n

/-- Fractions and numbers out of range are read as zero. -/
theorem toInt_neg_iff {v : QJsonValue} : v.toInt 0 < 0 ↔ NegativeInt v := by
  constructor
  · intro hneg
    unfold QJsonValue.toInt at hneg
    split at hneg
    · next q =>
      split at hneg
      · next hint =>
        refine ⟨q.num, hint.2, hneg, ?_⟩
        rw [QJsonValue.ofInt, Rat.coe_int_num_of_den_eq_one hint.1]
      · exact absurd hneg (by omega)
    · exact absurd hneg (by omega)
  · rintro ⟨n, hfits, hneg, rfl⟩
    rwa [QJsonValue.toInt_ofInt hfits]

/-- The position that a payload gives: a whole number of any size, or the beginning of the
log where it gives no number. A fraction or a negative number is no position. -/
inductive Gives (v : QJsonValue) : Nat → Prop where
  | number {position : Nat} (hvalue : v = .ofInt position) : Gives v position
  | none (hvalue : v.isDouble = false) : Gives v 0

/-- Only a position of the `int` range is read as it is. -/
theorem Gives.toInt_eq {v : QJsonValue} {position : Nat} (h : Gives v position) :
    v.toInt 0 = if position ≤ 2147483647 then (position : Int) else 0 := by
  cases h with
  | number hvalue =>
    subst hvalue
    split
    · next hle => exact QJsonValue.toInt_ofInt ⟨by omega, by omega⟩ 0
    · next hlarge =>
      rw [QJsonValue.ofInt, QJsonValue.toInt, if_neg]
      simp only [Rat.num_intCast]
      omega
  | none hvalue => cases v <;> simp_all [QJsonValue.isDouble, QJsonValue.toInt]

theorem SignIn.lastRoundEventSeq_of_ofValue {packetValue : QJsonValue} {ob : SignIn}
    (hob : SignIn.ofValue packetValue = some ob) :
    ob.lastRoundEventSeq = (packetValue.toObject.value "lastRoundEventSeq").toInt 0 := by
  unfold SignIn.ofValue at hob
  dsimp only at hob
  split at hob
  · cases hob
  · cases hob
    rfl

namespace ServerP

open ServerConnectionP

theorem signIn_of_reconnect {self : ServerP} {socket : Socket} {packetValue : QJsonValue}
    {ob : SignIn} {existing : Seat} (hob : SignIn.ofValue packetValue = some ob)
    (hexisting : self.existing ob.playerName = some existing) :
    self.signIn socket packetValue = existing.conn.reconnect socket ob.lastRoundEventSeq >>=
      fun conn => .ok ({ self with
        runners := self.runners.replaceF (·.reconnectAgent ob.playerName conn.1) }.deleteLater
          conn.2) := by
  simp only [signIn, hob, hexisting]
  rfl

/-- A sign-in that reconnects only reads events of the log exactly if the payload holds no
negative `int`. It reads no others, sends the new socket the log from the given position on
and succeeds, exactly if a position is given that is an `int`, or one with an empty log. -/
theorem replay_inside_iff {self : ServerP} (socket : Socket) {packetValue : QJsonValue}
    {ob : SignIn} {existing : Seat} (hob : SignIn.ofValue packetValue = some ob)
    (hexisting : self.existing ob.playerName = some existing) :
    ((∀ i ∈ replayIndices existing.conn.roundEventLog.length ob.lastRoundEventSeq,
        0 ≤ i ∧ i < existing.conn.roundEventLog.length) ↔
      ¬ NegativeInt (packetValue.toObject.value "lastRoundEventSeq")) ∧
    (((∀ i ∈ replayIndices existing.conn.roundEventLog.length ob.lastRoundEventSeq,
        0 ≤ i ∧ i < existing.conn.roundEventLog.length) ∧
      (∃ position, Gives (packetValue.toObject.value "lastRoundEventSeq") position ∧
        existing.conn.reconnect socket ob.lastRoundEventSeq =
          .ok ((existing.conn.setSocket socket).1, existing.conn.socket.toList.map .deleteLater ++
            (existing.conn.roundEventLog.drop position).map .sendPacket)) ∧
      ∃ self', self.signIn socket packetValue = .ok self') ↔
      ∃ position, Gives (packetValue.toObject.value "lastRoundEventSeq") position ∧
        (position ≤ 2147483647 ∨ existing.conn.roundEventLog = [])) := by
  have hread {position : Nat}
      (hgives : Gives (packetValue.toObject.value "lastRoundEventSeq") position) :
      ob.lastRoundEventSeq = if position ≤ 2147483647 then (position : Int) else 0 :=
    (SignIn.lastRoundEventSeq_of_ofValue hob).trans hgives.toInt_eq
  have hinside : (∀ i ∈ replayIndices existing.conn.roundEventLog.length ob.lastRoundEventSeq,
      0 ≤ i ∧ i < existing.conn.roundEventLog.length) ↔ 0 ≤ ob.lastRoundEventSeq := by
    constructor
    · intro hinside
      by_contra hneg
      exact hneg (hinside _ (mem_replayIndices.mpr ⟨le_rfl, by omega⟩)).1
    · intro hnonneg i hi
      have := mem_replayIndices.mp hi
      omega
  rw [hinside]
  refine ⟨by rw [← toInt_neg_iff, ← SignIn.lastRoundEventSeq_of_ofValue hob, Int.not_lt], ?_⟩
  constructor
  · rintro ⟨-, ⟨position, hgives, hreconnect⟩, -⟩
    refine ⟨position, hgives, or_iff_not_imp_left.mpr fun hlarge => ?_⟩
    -- Read as 0, it has the whole log sent.
    rw [hread hgives, if_neg hlarge, reconnect_of_nonneg _ _ le_rfl] at hreconnect
    have hlength := congrArg (List.length ∘ Prod.snd) (Except.ok.inj hreconnect)
    simp only [Function.comp_apply, List.length_append, List.length_map, List.length_drop] at hlength
    apply List.eq_nil_of_length_eq_zero
    omega
  · rintro ⟨position, hgives, hfits⟩
    have hnonneg : 0 ≤ ob.lastRoundEventSeq := by
      rw [hread hgives]
      split <;> omega
    have hdrop : existing.conn.roundEventLog.drop ob.lastRoundEventSeq.toNat =
        existing.conn.roundEventLog.drop position := by
      rcases hfits with hfits | hempty
      · rw [hread hgives, if_pos hfits, Int.toNat_natCast]
      · simp [hempty]
    have hreconnect := reconnect_of_nonneg existing.conn socket hnonneg
    rw [hdrop] at hreconnect
    refine ⟨hnonneg, ⟨position, hgives, hreconnect⟩, ?_⟩
    rw [signIn_of_reconnect hob hexisting, hreconnect]
    exact ⟨_, rfl⟩

/-- The sign-in of a client that reports `lastRoundEventSeq`. -/
def signInAfter (playerName : String) (lastRoundEventSeq : Int) : QJsonValue :=
  .object [("playerName", .string playerName), ("screenName", .string playerName),
    ("agentState", .ofInt 16), ("lastRoundEventSeq", .ofInt lastRoundEventSeq)]

theorem ofValue_signInAfter (playerName : String) {lastRoundEventSeq : Int}
    (hfits : FitsInt lastRoundEventSeq) :
    SignIn.ofValue (signInAfter playerName lastRoundEventSeq) =
      some ⟨playerName, playerName, .ofInt 16, lastRoundEventSeq⟩ := by
  have hdouble (n : Int) : (QJsonValue.ofInt n).isDouble = true := rfl
  have hstate : (QJsonValue.ofInt 16).toInt 0 = 16 := QJsonValue.toInt_ofInt (by decide) 0
  simp [SignIn.ofValue, signInAfter, QJsonValue.toObject, QJsonObject.value, QJsonValue.isString,
    QJsonValue.toQString, QJsonValue.toInt_ofInt hfits, hstate, hdouble]

/-- The connection of a player who is gone, with three logged events. -/
def droppedConn : ServerConnectionP :=
  { ServerConnectionP.new ⟨"A", "A", .ofInt 0⟩ .defaults 20 with
    roundEventLog := [.ofNotify .NotifyRockPaperScissors (.object []),
      .ofNotify .NotifyActionOrder (.array []), .ofNotify .NotifyUpgrade (.object [])] }

/-- A client that has seen one event is sent the other two. -/
theorem replay_inside_iff_dropped :
    ∃ conn, droppedConn.reconnect 7 1 = .ok (conn,
      [.sendPacket (.ofNotify .NotifyActionOrder (.array [])),
        .sendPacket (.ofNotify .NotifyUpgrade (.object []))]) := by
  have hiff := @replay_inside_iff
    { ServerP.new .defaults 1 0 20 with runners := [⟨0, [⟨droppedConn, true⟩], false⟩] } 7 _ _
    ⟨droppedConn, true⟩ (ofValue_signInAfter "A" (by decide : FitsInt 1)) rfl
  obtain ⟨-, ⟨position, hgives, hreconnect⟩, -⟩ := hiff.2.mpr ⟨1, .number rfl, .inl (by decide)⟩
  obtain rfl : position = 1 := by
    cases hgives with
    | number hvalue => exact_mod_cast (QJsonValue.ofInt_inj.mp hvalue).symm
    | none hvalue => cases hvalue
  exact ⟨_, hreconnect⟩

/-- A player of a full room drops and comes back reporting a negative number: the loop
starts in front of the log. -/
theorem replay_inside_fails :
    ∃ self : ServerP, system.Reachable self ∧ ∃ existing ob,
      SignIn.ofValue (signInAfter "A" (-1)) = some ob ∧
      self.existing ob.playerName = some existing ∧ 3 ∈ self.sockets ∧
      -1 ∈ replayIndices existing.conn.roundEventLog.length ob.lastRoundEventSeq ∧
      self.signIn 3 (signInAfter "A" (-1)) = .error .indexOutOfRange := by
  obtain ⟨self, hself, hend⟩ := exists_run (G := fun _ _ => true)
    [.newConnection, .newConnection, .signIn 0 (signInValue "A" 16), .signIn 1 (signInValue "B" 16),
      .socketDisconnected 0 .Rock, .newConnection]
    (fun self => decide (3 ∈ self.sockets) && (self.existing "A").isSome) .defaults 2 0 20
    (by decide +kernel)
  obtain ⟨hsocket, hsome⟩ := Bool.and_eq_true_iff.mp hend
  obtain ⟨existing, hexisting⟩ := Option.isSome_iff_exists.mp hsome
  have hob := ofValue_signInAfter "A" (by decide : FitsInt (-1))
  refine ⟨self, hself.of_guarded, existing, _, hob, hexisting, of_decide_eq_true hsocket, ?_, ?_⟩
  · exact mem_replayIndices.mpr ⟨le_refl _, by omega⟩
  · rw [signIn_of_reconnect hob hexisting, reconnect_of_neg _ _ (by decide)]
    rfl

end ServerP

end QMdmmNetworking
