import QMdmm.Networking.SocketP
import QMdmm.Support.TransitionSystem

namespace QMdmmNetworking

open QMdmmCore LineFraming SocketP

/-- What a peer's bytes come to: the packets its listeners get, what these make of
them, and the error that ends it. -/
structure Outcome (σ : Type) where
  slots : σ
  packets : List PacketDataP
  error : Option Socket.Error

/-- A connection on its way: the bytes the peer sent that are not read yet, and those
the transport holds. -/
structure Link (σ : Type) where
  pending : List UInt8
  buffer : List UInt8
  d : SocketP σ

inductive Link.Event where
  | read (count : Nat)
  | deleteLater

section Slots

variable {σ : Type} (parse : List UInt8 → Except String QJsonValue)
  (slot : σ → PacketDataP → σ × Option String)

/-- One line of the protocol. -/
def Outcome.accept (o : Outcome σ) (line : List UInt8) : Outcome σ × Bool :=
  let packet := Packet.fromJson (parse line)
  if Packet.hasError packet then
    ({ o with error := some ⟨.ProtocolError, packet.error⟩ }, false)
  else
    match slot o.slots packet with
    | (slots, none) => ({ o with slots, packets := o.packets ++ [packet] }, true)
    | (slots, some errorString) =>
      (⟨slots, o.packets ++ [packet], some ⟨.ProtocolError, errorString⟩⟩, false)

/-- A line that does not fit. -/
def Outcome.giveUp (bound : Nat) (o : Outcome σ) : Outcome σ :=
  { o with error := some (unterminatedData bound) }

/-- The lines of a stream in order, up to the first that is refused or does not
fit, and whether it goes on from there. -/
def Outcome.after (bound : Nat) (o : Outcome σ) (stream : List UInt8) : Outcome σ × Bool :=
  LineFraming.outcome newline (Outcome.accept parse slot) (Outcome.giveUp bound) bound o stream

/-- What a stream comes to where nothing is said of how it arrives. -/
def framed (bound : Nat) (slots : σ) (stream : List UInt8) : Outcome σ :=
  (Outcome.after parse slot bound ⟨slots, [], none⟩ stream).1

namespace Link

/-- A transport reads while it is connected, as much as its buffer has room for. -/
def canRead (x : Link σ) (count : Nat) : Bool :=
  match x.d.socket with
  | some socket =>
    socket.connected && decide (0 < count ∧ count ≤ x.pending.length ∧
      (socket.readBufferSize = 0 ∨ ((x.buffer.length + count : Nat) : Int) ≤ socket.readBufferSize))
  | none => false

def next (transport : LineTransport) (x : Link σ) : Event → Option (Link σ)
  | .read count =>
    if x.canRead count then
      let (d, buffer) := transport.readyRead parse slot x.d (x.buffer ++ x.pending.take count)
      some ⟨x.pending.drop count, buffer, d⟩
    else none
  | .deleteLater =>
    match x.d.socket with
    | some socket => if socket.connected then none else some { x with d := x.d.deleted }
    | none => none

/-- The stream of a peer, split into reads in any way the transport can. -/
def system (transport : LineTransport) (maximumPacketSize : Int) (slots : σ)
    (stream : List UInt8) : TransitionSystem (Link σ) Event where
  init x := x = ⟨stream, [], (SocketP.new slots).setMaximumPacketSize maximumPacketSize⟩
  step x e y := next parse slot transport x e = some y

end Link

end Slots

namespace SocketP

variable {σ : Type}

def outcome (d : SocketP σ) : Outcome σ :=
  ⟨d.slots, d.packetsReceived, d.error⟩

/-- How a socket that is still read, or no longer, stands for an outcome. -/
structure Stands (maximumPacketSize : Int) (goesOn : Bool) (d : SocketP σ) (o : Outcome σ) :
    Prop where
  outcome_eq : d.outcome = o
  maximumPacketSize_eq : d.maximumPacketSize = maximumPacketSize
  error_eq : d.error.isNone = goesOn
  open_eq : goesOn = true → d.socket = some ⟨true, maximumPacketSize⟩
  closed : goesOn = false → ∀ socket ∈ d.socket, socket.connected = false

variable {parse : List UInt8 → Except String QJsonValue}
  {slot : σ → PacketDataP → σ × Option String} {m : Int}

theorem stands_new (hm : 0 < m) (slots : σ) :
    Stands m true ((new slots).setMaximumPacketSize m) ⟨slots, [], none⟩ where
  outcome_eq := rfl
  maximumPacketSize_eq := rfl
  error_eq := rfl
  open_eq _ := by simp [new, setMaximumPacketSize, applyMaximumPacketSize, hm]
  closed h := by cases h

/-- An error that is recorded on a socket closes it. -/
theorem Stands.setError {d : SocketP σ} {o : Outcome σ} {goesOn : Bool} (h : Stands m goesOn d o)
    (error : Socket.Error) : Stands m false (d.setError error) { o with error := some error } := by
  obtain ⟨rfl, hmax, -, -, -⟩ := h
  cases hsocket : d.socket with
  | none =>
    simp only [SocketP.setError, disconnectFromHost, hsocket]
    exact ⟨rfl, hmax, rfl, by simp, by simp⟩
  | some socket =>
    simp only [SocketP.setError, disconnectFromHost, hsocket]
    exact ⟨rfl, hmax, rfl, by simp, by simp⟩

/-- Telling of an error only matters by the record that follows. -/
theorem Stands.report {d : SocketP σ} {o : Outcome σ} (h : Stands m true d o)
    (error : Socket.Error) :
    Stands m false ((d.errorOccurred error).setError error) { o with error := some error } := by
  obtain ⟨rfl, hmax, -, hopen, -⟩ := h
  simp only [SocketP.setError, errorOccurred, disconnectFromHost, hopen rfl]
  exact ⟨rfl, hmax, rfl, by simp, by simp⟩

theorem Stands.emitPacketReceived {d : SocketP σ} {o : Outcome σ} (h : Stands m true d o)
    (slots : σ) (packet : PacketDataP) :
    Stands m true { d with slots, packetsReceived := d.packetsReceived ++ [packet] }
      { o with slots, packets := o.packets ++ [packet] } := by
  obtain ⟨rfl, hmax, herror, hopen, hclosed⟩ := h
  exact ⟨rfl, hmax, herror, hopen, hclosed⟩

theorem Stands.packetReceived {d : SocketP σ} {o : Outcome σ} (h : Stands m true d o)
    (line : List UInt8) :
    (d.packetReceived parse slot line).2 = (o.accept parse slot line).2 ∧
      Stands m (d.packetReceived parse slot line).2 (d.packetReceived parse slot line).1
        (o.accept parse slot line).1 := by
  have hslots : d.slots = o.slots := congrArg Outcome.slots h.outcome_eq
  rw [SocketP.packetReceived, Outcome.accept]
  split
  · exact ⟨rfl, h.report _⟩
  · rw [SocketP.emitPacketReceived, hslots]
    obtain ⟨slots, rejection⟩ := slot o.slots (Packet.fromJson (parse line))
    have hheard := h.emitPacketReceived slots (Packet.fromJson (parse line))
    cases rejection with
    | none =>
      have hgoesOn := hheard.error_eq
      simp only at hgoesOn ⊢
      rw [hgoesOn]
      exact ⟨rfl, hheard⟩
    | some errorString =>
      have hrejected := hheard.setError ⟨.ProtocolError, errorString⟩
      have hgoesOn := hrejected.error_eq
      simp only at hgoesOn ⊢
      rw [hgoesOn]
      exact ⟨rfl, hrejected⟩

/-- Giving up on a transport that holds as much as it may. -/
def giveUp (bound : Nat) (d : SocketP σ) : SocketP σ :=
  (d.errorOccurred (unterminatedData bound)).setError (unterminatedData bound)

@[simp] theorem giveUp_maximumPacketSize (bound : Nat) (d : SocketP σ) :
    (d.giveUp bound).maximumPacketSize = d.maximumPacketSize := by
  rw [giveUp, SocketP.setError, disconnectFromHost]
  split <;> rfl

theorem giveUpOnUnterminatedData_eq {d : SocketP σ} {bound availableBytes : Nat}
    (hbound : 0 < bound) (hmax : d.maximumPacketSize = bound) (havailable : availableBytes ≤ bound) :
    (d.giveUpOnUnterminatedData availableBytes).1 =
      if bound ≤ availableBytes then d.giveUp bound else d := by
  rw [giveUpOnUnterminatedData]
  split
  · next hroom =>
    have hshort : ¬ bound ≤ availableBytes := by omega
    rw [if_neg hshort]
  · next hfull =>
    obtain rfl : availableBytes = bound := by omega
    rw [if_pos (le_refl _)]
    rfl

/-- The outcome of the bytes a transport holds, as the code comes to it. -/
def heldOutcome (parse : List UInt8 → Except String QJsonValue)
    (slot : σ → PacketDataP → σ × Option String) (bound : Nat) (d : SocketP σ)
    (buffer : List UInt8) : SocketP σ × Bool :=
  LineFraming.outcome newline (SocketP.packetReceived parse slot) (giveUp bound) bound d buffer

variable (parse slot) in
theorem Stands.heldOutcome {d : SocketP σ} {o : Outcome σ} (h : Stands m true d o) (bound : Nat)
    (buffer : List UInt8) :
    (heldOutcome parse slot bound d buffer).2 = (o.after parse slot bound buffer).2 ∧
      Stands m (heldOutcome parse slot bound d buffer).2 (heldOutcome parse slot bound d buffer).1
        (o.after parse slot bound buffer).1 := by
  apply outcome_rel (R := Stands m) _ _ h
  · exact fun d o line h => h.packetReceived line
  · exact fun d o h => h.report _

variable (parse slot) in
/-- The slot finds what the lines of the held bytes come to. -/
theorem readyReadLines_eq {d : SocketP σ} {o : Outcome σ} {bound : Nat}
    (h : Stands (bound : Int) true d o) (hbound : 0 < bound) {buffer : List UInt8}
    (hroom : buffer.length ≤ bound) :
    (d.readyReadLines parse slot buffer).1 = (heldOutcome parse slot bound d buffer).1 ∧
      ((heldOutcome parse slot bound d buffer).2 = true →
        (d.readyReadLines parse slot buffer).2 = (lines newline buffer).2) := by
  have hstands := (h.heldOutcome parse slot bound buffer).2
  have hopen : d.socket.isNone = false := by simp [h.open_eq rfl]
  rw [SocketP.heldOutcome, outcome_eq_drain hroom] at hstands ⊢
  rw [readyReadLines, hopen]
  simp only [Bool.false_eq_true, if_false]
  cases hmore : (drain newline (SocketP.packetReceived parse slot) d buffer).more with
  | false => simp
  | true =>
    have hbuffer := drain_buffer hmore
    have htail := length_tail_le newline buffer
    rw [← hbuffer] at htail
    rw [hmore] at hstands
    simp only [if_true] at hstands ⊢
    split at hstands
    · next hfull =>
      have hmax := hstands.maximumPacketSize_eq
      rw [giveUp_maximumPacketSize] at hmax
      rw [giveUpOnUnterminatedData_eq hbound hmax (htail.trans hroom), if_pos hfull, if_pos hfull]
      exact ⟨rfl, fun h => by cases h⟩
    · next hshort =>
      have hmax := hstands.maximumPacketSize_eq
      rw [giveUpOnUnterminatedData_eq hbound hmax (htail.trans hroom), if_neg hshort,
        if_neg hshort]
      exact ⟨rfl, fun _ => hbuffer⟩

end SocketP

namespace Link

variable {σ : Type} {parse : List UInt8 → Except String QJsonValue}
  {slot : σ → PacketDataP → σ × Option String} {transport : LineTransport} {bound : Nat}
  {slots : σ} {stream : List UInt8}

variable (parse slot bound slots stream) in
/-- What is read so far has come to its outcome, and the transport holds the start
of the line that comes next. -/
structure Inv (read : List UInt8) (x : Link σ) : Prop where
  stream_eq : stream = read ++ x.pending
  stands : Stands (bound : Int) (Outcome.after parse slot bound ⟨slots, [], none⟩ read).2 x.d
    (Outcome.after parse slot bound ⟨slots, [], none⟩ read).1
  buffer_eq : (Outcome.after parse slot bound ⟨slots, [], none⟩ read).2 = true →
    x.buffer = (lines newline read).2

theorem canRead_iff {x : Link σ} {o : Outcome σ} {goesOn : Bool} (hbound : 0 < bound)
    (h : Stands (bound : Int) goesOn x.d o) {count : Nat} :
    x.canRead count = true ↔
      goesOn = true ∧ 0 < count ∧ count ≤ x.pending.length ∧ x.buffer.length + count ≤ bound := by
  cases goesOn with
  | true =>
    simp [canRead, h.open_eq rfl]
    omega
  | false =>
    cases hsocket : x.d.socket with
    | none => simp [canRead, hsocket]
    | some socket => simp [canRead, hsocket, h.closed rfl socket hsocket]

variable (parse slot transport) in
theorem next_read {x y : Link σ} {count : Nat} :
    next parse slot transport x (.read count) = some y ↔ x.canRead count = true ∧
      y = ⟨x.pending.drop count,
        (x.d.readyReadLines parse slot (x.buffer ++ x.pending.take count)).2,
        (x.d.readyReadLines parse slot (x.buffer ++ x.pending.take count)).1⟩ := by
  simp only [next, LineTransport.readyRead_eq, Option.ite_none_right_eq_some, Option.some.injEq]
  exact and_congr_right fun _ => eq_comm

theorem next_deleteLater {x y : Link σ} :
    next parse slot transport x .deleteLater = some y ↔
      (∃ socket, x.d.socket = some socket ∧ socket.connected = false) ∧
        y = { x with d := x.d.deleted } := by
  rw [next]
  cases x.d.socket with
  | none => simp
  | some socket =>
    cases hconnected : socket.connected with
    | true => simp [hconnected]
    | false => simpa [hconnected] using eq_comm

theorem inv_read (hbound : 0 < bound) {read : List UInt8} {x y : Link σ}
    (hx : Inv parse slot bound slots stream read x) {count : Nat}
    (hread : next parse slot transport x (.read count) = some y) :
    Inv parse slot bound slots stream (read ++ x.pending.take count) y := by
  obtain ⟨hstream, hstands, hbuffer⟩ := hx
  obtain ⟨hcan, rfl⟩ := (next_read parse slot transport).mp hread
  obtain ⟨hgoesOn, -, hcount, hroom⟩ := (canRead_iff hbound hstands).mp hcan
  rw [hgoesOn] at hstands
  have hfits : (x.buffer ++ x.pending.take count).length ≤ bound := by
    rw [List.length_append, List.length_take]
    omega
  obtain ⟨hd, hrest⟩ := readyReadLines_eq parse slot hstands hbound hfits
  obtain ⟨hsame, hnext⟩ := hstands.heldOutcome parse slot bound
    (x.buffer ++ x.pending.take count)
  have hafter : Outcome.after parse slot bound ⟨slots, [], none⟩ (read ++ x.pending.take count) =
      Outcome.after parse slot bound (Outcome.after parse slot bound ⟨slots, [], none⟩ read).1
        (x.buffer ++ x.pending.take count) := by
    rw [hbuffer hgoesOn]
    exact outcome_append hgoesOn _
  constructor
  · simp [hstream]
  · rw [hafter, ← hsame, hd]
    exact hnext
  · rw [hafter, ← hsame, lines_append, ← hbuffer hgoesOn]
    exact hrest

theorem inv_deleteLater {read : List UInt8} {x y : Link σ}
    (hx : Inv parse slot bound slots stream read x)
    (hdelete : next parse slot transport x .deleteLater = some y) :
    Inv parse slot bound slots stream read y := by
  obtain ⟨hstream, hstands, hbuffer⟩ := hx
  obtain ⟨⟨socket, hsocket, hclosed⟩, rfl⟩ := next_deleteLater.mp hdelete
  refine ⟨hstream, ⟨hstands.outcome_eq, hstands.maximumPacketSize_eq, hstands.error_eq, fun h => ?_,
    fun _ socket hnone => by cases hnone⟩, hbuffer⟩
  have hopen := hstands.open_eq h
  rw [hsocket] at hopen
  cases hopen
  cases hclosed

theorem exists_inv (hbound : 0 < bound) :
    (system parse slot transport bound slots stream).Invariant
      fun x => ∃ read, Inv parse slot bound slots stream read x where
  init x hx := by
    cases hx
    have hempty : Outcome.after parse slot bound ⟨slots, [], none⟩ [] =
        (⟨slots, [], none⟩, true) := by
      rw [Outcome.after, LineFraming.outcome, lines_of_notMem List.not_mem_nil, judge]
      exact if_neg (Nat.not_le.mpr hbound)
    refine ⟨[], rfl, ?_, fun _ => by rw [lines_of_notMem List.not_mem_nil]⟩
    rw [hempty]
    exact stands_new (by exact_mod_cast hbound) slots
  step x e y hx hstep := by
    obtain ⟨read, hx⟩ := hx
    cases e with
    | read count => exact ⟨_, inv_read hbound hx hstep⟩
    | deleteLater => exact ⟨read, inv_deleteLater hx hstep⟩

/-- Whatever the reads, the listeners have got what the bytes read so far come to;
once an error is recorded that is what the whole stream comes to, and until
then the transport has room for the next byte. -/
theorem framing_exact (parse : List UInt8 → Except String QJsonValue)
    (slot : σ → PacketDataP → σ × Option String) (transport : LineTransport)
    {maximumPacketSize : Int} (hmax : 0 < maximumPacketSize) (slots : σ) (stream : List UInt8)
    {x : Link σ}
    (hx : (system parse slot transport maximumPacketSize slots stream).Reachable x) :
    ∃ read, stream = read ++ x.pending ∧
      x.d.outcome = framed parse slot maximumPacketSize.toNat slots read ∧
      (x.d.error ≠ none → x.d.outcome = framed parse slot maximumPacketSize.toNat slots stream) ∧
      (x.d.error = none → x.pending ≠ [] →
        ∃ y, next parse slot transport x (.read 1) = some y) := by
  obtain ⟨bound, rfl⟩ := Int.eq_ofNat_of_zero_le hmax.le
  have hbound : 0 < bound := by exact_mod_cast hmax
  obtain ⟨read, hstream, hstands, hbuffer⟩ := (exists_inv hbound).of_reachable hx
  rw [Int.toNat_natCast]
  refine ⟨read, hstream, hstands.outcome_eq, fun herror => ?_, fun herror hpending => ?_⟩
  · have hended : (Outcome.after parse slot bound ⟨slots, [], none⟩ read).2 = false := by
      rw [← hstands.error_eq]
      cases hnone : x.d.error with
      | none => exact absurd hnone herror
      | some error => rfl
    have hafter := outcome_append_of_ended hended x.pending
    rw [framed, hstream, hstands.outcome_eq]
    exact (congrArg Prod.fst hafter).symm
  · have hgoesOn : (Outcome.after parse slot bound ⟨slots, [], none⟩ read).2 = true := by
      rw [← hstands.error_eq, herror]
      rfl
    have hshort := length_tail_lt hgoesOn
    have hpos : 0 < x.pending.length := List.length_pos_iff.mpr hpending
    refine ⟨_, (next_read parse slot transport).mpr
      ⟨(canRead_iff hbound hstands).mpr ⟨hgoesOn, ?_, ?_, ?_⟩, rfl⟩⟩
    · omega
    · omega
    · rw [hbuffer hgoesOn]
      omega

section Computed

/-- A ping as the client sends it. -/
def pingLine : List UInt8 :=
  "\x7b\"notifyId\":16385,\"requestId\":0,\"type\":3,\"value\":7\x7d\n".toList.map
    fun c => c.toNat.toUInt8

/-- The reading of this one line. -/
def parsePing (bytes : List UInt8) : Except String QJsonValue :=
  if bytes = pingLine then
    .ok (.object [("notifyId", .ofInt 16385), ("requestId", .ofInt 0), ("type", .ofInt 3),
      ("value", .ofInt 7)])
  else .error "illegal value"

/-- A listener that counts the packets. -/
def countPacket (count : Nat) (_packet : PacketDataP) : Nat × Option String := (count + 1, none)

/-- The line, and then spaces without an end. -/
def pingAndSpaces : List UInt8 := pingLine ++ List.replicate 70 0x20

/-- The line comes over a local socket in two pieces, the second of which holds the first of
the spaces, and these fill the buffer with the third. -/
theorem framing_exact_local : ∃ x,
    (system parsePing countPacket .QLocalSocket 64 0 pingAndSpaces).Reachable x ∧
      x.d.error = some (unterminatedData 64) ∧ x.d.slots = 1 ∧ x.pending.length = 6 ∧
      x.d.outcome = framed parsePing countPacket 64 0 pingAndSpaces := by
  have hrun : ([.read 20, .read 40, .read 56].foldlM
      (next parsePing countPacket .QLocalSocket)
      ⟨pingAndSpaces, [], (SocketP.new 0).setMaximumPacketSize 64⟩).any (fun x =>
        x.d.error = some (unterminatedData 64) && x.d.slots = 1 && x.pending.length = 6) = true := by
    decide +kernel
  obtain ⟨x, hlast, hend⟩ := (Option.any_eq_true _ _).mp hrun
  simp only [Bool.and_eq_true, decide_eq_true_eq] at hend
  obtain ⟨⟨herror, hslots⟩, hpending⟩ := hend
  have hreach : (system parsePing countPacket .QLocalSocket 64 0 pingAndSpaces).Reachable x :=
    .foldlM (fun _ _ _ hstep => hstep) (.init rfl) hlast
  obtain ⟨-, -, -, hframed, -⟩ :=
    framing_exact parsePing countPacket .QLocalSocket (by decide) 0 pingAndSpaces hreach
  exact ⟨x, hreach, herror, hslots, hpending, hframed (by simp [herror])⟩

end Computed

end Link

end QMdmmNetworking
