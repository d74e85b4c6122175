import QMdmm.Core.Json
import QMdmm.Support.FirstMatch

namespace QByteArray

/-- A literal of the program, which is ASCII. -/
def ofLiteral (s : String) : List UInt8 := s.toList.map fun c => c.toNat.toUInt8

/-- `QByteArray::number`. -/
def number (n : Nat) : List UInt8 := (Nat.toDigits 10 n).map fun c => c.toNat.toUInt8

def isSpace (byte : UInt8) : Bool := byte = 32 || (9 ≤ byte && byte ≤ 13)

def trimmed (bytes : List UInt8) : List UInt8 :=
  ((bytes.dropWhile isSpace).reverse.dropWhile isSpace).reverse

end QByteArray

namespace QMdmmNetworking

open QByteArray FirstMatch

/-- The blank line that closes a header block. -/
def headerEnd : List UInt8 := ofLiteral "\r\n\r\n"

theorem headerEnd_ne_nil : headerEnd ≠ [] := List.cons_ne_nil 13 [10, 13, 10]

theorem headerEnd_length : headerEnd.length = 4 := rfl

def controlRequestSizeLimit : Nat := 8192

def controlResponse (statusLine contentType body : List UInt8) : List UInt8 :=
  ofLiteral "HTTP/1.0 " ++ statusLine ++ ofLiteral "\r\nContent-Type: " ++ contentType ++
    ofLiteral "\r\nContent-Length: " ++ number body.length ++
    ofLiteral "\r\nConnection: close\r\n\r\n" ++ body

/-- A connection of the control plane, as its slots keep it. -/
structure ControlSocket where
  received : List UInt8
  answered : Bool
  /-- The deadline of the request runs. -/
  deadline : Bool
  /-- It was not told to disconnect. -/
  connected : Bool
  deriving DecidableEq

namespace ControlSocket

def new : ControlSocket := ⟨[], false, true, true⟩

/-- Only the request line is read. -/
def asksForTheSnapshot (header : List UInt8) : Bool :=
  let requestLine := (trimmed (header.takeWhile (· ≠ 10))).splitOn 32
  requestLine[0]? = some (ofLiteral "GET") && requestLine[1]? = some (ofLiteral "/status")

/-- What a request is answered with, by a server whose status reads like this. -/
def answer (status header : List UInt8) : List UInt8 :=
  if asksForTheSnapshot header then
    controlResponse (ofLiteral "200 OK") (ofLiteral "application/json") status
  else
    controlResponse (ofLiteral "404 Not Found") (ofLiteral "text/plain")
      (ofLiteral "no such resource\n")

/-- The slot of the socket, with what has arrived, and what it writes. -/
def readyRead (status : List UInt8) (self : ControlSocket) (data : List UInt8) :
    ControlSocket × List UInt8 :=
  if self.answered then (self, [])
  else
    let received := self.received ++ data
    match indexOf headerEnd received with
    | none =>
      ({ self with
        received := received
        connected := self.connected && received.length ≤ controlRequestSizeLimit }, [])
    | some headerEnd =>
      (⟨received, true, false, false⟩, answer status (received.take headerEnd))

/-- The deadline of the request ran out. -/
def timeout (self : ControlSocket) : ControlSocket :=
  { self with deadline := false, connected := false }

/-- Deliveries one after another, each with what the status is by then, as far as they
reach the socket; and all that is written. -/
def serve : ControlSocket → List (List UInt8 × List UInt8) → ControlSocket × List UInt8
  | self, [] => (self, [])
  | self, (status, data) :: rest =>
    if self.connected then
      let result := self.readyRead status data
      let served := serve result.1 rest
      (served.1, result.2 ++ served.2)
    else (self, [])

/-- The bytes of deliveries. -/
def bytes (deliveries : List (List UInt8 × List UInt8)) : List UInt8 :=
  (deliveries.map Prod.snd).flatten

@[simp] theorem bytes_cons (status data : List UInt8) (rest : List (List UInt8 × List UInt8)) :
    bytes ((status, data) :: rest) = data ++ bytes rest := rfl

@[simp] theorem bytes_append (earlier later : List (List UInt8 × List UInt8)) :
    bytes (earlier ++ later) = bytes earlier ++ bytes later := by
  rw [bytes, List.map_append, List.flatten_append]
  rfl

/-- What deliveries can come to: the answer is as of the one that completes the blank line. -/
inductive Serves (received : List UInt8) (deliveries : List (List UInt8 × List UInt8)) :
    ControlSocket × List UInt8 → Prop where
  | waits (hnone : indexOf headerEnd (received ++ bytes deliveries) = none) :
      Serves received deliveries (⟨received ++ bytes deliveries, false, true, true⟩, [])
  | drops (kept : List UInt8) (hkept : kept <+: received ++ bytes deliveries)
      (hlong : controlRequestSizeLimit < kept.length) (hnone : indexOf headerEnd kept = none) :
      Serves received deliveries (⟨kept, false, true, false⟩, [])
  | answers (earlier later : List (List UInt8 × List UInt8)) (status data : List UInt8)
      (hdeliveries : deliveries = earlier ++ (status, data) :: later)
      (hsmall : (received ++ bytes earlier).length ≤ controlRequestSizeLimit)
      (hnone : indexOf headerEnd (received ++ bytes earlier) = none) {i : Nat}
      (hfound : indexOf headerEnd (received ++ bytes earlier ++ data) = some i) :
      Serves received deliveries (⟨received ++ bytes earlier ++ data, true, false, false⟩,
        answer status ((received ++ bytes earlier ++ data).take i))

theorem Serves.cons {received status data : List UInt8} {rest : List (List UInt8 × List UInt8)}
    {result : ControlSocket × List UInt8} (h : Serves (received ++ data) rest result) :
    Serves received ((status, data) :: rest) result := by
  have hstream (later : List (List UInt8 × List UInt8)) :
      received ++ data ++ bytes later = received ++ bytes ((status, data) :: later) := by
    rw [bytes_cons, List.append_assoc]
  cases h with
  | waits hnone =>
    rw [hstream] at hnone ⊢
    exact .waits hnone
  | drops kept hkept hlong hnone =>
    rw [hstream] at hkept
    exact .drops kept hkept hlong hnone
  | answers earlier later status' data' hdeliveries hsmall hnone hfound =>
    rw [hstream] at hsmall hnone hfound ⊢
    exact .answers _ later status' data' (by rw [hdeliveries, List.cons_append]) hsmall hnone hfound

theorem serves_serve (deliveries : List (List UInt8 × List UInt8)) (received : List UInt8)
    (hnone : indexOf headerEnd received = none)
    (hsmall : received.length ≤ controlRequestSizeLimit) :
    Serves received deliveries (serve ⟨received, false, true, true⟩ deliveries) := by
  induction deliveries generalizing received with
  | nil =>
    have hwaits := @Serves.waits received []
    simp only [bytes, List.map_nil, List.flatten_nil, List.append_nil] at hwaits
    exact hwaits hnone
  | cons delivery rest ih =>
    obtain ⟨status, data⟩ := delivery
    simp only [serve, if_true, readyRead, Bool.false_eq_true, if_false]
    cases hfound : indexOf headerEnd (received ++ data) with
    | none =>
      simp only [Bool.true_and]
      by_cases hlimit : (received ++ data).length ≤ controlRequestSizeLimit
      · simp only [decide_eq_true hlimit, List.nil_append]
        exact (ih _ hfound hlimit).cons
      · rw [decide_eq_false hlimit]
        have hdropped : serve ⟨received ++ data, false, true, false⟩ rest =
            (⟨received ++ data, false, true, false⟩, []) := by
          cases rest <;> rfl
        rw [hdropped]
        refine .drops _ ?_ (Nat.not_le.mp hlimit) hfound
        rw [bytes_cons, ← List.append_assoc]
        exact List.prefix_append _ _
    | some i =>
      have hanswered : serve ⟨received ++ data, true, false, false⟩ rest =
          (⟨received ++ data, true, false, false⟩, []) := by
        cases rest <;> rfl
      simp only [hanswered, List.append_nil]
      have hempty : received ++ bytes [] = received := List.append_nil _
      have hanswers := @Serves.answers received ((status, data) :: rest) [] rest status data rfl
      rw [hempty] at hanswers
      exact hanswers hsmall hnone hfound

theorem answer_ne_nil (status header : List UInt8) : answer status header ≠ [] := by
  unfold answer controlResponse
  split <;> exact List.cons_ne_nil 72 _

theorem serves_new (deliveries : List (List UInt8 × List UInt8)) :
    Serves [] deliveries (serve new deliveries) :=
  serves_serve deliveries [] (by decide) (Nat.zero_le _)

theorem bytes_singletons (stream : List UInt8) :
    bytes (stream.map fun byte => ([], [byte])) = stream := by
  rw [bytes, List.map_map]
  exact List.flatMap_singleton' stream

/-- A request that comes byte by byte is answered as soon as it can be. -/
theorem le_of_serve_bytes {stream : List UInt8}
    (h : (serve new (stream.map fun byte => ([], [byte]))).2 ≠ []) :
    ∃ i, indexOf headerEnd stream = some i ∧ i + 4 ≤ controlRequestSizeLimit + 1 := by
  have hserves := serves_new (stream.map fun byte => ([], [byte]))
  generalize serve new (stream.map fun byte => ([], [byte])) = result at h hserves
  cases hserves with
  | waits => exact absurd rfl h
  | drops => exact absurd rfl h
  | answers earlier later status data hdeliveries hsmall hnone hfound =>
    have hstream := bytes_singletons stream
    obtain ⟨byte, -, hbyte⟩ := List.mem_map.mp
      (hdeliveries ▸ List.mem_append_right earlier List.mem_cons_self)
    cases hbyte
    have hroom := add_length_le hfound
    rw [List.length_append, List.length_singleton, headerEnd_length] at hroom
    rw [hdeliveries, bytes_append, bytes_cons, ← List.append_assoc] at hstream
    exact ⟨_, indexOf_of_isPrefix headerEnd_ne_nil ⟨_, hstream⟩ hfound, by omega⟩

/-- However a request is delivered, it is answered by its header block alone, once, and as
of the delivery that completes the blank line. The answer is sure exactly when the header
block ends within the limit and one more byte: a longer one may be dropped for the way it
comes in. -/
theorem serve_framing (stream : List UInt8) :
    (∀ deliveries, bytes deliveries = stream → (serve new deliveries).2 = [] ∨
      ∃ i, indexOf headerEnd stream = some i ∧ ∃ earlier status data later,
        deliveries = earlier ++ (status, data) :: later ∧ (bytes earlier).length < i + 4 ∧
          i + 4 ≤ (bytes earlier ++ data).length ∧
          (serve new deliveries).2 = answer status (stream.take i)) ∧
    ((∀ deliveries, bytes deliveries = stream → (serve new deliveries).2 ≠ []) ↔
      ∃ i, indexOf headerEnd stream = some i ∧ i + 4 ≤ controlRequestSizeLimit + 1) := by
  refine ⟨fun deliveries hstream => ?_, fun hall => ?_, ?_⟩
  · have hserves := serves_new deliveries
    generalize serve new deliveries = result at hserves
    cases hserves with
    | waits => exact .inl rfl
    | drops => exact .inl rfl
    | @answers earlier later status data hdeliveries _ hnone i hfound =>
      have hearlier := le_of_isPrefix headerEnd_ne_nil (List.prefix_append _ data) hfound hnone
      have hroom := add_length_le hfound
      rw [List.nil_append] at hearlier
      rw [headerEnd_length] at hearlier hroom
      rw [hdeliveries, bytes_append, bytes_cons, ← List.append_assoc] at hstream
      refine .inr ⟨i, indexOf_of_isPrefix headerEnd_ne_nil ⟨_, hstream⟩ hfound, earlier, status,
        data, later, hdeliveries, hearlier, hroom, ?_⟩
      rw [← hstream]
      exact congrArg (answer status) (List.take_append_of_le_length (by omega)).symm
  · exact le_of_serve_bytes (hall _ (bytes_singletons stream))
  · intro ⟨i, hfound, hroom⟩ deliveries hstream
    have hserves := serves_new deliveries
    generalize serve new deliveries = result at hserves
    cases hserves with
    | waits hnone =>
      rw [List.nil_append, hstream, hfound] at hnone
      cases hnone
    | drops kept hkept hlong hnone =>
      rw [List.nil_append, hstream] at hkept
      have hshort := le_of_isPrefix headerEnd_ne_nil hkept hfound hnone
      rw [headerEnd_length] at hshort
      omega
    | answers => exact answer_ne_nil _ _

end ControlSocket

end QMdmmNetworking
