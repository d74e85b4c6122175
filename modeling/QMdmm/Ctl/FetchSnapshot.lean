import QMdmm.Networking.ControlPlane

namespace QMdmmCtl

open QMdmmNetworking QByteArray FirstMatch

def answerSizeLimit : Nat := 1024 * 1024

/-- Why there is no snapshot. -/
inductive Failure where
  | tooLong (size : Nat)
  | unfinished
  | noHeader
  | otherAnswer (statusLine : List UInt8)
  | notTheSnapshot
  deriving DecidableEq

def request : List UInt8 := ofLiteral "GET /status HTTP/1.0\r\n\r\n"

def newline : List UInt8 := ofLiteral "\r\n"

section

-- `QJsonDocument::fromJson`
variable (parse : List UInt8 → Except String QJsonValue)

def isTheSnapshot (body : List UInt8) : Bool :=
  match parse body with
  | .ok (.object members) =>
    let snapshot : QJsonObject := members
    (snapshot.value "rooms").isDouble && (snapshot.value "games").isDouble &&
      (snapshot.value "players").isDouble && (snapshot.value "roomList").isArray
  | _ => false

/-- What an answer that has ended comes to. -/
def judge (answer : List UInt8) : Except Failure (List UInt8) :=
  match indexOf headerEnd answer with
  | none => .error .noHeader
  | some headerEnd =>
    let statusLine := answer.take ((indexOf newline answer).getD answer.length)
    if ofLiteral "HTTP/1.0 200 " <+: statusLine then
      let body := answer.drop (headerEnd + 4)
      if isTheSnapshot parse body then .ok body else .error .notTheSnapshot
    else .error (.otherAnswer statusLine)

/-- An exchange as the program has it: what its socket has buffered, whether that is
unconnected, what was taken of it, and what the exchange came to. -/
structure Fetch where
  available : List UInt8
  unconnected : Bool
  answer : List UInt8
  result : Option (Except Failure (List UInt8))

namespace Fetch

def new : Fetch := ⟨[], false, [], none⟩

/-- What the program takes at one time is cut to what is left of the bound. -/
def take (self : Fetch) : Fetch :=
  let room := answerSizeLimit + 1 - self.answer.length
  let answer := self.answer ++ self.available.take room
  { self with
    available := self.available.drop room
    answer := answer
    result :=
      if answer.length > answerSizeLimit then some (.error (.tooLong answer.length)) else none }

/-- Once around the loop; it waits where it has nothing to do before its time is up. -/
def loop (timeUp : Bool) (self : Fetch) : Option Fetch :=
  if self.result.isSome then none
  else if self.available ≠ [] then some self.take
  else if self.unconnected then some { self with result := some (judge parse self.answer) }
  else if timeUp then some { self with result := some (.error .unfinished) }
  else none

/-- What going around the loop can do. -/
inductive Loops (self : Fetch) : Bool → Fetch → Prop where
  | takes {timeUp : Bool} (hsome : self.available ≠ []) : Loops self timeUp self.take
  | judges {timeUp : Bool} (hnone : self.available = []) (hunconnected : self.unconnected = true) :
      Loops self timeUp { self with result := some (judge parse self.answer) }
  | givesUp : Loops self true { self with result := some (.error .unfinished) }

theorem loop_cases {self self' : Fetch} {timeUp : Bool} (h : self.loop parse timeUp = some self') :
    self.result = none ∧ Loops parse self timeUp self' := by
  unfold loop at h
  split at h
  · cases h
  · next hresult =>
    refine ⟨Option.not_isSome_iff_eq_none.mp hresult, ?_⟩
    split at h
    · next hsome =>
      cases h
      exact .takes hsome
    · next hnone =>
      split at h
      · next hunconnected =>
        cases h
        exact .judges (not_not.mp hnone) hunconnected
      · split at h
        · next htime =>
          cases h
          exact htime ▸ .givesUp
        · cases h

end Fetch

end

section Response

variable {statusLine contentType body : List UInt8}

theorem headerEnd_eq : headerEnd = [13, 10, 13, 10] := by decide

/-- A line that another one follows does not close the header block. -/
theorem indexOf_line {line rest : List UInt8} (hline : 13 ∉ line) (hrest : rest.head? ≠ some 13) :
    indexOf headerEnd (line ++ (newline ++ rest)) =
      (indexOf headerEnd rest).map (· + (line.length + 2)) := by
  have hcr : ¬ headerEnd <+: 13 :: 10 :: rest := by
    rintro ⟨after, hafter⟩
    rw [headerEnd_eq] at hafter
    cases hafter
    exact hrest rfl
  have hlf : ¬ headerEnd <+: 10 :: rest := by
    rintro ⟨after, hafter⟩
    rw [headerEnd_eq] at hafter
    cases hafter
  have hskip : indexOf headerEnd (newline ++ rest) = (indexOf headerEnd rest).map (· + 2) := by
    change indexOf headerEnd (13 :: 10 :: rest) = _
    rw [indexOf_cons, if_neg hcr, indexOf_cons, if_neg hlf, Option.map_map]
    rfl
  rw [headerEnd_eq] at hskip ⊢
  rw [indexOf_append hline, hskip, Option.map_map]
  congr 1
  funext i
  simp only [Function.comp_apply]
  omega

theorem cr_not_mem_number (n : Nat) : 13 ∉ number n := by
  intro h
  obtain ⟨c, hc, hcr⟩ := List.mem_map.mp h
  have hdigit := Nat.isDigit_of_mem_toDigits (by omega) (by omega) hc
  obtain ⟨hlo, hhi⟩ := Char.isDigit_iff_toNat.mp hdigit
  change 48 ≤ c.toNat at hlo
  change c.toNat ≤ 57 at hhi
  have hnat := congrArg UInt8.toNat hcr
  simp only [Nat.toUInt8_eq, UInt8.toNat_ofNat', UInt8.reduceToNat] at hnat
  omega

theorem indexOf_lines {lines : List (List UInt8)} (hsome : lines ≠ [])
    (hlines : ∀ line ∈ lines, line ≠ [] ∧ 13 ∉ line) :
    indexOf headerEnd (newline.intercalate lines ++ (headerEnd ++ body)) =
      some (newline.intercalate lines).length := by
  induction lines with
  | nil => exact absurd rfl hsome
  | cons line rest ih =>
    obtain ⟨⟨hne, hline⟩, hrest⟩ := List.forall_mem_cons.mp hlines
    cases rest with
    | nil =>
      have hend : indexOf headerEnd (headerEnd ++ body) = some 0 := by
        rw [indexOf_eq_some]
        exact ⟨Nat.zero_le _, List.prefix_append _ _, fun j hj => absurd hj (Nat.not_lt_zero j)⟩
      rw [List.intercalate_singleton]
      rw [headerEnd_eq] at hend ⊢
      rw [indexOf_append hline, hend, Option.map_some, Nat.zero_add]
    | cons second rest =>
      have hsecond : (newline.intercalate (second :: rest) ++ (headerEnd ++ body)).head? ≠
          some 13 := by
        obtain ⟨⟨hne, hfree⟩, -⟩ := List.forall_mem_cons.mp hrest
        obtain ⟨c, chars, rfl⟩ := List.exists_cons_of_ne_nil hne
        rw [List.intercalate_cons_cons_left, List.cons_append, List.head?_cons, Ne,
          Option.some.injEq]
        exact fun hc => hfree (hc ▸ List.mem_cons_self)
      rw [List.intercalate_cons_cons, List.append_assoc, List.append_assoc,
        indexOf_line hline hsecond, ih (List.cons_ne_nil _ _) hrest, Option.map_some,
        List.length_append, List.length_append]
      have hnewline : newline.length = 2 := by decide
      congr 1
      omega

/-- Everything of a response up to the blank line. -/
def headerLines (statusLine contentType : List UInt8) (size : Nat) : List (List UInt8) :=
  [ofLiteral "HTTP/1.0 " ++ statusLine, ofLiteral "Content-Type: " ++ contentType,
    ofLiteral "Content-Length: " ++ number size, ofLiteral "Connection: close"]

theorem controlResponse_eq : controlResponse statusLine contentType body =
    newline.intercalate (headerLines statusLine contentType body.length) ++
      (headerEnd ++ body) := by
  have htype : ofLiteral "\r\nContent-Type: " = newline ++ ofLiteral "Content-Type: " := by decide
  have hlength : ofLiteral "\r\nContent-Length: " = newline ++ ofLiteral "Content-Length: " := by
    decide
  have hclose : ofLiteral "\r\nConnection: close\r\n\r\n" =
      newline ++ ofLiteral "Connection: close" ++ headerEnd := by decide
  simp only [controlResponse, headerLines, htype, hlength, hclose, List.intercalate_cons_cons,
    List.intercalate_singleton, List.append_assoc]

theorem headerLines_free (hstatus : 13 ∉ statusLine) (htype : 13 ∉ contentType) {size : Nat}
    {line : List UInt8} (h : line ∈ headerLines statusLine contentType size) :
    line ≠ [] ∧ 13 ∉ line := by
  simp only [headerLines, List.mem_cons, List.not_mem_nil, or_false] at h
  obtain rfl | rfl | rfl | rfl := h
  · refine ⟨List.cons_ne_nil 72 _, List.not_mem_append (by decide) hstatus⟩
  · refine ⟨List.cons_ne_nil 67 _, List.not_mem_append (by decide) htype⟩
  · refine ⟨List.cons_ne_nil 67 _, List.not_mem_append (by decide) (cr_not_mem_number size)⟩
  · exact ⟨by decide, by decide⟩

/-- The body of a response is what the program takes for it. -/
theorem indexOf_controlResponse (hstatus : 13 ∉ statusLine) (htype : 13 ∉ contentType) :
    ∃ i, indexOf headerEnd (controlResponse statusLine contentType body) = some i ∧
      (controlResponse statusLine contentType body).drop (i + 4) = body := by
  have hfree (line : List UInt8) (hline : line ∈ headerLines statusLine contentType body.length) :=
    headerLines_free hstatus htype hline
  rw [controlResponse_eq]
  refine ⟨_, indexOf_lines (List.cons_ne_nil _ _) hfree, ?_⟩
  rw [← List.drop_drop, List.drop_left, ← headerEnd_length, List.drop_left]

/-- So is its status line. -/
theorem indexOf_newline (hstatus : 13 ∉ statusLine) : ∃ i,
    indexOf newline (controlResponse statusLine contentType body) = some i ∧
      (controlResponse statusLine contentType body).take i =
        ofLiteral "HTTP/1.0 " ++ statusLine := by
  obtain ⟨rest, hrest⟩ : ∃ rest, controlResponse statusLine contentType body =
      (ofLiteral "HTTP/1.0 " ++ statusLine) ++ (newline ++ rest) := by
    rw [controlResponse_eq, headerLines, List.intercalate_cons_cons, List.append_assoc,
      List.append_assoc]
    exact ⟨_, rfl⟩
  have hline : 13 ∉ ofLiteral "HTTP/1.0 " ++ statusLine := List.not_mem_append (by decide) hstatus
  have hend : indexOf newline (newline ++ rest) = some 0 := by
    rw [indexOf_eq_some]
    exact ⟨Nat.zero_le _, List.prefix_append _ _, fun j hj => absurd hj (Nat.not_lt_zero j)⟩
  have hnewline : newline = [13, 10] := by decide
  rw [hrest]
  refine ⟨_, ?_, List.take_left⟩
  rw [hnewline] at hend ⊢
  rw [indexOf_append hline, hend, Option.map_some, Nat.zero_add]

end Response

section Judge

variable {parse : List UInt8 → Except String QJsonValue} {answer body got : List UInt8}

/-- The answer of the control plane to a request for the snapshot. -/
def snapshotResponse (body : List UInt8) : List UInt8 :=
  controlResponse (ofLiteral "200 OK") (ofLiteral "application/json") body

theorem indexOf_snapshotResponse (body : List UInt8) :
    ∃ i, indexOf headerEnd (snapshotResponse body) = some i ∧
      (snapshotResponse body).drop (i + 4) = body :=
  indexOf_controlResponse (by decide) (by decide)

/-- The whole of an answer is the body it was made of. -/
theorem judge_snapshotResponse (hsnapshot : isTheSnapshot parse body = true) :
    judge parse (snapshotResponse body) = .ok body := by
  obtain ⟨i, hindex, hbody⟩ := indexOf_snapshotResponse body
  obtain ⟨j, hnewline, hline⟩ : ∃ j, indexOf newline (snapshotResponse body) = some j ∧
      (snapshotResponse body).take j = ofLiteral "HTTP/1.0 " ++ ofLiteral "200 OK" :=
    indexOf_newline (by decide)
  have hok : ofLiteral "HTTP/1.0 200 " <+: ofLiteral "HTTP/1.0 " ++ ofLiteral "200 OK" := by decide
  simp only [judge, hindex, hnewline, Option.getD_some, hline, hok, if_true, hbody,
    hsnapshot]

/-- What is taken for the body of a part of an answer is a part of its body. -/
theorem prefix_of_judge (hstarts : answer <+: snapshotResponse body)
    (h : judge parse answer = .ok got) : got <+: body ∧ isTheSnapshot parse got = true := by
  unfold judge at h
  split at h
  · cases h
  · next i hindex =>
    dsimp only at h
    split at h
    · split at h
      · next hsnapshot =>
        cases h
        refine ⟨?_, hsnapshot⟩
        obtain ⟨j, hwhole, hbody⟩ := indexOf_snapshotResponse body
        have hsame := indexOf_of_isPrefix headerEnd_ne_nil hstarts hindex
        obtain rfl := Option.some.inj (hsame.symm.trans hwhole)
        have hroom := add_length_le hindex
        rw [headerEnd_length] at hroom
        obtain ⟨rest, hrest⟩ := hstarts
        rw [← hbody, ← hrest, List.drop_append_of_le_length hroom]
        exact List.prefix_append _ _
      · cases h
    · cases h

end Judge

end QMdmmCtl
