import Yasouos.Theory.Decimal

/-!
# Messages of HTTP/1.1

A message is a start line, header fields and a body. Every line ends with CR LF, an empty line ends
the header, and the field `Content-Length` says how long the body is.

## The model

`HttpMessage.render` writes a message, `readMessage` reads one from the front of a stream and gives
what follows it.

## What is proved

`readMessage_render`: a message that is well-formed is read back, and nothing of what follows is
taken for a part of it.
-/

namespace Yasouos.Theory

/-- The bytes of a text. -/
def textBytes (s : String) : List UInt8 := s.toList.map fun c => UInt8.ofNat c.toNat

/-- The end of a line. -/
abbrev crlf : List UInt8 := [0x0d, 0x0a]

/-- A header field: its name and its value. -/
abbrev HttpField := List UInt8 × List UInt8

/-- A message. -/
structure HttpMessage where
  /-- The request line or the status line. -/
  start : List UInt8
  /-- The header fields. -/
  fields : List HttpField
  /-- The body. -/
  body : List UInt8

/-! ### Reading -/

/-- The first line, and what follows it. -/
def readLine : List UInt8 → Option (List UInt8 × List UInt8)
  | b :: c :: l => if b = 0x0d ∧ c = 0x0a then some ([], l) else (readLine (c :: l)).map fun r => (b :: r.1, r.2)
  | _ => none

/-- A field has a name, a colon and, behind blanks, a value. -/
def readField (line : List UInt8) : Option HttpField :=
  let name := line.takeWhile (· != 0x3a)
  let value := line.dropWhile (· != 0x3a)
  if name = [] ∨ value = [] then none else some (name, (value.drop 1).dropWhile (· == 0x20))

/-- The fields up to an empty line, at most a given number of lines. -/
def readFields : ℕ → List UInt8 → Option (List HttpField × List UInt8)
  | 0, _ => none
  | n + 1, bytes => do
    let (line, rest) ← readLine bytes
    if line = [] then return ([], rest)
    else
      let field ← readField line
      let (fields, rest) ← readFields n rest
      return (field :: fields, rest)

/-- A letter in lower case. -/
def lowerByte (b : UInt8) : UInt8 := if 0x41 ≤ b ∧ b ≤ 0x5a then b + 0x20 else b

/-- The number in the field `Content-Length`, in whichever case it is written. -/
def contentLength (fields : List HttpField) : Option ℕ := do
  let field ← fields.find? fun f => f.1.map lowerByte == textBytes "content-length"
  readNumeral field.2

/-- The first message of a stream, and what follows it. -/
def readMessage (bytes : List UInt8) : Option (HttpMessage × List UInt8) := do
  let (start, rest) ← readLine bytes
  let (fields, rest) ← readFields bytes.length rest
  let n ← contentLength fields
  if n ≤ rest.length then return (⟨start, fields, rest.take n⟩, rest.drop n) else none

/-- The code and the reason of a status line. -/
def readStatusLine (l : List UInt8) : Option (ℕ × List UInt8) :=
  let code := (l.drop 9).take 3
  if l.take 9 = textBytes "HTTP/1.1 " ∧ code.length = 3 ∧ code.all isDigit ∧ l[12]? = some 0x20 then
    some (decimalValue code, l.drop 13)
  else none

/-! ### Writing -/

/-- A field on a line of its own. -/
def renderField (f : HttpField) : List UInt8 := f.1 ++ [0x3a, 0x20] ++ f.2 ++ crlf

/-- The bytes of a message. -/
def HttpMessage.render (m : HttpMessage) : List UInt8 :=
  m.start ++ crlf ++ (m.fields.flatMap renderField ++ (crlf ++ m.body))

/-- A field that can be read back. -/
structure FieldOk (f : HttpField) : Prop where
  name_ne_nil : f.1 ≠ []
  no_colon : 0x3a ∉ f.1
  no_blank : f.2.head? ≠ some 0x20
  no_cr : 0x0d ∉ f.1 ∧ 0x0d ∉ f.2

/-- A message that can be read back. -/
structure HttpMessage.WellFormed (m : HttpMessage) : Prop where
  start_no_cr : 0x0d ∉ m.start
  fields_ok : ∀ f ∈ m.fields, FieldOk f
  length_eq : contentLength m.fields = some m.body.length

/-! ### What is written is read back -/

theorem readLine_append {line : List UInt8} (h : 0x0d ∉ line) (rest : List UInt8) :
    readLine (line ++ (crlf ++ rest)) = some (line, rest) := by
  induction line with
  | nil => simp [readLine]
  | cons b line ih =>
    have hb : b ≠ 0x0d := fun e => h (by simp [e])
    have hline := ih fun e => h (by simp [e])
    -- the next byte is of the line, or the CR behind it
    obtain ⟨c, l, hcons⟩ : ∃ c l, line ++ (crlf ++ rest) = c :: l := by
      cases line with
      | nil => exact ⟨_, _, rfl⟩
      | cons c line => exact ⟨_, _, rfl⟩
    rw [hcons] at hline
    rw [List.cons_append, hcons, readLine, if_neg (fun h' => hb h'.1), hline]
    rfl

theorem readField_render {f : HttpField} (h : FieldOk f) : readField (f.1 ++ [0x3a, 0x20] ++ f.2) = some f := by
  have hname : ∀ b ∈ f.1, (b != 0x3a) = true := by
    intro b hb
    rw [bne_iff_ne]
    exact fun e => h.no_colon (e ▸ hb)
  have hvalue : f.2.dropWhile (· == 0x20) = f.2 := by
    cases hf : f.2 with
    | nil => rfl
    | cons b value =>
      have hb : b ≠ 0x20 := fun e => h.no_blank (by simp [hf, e])
      exact List.dropWhile_cons_of_neg (by simpa using hb)
  rw [readField, List.append_assoc, List.takeWhile_append_of_pos hname, List.dropWhile_append_of_pos hname]
  simp [h.name_ne_nil, hvalue]

theorem readFields_render {fields : List HttpField} (h : ∀ f ∈ fields, FieldOk f) {n : ℕ} (hn : fields.length < n)
    (rest : List UInt8) : readFields n (fields.flatMap renderField ++ (crlf ++ rest)) = some (fields, rest) := by
  induction fields generalizing n with
  | nil =>
    obtain ⟨n, rfl⟩ := Nat.exists_eq_add_one_of_ne_zero (Nat.ne_of_gt hn)
    rfl
  | cons f fields ih =>
    obtain ⟨n, rfl⟩ := Nat.exists_eq_add_one_of_ne_zero (Nat.ne_zero_of_lt hn)
    have hf := h f (by simp)
    have hcr : 0x0d ∉ f.1 ++ [0x3a, 0x20] ++ f.2 := by simp [hf.no_cr.1, hf.no_cr.2]
    have hne : f.1 ++ [0x3a, 0x20] ++ f.2 ≠ [] := by simp
    have hfields := ih (fun g hg => h g (by simp [hg])) (n := n) (by simpa using hn)
    rw [List.flatMap_cons, renderField, List.append_assoc, List.append_assoc, readFields, readLine_append hcr]
    simp only [Option.bind_eq_bind, Option.bind_some, hne, if_false, readField_render hf, hfields]
    rfl

theorem length_fields_lt (m : HttpMessage) (next : List UInt8) : m.fields.length < (m.render ++ next).length := by
  have hfields : ∀ fields : List HttpField, fields.length ≤ (fields.flatMap renderField).length := by
    intro fields
    induction fields with
    | nil => simp
    | cons f fields ih =>
      simp only [List.flatMap_cons, List.length_append, List.length_cons, renderField]
      omega
  have h := hfields m.fields
  simp only [HttpMessage.render, List.length_append, List.length_cons]
  omega

/-- A message that is well-formed is read back, and so is what follows it. -/
theorem readMessage_render {m : HttpMessage} (h : m.WellFormed) (next : List UInt8) :
    readMessage (m.render ++ next) = some (m, next) := by
  have hfuel := length_fields_lt m next
  have hbytes : m.render ++ next = m.start ++ (crlf ++ (m.fields.flatMap renderField ++ (crlf ++ (m.body ++ next)))) := by
    simp only [HttpMessage.render, List.append_assoc]
  rw [readMessage]
  generalize (m.render ++ next).length = fuel at hfuel
  rw [hbytes, readLine_append h.start_no_cr]
  simp only [Option.bind_eq_bind, Option.bind_some, readFields_render h.fields_ok hfuel, h.length_eq]
  simp

end Yasouos.Theory
