import Yasouos.Net.Print

/-!
# The text of the packet dump

What the programs of `Print` write: numbers, lines, and the text of a loop. A program that reads only
bytes of the frame writes a text; what it writes is computed piece by piece.

## The model

`Inline` is a program that writes text without an end of line, `FirstLine` one that writes one line
before it goes on as another program does.

## What is proved

`run_byte_bind` and its kin replace a read inside the frame by the byte; `netPrintDecimal_eq` gives the
text of a number.
-/

namespace Yasouos.Net.Print

open Yasouos.Theory

/-! ### Numbers -/

/-- The text of a number. -/
def decimal (value : ℕ) : List Char := if value = 0 then ['0'] else (digits value).reverse

theorem netPrintDecimal_eq (value : ℕ) : netPrintDecimal value = emit (decimal value) := by
  rw [netPrintDecimal, decimal]
  by_cases h : value = 0 <;> simp [h]

theorem digit_eq_digitChar : ∀ v < 10, digit v = Nat.digitChar v := by decide

/-- The digits that the loop finds, turned round, are the numeral. -/
theorem reverse_digits {value : ℕ} (h : 0 < value) : (digits value).reverse = Nat.toDigits 10 value := by
  induction value using Nat.strongRecOn with
  | ind value ih =>
    rw [digits, if_pos h, List.reverse_cons, digit_eq_digitChar _ (Nat.mod_lt _ (by decide))]
    by_cases hlt : value < 10
    · have hzero : value / 10 = 0 := by omega
      rw [Nat.toDigits_of_lt_base hlt, hzero, digits, if_neg (by omega), Nat.mod_eq_of_lt hlt]
      rfl
    · rw [Nat.toDigits_of_base_le (by decide) (Nat.not_lt.1 hlt), ih (value / 10) (by omega) (by omega)]

/-- The text of a number is its decimal numeral. -/
theorem decimal_eq_toDigits (value : ℕ) : decimal value = Nat.toDigits 10 value := by
  rw [decimal]
  split_ifs with h0
  · rw [h0, Nat.toDigits_zero]
  · exact reverse_digits (Nat.pos_of_ne_zero h0)

theorem isDigit_of_mem_decimal {value : ℕ} {c : Char} (h : c ∈ decimal value) : c.isDigit = true := by
  rw [decimal_eq_toDigits] at h
  exact Nat.isDigit_of_mem_toDigits (by decide) (by decide) h

theorem decimal_ne_nil (value : ℕ) : decimal value ≠ [] := by
  rw [decimal_eq_toDigits]
  exact Nat.toDigits_ne_nil

theorem foldl_decimal (value : ℕ) : (decimal value).foldl (fun v c => 10 * v + (c.toNat - 48)) 0 = value := by
  rw [decimal_eq_toDigits]
  exact Nat.ofDigitChars_ten_toDigits

/-! ### Lines -/

/-- The program writes text without an end of line. -/
def Inline (p : Print Unit) : Prop := ∃ text, p.run = some ((), text) ∧ '\n' ∉ text

/-- The program writes one line, and then does what `q` does. -/
def FirstLine (p q : Print Unit) : Prop :=
  ∃ line, '\n' ∉ line ∧ p.run = q.run.map fun r => (r.1, line ++ '\n' :: r.2)

section Lines

variable {frame : List UInt8} {α β : Type} {p q : Print Unit}

theorem run_byte_bind {i : ℕ} (h : i < frame.length) (f : UInt8 → Print α) :
    (byte frame i >>= f).run = (f (bufOf frame i)).run := by
  have hbyte : (byte frame i).run = some (bufOf frame i, []) := by simp [byte, bufOf, h]
  rw [run_bind, hbyte]
  cases hf : (f (bufOf frame i)).run <;> simp [hf]

theorem run_readNtohs_bind {o : ℕ} (h : o + 1 < frame.length) (f : UInt16 → Print α) :
    (readNtohs frame o >>= f).run = (f (ntohsUnaligned (bufOf frame) o)).run := by
  simp only [readNtohs, bind_assoc, pure_bind]
  rw [run_byte_bind (by omega), run_byte_bind h]
  rfl

theorem run_readNtohl_bind {o : ℕ} (h : o + 3 < frame.length) (f : UInt32 → Print α) :
    (readNtohl frame o >>= f).run = (f (ntohlUnaligned (bufOf frame) o)).run := by
  simp only [readNtohl, bind_assoc, pure_bind]
  rw [run_byte_bind (by omega), run_byte_bind (by omega), run_byte_bind (by omega), run_byte_bind h]
  rfl

theorem run_emit_bind (text : List Char) (f : Unit → Print α) :
    (emit text >>= f).run = (f ()).run.map fun r => (r.1, text ++ r.2) := rfl

/-- What follows text that is known. -/
theorem run_seq {text : List Char} (hp : p.run = some ((), text)) (f : Unit → Print α) :
    (p >>= f).run = (f ()).run.map fun r => (r.1, text ++ r.2) := by
  rw [run_bind, hp]
  rfl

/-- A loop writes what its turns write. -/
theorem run_forM {l : List ℕ} {body : ℕ → Print Unit} {text : ℕ → List Char}
    (h : ∀ i ∈ l, (body i).run = some ((), text i)) : (l.forM body).run = some ((), l.flatMap text) := by
  induction l with
  | nil => rfl
  | cons i l ih =>
    have hcons : (i :: l).forM body = (body i >>= fun _ => l.forM body) := rfl
    rw [hcons, run_bind, h i (by simp), Option.bind_some, ih fun j hj => h j (by simp [hj])]
    rfl

/-- What a program that did not fault was made of. -/
theorem exists_of_run_bind {p : Print α} {f : α → Print β} {b : β} {text : List Char}
    (h : (p >>= f).run = some (b, text)) : ∃ a t t', p.run = some (a, t) ∧ (f a).run = some (b, t') := by
  rw [run_bind] at h
  obtain ⟨⟨a, t⟩, hp, hf⟩ := Option.bind_eq_some_iff.1 h
  obtain ⟨⟨b', t'⟩, hb, heq⟩ := Option.map_eq_some_iff.1 hf
  obtain ⟨rfl, -⟩ := Prod.mk.inj heq
  exact ⟨a, t, t', hp, hb⟩

/-- A byte that was read is in the frame. -/
theorem of_run_byte_bind {i : ℕ} {f : UInt8 → Print β} {r : β × List Char} (h : (byte frame i >>= f).run = some r) :
    i < frame.length ∧ (f (bufOf frame i)).run = some r := by
  have hinside : Inside (byte frame i >>= f) := by rw [Inside, h]; rfl
  have hi := ((inside_byte_bind i f).1 hinside).1
  exact ⟨hi, (run_byte_bind hi f).symm.trans h⟩

theorem inline_emit {text : List Char} (h : '\n' ∉ text) : Inline (emit text) := ⟨text, rfl, h⟩

theorem Inline.seq {f : Unit → Print Unit} (hp : Inline p) (hf : Inline (f ())) : Inline (p >>= f) := by
  obtain ⟨t, ht, htn⟩ := hp
  obtain ⟨u, hu, hun⟩ := hf
  refine ⟨t ++ u, ?_, ?_⟩
  · rw [run_bind, ht]
    simp [hu]
  · simp [htn, hun]

theorem Inline.forM {l : List ℕ} {body : ℕ → Print Unit} (h : ∀ i ∈ l, Inline (body i)) : Inline (l.forM body) := by
  induction l with
  | nil => exact ⟨[], rfl, by simp⟩
  | cons i l ih =>
    have hcons : (i :: l).forM body = (body i >>= fun _ => l.forM body) := rfl
    rw [hcons]
    exact (h i (by simp)).seq (ih fun j hj => h j (by simp [hj]))

theorem FirstLine.seq {f : Unit → Print Unit} (hp : Inline p) (hf : FirstLine (f ()) q) : FirstLine (p >>= f) q := by
  obtain ⟨t, ht, htn⟩ := hp
  obtain ⟨line, hline, hrun⟩ := hf
  refine ⟨t ++ line, by simp [htn, hline], ?_⟩
  rw [run_bind, ht]
  simp [hrun, Option.map_map, Function.comp_def]

theorem FirstLine.newline (f : Unit → Print Unit) : FirstLine (puts "\n" >>= f) (f ()) :=
  ⟨[], by simp, rfl⟩

theorem FirstLine.congr {p' : Print Unit} (hp : p.run = p'.run) (h : FirstLine p' q) : FirstLine p q := by
  obtain ⟨line, hline, hrun⟩ := h
  exact ⟨line, hline, hp.trans hrun⟩

theorem FirstLine.congr_rest {q' : Print Unit} (h : FirstLine p q) (hq : q.run = q'.run) : FirstLine p q' := by
  obtain ⟨line, hline, hrun⟩ := h
  exact ⟨line, hline, hrun.trans (by rw [hq])⟩

theorem exists_run_of_inside (h : Inside p) : ∃ text, p.run = some ((), text) := by
  obtain ⟨r, hr⟩ := Option.isSome_iff_exists.1 h
  exact ⟨r.2, hr⟩

end Lines

/-! ### The pieces of a line -/

theorem hexChar_ne (value : ℕ) : hexChar value ≠ '\n' := by
  by_cases h : value < 16
  · have hall : ∀ v < 16, hexChar v ≠ '\n' := by decide
    exact hall value h
  · rw [hexChar, List.getD_eq_default _ _ (by simpa using h)]
    decide

theorem digit_ne : ∀ v < 256, digit v ≠ '\n' := by decide +kernel

theorem inline_putHex8 (value : UInt8) : Inline (putHex8 value) :=
  inline_emit (by simp [(hexChar_ne _).symm])

theorem inline_putHex16 (value : UInt16) : Inline (putHex16 value) :=
  inline_emit (by simp [(hexChar_ne _).symm])

theorem inline_pad (n : ℕ) : Inline (pad n) := inline_emit (by simp [List.mem_replicate])

theorem inline_netPrintDecimal (value : ℕ) : Inline (netPrintDecimal value) := by
  rw [netPrintDecimal_eq]
  apply inline_emit
  intro h
  exact absurd (isDigit_of_mem_decimal h) (by decide)

theorem inline_netPrintDecimalU8 (value : UInt8) : Inline (netPrintDecimalU8 value) := by
  have hdigit : ∀ v : UInt8, '\n' ≠ digit v.toNat := fun v => (digit_ne _ v.toNat_lt).symm
  rw [netPrintDecimalU8]
  split_ifs
  · exact inline_emit (by simp only [List.mem_cons, hdigit, List.not_mem_nil, or_self, not_false_eq_true])
  · exact inline_emit (by simp only [List.mem_cons, hdigit, List.not_mem_nil, or_self, not_false_eq_true])
  · exact inline_emit (by simp only [List.mem_cons, hdigit, List.not_mem_nil, or_self, not_false_eq_true])

theorem inline_puts {s : String} (h : '\n' ∉ s.toList) : Inline (puts s) := inline_emit h

theorem inline_netPrintIp (ip : UInt32) : Inline (netPrintIp ip) := by
  have hdot : Inline (puts ".") := inline_puts (by decide)
  exact (inline_netPrintDecimalU8 _).seq (hdot.seq ((inline_netPrintDecimalU8 _).seq (hdot.seq
    ((inline_netPrintDecimalU8 _).seq (hdot.seq (inline_netPrintDecimalU8 _))))))

theorem inline_netPrintMac {frame : List UInt8} {o : ℕ} (h : o + 5 < frame.length) : Inline (netPrintMac frame o) := by
  apply Inline.forM
  intro i hi
  have hi : i < 6 := List.mem_range.1 hi
  obtain ⟨text, hrun, hnew⟩ : Inline (putHex8 (bufOf frame (o + i)) >>= fun _ => if i < 5 then puts ":" else pure ()) := by
    refine (inline_putHex8 _).seq ?_
    split_ifs
    · exact inline_puts (by decide)
    · exact ⟨[], rfl, by simp⟩
  exact ⟨text, (run_byte_bind (by omega) _).trans hrun, hnew⟩

end Yasouos.Net.Print
