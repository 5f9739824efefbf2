import Mathlib.Algebra.Group.Nat.Defs
import Mathlib.Data.List.Basic
import Mathlib.Data.List.TakeWhile
import Mathlib.Tactic.SplitIfs

/-!
# Hexdumps

A dump of bytes as text: lines with an offset, sixteen bytes in two groups of eight columns, and the
same bytes once more as characters. Where the last line has fewer bytes, blanks stand in their columns.

## The model

`DumpLine.render` writes a line, `readDumpLine` reads one; `readDump` reads lines that all have an end.
A reader is asked for more than a writer: an empty column must have only empty columns behind it.

## What is proved

`readDump_render`: lines are read back as they were.
-/

namespace Yasouos.Theory

/-- The characters of hexadecimal digits. -/
def hexDigits : List Char := "0123456789abcdef".toList

/-- The character of a hexadecimal digit. -/
def hexDigit (v : ℕ) : Char := hexDigits.getD v ' '

/-- A line of a dump. -/
structure DumpLine where
  /-- Where its bytes are. -/
  offset : ℕ
  /-- The bytes. -/
  bytes : List UInt8
  /-- The bytes as characters. -/
  text : List Char
  deriving DecidableEq

/-! ### Writing -/

/-- A group of columns: two digits and a blank for a byte, three blanks where there is none. -/
def columns : ℕ → List UInt8 → List Char
  | 0, _ => []
  | n + 1, [] => ' ' :: ' ' :: ' ' :: columns n []
  | n + 1, b :: l => hexDigit (b.toNat / 16) :: hexDigit (b.toNat % 16) :: ' ' :: columns n l

/-- One column: of the byte at an index, if there is one. -/
def column (l : List UInt8) (i : ℕ) : List Char :=
  match l[i]? with
  | some b => [hexDigit (b.toNat / 16), hexDigit (b.toNat % 16), ' ']
  | none => [' ', ' ', ' ']

/-- A number of four digits. -/
def hexNumber (v : ℕ) : List Char :=
  [hexDigit (v / 2 ^ 12), hexDigit (v / 2 ^ 8 % 16), hexDigit (v / 2 ^ 4 % 16), hexDigit (v % 16)]

/-- A line, without its end. -/
def DumpLine.render (indent : ℕ) (l : DumpLine) : List Char :=
  List.replicate indent ' ' ++ ("0x".toList ++ (hexNumber l.offset ++ (":  ".toList ++ (columns 8 (l.bytes.take 8) ++
    (" ".toList ++ (columns 8 (l.bytes.drop 8) ++ (" ".toList ++ l.text)))))))

/-- Lines with their ends. -/
def renderLines (lines : List (List Char)) : List Char := lines.flatMap fun l => l ++ ['\n']

/-! ### Reading -/

/-- The value of a digit. -/
def readHexDigit (c : Char) : Option ℕ := hexDigits.idxOf? c

/-- A number of a given number of digits, and what follows it. -/
def readHex : ℕ → ℕ → List Char → Option (ℕ × List Char)
  | 0, v, t => some (v, t)
  | n + 1, v, c :: t => do
    let d ← readHexDigit c
    readHex n (v * 16 + d) t
  | _, _, [] => none

/-- What follows a literal. -/
def expectText (literal t : List Char) : Option (List Char) :=
  if literal <+: t then some (t.drop literal.length) else none

/-- The bytes of a group of columns, and what follows it. -/
def readColumns : ℕ → List Char → Option (List UInt8 × List Char)
  | 0, t => some ([], t)
  | n + 1, a :: b :: c :: t =>
    if c ≠ ' ' then none
    else if a = ' ' ∧ b = ' ' then do
      let (l, t) ← readColumns n t
      if l = [] then return ([], t) else none
    else do
      let hi ← readHexDigit a
      let lo ← readHexDigit b
      let (l, t) ← readColumns n t
      return (UInt8.ofNat (hi * 16 + lo) :: l, t)
  | _, _ => none

/-- A line, without its end. -/
def readDumpLine (line : List Char) : Option DumpLine := do
  let t ← expectText "0x".toList (line.dropWhile (· == ' '))
  let (offset, t) ← readHex 4 0 t
  let t ← expectText ":  ".toList t
  let (first, t) ← readColumns 8 t
  let t ← expectText " ".toList t
  let (second, t) ← readColumns 8 t
  let t ← expectText " ".toList t
  if first.length < 8 ∧ second ≠ [] then none else return ⟨offset, first ++ second, t⟩

/-- The lines of a text that ends with a line. -/
def readLines (text : List Char) : Option (List (List Char)) :=
  let pieces := text.splitOnP (· == '\n')
  if pieces.getLast? = some [] then some pieces.dropLast else none

/-- The lines of a dump. -/
def readDump (text : List Char) : Option (List DumpLine) := do
  let lines ← readLines text
  lines.mapM readDumpLine

/-! ### What is written is read back -/

theorem readHexDigit_hexDigit : ∀ v < 16, readHexDigit (hexDigit v) = some v := by decide

theorem hexDigit_ne_blank : ∀ v < 16, hexDigit v ≠ ' ' := by decide

theorem hexDigit_ne_newline : ∀ v < 16, hexDigit v ≠ '\n' := by decide

theorem expectText_append (literal t : List Char) : expectText literal (literal ++ t) = some t := by
  rw [expectText, if_pos (List.prefix_append _ _), List.drop_left]

theorem readHex_hexNumber {v : ℕ} (h : v < 2 ^ 16) (t : List Char) : readHex 4 0 (hexNumber v ++ t) = some (v, t) := by
  have h3 := readHexDigit_hexDigit (v / 2 ^ 12) (by omega)
  have h2 := readHexDigit_hexDigit (v / 2 ^ 8 % 16) (by omega)
  have h1 := readHexDigit_hexDigit (v / 2 ^ 4 % 16) (by omega)
  have h0 := readHexDigit_hexDigit (v % 16) (by omega)
  simp only [hexNumber, List.cons_append, List.nil_append, readHex, h3, h2, h1, h0, Option.bind_eq_bind, Option.bind_some,
    Option.some.injEq, Prod.mk.injEq, and_true]
  omega

theorem readColumns_columns {l : List UInt8} {n : ℕ} (h : l.length ≤ n) (t : List Char) :
    readColumns n (columns n l ++ t) = some (l, t) := by
  induction n generalizing l with
  | zero =>
    obtain rfl := List.length_eq_zero_iff.1 (Nat.le_zero.1 h)
    rfl
  | succ n ih =>
    cases l with
    | nil =>
      have hrest := ih (l := []) (Nat.zero_le n)
      simp [columns, readColumns, hrest]
    | cons b l =>
      have hb := b.toNat_lt
      have hrest := ih (l := l) (by simpa using h)
      have hhi : b.toNat / 16 < 16 := by omega
      have hlo : b.toNat % 16 < 16 := by omega
      have hbyte : UInt8.ofNat (b.toNat / 16) * 16 + UInt8.ofNat (b.toNat % 16) = b := by
        rw [show (16 : UInt8) = UInt8.ofNat 16 from rfl, ← UInt8.ofNat_mul, ← UInt8.ofNat_add, Nat.div_add_mod',
          UInt8.ofNat_toNat]
      simp [columns, readColumns, hrest, hexDigit_ne_blank _ hhi, readHexDigit_hexDigit _ hhi, readHexDigit_hexDigit _ hlo,
        hbyte]

/-- A group is its columns one after another. -/
theorem columns_eq_flatMap (n : ℕ) (l : List UInt8) : columns n l = (List.range n).flatMap (column l) := by
  induction n generalizing l with
  | zero => rfl
  | succ n ih =>
    rw [List.range_succ_eq_map, List.flatMap_cons, List.flatMap_map]
    cases l with
    | nil =>
      rw [columns, ih]
      rfl
    | cons b l =>
      rw [columns, ih]
      rfl

/-- Two groups, with the blank between them. -/
theorem columns_groups (l : List UInt8) :
    (List.range 16).flatMap (fun i => column l i ++ if i = 7 then [' '] else []) =
      columns 8 (l.take 8) ++ (" ".toList ++ columns 8 (l.drop 8)) := by
  have htake : ∀ i < 8, column (l.take 8) i = column l i := by
    intro i hi
    rw [column, List.getElem?_take_of_lt hi, column]
  have hdrop : ∀ i, column (l.drop 8) i = column l (8 + i) := by
    intro i
    rw [column, List.getElem?_drop, column]
  have hrange : List.range 8 = [0, 1, 2, 3, 4, 5, 6, 7] := by decide
  have hrange' : List.range 16 = [0, 1, 2, 3, 4, 5, 6, 7, 8, 9, 10, 11, 12, 13, 14, 15] := by decide
  rw [columns_eq_flatMap, columns_eq_flatMap, hrange, hrange']
  simp [htake, hdrop]

/-- A line that can be read back. -/
structure DumpLine.WellFormed (l : DumpLine) : Prop where
  offset_lt : l.offset < 2 ^ 16
  length_le : l.bytes.length ≤ 16
  one_line : '\n' ∉ l.text

theorem readDumpLine_render {l : DumpLine} (h : l.WellFormed) (indent : ℕ) : readDumpLine (l.render indent) = some l := by
  have hindent : ∀ t : List Char,
      (List.replicate indent ' ' ++ ("0x".toList ++ t)).dropWhile (· == ' ') = "0x".toList ++ t := by
    intro t
    rw [List.dropWhile_append_of_pos (by simp [List.mem_replicate])]
    rfl
  have hfirst : (l.bytes.take 8).length ≤ 8 := List.length_take_le _ _
  have hsecond : (l.bytes.drop 8).length ≤ 8 := by
    have := h.length_le
    rw [List.length_drop]
    omega
  have hgroups : ¬ ((l.bytes.take 8).length < 8 ∧ l.bytes.drop 8 ≠ []) := by
    rw [List.length_take, ne_eq, List.drop_eq_nil_iff]
    omega
  rw [readDumpLine, DumpLine.render, hindent, expectText_append]
  simp only [Option.bind_eq_bind, Option.bind_some, readHex_hexNumber h.offset_lt, expectText_append,
    readColumns_columns hfirst, readColumns_columns hsecond, if_neg hgroups, List.take_append_drop]
  rfl

theorem readLines_renderLines {lines : List (List Char)} (h : ∀ l ∈ lines, '\n' ∉ l) :
    readLines (renderLines lines) = some lines := by
  have hsplit : (renderLines lines).splitOnP (· == '\n') = lines ++ [[]] := by
    induction lines with
    | nil => rfl
    | cons l lines ih =>
      have hl : ∀ c ∈ l, (c == '\n') = false := by
        intro c hc
        rw [beq_eq_false_iff_ne]
        exact fun e => h l (by simp) (e ▸ hc)
      have hcons : renderLines (l :: lines) = l ++ '\n' :: renderLines lines := by simp [renderLines]
      rw [hcons, List.splitOnP_append_cons_of_forall_mem hl _ rfl, ih fun m hm => h m (by simp [hm])]
      rfl
  rw [readLines, hsplit]
  simp

theorem newline_not_mem_columns (n : ℕ) (l : List UInt8) : '\n' ∉ columns n l := by
  induction n generalizing l with
  | zero => simp [columns]
  | succ n ih =>
    cases l with
    | nil => simp [columns, ih]
    | cons b l =>
      have hb := b.toNat_lt
      have hhi := hexDigit_ne_newline (b.toNat / 16) (by omega)
      have hlo := hexDigit_ne_newline (b.toNat % 16) (by omega)
      simp [columns, ih, hhi.symm, hlo.symm]

theorem DumpLine.WellFormed.newline_not_mem_render {l : DumpLine} (h : l.WellFormed) (indent : ℕ) :
    '\n' ∉ l.render indent := by
  have hoffset := h.offset_lt
  have h3 := hexDigit_ne_newline (l.offset / 2 ^ 12) (by omega)
  have h2 := hexDigit_ne_newline (l.offset / 2 ^ 8 % 16) (by omega)
  have h1 := hexDigit_ne_newline (l.offset / 2 ^ 4 % 16) (by omega)
  have h0 := hexDigit_ne_newline (l.offset % 16) (by omega)
  have hliterals : '\n' ≠ ' ' ∧ '\n' ∉ "0x".toList ∧ '\n' ∉ ":  ".toList ∧ '\n' ∉ " ".toList := by decide
  simp only [DumpLine.render, hexNumber, List.mem_append, List.mem_replicate, List.mem_cons, List.not_mem_nil, h3.symm,
    h2.symm, h1.symm, h0.symm, newline_not_mem_columns, h.one_line, hliterals, and_false, or_self,
    not_false_eq_true]

/-- Lines are read back as they were. -/
theorem readDump_render {lines : List DumpLine} (h : ∀ l ∈ lines, l.WellFormed) (indent : ℕ) :
    readDump (renderLines (lines.map (DumpLine.render indent))) = some lines := by
  have hlines : readLines (renderLines (lines.map (DumpLine.render indent))) =
      some (lines.map (DumpLine.render indent)) := by
    apply readLines_renderLines
    intro text htext
    obtain ⟨l, hl, rfl⟩ := List.mem_map.1 htext
    exact (h l hl).newline_not_mem_render indent
  rw [readDump, hlines, Option.bind_eq_bind, Option.bind_some]
  clear hlines
  induction lines with
  | nil => rfl
  | cons l lines ih =>
    rw [List.map_cons, List.mapM_cons, readDumpLine_render (h l (by simp)), ih fun m hm => h m (by simp [hm])]
    rfl

end Yasouos.Theory
