import Mathlib.Data.List.TakeWhile

/-!
# Scanning a string for tokens

A string is a list of characters, some of which are separators; its tokens are the longest
pieces without a separator. A scanner that has a pointer into the string does not cut it into
pieces: it skips separators, looks at what follows, and goes on behind the next token.

## The model

`tokens` cuts the string at every separator and drops the empty pieces. `skip` and
`afterWord` are the two loops of a scanner, and `word` is what it goes past.

## What is proved

`tokens_of_skip_ne_nil` says that the scanner finds the tokens one by one, and
`length_afterWord_skip_lt` that it comes to an end. `isPrefix_word_iff` lets it compare with a
literal at the pointer where the specification compares within the token.
-/

namespace Yasouos.Theory

/-- The blanks of a command line. -/
def isBlank (c : Char) : Bool := c == ' ' || c == '\t'

variable {α : Type} (sep : α → Bool)

/-- The tokens of a string. -/
def tokens (s : List α) : List (List α) := (s.splitOnP sep).filter fun t => !t.isEmpty

/-- Skip separators. -/
def skip (s : List α) : List α := s.dropWhile sep

/-- The rest of the token that the string is in. -/
def word (s : List α) : List α := s.takeWhile fun c => !sep c

/-- What follows it. -/
def afterWord (s : List α) : List α := s.dropWhile fun c => !sep c

variable {sep} {s t p : List α} {c : α}

theorem word_append_afterWord (s : List α) : word sep s ++ afterWord sep s = s := List.takeWhile_append_dropWhile

theorem sep_of_mem_word (h : c ∈ word sep s) : sep c = false := by
  simpa using List.mem_takeWhile_imp h

/-! ### The tokens, one by one -/

@[simp] theorem tokens_nil : tokens sep ([] : List α) = [] := rfl

theorem tokens_cons_of_sep (h : sep c = true) (s : List α) : tokens sep (c :: s) = tokens sep s := by
  simp [tokens, List.splitOnP_cons_eq_if_modifyHead, h]

theorem tokens_skip (s : List α) : tokens sep (skip sep s) = tokens sep s := by
  induction s with
  | nil => rfl
  | cons c s ih =>
    by_cases h : sep c = true
    · rw [tokens_cons_of_sep h, ← ih]
      simp [skip, List.dropWhile_cons_of_pos h]
    · rw [skip, List.dropWhile_cons_of_neg h]

theorem tokens_of_skip_eq_nil (h : skip sep s = []) : tokens sep s = [] := by
  rw [← tokens_skip, h, tokens_nil]

/-- The empty pieces are nothing to a reader that finds nothing in them. -/
theorem filterMap_splitOnP {β : Type} {f : List α → Option β} (hf : f [] = none) (s : List α) :
    (s.splitOnP sep).filterMap f = (tokens sep s).filterMap f := by
  rw [tokens]
  induction s.splitOnP sep with
  | nil => rfl
  | cons t ts ih =>
    cases t with
    | nil => simp [hf, ih]
    | cons c r => simp [List.filterMap_cons, ih]

/-- A token, and the rest of the string. -/
theorem tokens_append (ht : ∀ c ∈ t, sep c = false) (hne : t ≠ []) (hs : ∀ c ∈ s.head?, sep c = true) :
    tokens sep (t ++ s) = t :: tokens sep s := by
  cases s with
  | nil => simp [tokens, List.splitOnP_eq_singleton ht, hne]
  | cons c s =>
    have hc : sep c = true := hs c rfl
    rw [tokens_cons_of_sep hc, tokens, List.splitOnP_append_cons_of_forall_mem ht c hc]
    simp [tokens, hne]

theorem head?_afterWord (s : List α) : ∀ c ∈ (afterWord sep s).head?, sep c = true := by
  intro c hc
  have h := List.head?_dropWhile_not (fun c => !sep c) s
  rw [afterWord] at hc
  rw [Option.mem_def.1 hc] at h
  simpa using h

theorem head?_skip (s : List α) : ∀ c ∈ (skip sep s).head?, sep c = false := by
  intro c hc
  have h := List.head?_dropWhile_not sep s
  rw [skip] at hc
  rw [Option.mem_def.1 hc] at h
  simpa using h

theorem word_skip_ne_nil (h : skip sep s ≠ []) : word sep (skip sep s) ≠ [] := by
  obtain ⟨c, r, hr⟩ := List.exists_cons_of_ne_nil h
  have hc : sep c = false := head?_skip s c (by simp [hr])
  simp [hr, word, hc]

/-- Where the scanner stops skipping, it stands at a token. -/
theorem tokens_of_skip_ne_nil (h : skip sep s ≠ []) :
    tokens sep s = word sep (skip sep s) :: tokens sep (afterWord sep (skip sep s)) := by
  have e := tokens_append (fun _ => sep_of_mem_word) (word_skip_ne_nil h) (head?_afterWord (skip sep s))
  rw [word_append_afterWord, tokens_skip] at e
  exact e

/-! ### The scan comes to an end -/

theorem length_afterWord_le (sep : α → Bool) (s : List α) : (afterWord sep s).length ≤ s.length := List.length_dropWhile_le _ _

theorem length_skip_le (sep : α → Bool) (s : List α) : (skip sep s).length ≤ s.length := List.length_dropWhile_le _ _

theorem length_afterWord_lt (h : word sep s ≠ []) : (afterWord sep s).length < s.length := by
  have e : (word sep s ++ afterWord sep s).length = s.length := by rw [word_append_afterWord]
  have hpos := List.length_pos_iff.2 h
  rw [List.length_append] at e
  omega

theorem length_afterWord_skip_lt (h : s ≠ []) : (afterWord sep (skip sep s)).length < s.length := by
  by_cases hs : skip sep s = []
  · rw [hs]
    exact List.length_pos_iff.2 h
  · exact Nat.lt_of_lt_of_le (length_afterWord_lt (word_skip_ne_nil hs)) (length_skip_le sep s)

/-! ### Comparing with a literal -/

theorem word_append (hp : ∀ c ∈ p, sep c = false) (s : List α) : word sep (p ++ s) = p ++ word sep s := by
  rw [word, List.takeWhile_append_of_pos]
  · rfl
  · intro c hc
    simp [hp c hc]

theorem isPrefix_word_iff (hp : ∀ c ∈ p, sep c = false) : p <+: word sep s ↔ p <+: s := by
  constructor
  · intro h
    exact h.trans (List.takeWhile_prefix _)
  · rintro ⟨r, rfl⟩
    rw [word_append hp]
    exact List.prefix_append _ _

/-! ### Words between blanks -/

/-- A literal without blanks. -/
theorem isBlank_of_all {text : List Char} (h : text.all (fun c => !isBlank c) = true) : ∀ c ∈ text, isBlank c = false := by
  intro c hc
  simpa using List.all_eq_true.1 h c hc

/-- The word ends here: end of the string, space or tab. -/
def endsWord (pos : List Char) : Bool := pos.head?.all isBlank

theorem word_eq_nil_iff {pos : List Char} : word isBlank pos = [] ↔ endsWord pos = true := by
  cases pos with
  | nil => simp [word, endsWord]
  | cons c r => cases h : isBlank c <;> simp [word, endsWord, h]

end Yasouos.Theory
