import Yasouos.Theory.Tokens

/-!
# Log levels

`common/log.c`: tags with a level each, `log=<level>` and `log.<tag>=<level>` words on the
command line, and a list of overrides for the tags that are registered later.

## The model

`State` holds the static variables. A string is the list of its characters, and an override
holds the `name_len` characters at its `name` pointer, so that the comparison of lengths and
characters is equality. `logInit` walks the command line as the source does, with both tests at
every word; `logRegister` appends to the registry.

The meaning of a command line is its list of `Setting`s (`settingOf`, one word at a time).

## What is proved

`logInit_eq` says that `log_init` applies the settings one by one.
-/

namespace Yasouos.Common

open Yasouos.Theory

/-- `log_level_t`. -/
inductive Level where
  | error
  | warn
  | info
  | debug
  deriving DecidableEq, Repr

/-- `MAX_LOG_TAGS`. -/
abbrev maxLogTags : ℕ := 32

/-- `MAX_OVERRIDES`. -/
abbrev maxOverrides : ℕ := 16

/-- `struct log_tag`. -/
structure LogTag where
  name : List Char
  level : Level
  deriving DecidableEq, Repr

/-- An entry of `pending_overrides`. -/
structure Override where
  name : List Char
  level : Level
  deriving DecidableEq, Repr

/-- The static variables of `log.c`. -/
structure Log where
  /-- The first `tag_count` entries of `tag_registry`. -/
  tags : List LogTag
  /-- `global_level`. -/
  globalLevel : Level
  /-- `global_level_set`. -/
  globalLevelSet : Bool
  /-- The first `override_count` entries of `pending_overrides`. -/
  overrides : List Override
  deriving DecidableEq, Repr

/-- At boot. -/
def Log.boot : Log where
  tags := []
  globalLevel := .info
  globalLevelSet := false
  overrides := []

/-! ### `log.c` -/

/-- `parse_level`. -/
def parseLevel (s : List Char) (len : ℕ) : Option Level :=
  if len == 5 && "error".toList.isPrefixOf s then some .error
  else if len == 4 && "warn".toList.isPrefixOf s then some .warn
  else if len == 4 && "info".toList.isPrefixOf s then some .info
  else if len == 5 && "debug".toList.isPrefixOf s then some .debug
  else none

/-- `token_len`. -/
def tokenLen (s : List Char) : ℕ := (word isBlank s).length

/-- The level of the first override for the name. -/
def firstOverride (overrides : List Override) (name : List Char) : Option Level :=
  (overrides.find? fun o => name == o.name).map (·.level)

/-- `apply_overrides`. -/
def applyOverrides (overrides : List Override) (tag : LogTag) : LogTag :=
  { tag with level := (firstOverride overrides tag.name).getD tag.level }

/-- A valid `log=`. -/
def Log.setGlobal (s : Log) (lvl : Level) : Log :=
  { s with
    globalLevel := lvl
    globalLevelSet := true
    tags := s.tags.map fun tag => applyOverrides s.overrides { tag with level := lvl } }

/-- A valid `log.<tag>=`. -/
def Log.setTag (s : Log) (name : List Char) (lvl : Level) : Log :=
  if s.overrides.length < maxOverrides then
    { s with
      overrides := s.overrides ++ [⟨name, lvl⟩]
      tags := s.tags.map fun tag => if tag.name == name then { tag with level := lvl } else tag }
  else s

/-- The test for `log=` at a word of the command line. -/
def Log.globalWord (s : Log) (pos : List Char) : Log :=
  if "log=".toList.isPrefixOf pos && !endsWord (pos.drop 4) then
    let val := pos.drop 4
    match parseLevel val (tokenLen val) with
    | some lvl => s.setGlobal lvl
    | none => s
  else s

/-- The test for `log.<tag>=<level>`. -/
def Log.tagWord (s : Log) (pos : List Char) : Log :=
  if "log.".toList.isPrefixOf pos then
    let tagStart := pos.drop 4
    let eq := tagStart.dropWhile fun c => c != '=' && !isBlank c
    let nameLen := tagStart.length - eq.length
    if eq.head? == some '=' && 0 < nameLen then
      let val := eq.drop 1
      match parseLevel val (tokenLen val) with
      | some lvl => s.setTag (tagStart.take nameLen) lvl
      | none => s
    else s
  else s

/-- The loop of `log_init`. -/
def Log.scan (s : Log) (pos : List Char) : Log :=
  if _h : pos = [] then s
  else
    let pos := skip isBlank pos
    if pos = [] then s
    else ((s.globalWord pos).tagWord pos).scan (afterWord isBlank pos)
  termination_by pos.length
  decreasing_by exact length_afterWord_skip_lt _h

/-- `log_init`. The command line may be a null pointer. -/
def logInit (cmdline : Option (List Char)) (s : Log) : Log :=
  match cmdline with
  | none => s
  | some cmdline => s.scan cmdline

/-- `log_register`. Where the registry is full there is no tag. -/
def logRegister (name : List Char) (defaultLevel : Level) (s : Log) : Log :=
  if maxLogTags ≤ s.tags.length then s
  else
    let level := if s.globalLevelSet then s.globalLevel else defaultLevel
    { s with tags := s.tags ++ [applyOverrides s.overrides ⟨name, level⟩] }

/-! ### The settings of a command line -/

/-- What a word of the command line asks for. -/
inductive Setting where
  /-- `log=<level>`. -/
  | all (level : Level)
  /-- `log.<name>=<level>`. -/
  | tag (name : List Char) (level : Level)
  deriving DecidableEq, Repr

/-- The level that a text names. -/
def levelOf (text : List Char) : Option Level :=
  if text = "error".toList then some .error
  else if text = "warn".toList then some .warn
  else if text = "info".toList then some .info
  else if text = "debug".toList then some .debug
  else none

/-- The setting of a word behind `log.`. -/
def tagSetting (rest : List Char) : Option Setting :=
  let name := rest.takeWhile fun c => c != '='
  let value := rest.dropWhile fun c => c != '='
  if value ≠ [] ∧ name ≠ [] then (levelOf (value.drop 1)).map (.tag name) else none

/-- The setting that a word makes, if it makes one. -/
def settingOf (token : List Char) : Option Setting :=
  if "log=".toList.isPrefixOf token then (levelOf (token.drop 4)).map .all
  else if "log.".toList.isPrefixOf token then tagSetting (token.drop 4)
  else none

/-- The settings of a command line. -/
def settings (cmdline : List Char) : List Setting := (tokens isBlank cmdline).filterMap settingOf

/-- Apply one setting. -/
def Log.set (s : Log) : Setting → Log
  | .all lvl => s.setGlobal lvl
  | .tag name lvl => s.setTag name lvl

/-! ### One word, one setting -/

/-- The comparison of `parse_level`: length first, then characters. -/
theorem compareText_iff (text val : List Char) (ht : ∀ c ∈ text, isBlank c = false) :
    (tokenLen val == text.length && text.isPrefixOf val) = true ↔ word isBlank val = text := by
  rw [Bool.and_eq_true, beq_iff_eq, List.isPrefixOf_iff_prefix, ← isPrefix_word_iff ht]
  constructor
  · rintro ⟨hlen, hpre⟩
    exact (hpre.eq_of_length hlen.symm).symm
  · intro h
    rw [tokenLen, h]
    exact ⟨rfl, List.prefix_rfl⟩

theorem parseLevel_tokenLen (val : List Char) : parseLevel val (tokenLen val) = levelOf (word isBlank val) := by
  simp only [levelOf, ← compareText_iff "error".toList val (isBlank_of_all rfl),
    ← compareText_iff "warn".toList val (isBlank_of_all rfl),
    ← compareText_iff "info".toList val (isBlank_of_all rfl),
    ← compareText_iff "debug".toList val (isBlank_of_all rfl)]
  rfl

theorem globalWord_eq (s : Log) (pos : List Char) :
    s.globalWord pos =
      if "log=".toList <+: pos then ((levelOf ((word isBlank pos).drop 4)).map Setting.all).elim s s.set else s := by
  have hblank : ∀ c ∈ "log=".toList, isBlank c = false := isBlank_of_all rfl
  by_cases h : "log=".toList <+: pos
  · obtain ⟨val, rfl⟩ := h
    have hdrop : (word isBlank ("log=".toList ++ val)).drop 4 = word isBlank val := by
      rw [word_append hblank]
      rfl
    rw [if_pos (List.prefix_append _ _), hdrop, Log.globalWord]
    change (if !endsWord val then (match parseLevel val (tokenLen val) with | some lvl => _ | none => _) else s) = _
    rw [parseLevel_tokenLen]
    cases hend : endsWord val with
    | true =>
      rw [word_eq_nil_iff.2 hend]
      rfl
    | false => cases levelOf (word isBlank val) <;> rfl
  · rw [if_neg h, Log.globalWord, if_neg]
    rw [Bool.and_eq_true, List.isPrefixOf_iff_prefix]
    exact fun h' => h h'.1

theorem tagSetting_append {name : List Char} (hname : '=' ∉ name) (value : List Char) :
    tagSetting (name ++ '=' :: value) = if name ≠ [] then (levelOf value).map (.tag name) else none := by
  have hall : ∀ c ∈ name, (c != '=') = true := by
    intro c hc
    rw [bne_iff_ne]
    exact fun e => hname (e ▸ hc)
  simp [tagSetting, List.takeWhile_append_of_pos hall, List.dropWhile_append_of_pos hall]

theorem tagSetting_of_not_mem {rest : List Char} (h : '=' ∉ rest) : tagSetting rest = none := by
  have hall : rest.dropWhile (fun c => c != '=') = [] := by
    rw [List.dropWhile_eq_nil_iff]
    intro c hc
    rw [bne_iff_ne]
    exact fun e => h (e ▸ hc)
  simp [tagSetting, hall]

theorem tagWord_eq (s : Log) (pos : List Char) :
    s.tagWord pos = if "log.".toList <+: pos then (tagSetting ((word isBlank pos).drop 4)).elim s s.set else s := by
  have hblank : ∀ c ∈ "log.".toList, isBlank c = false := isBlank_of_all rfl
  by_cases h : "log.".toList <+: pos
  · obtain ⟨tagStart, rfl⟩ := h
    have hdrop : (word isBlank ("log.".toList ++ tagStart)).drop 4 = word isBlank tagStart := by
      rw [word_append hblank]
      rfl
    -- `eq` splits the text behind `log.` into the name and what stopped it
    obtain ⟨name, eq, heq, hsplit, hname⟩ : ∃ name eq, eq = tagStart.dropWhile (fun c => c != '=' && !isBlank c) ∧
        name ++ eq = tagStart ∧ ∀ c ∈ name, (c != '=' && !isBlank c) = true :=
      ⟨_, _, rfl, List.takeWhile_append_dropWhile, fun _ => List.mem_takeWhile_imp⟩
    have hlen : tagStart.length - eq.length = name.length := by simp [← hsplit]
    have htake : tagStart.take name.length = name := by simp [← hsplit]
    have hblank' : ∀ c ∈ name, isBlank c = false := by
      intro c hc
      simpa using (Bool.and_eq_true_iff.1 (hname c hc)).2
    have hmem : '=' ∉ name := by
      intro hc
      simpa using hname _ hc
    rw [if_pos (List.prefix_append _ _), hdrop, Log.tagWord,
      if_pos (List.isPrefixOf_iff_prefix.2 (List.prefix_append _ _))]
    have hstart : ("log.".toList ++ tagStart).drop 4 = tagStart := rfl
    have hword : word isBlank tagStart = name ++ word isBlank eq := by rw [← hsplit, word_append hblank']
    simp only [hstart, ← heq, hlen, htake, hword]
    by_cases hhead : eq.head? = some '='
    · obtain ⟨val, rfl⟩ : ∃ val, eq = '=' :: val := List.head?_eq_some_iff.1 hhead
      have hval : word isBlank ('=' :: val) = '=' :: word isBlank val := rfl
      simp only [hval, tagSetting_append hmem, List.drop_one, List.tail_cons, parseLevel_tokenLen]
      cases name with
      | nil => rfl
      | cons c name => cases levelOf (word isBlank val) <;> rfl
    · have hend : endsWord eq = true := by
        cases heq' : eq with
        | nil => rfl
        | cons c val =>
          have hstop := List.head?_dropWhile_not (fun c => c != '=' && !isBlank c) tagStart
          rw [← heq, heq'] at hstop
          have hne : c ≠ '=' := by simpa [heq'] using hhead
          simpa [endsWord, hne] using hstop
      have hnone : tagSetting (name ++ []) = none := tagSetting_of_not_mem (by simpa using hmem)
      simp only [word_eq_nil_iff.2 hend, hnone, beq_eq_false_iff_ne.2 hhead, Bool.false_and]
      rfl
  · rw [if_neg h, Log.tagWord, if_neg]
    rw [List.isPrefixOf_iff_prefix]
    exact h

/-- At a word, both tests of the loop together apply the setting that the word makes. -/
theorem tagWord_globalWord (s : Log) (pos : List Char) :
    (s.globalWord pos).tagWord pos = (settingOf (word isBlank pos)).elim s s.set := by
  have hall : "log=".toList.isPrefixOf (word isBlank pos) = true ↔ "log=".toList <+: pos := by
    rw [List.isPrefixOf_iff_prefix, isPrefix_word_iff (isBlank_of_all rfl)]
  have htag : "log.".toList.isPrefixOf (word isBlank pos) = true ↔ "log.".toList <+: pos := by
    rw [List.isPrefixOf_iff_prefix, isPrefix_word_iff (isBlank_of_all rfl)]
  rw [globalWord_eq, tagWord_eq]
  simp only [settingOf, hall, htag]
  by_cases h : "log=".toList <+: pos
  · have hnot : ¬ "log.".toList <+: pos := by
      intro h'
      exact absurd (List.prefix_of_prefix_length_le h h' (by decide)) (by decide)
    rw [if_pos h, if_neg hnot, if_pos h]
  · rw [if_neg h, if_neg h]
    by_cases h' : "log.".toList <+: pos
    · rw [if_pos h', if_pos h']
    · rw [if_neg h', if_neg h']
      rfl

/-- `log_init` applies the settings of the command line one by one. -/
theorem logInit_eq (cmdline : List Char) (s : Log) :
    logInit (some cmdline) s = (settings cmdline).foldl Log.set s := by
  rw [logInit, settings]
  fun_induction Log.scan s cmdline with
  | case1 => rfl
  | case2 s cmdline hne pos hpos => rw [tokens_of_skip_eq_nil hpos]; rfl
  | case3 s cmdline hne pos hpos ih =>
    rw [ih, tokens_of_skip_ne_nil hpos, List.filterMap_cons, tagWord_globalWord]
    cases settingOf (word isBlank pos) <;> rfl

end Yasouos.Common
