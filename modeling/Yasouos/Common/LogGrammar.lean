import Yasouos.Common.Log

/-!
# The words that `log_init` takes

`common/log.c` compares with `log=` and `log.` at a pointer into the command line, and measures
the level up to the next blank. What it accepts that way is a small grammar.

## The model

`Denotes` is the grammar: which setting a word stands for. `Interprets` reads the words one after
another; one that is not in the grammar changes nothing.

## What is proved

`interprets_iff_logInit` says that `log_init` does what the interpreter does, on every command
line and from every state.
-/

namespace Yasouos.Common

open Yasouos.Theory

/-- The name of a level. -/
def Level.text : Level → List Char
  | .error => "error".toList
  | .warn => "warn".toList
  | .info => "info".toList
  | .debug => "debug".toList

/-- The setting that a word stands for. -/
inductive Denotes : List Char → Setting → Prop where
  /-- `log=<level>`. -/
  | all (lvl : Level) : Denotes ("log=".toList ++ lvl.text) (.all lvl)
  /-- `log.<tag>=<level>`, where the tag is not empty and has no `=`. -/
  | tag {name : List Char} (lvl : Level) (hne : name ≠ []) (hname : '=' ∉ name) :
      Denotes ("log.".toList ++ (name ++ '=' :: lvl.text)) (.tag name lvl)

/-- Reading words in order: those of the grammar are applied, the others are passed over. -/
inductive Interprets : List (List Char) → Log → Log → Prop where
  | done (s : Log) : Interprets [] s s
  | apply {word : List Char} {rest : List (List Char)} {x : Setting} {s s' : Log} (hx : Denotes word x)
      (hrest : Interprets rest (s.set x) s') : Interprets (word :: rest) s s'
  | pass {word : List Char} {rest : List (List Char)} {s s' : Log} (hword : ∀ x, ¬ Denotes word x)
      (hrest : Interprets rest s s') : Interprets (word :: rest) s s'

/-! ### The grammar -/

theorem levelOf_eq_some_iff {text : List Char} {lvl : Level} : levelOf text = some lvl ↔ text = lvl.text := by
  constructor
  · intro h
    rw [levelOf] at h
    split_ifs at h with h1 h2 h3 h4
    all_goals
      obtain rfl := Option.some.inj h
      assumption
  · rintro rfl
    cases lvl <;> rfl

theorem tagSetting_eq_some_iff {rest : List Char} {x : Setting} :
    tagSetting rest = some x ↔ ∃ name lvl, name ≠ [] ∧ '=' ∉ name ∧ rest = name ++ '=' :: lvl.text ∧ x = .tag name lvl := by
  constructor
  · intro h
    by_cases hmem : '=' ∈ rest
    · -- the name ends at the first `=`
      obtain ⟨name, value, rfl, hname⟩ := List.eq_append_cons_of_mem hmem
      rw [tagSetting_append hname] at h
      split_ifs at h with hne
      obtain ⟨lvl, hlvl, rfl⟩ := Option.map_eq_some_iff.1 h
      exact ⟨name, lvl, hne, hname, by rw [levelOf_eq_some_iff.1 hlvl], rfl⟩
    · rw [tagSetting_of_not_mem hmem] at h
      exact absurd h (by simp)
  · rintro ⟨name, lvl, hne, hname, rfl, rfl⟩
    rw [tagSetting_append hname, if_pos hne, levelOf_eq_some_iff.2 rfl]
    rfl

theorem settingOf_tag (rest : List Char) : settingOf ("log.".toList ++ rest) = tagSetting rest := rfl

theorem settingOf_all (value : List Char) : settingOf ("log=".toList ++ value) = (levelOf value).map .all := rfl

/-- The words that make a setting are those of the grammar. -/
theorem settingOf_eq_some_iff {token : List Char} {x : Setting} : settingOf token = some x ↔ Denotes token x := by
  constructor
  · intro h
    rw [settingOf] at h
    split_ifs at h with hall htag
    · obtain ⟨value, rfl⟩ := List.isPrefixOf_iff_prefix.1 hall
      obtain ⟨lvl, hlvl, rfl⟩ := Option.map_eq_some_iff.1 h
      obtain rfl : value = lvl.text := levelOf_eq_some_iff.1 hlvl
      exact Denotes.all lvl
    · obtain ⟨rest, rfl⟩ := List.isPrefixOf_iff_prefix.1 htag
      obtain ⟨name, lvl, hne, hname, hrest, rfl⟩ := tagSetting_eq_some_iff.1 h
      obtain rfl : rest = name ++ '=' :: lvl.text := hrest
      exact Denotes.tag lvl hne hname
  · intro h
    cases h with
    | all lvl => cases lvl <;> rfl
    | @tag name lvl hne hname =>
      rw [settingOf_tag]
      exact tagSetting_eq_some_iff.2 ⟨name, lvl, hne, hname, rfl, rfl⟩

theorem not_denotes_iff {token : List Char} : (∀ x, ¬ Denotes token x) ↔ settingOf token = none := by
  rw [Option.eq_none_iff_forall_ne_some]
  constructor
  · intro h x hx
    exact h x (settingOf_eq_some_iff.1 hx)
  · intro h x hx
    exact h x (settingOf_eq_some_iff.2 hx)

/-! ### The interpreter -/

/-- The interpreter has exactly one result: it applies the settings one by one. -/
theorem interprets_iff_foldl (words : List (List Char)) (s s' : Log) :
    Interprets words s s' ↔ s' = (words.filterMap settingOf).foldl Log.set s := by
  constructor
  · intro h
    induction h with
    | done s => rfl
    | apply hx hrest ih => rw [List.filterMap_cons, settingOf_eq_some_iff.2 hx, List.foldl_cons, ih]
    | pass hword hrest ih => rw [List.filterMap_cons, not_denotes_iff.1 hword, ih]
  · rintro rfl
    induction words generalizing s with
    | nil => exact Interprets.done s
    | cons word words ih =>
      cases hword : settingOf word with
      | none =>
        rw [List.filterMap_cons, hword]
        exact Interprets.pass (not_denotes_iff.2 hword) (ih s)
      | some x =>
        rw [List.filterMap_cons, hword]
        exact Interprets.apply (settingOf_eq_some_iff.1 hword) (ih (s.set x))

theorem set_tag_of_full {s : Log} (h : maxOverrides ≤ s.overrides.length) (name : List Char) (lvl : Level) :
    s.set (.tag name lvl) = s := by
  rw [Log.set, Log.setTag, if_neg (Nat.not_lt.2 h)]

/-- A level has no characters behind it. -/
theorem levelOf_append {lvl : Level} {extra : List Char} (h : extra ≠ []) : levelOf (lvl.text ++ extra) = none := by
  rw [Option.eq_none_iff_forall_ne_some]
  intro lvl' hlvl
  have htext := levelOf_eq_some_iff.1 hlvl
  have hpre : lvl.text <+: lvl'.text := ⟨extra, htext⟩
  have hsame : lvl = lvl' := by
    revert hpre
    cases lvl <;> cases lvl' <;> decide
  subst hsame
  exact h (List.append_right_eq_self.1 htext)

/-- `log_init` is the interpreter of the words between blanks, on every command line and from every state.
Nothing but `log=<level>` and `log.<tag>=<level>` changes anything, and an override for which there is no
room is passed over like any other word. -/
theorem interprets_iff_logInit :
    (∀ (cmdline : List Char) (s s' : Log), Interprets (cmdline.splitOnP isBlank) s s' ↔ s' = logInit (some cmdline) s) ∧
    (∀ s : Log, logInit none s = s) ∧
    (∀ (s : Log) (name : List Char) (lvl : Level), 16 ≤ s.overrides.length → s.set (.tag name lvl) = s) ∧
    (∀ word ∈ ["log=", "log.=debug", "logger=debug", "xlog=debug"], ∀ x, ¬ Denotes word.toList x) ∧
    ∀ (lvl : Level) (extra : List Char), extra ≠ [] →
      (∀ x, ¬ Denotes ("log=".toList ++ (lvl.text ++ extra)) x) ∧
      ∀ name, '=' ∉ name → ∀ x, ¬ Denotes ("log.".toList ++ (name ++ '=' :: (lvl.text ++ extra))) x := by
  refine ⟨?_, fun _ => rfl, fun _ name lvl h => set_tag_of_full h name lvl, ?_, ?_⟩
  · intro cmdline s s'
    rw [interprets_iff_foldl, filterMap_splitOnP rfl, logInit_eq, settings]
  · intro word hword
    rw [not_denotes_iff]
    revert word
    decide
  · intro lvl extra hextra
    have hnone : levelOf (lvl.text ++ extra) = none := levelOf_append hextra
    constructor
    · rw [not_denotes_iff, settingOf_all, hnone]
      rfl
    · intro name hname
      rw [not_denotes_iff, settingOf_tag, tagSetting_append hname, hnone]
      split_ifs <;> rfl

/-- A level with one character too many. -/
theorem not_denotes_log_debugger : ∀ x, ¬ Denotes "log=debugger".toList x :=
  (interprets_iff_logInit.2.2.2.2 .debug "ger".toList (by decide)).1

end Yasouos.Common
