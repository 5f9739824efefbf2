import Yasouos.Common.Log
import Mathlib.Data.List.Induction
import Mathlib.Data.List.Nodup

/-!
# The level a tag ends with

`common/log.c` again: what `log_init` and `log_register` together make of the settings of a
command line, in whichever order they run.

## The model

A setting has a key and a level; `lookup` finds the first setting of a key. `keep` drops the
overrides that find no room in `pending_overrides`. A tag that is there when a command line is
read ends with the level `levelAfter`, one that comes later starts with `initialLevel`.

## What is proved

A tag registered before `log_init` gets the last of its settings, a tag registered after it the
first, unless a later `log=` makes the first count again: `level_logInit_logRegister_iff`. With
one setting for each key there is no difference, and no order of words or registrations matters:
`tags_eq_effectiveLevel`.
-/

namespace Yasouos.Common

open Yasouos.Theory

namespace Setting

/-- What a setting is about: all tags, or those of one name. -/
def key : Setting → Option (List Char)
  | .all _ => none
  | .tag name _ => some name

/-- The level it sets. -/
def level : Setting → Level
  | .all lvl => lvl
  | .tag _ lvl => lvl

/-- The entry of `pending_overrides` for it. -/
def override : Setting → Option Override
  | .all _ => none
  | .tag name lvl => some ⟨name, lvl⟩

/-- It has to do with tags of this name. -/
def concerns (name : List Char) (x : Setting) : Bool := x.key == none || x.key == some name

end Setting

/-- The overrides of a list of settings. -/
def overridesOf (settings : List Setting) : List Override := settings.filterMap Setting.override

/-- The level that the first setting of a key sets. -/
def lookup (key : Option (List Char)) (settings : List Setting) : Option Level :=
  (settings.find? fun x => x.key == key).map (·.level)

/-- The settings that have an effect, where there is room for `room` more overrides. -/
def keep : ℕ → List Setting → List Setting
  | _, [] => []
  | room, .all lvl :: rest => .all lvl :: keep room rest
  | 0, .tag _ _ :: rest => keep 0 rest
  | room + 1, .tag name lvl :: rest => .tag name lvl :: keep room rest

/-- The last setting that has to do with tags of this name. -/
def lastSetting (name : List Char) (settings : List Setting) : Option Setting :=
  settings.reverse.find? (Setting.concerns name)

/-- The level of a tag that was there before the settings. -/
def levelAfter (overrides : List Override) (settings : List Setting) (tag : LogTag) : Level :=
  match lastSetting tag.name settings with
  | none => tag.level
  | some (.tag _ lvl) => lvl
  | some (.all lvl) => (firstOverride (overrides ++ overridesOf settings) tag.name).getD lvl

/-- The level of a tag without an override. -/
def Log.baseLevel (s : Log) (defaultLevel : Level) : Level := if s.globalLevelSet then s.globalLevel else defaultLevel

/-- The level that a tag starts with. -/
def Log.initialLevel (s : Log) (name : List Char) (defaultLevel : Level) : Level :=
  (firstOverride s.overrides name).getD (s.baseLevel defaultLevel)

/-! ### Overrides and lookups -/

@[simp] theorem overridesOf_nil : overridesOf [] = [] := rfl

@[simp] theorem overridesOf_all (lvl : Level) (rest : List Setting) :
    overridesOf (.all lvl :: rest) = overridesOf rest := rfl

@[simp] theorem overridesOf_tag (name : List Char) (lvl : Level) (rest : List Setting) :
    overridesOf (.tag name lvl :: rest) = ⟨name, lvl⟩ :: overridesOf rest := rfl

@[simp] theorem overridesOf_append (xs ys : List Setting) :
    overridesOf (xs ++ ys) = overridesOf xs ++ overridesOf ys := List.filterMap_append

@[simp] theorem firstOverride_nil (name : List Char) : firstOverride [] name = none := rfl

theorem firstOverride_cons (o : Override) (os : List Override) (name : List Char) :
    firstOverride (o :: os) name = if name = o.name then some o.level else firstOverride os name := by
  by_cases h : name = o.name <;> simp [firstOverride, h]

theorem firstOverride_append (os ps : List Override) (name : List Char) :
    firstOverride (os ++ ps) name = (firstOverride os name).or (firstOverride ps name) := by
  simp only [firstOverride, List.find?_append]
  cases os.find? fun o => name == o.name <;> rfl

@[simp] theorem lookup_nil (key : Option (List Char)) : lookup key [] = none := rfl

theorem lookup_cons (key : Option (List Char)) (x : Setting) (rest : List Setting) :
    lookup key (x :: rest) = if x.key = key then some x.level else lookup key rest := by
  by_cases h : x.key = key <;> simp [lookup, h]

/-- The overrides are looked up by name in the order of the settings. -/
theorem firstOverride_overridesOf (settings : List Setting) (name : List Char) :
    firstOverride (overridesOf settings) name = lookup (some name) settings := by
  induction settings with
  | nil => rfl
  | cons x rest ih =>
    rw [lookup_cons]
    cases x with
    | all lvl => simp [Setting.key, ih]
    | tag n lvl => simp [Setting.key, Setting.level, firstOverride_cons, ih, eq_comm (a := name)]

theorem lookup_eq_none_iff {key : Option (List Char)} {settings : List Setting} :
    lookup key settings = none ↔ ∀ x ∈ settings, x.key ≠ key := by
  simp [lookup]

/-! ### One setting, one tag -/

/-- What one setting does to a registered tag. -/
theorem lastSetting_append (name : List Char) (settings : List Setting) (x : Setting) :
    lastSetting name (settings ++ [x]) = if x.concerns name then some x else lastSetting name settings := by
  by_cases h : x.concerns name = true <;> simp [lastSetting, h]

theorem lastSetting_eq_none_iff {name : List Char} {settings : List Setting} :
    lastSetting name settings = none ↔ lookup none settings = none ∧ lookup (some name) settings = none := by
  simp only [lastSetting, List.find?_eq_none, List.mem_reverse, lookup_eq_none_iff, Setting.concerns]
  constructor
  · intro h
    exact ⟨fun x hx e => h x hx (by simp [e]), fun x hx e => h x hx (by simp [e])⟩
  · rintro ⟨hall, htag⟩ x hx e
    rcases Bool.or_eq_true_iff.1 e with e | e
    · exact hall x hx (beq_iff_eq.1 e)
    · exact htag x hx (beq_iff_eq.1 e)

/-- A later override for another name does not change the first one for this name. -/
theorem levelAfter_append (os : List Override) (settings : List Setting) (x : Setting) (tag : LogTag) :
    levelAfter os (settings ++ [x]) tag =
      match x with
      | .all lvl => (firstOverride (os ++ overridesOf settings) tag.name).getD lvl
      | .tag name lvl => if tag.name = name then lvl else levelAfter os settings tag := by
  cases x with
  | all lvl => simp [levelAfter, lastSetting_append, Setting.concerns, Setting.key]
  | tag name lvl =>
    by_cases h : tag.name = name
    · simp [levelAfter, lastSetting_append, Setting.concerns, Setting.key, h]
    · have hlast : lastSetting tag.name (settings ++ [.tag name lvl]) = lastSetting tag.name settings := by
        rw [lastSetting_append, if_neg]
        simpa [Setting.concerns, Setting.key] using fun e => h e.symm
      have hfirst : firstOverride [⟨name, lvl⟩] tag.name = none := by simp [firstOverride_cons, h]
      simp only [levelAfter, hlast, if_neg h, overridesOf_append, overridesOf_tag, overridesOf_nil,
        ← List.append_assoc, firstOverride_append _ [_], hfirst, Option.or_none]

/-! ### All settings, all tags -/

theorem length_overridesOf_keep (room : ℕ) (settings : List Setting) :
    (overridesOf (keep room settings)).length ≤ room := by
  fun_induction keep room settings with
  | case1 => exact Nat.zero_le _
  | case2 room lvl rest ih => simpa using ih
  | case3 name lvl rest ih => exact ih
  | case4 room name lvl rest ih => simpa using ih

/-- Settings without room have no effect. -/
theorem foldl_set_keep (settings : List Setting) (s : Log) :
    settings.foldl Log.set s = (keep (maxOverrides - s.overrides.length) settings).foldl Log.set s := by
  generalize hroom : maxOverrides - s.overrides.length = room
  fun_induction keep room settings generalizing s with
  | case1 => rfl
  | case2 room lvl rest ih => exact ih _ hroom
  | case3 name lvl rest ih =>
    have hfull : s.set (.tag name lvl) = s := if_neg (by omega)
    rw [List.foldl_cons, hfull]
    exact ih s hroom
  | case4 room name lvl rest ih =>
    have hnext : (s.set (.tag name lvl)).overrides = s.overrides ++ [⟨name, lvl⟩] := by
      rw [Log.set, Log.setTag, if_pos (by omega)]
    apply ih
    rw [hnext, List.length_append, List.length_singleton]
    omega

/-- What settings with room do to the logging state. -/
structure Applied (s : Log) (settings : List Setting) (s' : Log) : Prop where
  overrides : s'.overrides = s.overrides ++ overridesOf settings
  tags : s'.tags = s.tags.map fun tag => ⟨tag.name, levelAfter s.overrides settings tag⟩
  baseLevel : ∀ d, s'.baseLevel d = (lookup none settings.reverse).getD (s.baseLevel d)

theorem Applied.nil (s : Log) : Applied s [] s where
  overrides := by simp
  tags := by simp [levelAfter, lastSetting]
  baseLevel := by simp

theorem Applied.append {s s' : Log} {settings : List Setting} (h : Applied s settings s') (x : Setting)
    (hroom : (overridesOf (settings ++ [x])).length ≤ maxOverrides - s.overrides.length) :
    Applied s (settings ++ [x]) (s'.set x) := by
  cases x with
  | all lvl =>
    refine ⟨?_, ?_, ?_⟩
    · simp [Log.set, Log.setGlobal, h.overrides]
    · simp [Log.set, Log.setGlobal, h.tags, h.overrides, applyOverrides, levelAfter_append]
    · intro d
      simp [Log.set, Log.setGlobal, Log.baseLevel, lookup_cons, Setting.key, Setting.level]
  | tag name lvl =>
    have hlt : s'.overrides.length < maxOverrides := by
      rw [h.overrides, List.length_append]
      simp only [overridesOf_append, overridesOf_tag, overridesOf_nil, List.length_append, List.length_singleton] at hroom
      omega
    rw [Log.set, Log.setTag, if_pos hlt]
    refine ⟨?_, ?_, ?_⟩
    · simp [h.overrides]
    · simp only [h.tags, List.map_map]
      apply List.map_congr_left
      intro tag _
      by_cases e : tag.name = name <;> simp [levelAfter_append, e]
    · intro d
      simpa [lookup_cons, Setting.key, Log.baseLevel] using h.baseLevel d

theorem applied_foldl_set {s : Log} {settings : List Setting}
    (hroom : (overridesOf settings).length ≤ maxOverrides - s.overrides.length) :
    Applied s settings (settings.foldl Log.set s) := by
  induction settings using List.reverseRecOn with
  | nil => exact Applied.nil s
  | append_singleton settings x ih =>
    rw [List.foldl_append]
    refine (ih ?_).append x hroom
    rw [overridesOf_append, List.length_append] at hroom
    omega

/-- The settings of a command line that have an effect on a logging state. -/
def Log.kept (s : Log) (cmdline : List Char) : List Setting :=
  keep (maxOverrides - s.overrides.length) (settings cmdline)

theorem applied_logInit (s : Log) (cmdline : List Char) :
    Applied s (s.kept cmdline) (logInit (some cmdline) s) := by
  rw [logInit_eq, foldl_set_keep]
  exact applied_foldl_set (length_overridesOf_keep _ _)

/-! ### Before or after -/

theorem find?_of_imp {α : Type} {p q : α → Bool} {l : List α} {x : α} (h : l.find? p = some x) (hx : q x = true)
    (himp : ∀ y, q y = true → p y = true) : l.find? q = some x := by
  induction l with
  | nil => simp at h
  | cons y l ih =>
    by_cases hp : p y = true
    · obtain rfl : y = x := by simpa [hp] using h
      simp [hx]
    · have hq : ¬ q y = true := fun e => hp (himp y e)
      rw [List.find?_cons_of_neg hq]
      exact ih (by simpa [hp] using h)

/-- Early and late registration agree unless the last setting is one for the tag alone that differs
from the first. -/
theorem levelAfter_eq_iff (os : List Override) (settings : List Setting) (name : List Char) (base : Level) :
    levelAfter os settings ⟨name, (firstOverride os name).getD base⟩ =
        (firstOverride (os ++ overridesOf settings) name).getD ((lookup none settings.reverse).getD base) ↔
      ∀ lvl, lastSetting name settings = some (.tag name lvl) →
        firstOverride (os ++ overridesOf settings) name = some lvl := by
  cases hlast : lastSetting name settings with
  | none =>
    obtain ⟨hall, htag⟩ := lastSetting_eq_none_iff.1 hlast
    have hall' : lookup none settings.reverse = none := by
      rw [lookup_eq_none_iff] at hall ⊢
      simpa using hall
    simp [levelAfter, hlast, firstOverride_append, firstOverride_overridesOf, htag, hall']
  | some x =>
    cases x with
    | all lvl =>
      have hall : lookup none settings.reverse = some lvl := by
        rw [lookup, find?_of_imp hlast (by rfl) (by simp +contextual [Setting.concerns])]
        rfl
      simp [levelAfter, hlast, hall]
    | tag n lvl =>
      have hconcerns : Setting.concerns name (.tag n lvl) = true := List.find?_some hlast
      obtain rfl : n = name := by simpa [Setting.concerns, Setting.key] using hconcerns
      have hmem : Setting.tag n lvl ∈ settings := List.mem_reverse.1 (List.mem_of_find?_eq_some hlast)
      have hsome : firstOverride (os ++ overridesOf settings) n ≠ none := by
        rw [firstOverride_append, firstOverride_overridesOf]
        intro e
        exact lookup_eq_none_iff.1 (Option.or_eq_none_iff.1 e).2 _ hmem rfl
      obtain ⟨first, hfirst⟩ := Option.ne_none_iff_exists'.1 hsome
      simp [levelAfter, hlast, hfirst, eq_comm (a := first)]

theorem logRegister_of_full {s : Log} (h : maxLogTags ≤ s.tags.length) (name : List Char) (d : Level) :
    logRegister name d s = s := if_pos h

theorem logRegister_of_room {s : Log} (h : s.tags.length < maxLogTags) (name : List Char) (d : Level) :
    logRegister name d s = { s with tags := s.tags ++ [⟨name, s.initialLevel name d⟩] } := by
  rw [logRegister, if_neg (Nat.not_le.2 h)]
  rfl

theorem Applied.length_tags {s s' : Log} {settings : List Setting} (h : Applied s settings s') :
    s'.tags.length = s.tags.length := by
  rw [h.tags, List.length_map]

/-- Registering a tag before or after `log_init` gives it the same level exactly if the last setting
that has to do with it is not one for the tag alone with another level than the first. -/
theorem level_logInit_logRegister_iff (s : Log) (cmdline name : List Char) (defaultLevel : Level) :
    ((logInit (some cmdline) (logRegister name defaultLevel s)).tags[s.tags.length]?).map (·.level) =
        ((logRegister name defaultLevel (logInit (some cmdline) s)).tags[s.tags.length]?).map (·.level) ↔
      maxLogTags ≤ s.tags.length ∨
        ∀ lvl, lastSetting name (s.kept cmdline) = some (.tag name lvl) →
          firstOverride (s.overrides ++ overridesOf (s.kept cmdline)) name = some lvl := by
  have hs := applied_logInit s cmdline
  by_cases hfull : maxLogTags ≤ s.tags.length
  · have hfull' : maxLogTags ≤ (logInit (some cmdline) s).tags.length := by rwa [hs.length_tags]
    simp [logRegister_of_full hfull, logRegister_of_full hfull', hfull]
  · have hroom := Nat.lt_of_not_le hfull
    have hroom' : (logInit (some cmdline) s).tags.length < maxLogTags := by rwa [hs.length_tags]
    have hearly := (applied_logInit (logRegister name defaultLevel s) cmdline).tags
    rw [logRegister_of_room hroom] at hearly ⊢
    rw [logRegister_of_room hroom', hearly]
    have hkept : Log.kept { s with tags := s.tags ++ [⟨name, s.initialLevel name defaultLevel⟩] } cmdline =
        s.kept cmdline := rfl
    have hlate : (logInit (some cmdline) s).initialLevel name defaultLevel =
        (firstOverride (s.overrides ++ overridesOf (s.kept cmdline)) name).getD
          ((lookup none (s.kept cmdline).reverse).getD (s.baseLevel defaultLevel)) := by
      rw [Log.initialLevel, hs.overrides, hs.baseLevel]
    have hlast : ∀ tag, ((logInit (some cmdline) s).tags ++ [tag])[s.tags.length]? = some tag := by
      intro tag
      rw [← hs.length_tags]
      exact List.getElem?_concat_length
    rw [hkept, hlast, hlate, List.map_append, List.getElem?_append_right (by simp)]
    simp only [List.length_map, Nat.sub_self, List.map_cons, List.getElem?_cons_zero, Option.map_some,
      Option.some.injEq, hfull, false_or]
    exact levelAfter_eq_iff _ _ _ _

/-- From boot, with `log.x=debug log.x=error`, a tag `x` gets `error` if it is registered before and
`debug` if it is registered after. -/
theorem level_logInit_logRegister_repeated :
    ((logInit (some "log.x=debug log.x=error".toList) (logRegister ['x'] .info Log.boot)).tags[0]?).map (·.level) =
        some .error ∧
      ((logRegister ['x'] .info (logInit (some "log.x=debug log.x=error".toList) Log.boot)).tags[0]?).map (·.level) =
        some .debug := by
  simp only [logInit_eq]
  decide

/-! ### One setting for each key -/

/-- The arguments of a call of `log_register`. -/
structure Registration where
  name : List Char
  defaultLevel : Level
  deriving DecidableEq, Repr

/-- A sequence of calls of `log_register`. -/
def registerAll (regs : List Registration) (s : Log) : Log :=
  regs.foldl (fun s r => logRegister r.name r.defaultLevel s) s

/-- The override of the tag if there is one, else the global level if it is set, else the default. -/
def effectiveLevel (settings : List Setting) (r : Registration) : Level :=
  (lookup (some r.name) settings).getD ((lookup none settings).getD r.defaultLevel)

theorem registerAll_eq (regs : List Registration) (s : Log) :
    registerAll regs s =
      { s with
        tags := s.tags ++ (regs.take (maxLogTags - s.tags.length)).map fun r =>
          ⟨r.name, s.initialLevel r.name r.defaultLevel⟩ } := by
  induction regs generalizing s with
  | nil => simp [registerAll]
  | cons r regs ih =>
    have hcons : registerAll (r :: regs) s = registerAll regs (logRegister r.name r.defaultLevel s) := rfl
    rw [hcons, ih]
    by_cases h : maxLogTags ≤ s.tags.length
    · rw [logRegister_of_full h]
      simp [Nat.sub_eq_zero_of_le h]
    · have hlt := Nat.lt_of_not_le h
      have hroom : maxLogTags - s.tags.length = maxLogTags - (s.tags.length + 1) + 1 := by omega
      have hlevel : ∀ tags, Log.initialLevel { s with tags := tags } = s.initialLevel := fun _ => rfl
      rw [logRegister_of_room hlt]
      simp only [hlevel, List.length_append, List.length_singleton, List.append_assoc, List.singleton_append]
      rw [hroom, List.take_succ_cons, List.map_cons]

theorem lookup_eq_some_iff {settings : List Setting} (hkeys : (settings.map Setting.key).Nodup)
    {key : Option (List Char)} {lvl : Level} :
    lookup key settings = some lvl ↔ ∃ x ∈ settings, x.key = key ∧ x.level = lvl := by
  induction settings with
  | nil => simp
  | cons y rest ih =>
    obtain ⟨hy, hrest⟩ := List.nodup_cons.1 hkeys
    rw [lookup_cons]
    by_cases h : y.key = key
    · have hnot : ∀ x ∈ rest, x.key ≠ key := fun x hx e => hy (h ▸ e ▸ List.mem_map_of_mem hx)
      simp only [h, if_true, Option.some.injEq, List.mem_cons, exists_eq_or_imp, true_and]
      constructor
      · exact Or.inl
      · rintro (e | ⟨x, hx, e, -⟩)
        · exact e
        · exact absurd e (hnot x hx)
    · simp [h, ih hrest]

/-- With one setting for each key, their order does not matter. -/
theorem lookup_perm {xs ys : List Setting} (hperm : xs.Perm ys) (hkeys : (ys.map Setting.key).Nodup)
    (key : Option (List Char)) : lookup key xs = lookup key ys := by
  have hkeys' : (xs.map Setting.key).Nodup := (hperm.map _).nodup_iff.2 hkeys
  apply Option.ext
  intro lvl
  rw [lookup_eq_some_iff hkeys', lookup_eq_some_iff hkeys]
  simp only [hperm.mem_iff]

theorem keep_of_length_le {room : ℕ} {settings : List Setting} (h : (overridesOf settings).length ≤ room) :
    keep room settings = settings := by
  fun_induction keep room settings with
  | case1 => rfl
  | case2 room lvl rest ih => rw [ih (by simpa using h)]
  | case3 name lvl rest ih => simp at h
  | case4 room name lvl rest ih => rw [ih (by simpa using h)]

/-- With one setting for each key, the only setting for a tag is its first and its last. -/
theorem levelAfter_eq_effectiveLevel {settings : List Setting} (hkeys : (settings.map Setting.key).Nodup)
    (r : Registration) : levelAfter [] settings ⟨r.name, r.defaultLevel⟩ = effectiveLevel settings r := by
  have hiff := levelAfter_eq_iff [] settings r.name r.defaultLevel
  rw [firstOverride_nil, Option.getD_none, List.nil_append, firstOverride_overridesOf,
    lookup_perm settings.reverse_perm hkeys] at hiff
  rw [effectiveLevel]
  apply hiff.2
  intro lvl hlast
  rw [lookup_eq_some_iff hkeys]
  exact ⟨_, List.mem_reverse.1 (List.mem_of_find?_eq_some hlast), rfl, rfl⟩

/-- With one setting for each key and room for the overrides, each registered tag ends with its effective
level, whatever the order of the words and whenever it is registered. -/
theorem tags_eq_effectiveLevel (cmdline cmdline' : List Char) (before after : List Registration)
    (hperm : (tokens isBlank cmdline').Perm (tokens isBlank cmdline))
    (hkeys : ((settings cmdline).map Setting.key).Nodup)
    (hcount : (overridesOf (settings cmdline)).length ≤ maxOverrides) :
    (registerAll after (logInit (some cmdline') (registerAll before Log.boot))).tags =
      ((before ++ after).take maxLogTags).map fun r => ⟨r.name, effectiveLevel (settings cmdline) r⟩ := by
  have hset : (settings cmdline').Perm (settings cmdline) := hperm.filterMap _
  have hkeys' : ((settings cmdline').map Setting.key).Nodup := (hset.map _).nodup_iff.2 hkeys
  have heff : ∀ r, effectiveLevel (settings cmdline') r = effectiveLevel (settings cmdline) r := by
    intro r
    rw [effectiveLevel, lookup_perm hset hkeys, lookup_perm hset hkeys, effectiveLevel]
  have hearly : registerAll before Log.boot =
      { Log.boot with tags := (before.take maxLogTags).map fun r => ⟨r.name, r.defaultLevel⟩ } := registerAll_eq _ _
  have hkept : (registerAll before Log.boot).kept cmdline' = settings cmdline' := by
    rw [hearly]
    exact keep_of_length_le ((hset.filterMap _).length_eq ▸ hcount)
  have hs := applied_logInit (registerAll before Log.boot) cmdline'
  rw [hkept] at hs
  have hlate : ∀ r : Registration,
      (logInit (some cmdline') (registerAll before Log.boot)).initialLevel r.name r.defaultLevel =
        effectiveLevel (settings cmdline') r := by
    intro r
    rw [Log.initialLevel, hs.overrides, hs.baseLevel, hearly, effectiveLevel, ← firstOverride_overridesOf,
      ← lookup_perm (settings cmdline').reverse_perm hkeys']
    rfl
  have htags : (logInit (some cmdline') (registerAll before Log.boot)).tags =
      (before.take maxLogTags).map fun r => ⟨r.name, effectiveLevel (settings cmdline') r⟩ := by
    rw [hs.tags, hearly]
    simp only [List.map_map]
    apply List.map_congr_left
    intro r _
    exact congrArg (LogTag.mk r.name) (levelAfter_eq_effectiveLevel hkeys' r)
  have hroom : maxLogTags - (before.take maxLogTags).length = maxLogTags - before.length := by
    rw [List.length_take]
    omega
  rw [registerAll_eq, htags, List.length_map, hroom]
  simp only [hlate, heff]
  rw [List.take_append, List.map_append]

/-- Two orders of the same words, with a tag registered before and two after. -/
theorem tags_eq_effectiveLevel_swapped :
    (registerAll [⟨"net".toList, .info⟩, ⟨"init".toList, .debug⟩]
        (logInit (some "log.net=debug\tquiet log=warn".toList)
          (registerAll [⟨"net".toList, .error⟩] Log.boot))).tags =
      [⟨"net".toList, .debug⟩, ⟨"net".toList, .debug⟩, ⟨"init".toList, .warn⟩] :=
  tags_eq_effectiveLevel "log=warn log.net=debug  quiet".toList "log.net=debug\tquiet log=warn".toList
    [⟨"net".toList, .error⟩] [⟨"net".toList, .info⟩, ⟨"init".toList, .debug⟩] (by decide) (by decide) (by decide)

end Yasouos.Common
