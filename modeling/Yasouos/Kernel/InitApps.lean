import Yasouos.Theory.Tokens

/-!
# Launching applications from the command line

`kernel/init_apps.c`: the command line is searched for words `app=<name>`, and each known name
is launched where it is found. There is no token list: three helpers walk the string with
pointers.

## The model

A pointer into the string is the list of the characters from there to the terminating zero, so
`pos[n]` is the first character of `pos.drop n`, if there is one. `findParam`, `findNextParam`
and `paramHasValue` are the helpers, and `initApps` gives the applications in the order of the
calls, each of which returns.

## What is proved

The walk launches what the list of tokens says: `initApps_eq_tokens`. One turn of `find_param`
is one token (`findParam_eq`), and what `param_has_value` answers there depends on the token
alone (`paramHasValue_iff`).
-/

namespace Yasouos.Kernel

open Yasouos.Theory

/-- The applications that `init_apps` knows, in the order of its tests. -/
inductive App where
  | illegalInstruction
  | randomSoftware
  | randomHardware
  | macVirtioNet
  | macE1000
  | macRtl8139
  | macAll
  | arpBroadcast
  | packetPrint
  | httpHello
  deriving DecidableEq, Repr

namespace App

/-- The value of `app=` that launches the application. -/
def name : App → String
  | illegalInstruction => "illegal-instruction"
  | randomSoftware => "random-software"
  | randomHardware => "random-hardware"
  | macVirtioNet => "mac-virtio-net"
  | macE1000 => "mac-e1000"
  | macRtl8139 => "mac-rtl8139"
  | macAll => "mac-all"
  | arpBroadcast => "arp-broadcast"
  | packetPrint => "packet-print"
  | httpHello => "http-hello"

/-- The tests of the body of the loop, top to bottom. -/
def all : List App :=
  [illegalInstruction, randomSoftware, randomHardware, macVirtioNet, macE1000, macRtl8139, macAll, arpBroadcast,
    packetPrint, httpHello]

theorem mem_all (a : App) : a ∈ all := by
  cases a <;> simp [all]

theorem nodup_all : all.Nodup := by decide

/-- No name begins with another. -/
theorem eq_of_name_isPrefix {a b : App} (h : a.name.toList <+: b.name.toList) : a = b := by
  have hall : ∀ a ∈ all, ∀ b ∈ all, a.name.toList <+: b.name.toList → a = b := by decide
  exact hall a (mem_all a) b (mem_all b) h

theorem eq_of_append_name {s : List Char} {a b : App} (h : s ++ a.name.toList = s ++ b.name.toList) : a = b := by
  have hab : a.name.toList = b.name.toList := List.append_cancel_left h
  exact eq_of_name_isPrefix (hab ▸ List.prefix_rfl)

theorem isBlank_of_mem_name (a : App) : ∀ c ∈ a.name.toList, isBlank c = false := by
  apply isBlank_of_all
  cases a <;> rfl

end App

/-- `find_param`. -/
def findParam (cmdline param : List Char) : Option (List Char) :=
  if _h : cmdline = [] then none
  else
    let pos := skip isBlank cmdline
    if param.isPrefixOf pos && ((pos.drop param.length).head? == some '=' || endsWord (pos.drop param.length)) then
      some pos
    else findParam (afterWord isBlank pos) param
  termination_by cmdline.length
  decreasing_by exact length_afterWord_skip_lt _h

/-- `find_next_param`. -/
def findNextParam (start param : List Char) : Option (List Char) := findParam (afterWord isBlank start) param

/-- `param_has_value`. -/
def paramHasValue (paramPos value : List Char) : Bool :=
  let paramPos := paramPos.dropWhile fun c => c != '=' && !isBlank c
  if paramPos.head? == some '=' then
    let paramPos := paramPos.drop 1
    value.isPrefixOf paramPos && endsWord (paramPos.drop value.length)
  else false

/-- What the body of the loop launches at one `app` parameter. -/
def launch (appParam : List Char) : List App := App.all.filter fun a => paramHasValue appParam a.name.toList

theorem length_findParam_le {cmdline param pos : List Char} (h : findParam cmdline param = some pos) :
    pos.length ≤ (skip isBlank cmdline).length := by
  fun_induction findParam cmdline param with
  | case1 => simp at h
  | case2 cmdline hne skipped hit =>
    obtain rfl : skipped = pos := by simpa using h
    exact le_refl _
  | case3 cmdline hne skipped hit ih =>
    calc pos.length ≤ (skip isBlank (afterWord isBlank skipped)).length := ih h
      _ ≤ (afterWord isBlank skipped).length := length_skip_le _ _
      _ ≤ skipped.length := length_afterWord_le _ _

/-- The search goes forward. -/
theorem length_findNextParam_lt {start param pos : List Char} (h : findNextParam start param = some pos) :
    pos.length < start.length := by
  have hle := length_findParam_le h
  have hend := length_afterWord_le isBlank start
  cases hr : afterWord isBlank start with
  | nil =>
    rw [findNextParam, hr, findParam] at h
    simp at h
  | cons c r =>
    -- what follows the word begins with a blank, which the search skips
    have hc : isBlank c = true := head?_afterWord start c (by simp [hr])
    have hskip : skip isBlank (c :: r) = skip isBlank r := by simp [skip, hc]
    have := length_skip_le isBlank r
    rw [hr] at hle hend
    rw [hskip] at hle
    simp only [List.length_cons] at hend
    omega

/-- How much of the string is left to search. -/
def remaining : Option (List Char) → ℕ
  | none => 0
  | some pos => pos.length + 1

theorem remaining_findNextParam_lt (start param : List Char) :
    remaining (findNextParam start param) < remaining (some start) := by
  cases h : findNextParam start param with
  | none => exact Nat.succ_pos _
  | some pos => exact Nat.succ_lt_succ (length_findNextParam_lt h)

/-- The loop of `init_apps`. -/
def initAppsLoop (appParam : Option (List Char)) : List App :=
  match appParam with
  | none => []
  | some pos => launch pos ++ initAppsLoop (findNextParam pos "app".toList)
  termination_by remaining appParam
  decreasing_by exact remaining_findNextParam_lt pos _

/-- `init_apps`: the applications that it launches. The command line may be a null pointer. -/
def initApps (cmdline : Option (List Char)) : List App :=
  match cmdline with
  | none => []
  | some cmdline => initAppsLoop (findParam cmdline "app".toList)

/-! ### What the helpers see at a token -/

/-- The token is the parameter, alone or with a value. -/
def IsParam (param token : List Char) : Prop := token = param ∨ param ++ ['='] <+: token

/-- The comparison of a word, as the helpers make it. -/
theorem word_eq_iff {value pos : List Char} (hv : ∀ c ∈ value, isBlank c = false) :
    word isBlank pos = value ↔ (value.isPrefixOf pos && endsWord (pos.drop value.length)) = true := by
  by_cases h : value <+: pos
  · obtain ⟨r, rfl⟩ := h
    rw [word_append hv]
    simp [word_eq_nil_iff]
  · have hnot : word isBlank pos ≠ value := by
      intro e
      exact h ((isPrefix_word_iff hv).1 (e ▸ List.prefix_rfl))
    simp [hnot, h]

theorem isPrefix_word_value_iff {param pos : List Char} (hp : ∀ c ∈ param, isBlank c = false) :
    param ++ ['='] <+: word isBlank pos ↔ param ++ ['='] <+: pos := by
  apply isPrefix_word_iff
  intro c hc
  rcases List.mem_append.1 hc with hc | hc
  · exact hp c hc
  · obtain rfl : c = '=' := by simpa using hc
    rfl

/-- The test of `find_param` is one on the token. -/
theorem isParam_word_iff {param pos : List Char} (hp : ∀ c ∈ param, isBlank c = false) :
    IsParam param (word isBlank pos) ↔
      (param.isPrefixOf pos &&
        ((pos.drop param.length).head? == some '=' || endsWord (pos.drop param.length))) = true := by
  have hval : param ++ ['='] <+: pos ↔ (param.isPrefixOf pos && (pos.drop param.length).head? == some '=') = true := by
    by_cases h : param <+: pos
    · obtain ⟨r, rfl⟩ := h
      cases r with
      | nil =>
        rw [List.append_nil, List.prefix_iff_eq_append]
        simp
      | cons c r => simp [eq_comm (a := '=')]
    · have hnot : ¬ param ++ ['='] <+: pos := fun h' => h ((List.prefix_append _ _).trans h')
      simp [h, hnot]
  rw [IsParam, isPrefix_word_value_iff hp, hval, word_eq_iff hp, ← Bool.or_eq_true, Bool.and_or_distrib_left,
    Bool.or_comm]

/-- `param_has_value` where `find_param` found the parameter: the value is the rest of the token. -/
theorem paramHasValue_iff {param pos value : List Char} (hp : ∀ c ∈ param, isBlank c = false)
    (he : '=' ∉ param) (hv : ∀ c ∈ value, isBlank c = false) (h : IsParam param (word isBlank pos)) :
    paramHasValue pos value = true ↔ word isBlank pos = param ++ '=' :: value := by
  have hdrop : ∀ r : List Char, (param ++ r).dropWhile (fun c => c != '=' && !isBlank c) =
      r.dropWhile fun c => c != '=' && !isBlank c := by
    intro r
    apply List.dropWhile_append_of_pos
    intro c hc
    have hne : c ≠ '=' := fun e => he (e ▸ hc)
    simp [hp c hc, hne]
  rcases h with h | h
  · -- the bare parameter: what follows it is a blank or the end of the string
    obtain ⟨r, rfl⟩ : param <+: pos := (isPrefix_word_iff hp).1 (h ▸ List.prefix_rfl)
    have hr : word isBlank r = [] := by simpa [word_append hp] using h
    have hend : r.head? ≠ some '=' := by
      intro e
      have := (word_eq_nil_iff.1 hr)
      rw [endsWord, e] at this
      simp [isBlank] at this
    have hstay : r.dropWhile (fun c => c != '=' && !isBlank c) = r := by
      cases r with
      | nil => rfl
      | cons c r =>
        have hc : isBlank c = true := by simpa [endsWord] using word_eq_nil_iff.1 hr
        simp [hc]
    simp [paramHasValue, hdrop, hstay, hend, h]
  · obtain ⟨r, rfl⟩ := (isPrefix_word_value_iff hp).1 h
    have hw : word isBlank (param ++ ['='] ++ r) = param ++ '=' :: word isBlank r := by
      rw [List.append_assoc, word_append hp]
      rfl
    rw [hw, List.append_cancel_left_eq, List.cons.injEq, word_eq_iff hv]
    simp [paramHasValue, hdrop]

/-! ### What is launched -/

/-- The application that a token names. -/
def appOf (token : List Char) : Option App := App.all.find? fun a => token == "app=".toList ++ a.name.toList

theorem appOf_eq_some_iff {token : List Char} {a : App} :
    appOf token = some a ↔ token = "app=".toList ++ a.name.toList := by
  constructor
  · intro h
    simpa using List.find?_some h
  · rintro rfl
    cases h : appOf ("app=".toList ++ a.name.toList) with
    | none =>
      have := List.find?_eq_none.1 h a (App.mem_all a)
      simp at this
    | some b =>
      have hb : "app=".toList ++ a.name.toList = "app=".toList ++ b.name.toList := by simpa using List.find?_some h
      rw [App.eq_of_append_name hb]

theorem filter_eq_toList_find? {l : List App} {p : App → Bool} (hl : l.Nodup)
    (hp : ∀ a b, p a = true → p b = true → a = b) : l.filter p = (l.find? p).toList := by
  induction l with
  | nil => rfl
  | cons a l ih =>
    obtain ⟨ha, hl⟩ := List.nodup_cons.1 hl
    by_cases h : p a = true
    · have hrest : l.filter p = [] := by
        rw [List.filter_eq_nil_iff]
        intro b hb hpb
        exact ha (hp a b h hpb ▸ hb)
      simp [h, hrest]
    · simp [h, ih hl]

/-- At most one of the tests of the body succeeds. -/
theorem launch_eq {pos : List Char} (h : IsParam "app".toList (word isBlank pos)) :
    launch pos = (appOf (word isBlank pos)).toList := by
  have htest : ∀ a : App, paramHasValue pos a.name.toList = (word isBlank pos == "app=".toList ++ a.name.toList) := by
    intro a
    have := paramHasValue_iff (isBlank_of_all rfl) (by decide) a.isBlank_of_mem_name h
    rw [Bool.eq_iff_iff, this, beq_iff_eq]
    rfl
  rw [launch, appOf]
  simp only [htest]
  apply filter_eq_toList_find? App.nodup_all
  intro a b ha hb
  exact App.eq_of_append_name ((beq_iff_eq.1 ha).symm.trans (beq_iff_eq.1 hb))

theorem appOf_eq_none {token : List Char} (h : ∀ a : App, token ≠ "app=".toList ++ a.name.toList) :
    appOf token = none := by
  cases e : appOf token with
  | none => rfl
  | some a => exact absurd (appOf_eq_some_iff.1 e) (h a)

theorem appOf_of_not_isParam {token : List Char} (h : ¬ IsParam "app".toList token) : appOf token = none := by
  apply appOf_eq_none
  rintro a rfl
  exact h (Or.inr (List.prefix_append "app=".toList a.name.toList))

/-- `find_param` in terms of the tokens: it stops at the first that is the parameter. -/
theorem findParam_eq {cmdline param : List Char} (hp : ∀ c ∈ param, isBlank c = false) (hne : cmdline ≠ []) :
    (IsParam param (word isBlank (skip isBlank cmdline)) → findParam cmdline param = some (skip isBlank cmdline)) ∧
      (¬ IsParam param (word isBlank (skip isBlank cmdline)) →
        findParam cmdline param = findNextParam (skip isBlank cmdline) param) := by
  rw [findParam, dif_neg hne, findNextParam]
  constructor
  · intro h
    exact if_pos ((isParam_word_iff hp).1 h)
  · intro h
    exact if_neg (mt (isParam_word_iff hp).2 h)

/-- One turn of the search is one token of the string. -/
theorem initAppsLoop_findParam (cmdline : List Char) :
    initAppsLoop (findParam cmdline "app".toList) = (tokens isBlank cmdline).filterMap appOf := by
  have happ : ∀ c ∈ "app".toList, isBlank c = false := isBlank_of_all rfl
  induction hn : cmdline.length using Nat.strong_induction_on generalizing cmdline with
  | _ n ih =>
  subst hn
  by_cases hne : cmdline = []
  · subst hne
    simp [findParam, initAppsLoop]
  have hrest : initAppsLoop (findNextParam (skip isBlank cmdline) "app".toList) =
      (tokens isBlank (afterWord isBlank (skip isBlank cmdline))).filterMap appOf :=
    ih _ (length_afterWord_skip_lt hne) _ rfl
  obtain ⟨hhit, hmiss⟩ := findParam_eq happ hne
  by_cases hs : skip isBlank cmdline = []
  · -- only blanks are left
    have hnot : ¬ IsParam "app".toList (word isBlank (skip isBlank cmdline)) := by
      rw [hs]
      simp [IsParam, word]
    rw [hmiss hnot, hrest, hs, tokens_of_skip_eq_nil hs]
    rfl
  · rw [tokens_of_skip_ne_nil hs, List.filterMap_cons]
    by_cases h : IsParam "app".toList (word isBlank (skip isBlank cmdline))
    · rw [hhit h, initAppsLoop, launch_eq h, hrest]
      cases appOf (word isBlank (skip isBlank cmdline)) <;> rfl
    · rw [hmiss h, hrest, appOf_of_not_isParam h]

/-- The applications launched are those that the words of the command line name, in order and with
repetitions; a word has to be `app=` and a known name, and nothing else. -/
theorem initApps_eq_tokens (cmdline : List Char) :
    initApps (some cmdline) = (cmdline.splitOnP isBlank).filterMap appOf ∧
      (∀ token a, appOf token = some a ↔ token = "app=".toList ++ a.name.toList) ∧
      appOf "app".toList = none ∧ appOf "app=".toList = none ∧
      (∀ x, appOf ("application=".toList ++ x) = none) ∧
      (∀ y, appOf ("xapp=".toList ++ y) = none) ∧
      ∀ (a : App) (c : Char) (x : List Char), appOf ("app=".toList ++ a.name.toList ++ c :: x) = none := by
  refine ⟨?_, fun _ _ => appOf_eq_some_iff, by decide, by decide, ?_, ?_, ?_⟩
  · rw [filterMap_splitOnP (by decide), initApps, initAppsLoop_findParam]
  · intro x
    apply appOf_eq_none
    intro a e
    simp at e
  · intro y
    apply appOf_eq_none
    intro a e
    simp at e
  · intro a c x
    apply appOf_eq_none
    intro b e
    rw [List.append_assoc] at e
    have e := List.append_cancel_left e
    obtain rfl := App.eq_of_name_isPrefix ⟨_, e⟩
    simp at e

/-- Leading, trailing and mixed blanks, a bare key, a longer key and a longer name. -/
example : initApps (some " \tapp=mac-all app\tapp= xapp=mac-all app=mac-allx app=http-hello\t".toList) =
    [.macAll, .httpHello] := by
  rw [initApps, initAppsLoop_findParam]
  decide

end Yasouos.Kernel
