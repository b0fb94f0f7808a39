import Mathlib
import TimingWheel.Layers.Load

/-!
# One layer over another

Under a key that the upper of two tables has, merging them leaves what the upper table has there, or
a table of both where both have tables; under any other key it leaves what the lower one has.

* **`Setting.lookup_mergeMembers`** — merging tables, key by key.
* **`Setting.IsLayer`** — what the layers of settings have in common: they are tables of distinct
  names, and so is what they say about the timer. Merging keeps it (`IsLayer.merge`).
* **`Setting.IsLayer.tells_merge`** — what is said about a setting of the timer after a merge.
* **`Environment.tells_layer`** — what the environment says about a setting of the timer, if at
  most one variable sets it and none sets a part of it.
-/

namespace TimingWheel

/-! ## Letter case

Names of variables are compared in capital letters and keys are written in small ones. -/

/-- Whether a name was put in capital letters does not show in small ones. -/
theorem map_toLower_toUpper (s : List Char) :
    (s.map Char.toUpper).map Char.toLower = s.map Char.toLower := by
  rw [List.map_map]
  exact List.map_congr_left fun c _ => c.toLower_toUpper_eq_toLower

theorem map_toUpper_toLower (s : List Char) :
    (s.map Char.toLower).map Char.toUpper = s.map Char.toUpper := by
  rw [List.map_map]
  exact List.map_congr_left fun c _ => c.toUpper_toLower_eq_toUpper

namespace Setting

/-! ## Merging -/

/-- One setting is the same count as the other, or no count for the same reason. -/
def CountsAs (a b : Setting) : Prop :=
  ∀ (expected : String) (path : List String), a.count expected path = b.count expected path

/-- As a count, a merged setting is what the upper one is: tables are no counts. -/
theorem merge_countsAs (lower upper : Setting) : (lower.merge upper).CountsAs upper := by
  intro expected path
  cases upper with
  | scalar o v => rw [merge]; exact fun _ _ h => by cases h
  | sequence o items => rw [merge]; exact fun _ _ h => by cases h
  | table o ms => cases lower <;> rfl

/-- A member that is merged in stands under its name, merged with what stood there. -/
theorem lookup_mergeMember_self (lower : List (String × Setting)) (key : String) (v : Setting) :
    (mergeMember lower (key, v)).lookup key
      = some (match lower.lookup key with
        | none => v
        | some l => l.merge v) := by
  rw [mergeMember]
  cases lower.lookup key <;> exact Members.lookup_set_self key _ lower

/-- Under other names stands what stood there. -/
theorem lookup_mergeMember_ne {key other : String} (h : other ≠ key)
    (lower : List (String × Setting)) (v : Setting) :
    (mergeMember lower (key, v)).lookup other = lower.lookup other := by
  rw [mergeMember]
  cases lower.lookup key <;> exact Members.lookup_set_ne h _ lower

theorem distinct_mergeMember {lower : List (String × Setting)} (h : Members.Distinct lower)
    (m : String × Setting) : Members.Distinct (mergeMember lower m) := by
  obtain ⟨key, v⟩ := m
  rw [mergeMember]
  cases lower.lookup key <;> exact Members.distinct_set key _ h

/-- Merging keeps names distinct. Induction on the members that are merged in. -/
theorem distinct_mergeMembers {lower : List (String × Setting)} (h : Members.Distinct lower)
    (upper : List (String × Setting)) : Members.Distinct (mergeMembers lower upper) := by
  induction upper generalizing lower with
  | nil => rwa [mergeMembers]
  | cons m rest ih =>
    rw [mergeMembers]
    exact ih (distinct_mergeMember h m)

/-- What is under a key of merged tables. Induction on the upper one, whose members are merged in
one after another; since their names are distinct, none is merged in twice. -/
theorem lookup_mergeMembers {upper : List (String × Setting)} (h : Members.Distinct upper)
    (lower : List (String × Setting)) (key : String) :
    (mergeMembers lower upper).lookup key
      = match upper.lookup key, lower.lookup key with
        | none, l => l
        | some v, none => some v
        | some v, some l => some (l.merge v) := by
  induction upper generalizing lower with
  | nil => rw [mergeMembers]; rfl
  | cons m rest ih =>
    obtain ⟨k, v⟩ := m
    obtain ⟨hk, hrest⟩ := List.nodup_cons.1 h
    rw [mergeMembers, ih hrest]
    by_cases heq : key = k
    · subst heq
      have hnone : rest.lookup key = none := by
        cases hfound : rest.lookup key with
        | none => rfl
        | some u => exact absurd (List.mem_map.2 ⟨_, Members.mem_of_lookup hfound, rfl⟩) hk
      rw [hnone, lookup_mergeMember_self, List.lookup_cons_self]
      cases lower.lookup key <;> rfl
    · have hskip : ((k, v) :: rest).lookup key = rest.lookup key := by
        rw [List.lookup_cons, beq_eq_false_iff_ne.2 heq]
      rw [hskip, lookup_mergeMember_ne heq]

/-! ## Layers -/

/-- A table whose members have distinct names. -/
structure IsTable (s : Setting) : Prop where
  table : ∃ origin, s = .table origin s.members
  distinct : Members.Distinct s.members

/-- A table of distinct names that says nothing about the timer, or has a table about it. -/
structure IsLayer (s : Setting) : Prop extends IsTable s where
  timer : ∀ {timer : Setting}, s.members.lookup "timer" = some timer → timer.IsTable

/-- What a layer says about the setting of the timer that has a key. -/
def timer? (s : Setting) (key : String) : Option Setting :=
  (s.members.lookup "timer").bind (·.members.lookup key)

variable {lower upper : Setting} {key : String}

/-- Two tables are merged member by member. -/
theorem IsTable.merge_eq (hlower : lower.IsTable) (hupper : upper.IsTable) :
    ∃ origin, lower.merge upper = .table origin (mergeMembers lower.members upper.members) := by
  obtain ⟨o, ho⟩ := hlower.table
  obtain ⟨o', ho'⟩ := hupper.table
  rw [ho, ho']
  exact ⟨o', by rw [merge]; rfl⟩

theorem IsTable.merge (hlower : lower.IsTable) (hupper : upper.IsTable) :
    (lower.merge upper).IsTable := by
  obtain ⟨o, heq⟩ := hlower.merge_eq hupper
  rw [heq]
  exact ⟨⟨o, rfl⟩, distinct_mergeMembers hlower.distinct _⟩

/-- What stands under a key of two merged tables: what the upper one has, merged with what the
lower one has. -/
theorem IsTable.lookup_merge (hlower : lower.IsTable) (hupper : upper.IsTable) (key : String) :
    (lower.merge upper).members.lookup key
      = match upper.members.lookup key, lower.members.lookup key with
        | none, l => l
        | some v, none => some v
        | some v, some l => some (l.merge v) := by
  obtain ⟨o, heq⟩ := hlower.merge_eq hupper
  rw [heq]
  exact lookup_mergeMembers hupper.distinct _ key

/-- A merge of layers is a layer, whichever of them says something about the timer. -/
theorem IsLayer.merge (hlower : lower.IsLayer) (hupper : upper.IsLayer) :
    (lower.merge upper).IsLayer := by
  refine ⟨hlower.toIsTable.merge hupper.toIsTable, fun {timer} htimer => ?_⟩
  rw [hlower.toIsTable.lookup_merge hupper.toIsTable] at htimer
  cases hu : upper.members.lookup "timer" with
  | none =>
    rw [hu] at htimer
    exact hlower.timer htimer
  | some u =>
    cases hl : lower.members.lookup "timer" with
    | none =>
      rw [hu, hl] at htimer
      rw [← Option.some.inj htimer]
      exact hupper.timer hu
    | some l =>
      rw [hu, hl] at htimer
      rw [← Option.some.inj htimer]
      exact (hlower.timer hl).merge (hupper.timer hu)

/-- What a layer says about a setting of the timer is nothing, or as a count it is the given one. -/
def Tells (s : Setting) (key : String) (what : Option Setting) : Prop :=
  Option.Rel CountsAs (s.timer? key) what

theorem tells_timer? (s : Setting) (key : String) : s.Tells key (s.timer? key) := by
  unfold Tells
  cases s.timer? key with
  | none => exact .none
  | some v => exact .some fun _ _ => rfl

/-- **What a merge says about a setting of the timer**: what the upper layer says, or what the lower
one says where the upper one says nothing. -/
theorem IsLayer.tells_merge (hlower : lower.IsLayer) (hupper : upper.IsLayer) {l u : Option Setting}
    (hl : lower.Tells key l) (hu : upper.Tells key u) : (lower.merge upper).Tells key (u.or l) := by
  have hmerge := hlower.toIsTable.lookup_merge hupper.toIsTable "timer"
  unfold Tells timer? at *
  rw [hmerge]
  cases hupperTimer : upper.members.lookup "timer" with
  | none =>
    rw [hupperTimer] at hu
    cases hu
    exact hl
  -- only where both have a table for the timer are their fields merged
  | some t =>
    cases hlowerTimer : lower.members.lookup "timer" with
    | none =>
      rw [hlowerTimer] at hl
      rw [hupperTimer] at hu
      cases hl
      rw [Option.or_none]
      exact hu
    | some t' =>
      have hinner := (hlower.timer hlowerTimer).lookup_merge (hupper.timer hupperTimer) key
      rw [hlowerTimer, Option.bind_some] at hl
      rw [hupperTimer, Option.bind_some] at hu
      simp only [Option.bind_some, hinner]
      generalize t.members.lookup key = v at hu
      generalize t'.members.lookup key = v' at hl
      cases hu with
      | none => exact hl
      | @some v w hv =>
        -- the upper layer decides, whatever the value was that it is merged over
        cases v' with
        | none => exact .some hv
        | some v' => exact .some fun expected path =>
          (merge_countsAs v' v expected path).trans (hv expected path)

/-- A layer with one member, a path that starts at the timer. -/
theorem isLayer_nest (origin : Origin) (key : String) (rest : List String) (v : Setting) :
    (nest origin ("timer" :: key :: rest) v).IsLayer := by
  have hsingle : ∀ (key : String) (v : Setting), (Setting.table origin [(key, v)]).IsTable :=
    fun key v => ⟨⟨origin, rfl⟩, by simp [Members.Distinct, members]⟩
  refine ⟨hsingle _ _, fun {timer} htimer => ?_⟩
  obtain rfl : nest origin (key :: rest) v = timer := by simpa [nest, members] using htimer
  exact hsingle _ _

/-- A path that starts at the timer says something about its next key and about no other. -/
theorem timer?_nest (origin : Origin) (key other : String) (rest : List String) (v : Setting) :
    (nest origin ("timer" :: key :: rest) v).timer? other
      = if other = key then some (nest origin rest v) else none := by
  by_cases h : other = key
  · subst h
    simp [timer?, nest, members]
  · simp [timer?, nest, members, List.lookup_cons, beq_eq_false_iff_ne.2 h, h]

end Setting

/-! ## The environment -/

namespace Environment

open Setting

/-- A text has at least one part between its points. -/
theorem splitPoints_ne_nil (s : List Char) : splitPoints s ≠ [] := by
  cases s with
  | nil => simp [splitPoints]
  | cons c rest =>
    rw [splitPoints]
    split
    · simp
    · split <;> simp

/-- A text without points is one part. -/
theorem splitPoints_of_notMem {s : List Char} (h : '.' ∉ s) : splitPoints s = [s] := by
  induction s with
  | nil => rfl
  | cons c rest ih =>
    have hc : c ≠ '.' := fun heq => h (heq ▸ List.mem_cons_self)
    rw [splitPoints, ih fun hmem => h (List.mem_cons_of_mem _ hmem)]
    simp only [if_neg hc]

/-- The first part is all of the text, or a point stands behind it. -/
theorem splitPoints_cons {s part : List Char} {parts : List (List Char)}
    (h : splitPoints s = part :: parts) :
    (parts = [] ∧ s = part) ∨ ∃ tail, s = part ++ '.' :: tail := by
  induction s generalizing part parts with
  | nil =>
    obtain ⟨rfl, rfl⟩ := List.cons.inj h
    exact Or.inl ⟨rfl, rfl⟩
  | cons c rest ih =>
    rw [splitPoints] at h
    split at h
    · next hnil => exact absurd hnil (splitPoints_ne_nil rest)
    · next part' parts' hrest =>
      split at h
      · next hc =>
        obtain ⟨rfl, -⟩ := List.cons.inj h
        exact Or.inr ⟨rest, by rw [hc]; rfl⟩
      · obtain ⟨rfl, rfl⟩ := List.cons.inj h
        rcases ih hrest with ⟨hnil, rfl⟩ | ⟨tail, rfl⟩
        · exact Or.inl ⟨hnil, rfl⟩
        · exact Or.inr ⟨tail, rfl⟩

/-- The name of a variable as names are compared: without blanks at its ends, in capitals. -/
def canonical (name : String) : List Char := (Text.trim name.toList).map Char.toUpper

/-- A variable that names a setting starts with the stem, whatever its letter case. -/
theorem settingName?_eq_some {name : String} {rest : List Char}
    (h : settingName? name = some rest) :
    canonical name = variableStem.toList ++ rest.map Char.toUpper := by
  unfold settingName? at h
  simp only at h
  split at h
  · next hhead =>
    rw [← Option.some.inj h]
    calc canonical name
        = (Text.trim name.toList).map Char.toUpper := rfl
      _ = ((Text.trim name.toList).take variableStem.toList.length).map Char.toUpper
            ++ ((Text.trim name.toList).drop variableStem.toList.length).map Char.toUpper := by
          rw [← List.map_append, List.take_append_drop]
      _ = _ := by rw [hhead]
  · simp at h

/-- A variable that starts with the stem names a setting, by the rest of its name. -/
theorem settingName?_of_canonical {name : String} {tail : List Char}
    (h : canonical name = variableStem.toList ++ tail) :
    ∃ rest, settingName? name = some rest ∧ rest.map Char.toUpper = tail := by
  have htake := congrArg (List.take variableStem.toList.length) h
  have hdrop := congrArg (List.drop variableStem.toList.length) h
  rw [canonical, ← List.map_take, List.take_left] at htake
  rw [canonical, ← List.map_drop, List.drop_left] at hdrop
  refine ⟨_, ?_, hdrop⟩
  unfold settingName?
  simp only
  rw [if_pos htake]

/-- A variable that sets a key of the timer, or a part of what is under it, is named for the key. -/
theorem canonical_of_path? {name key : String} {rest : List String}
    (h : path? name = some (key :: rest)) :
    (rest = [] ∧ canonical name = variableStem.toList ++ key.toList.map Char.toUpper)
      ∨ (variableStem.toList ++ key.toList.map Char.toUpper ++ ['.']) <+: canonical name := by
  simp only [path?, Option.bind_eq_bind, Option.bind_eq_some_iff] at h
  obtain ⟨text, htext, h⟩ := h
  rw [settingName?_eq_some htext]
  split at h
  · simp at h
  · cases hparts : splitPoints text with
    | nil => exact absurd hparts (splitPoints_ne_nil text)
    | cons part parts =>
      rw [hparts] at h
      obtain ⟨hkey, hrest⟩ := List.cons.inj (Option.some.inj h)
      have hupper : key.toList.map Char.toUpper = part.map Char.toUpper := by
        rw [← hkey, String.toList_ofList, map_toUpper_toLower]
      rw [hupper]
      rcases splitPoints_cons hparts with ⟨rfl, rfl⟩ | ⟨tail, rfl⟩
      · exact Or.inl ⟨hrest.symm, rfl⟩
      · right
        refine ⟨tail.map Char.toUpper, ?_⟩
        rw [List.map_append, List.map_cons, List.append_assoc, List.append_assoc]
        rfl

/-- A variable that is named for a key of the timer sets it. -/
theorem path?_of_canonical {name key : String} (hname : key.toList ≠ [])
    (hpoint : '.' ∉ key.toList.map Char.toUpper)
    (hlower : (key.toList.map Char.toUpper).map Char.toLower = key.toList)
    (h : canonical name = variableStem.toList ++ key.toList.map Char.toUpper) :
    path? name = some [key] := by
  obtain ⟨rest, hrest, hupper⟩ := settingName?_of_canonical h
  have hnopoint : '.' ∉ rest := by
    intro hmem
    apply hpoint
    rw [← hupper]
    exact List.mem_map.2 ⟨'.', hmem, by decide⟩
  have hrestlower : rest.map Char.toLower = key.toList := by
    rw [← map_toLower_toUpper, hupper, hlower]
  have hne : rest.isEmpty = false := by
    cases rest with
    | nil => exact absurd hrestlower.symm hname
    | cons c rest => rfl
  simp only [path?, hrest, Option.bind_eq_bind, Option.bind_some, splitPoints_of_notMem hnopoint,
    List.any_cons, List.any_nil, Bool.or_false, hne, Bool.false_eq_true, if_false, List.map_cons,
    List.map_nil, hrestlower, String.ofList_toList]

/-- One variable over a layer. -/
def putOn (layer : Setting) (v : String × String) : Setting :=
  match path? v.1 with
  | none => layer
  | some path => layer.merge (.nest .environment ("timer" :: path) (Variable.value v.2))

theorem layer_eq (env : Environment) : env.layer = env.foldl putOn (.table .environment []) := rfl

theorem path?_ne_nil (name : String) : path? name ≠ some [] := by
  intro h
  simp only [path?, Option.bind_eq_bind, Option.bind_eq_some_iff] at h
  obtain ⟨text, -, h⟩ := h
  split at h
  · simp at h
  · have hnil := Option.some.inj h
    rw [List.map_eq_nil_iff] at hnil
    exact splitPoints_ne_nil text hnil

variable {layer : Setting} {key : String}

/-- A variable over a layer makes a layer. -/
theorem putOn_isLayer (h : layer.IsLayer) (v : String × String) : (putOn layer v).IsLayer := by
  unfold putOn
  cases hpath : path? v.1 with
  | none => exact h
  | some path =>
    cases path with
    | nil => exact absurd hpath (path?_ne_nil v.1)
    | cons k rest => exact h.merge (isLayer_nest _ k rest _)

/-- Variables over a layer, one after the other, make a layer. Induction on the variables. -/
theorem foldl_isLayer (env : Environment) (h : layer.IsLayer) :
    (env.foldl putOn layer).IsLayer := by
  induction env generalizing layer with
  | nil => exact h
  | cons v rest ih => exact ih (putOn_isLayer h v)

/-- A variable that is about something else leaves what is said about a key. -/
theorem tells_putOn_of_ne (h : layer.IsLayer) {v : String × String} {what : Option Setting}
    (hv : ∀ rest, path? v.1 ≠ some (key :: rest)) (htells : layer.Tells key what) :
    (putOn layer v).Tells key what := by
  unfold putOn
  cases hpath : path? v.1 with
  | none => exact htells
  | some path =>
    cases path with
    | nil => exact absurd hpath (path?_ne_nil v.1)
    | cons k rest =>
      have hk : key ≠ k := fun heq => hv rest (heq ▸ hpath)
      have hnest :
          (nest .environment ("timer" :: k :: rest) (Variable.value v.2)).Tells key none := by
        rw [Tells, timer?_nest, if_neg hk]
        exact .none
      exact h.tells_merge (isLayer_nest _ k rest _) htells hnest

/-- Variables that are about something else leave what is said about a key. Induction on the
variables. -/
theorem tells_foldl_of_ne (env : Environment) (h : layer.IsLayer) {what : Option Setting}
    (henv : ∀ v ∈ env, ∀ rest, path? v.1 ≠ some (key :: rest)) (htells : layer.Tells key what) :
    (env.foldl putOn layer).Tells key what := by
  induction env generalizing layer with
  | nil => exact htells
  | cons v rest ih =>
    exact ih (putOn_isLayer h v) (fun u hu => henv u (List.mem_cons_of_mem _ hu))
      (tells_putOn_of_ne h (henv v List.mem_cons_self) htells)

/-- A variable that is about a key says what its value says. -/
theorem tells_putOn_self (h : layer.IsLayer) {v : String × String} (hv : path? v.1 = some [key])
    {what : Option Setting} (htells : layer.Tells key what) :
    (putOn layer v).Tells key (some (Variable.value v.2)) := by
  unfold putOn
  rw [hv]
  have hnest : (nest .environment ["timer", key] (Variable.value v.2)).Tells key
      (some (Variable.value v.2)) := by
    rw [Tells, timer?_nest, if_pos rfl]
    exact .some fun _ _ => rfl
  exact h.tells_merge (isLayer_nest _ key [] _) htells hnest

theorem isLayer_layer (env : Environment) : env.layer.IsLayer :=
  foldl_isLayer env
    ⟨⟨⟨_, rfl⟩, List.nodup_nil⟩, fun h => by simp [members] at h⟩

/-- **What the environment says about a key**, where one variable at most is about it: nothing, or
the value of the variable. -/
theorem tells_layer {env : Environment} {isNamed : String × String → Bool}
    (hnamed : ∀ v, isNamed v = true → path? v.1 = some [key])
    (hother : ∀ v ∈ env, ∀ rest, path? v.1 = some (key :: rest) → isNamed v = true)
    (hsingle : (env.filter isNamed).length ≤ 1) :
    env.layer.Tells key ((env.find? isNamed).map fun v => Variable.value v.2) := by
  have hbottom : (Setting.table .environment []).IsLayer := isLayer_layer []
  have hnothing : (Setting.table .environment []).Tells key none := .none
  rw [layer_eq]
  cases hfind : env.find? isNamed with
  | none =>
    exact tells_foldl_of_ne env hbottom
      (fun v hv rest hpath => List.find?_eq_none.1 hfind v hv (hother v hv rest hpath)) hnothing
  | some v =>
    -- what comes before the variable and after it is about something else
    obtain ⟨hisNamed, before, after, rfl, -⟩ := List.find?_eq_some_iff_append.1 hfind
    rw [List.filter_append, List.filter_cons_of_pos hisNamed, List.length_append,
      List.length_cons] at hsingle
    have hafter : after.filter isNamed = [] := List.eq_nil_of_length_eq_zero (by omega)
    have hbefore : before.filter isNamed = [] := List.eq_nil_of_length_eq_zero (by omega)
    rw [List.filter_eq_nil_iff] at hafter hbefore
    have hstart := tells_foldl_of_ne before hbottom
      (fun u hu rest hpath => hbefore u hu (hother u (by simp [hu]) rest hpath)) hnothing
    have hlayer := foldl_isLayer before hbottom
    rw [List.foldl_append, List.foldl_cons]
    exact tells_foldl_of_ne after (putOn_isLayer hlayer v)
      (fun u hu rest hpath => hafter u hu (hother u (by simp [hu]) rest hpath))
      (tells_putOn_self hlayer (hnamed v hisNamed) hstart)

end Environment

end TimingWheel
