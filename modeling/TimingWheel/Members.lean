/-!
# Named members

Lists of values under names, in the order in which the names first came up. `List.lookup` finds the
value under a name, and `Members.set` puts one there.
-/

namespace TimingWheel.Members

variable {α : Type}

/-- Sets a member: in its place where there is one of that name, else behind the others. -/
def set (name : String) (v : α) : List (String × α) → List (String × α)
  | [] => [(name, v)]
  | (k, u) :: rest => if k = name then (k, v) :: rest else (k, u) :: set name v rest

/-- A member that was set is found. -/
theorem lookup_set_self (name : String) (v : α) (ms : List (String × α)) :
    (set name v ms).lookup name = some v := by
  induction ms with
  | nil => simp [set]
  | cons m rest ih =>
    obtain ⟨k, u⟩ := m
    by_cases h : k = name
    · simp [set, h]
    · simp [set, h, List.lookup_cons, ih, beq_eq_false_iff_ne.2 (Ne.symm h)]

/-- Setting a member leaves the others as they are. -/
theorem lookup_set_ne {name other : String} (h : other ≠ name) (v : α) (ms : List (String × α)) :
    (set name v ms).lookup other = ms.lookup other := by
  induction ms with
  | nil => simp [set, h]
  | cons m rest ih =>
    obtain ⟨k, u⟩ := m
    by_cases hk : k = name
    · subst hk
      simp [set, List.lookup_cons, beq_eq_false_iff_ne.2 h]
    · simp [set, hk, List.lookup_cons, ih]

/-- No name comes up twice. -/
def Distinct (ms : List (String × α)) : Prop := (ms.map (·.1)).Nodup

theorem mem_set {name : String} {v : α} {ms : List (String × α)} {m : String × α}
    (h : m ∈ set name v ms) : m = (name, v) ∨ m ∈ ms := by
  induction ms with
  | nil => exact Or.inl (List.mem_singleton.1 h)
  | cons m' rest ih =>
    obtain ⟨k, u⟩ := m'
    by_cases hk : k = name
    · subst hk
      rw [set, if_pos rfl] at h
      rcases List.mem_cons.1 h with rfl | hrest
      · exact Or.inl rfl
      · exact Or.inr (List.mem_cons_of_mem _ hrest)
    · rw [set, if_neg hk] at h
      rcases List.mem_cons.1 h with rfl | hrest
      · exact Or.inr List.mem_cons_self
      · rcases ih hrest with heq | hmem
        · exact Or.inl heq
        · exact Or.inr (List.mem_cons_of_mem _ hmem)

theorem distinct_set (name : String) (v : α) {ms : List (String × α)} (h : Distinct ms) :
    Distinct (set name v ms) := by
  induction ms with
  | nil => simp [set, Distinct]
  | cons m rest ih =>
    obtain ⟨k, u⟩ := m
    obtain ⟨hk, hrest⟩ := List.nodup_cons.1 h
    by_cases heq : k = name
    · subst heq
      rw [set, if_pos rfl]
      exact List.nodup_cons.2 ⟨hk, hrest⟩
    · rw [set, if_neg heq]
      refine List.nodup_cons.2 ⟨fun hmem => ?_, ih hrest⟩
      obtain ⟨m, hm, hname⟩ := List.mem_map.1 hmem
      rcases mem_set hm with rfl | hold
      · exact heq hname.symm
      · exact hk (List.mem_map.2 ⟨m, hold, hname⟩)

/-- What is found under a name is a member of that name. -/
theorem mem_of_lookup {name : String} {v : α} {ms : List (String × α)}
    (h : ms.lookup name = some v) : (name, v) ∈ ms := by
  obtain ⟨before, after, rfl, -⟩ := List.lookup_eq_some_iff.1 h
  exact List.mem_append_right _ List.mem_cons_self

end TimingWheel.Members
