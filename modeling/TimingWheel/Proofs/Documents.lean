import TimingWheel.Layers.Load

/-!
# What a document can hold

The reader of documents refuses to define anything twice and to write an integer that is out of
range, so what it reads is tidy: no table has two members of one name, and every integer is one of
64 bits with a sign. Both are kept when a document becomes a layer of settings.

* **`Node.Tidy`** — said of nodes, and **`Setting.Tidy`** of settings.
* **`Table.Tidy.put`**, **`Table.Tidy.modifyAt`** — the two ways in which a document grows keep it.
* **`Toml.tidy_read`** — by induction on the depth of a value, on its items and on the lines.
* **`Setting.tidy_ofFile`** — a file as a layer is tidy.
-/

namespace TimingWheel

/-- A scalar whose integer, if it is one, is a count or has 64 bits with a sign. -/
def Scalar.InRange : Scalar → Prop
  | .signed i => -0x8000000000000000 ≤ i ∧ i < 0x8000000000000000
  | .count n => n ≤ ceiling
  | _ => True

/-- No table has two members of one name, and integers are in range. -/
inductive Setting.Tidy : Setting → Prop where
  | scalar {origin : Origin} {value : Scalar} (inRange : value.InRange) :
      Tidy (.scalar origin value)
  | sequence {origin : Origin} {items : List Setting} (each : ∀ v ∈ items, v.Tidy) :
      Tidy (.sequence origin items)
  | table {origin : Origin} {members : List (String × Setting)}
      (distinct : Members.Distinct members) (each : ∀ m ∈ members, m.2.Tidy) :
      Tidy (.table origin members)

theorem Setting.tidy_nil (origin : Origin) : (Setting.table origin []).Tidy :=
  .table List.nodup_nil fun _ hm => by simp at hm

namespace Toml

/-- No table has two members of one name, and integers are in range. -/
inductive Node.Tidy : Node → Prop where
  | scalar {value : Scalar} (inRange : value.InRange) : Tidy (.scalar value)
  | moment : Tidy .moment
  | array {items : List Node} (each : ∀ v ∈ items, v.Tidy) : Tidy (.array items)
  | table {kind : TableKind} {members : List (String × Node)} (distinct : Members.Distinct members)
      (each : ∀ m ∈ members, m.2.Tidy) : Tidy (.table kind members)
  | tables {items : List (List (String × Node))} (distinct : ∀ t ∈ items, Members.Distinct t)
      (each : ∀ t ∈ items, ∀ m ∈ t, m.2.Tidy) : Tidy (.tables items)

/-! ## Tables that grow -/

/-- The members of a table have distinct names, and what they hold is tidy. -/
structure Table.Tidy (t : Table) : Prop where
  distinct : Members.Distinct t
  member : ∀ m ∈ t, m.2.Tidy

namespace Table

variable {t t' : Table} {key : String} {v : Node}

theorem tidy_nil : Tidy [] := ⟨List.nodup_nil, fun _ h => by simp at h⟩

/-- A member that is set replaces the one of its name or is new, so names stay distinct. -/
theorem Tidy.set (h : t.Tidy) (hv : v.Tidy) (key : String) : Tidy (Members.set key v t) := by
  refine ⟨Members.distinct_set key v h.distinct, fun m hm => ?_⟩
  rcases Members.mem_set hm with rfl | hold
  · exact hv
  · exact h.member m hold

/-- What a tidy table holds under a name is tidy. -/
theorem Tidy.lookup (h : t.Tidy) (hv : t.lookup key = some v) : v.Tidy :=
  h.member _ (Members.mem_of_lookup hv)

theorem Tidy.of_table {kind : TableKind} (h : (Node.table kind t).Tidy) : t.Tidy := by
  cases h with
  | table distinct each => exact ⟨distinct, each⟩

theorem Tidy.table (h : t.Tidy) (kind : TableKind) : (Node.table kind t).Tidy :=
  .table h.distinct h.member

theorem Tidy.of_tables {items : List Table} (h : (Node.tables items).Tidy) :
    ∀ t ∈ items, t.Tidy := by
  cases h with
  | tables distinct each => exact fun t ht => ⟨distinct t ht, each t ht⟩

theorem tidy_tables {items : List Table} (h : ∀ t ∈ items, t.Tidy) : (Node.tables items).Tidy :=
  .tables (fun t ht => (h t ht).distinct) fun t ht => (h t ht).member

/-- Changing the last item of a list keeps what the change keeps. -/
theorem modifyLast_keeps {f : Table → Option Table}
    (hf : ∀ t t', t.Tidy → f t = some t' → t'.Tidy) {items items' : List Table}
    (hitems : ∀ t ∈ items, t.Tidy) (h : modifyLast f items = some items') :
    ∀ t ∈ items', t.Tidy := by
  fun_induction modifyLast f items generalizing items' with
  | case1 => simp at h
  | case2 t =>
    obtain ⟨t', ht', rfl⟩ := Option.map_eq_some_iff.1 h
    intro u hu
    rw [List.mem_singleton.1 hu]
    exact hf t t' (hitems t List.mem_cons_self) ht'
  | case3 t rest hrest ih =>
    obtain ⟨rest', hrest', rfl⟩ := Option.map_eq_some_iff.1 h
    intro u hu
    rcases List.mem_cons.1 hu with rfl | hu
    · exact hitems _ List.mem_cons_self
    · exact ih (fun t ht => hitems t (List.mem_cons_of_mem _ ht)) hrest' u hu

/-- A value under a dotted key. Induction on the key. -/
theorem Tidy.put (hv : v.Tidy) {path : List String} (ht : t.Tidy)
    (h : Table.put v path t = some t') : t'.Tidy := by
  induction path generalizing t t' with
  | nil => simp [Table.put] at h
  | cons key rest ih =>
    -- the last key of a path gets the value; the others lead to a table that is there or is made
    cases rest with
    | nil =>
      rw [Table.put] at h
      split at h
      · simp at h
      · rw [← Option.some.inj h]
        exact ht.set hv key
    | cons next rest =>
      rw [Table.put] at h
      split at h
      · obtain ⟨sub, hsub, rfl⟩ := Option.map_eq_some_iff.1 h
        exact ht.set ((ih tidy_nil hsub).table _) key
      · next sub hlookup =>
        obtain ⟨sub', hsub', rfl⟩ := Option.map_eq_some_iff.1 h
        exact ht.set ((ih (.of_table (ht.lookup hlookup)) hsub').table _) key
      · next sub hlookup =>
        split at h
        · simp at h
        · obtain ⟨sub', hsub', rfl⟩ := Option.map_eq_some_iff.1 h
          exact ht.set ((ih (.of_table (ht.lookup hlookup)) hsub').table _) key
      · next items hlookup =>
        split at h
        · simp at h
        · obtain ⟨items', hitems', rfl⟩ := Option.map_eq_some_iff.1 h
          have hitems := modifyLast_keeps (fun _ _ ht h => ih ht h)
            (Tidy.of_tables (ht.lookup hlookup)) hitems'
          exact ht.set (tidy_tables hitems) key
      · simp at h

/-- A change of the table that a header's path leads to. Induction on the path. -/
theorem Tidy.modifyAt {f : Table → Option Table} (hf : ∀ t t', t.Tidy → f t = some t' → t'.Tidy)
    {path : List String} (ht : t.Tidy) (h : Table.modifyAt f path t = some t') : t'.Tidy := by
  induction path generalizing t t' with
  | nil => exact hf t t' ht h
  | cons key rest ih =>
    rw [Table.modifyAt] at h
    split at h
    · obtain ⟨sub, hsub, rfl⟩ := Option.map_eq_some_iff.1 h
      exact ht.set ((ih tidy_nil hsub).table _) key
    · simp at h
    · next kind sub _ hlookup =>
      obtain ⟨sub', hsub', rfl⟩ := Option.map_eq_some_iff.1 h
      exact ht.set ((ih (.of_table (ht.lookup hlookup)) hsub').table _) key
    · next items hlookup =>
      obtain ⟨items', hitems', rfl⟩ := Option.map_eq_some_iff.1 h
      have hitems := modifyLast_keeps (fun _ _ ht h => ih ht h)
        (Tidy.of_tables (ht.lookup hlookup)) hitems'
      exact ht.set (tidy_tables hitems) key
    · simp at h

/-- The way to a dotted key opens a table under a name, and keeps the tables tidy. -/
theorem Tidy.openMember (ht : t.Tidy) (h : Table.openMember key t = some t') : t'.Tidy := by
  unfold Table.openMember at h
  split at h
  · rw [← Option.some.inj h]
    exact ht.set (tidy_nil.table _) key
  · next sub hlookup =>
    rw [← Option.some.inj h]
    exact ht.set ((Tidy.of_table (ht.lookup hlookup)).table _) key
  · simp at h

/-- A new item of an array of tables is empty, hence tidy. -/
theorem Tidy.openItem (ht : t.Tidy) (h : Table.openItem key t = some t') : t'.Tidy := by
  unfold Table.openItem at h
  split at h
  · rw [← Option.some.inj h]
    refine ht.set (tidy_tables fun u hu => ?_) key
    rw [List.mem_singleton.1 hu]
    exact tidy_nil
  · next items hlookup =>
    rw [← Option.some.inj h]
    refine ht.set (tidy_tables fun u hu => ?_) key
    rcases List.mem_append.1 hu with hold | hnew
    · exact Tidy.of_tables (ht.lookup hlookup) u hold
    · rw [List.mem_singleton.1 hnew]
      exact tidy_nil
  · simp at h

end Table

/-! ## What the reader reads -/

/-- Whatever the reader reads has the property. -/
def Reader.Yields {α : Type} (r : Reader α) (p : α → Prop) : Prop :=
  ∀ {s : List Char} {v : α} {rest : List Char}, r s = some (v, rest) → p v

/-- An integer that is read is one of 64 bits with a sign; others are refused. -/
theorem tidy_integer {i : Int} {v : Node} (h : integer? i = some v) : v.Tidy := by
  unfold integer? at h
  split at h
  · next hrange =>
    rw [← Option.some.inj h]
    exact .scalar hrange
  · simp at h

theorem tidy_based (base : Nat) (isDigit : Char → Bool) :
    Reader.Yields (based base isDigit) Node.Tidy := by
  intro s v rest h
  simp only [based, Option.bind_eq_bind, Option.bind_eq_some_iff] at h
  obtain ⟨⟨digits, rest'⟩, -, node, hnode, heq⟩ := h
  obtain ⟨rfl, -⟩ := Prod.mk.inj (Option.some.inj heq)
  exact tidy_integer hnode

theorem tidy_decimal (negative : Bool) : Reader.Yields (decimal negative) Node.Tidy := by
  intro s v rest h
  simp only [decimal, Option.bind_eq_bind, Option.bind_eq_some_iff] at h
  obtain ⟨⟨whole, afterWhole⟩, -, h⟩ := h
  split at h
  · obtain ⟨node, hnode, heq⟩ := Option.bind_eq_some_iff.1 h
    obtain ⟨rfl, -⟩ := Prod.mk.inj (Option.some.inj heq)
    exact tidy_integer hnode
  · split at h
    · simp at h
    · obtain ⟨rfl, -⟩ := Prod.mk.inj (Option.some.inj h)
      exact .scalar trivial

theorem tidy_unsigned (negative : Bool) : Reader.Yields (unsigned negative) Node.Tidy := by
  intro s v rest h
  unfold unsigned at h
  split at h
  · obtain ⟨rfl, -⟩ := Prod.mk.inj (Option.some.inj h)
    exact .scalar trivial
  · obtain ⟨rfl, -⟩ := Prod.mk.inj (Option.some.inj h)
    exact .scalar trivial
  · exact tidy_decimal negative h

theorem tidy_numeral : Reader.Yields numeral Node.Tidy := by
  intro s v rest h
  unfold numeral at h
  split at h
  · exact tidy_unsigned _ h
  · exact tidy_unsigned _ h
  · exact tidy_based _ _ h
  · exact tidy_based _ _ h
  · exact tidy_based _ _ h
  · exact tidy_unsigned _ h

/-- Whatever is read as a number is tidy. -/
theorem tidy_number : Reader.Yields number Node.Tidy := by
  intro s v rest h
  unfold number at h
  split at h
  · obtain ⟨_, -, heq⟩ := Option.map_eq_some_iff.1 h
    obtain ⟨rfl, -⟩ := Prod.mk.inj heq
    exact .moment
  · split at h
    · obtain ⟨_, -, heq⟩ := Option.map_eq_some_iff.1 h
      obtain ⟨rfl, -⟩ := Prod.mk.inj heq
      exact .moment
    · exact tidy_numeral h

/-- The items of an array are tidy if the reader of an item yields tidy ones. Induction on the
number of items still to come. -/
theorem tidy_itemsWithin {item : Reader Node} (hitem : Reader.Yields item Node.Tidy) (n : Nat) :
    Reader.Yields (itemsWithin item n) fun items => ∀ v ∈ items, v.Tidy := by
  induction n with
  | zero =>
    intro s v rest h
    simp [itemsWithin] at h
  | succ n ih =>
    intro s vs rest h
    rw [itemsWithin] at h
    split at h
    -- the text closes the array, goes on after a comma, or ends with this item
    · obtain ⟨rfl, -⟩ := Prod.mk.inj (Option.some.inj h)
      simp
    · simp only [Option.bind_eq_bind, Option.bind_eq_some_iff] at h
      obtain ⟨⟨v, rest'⟩, hv, h⟩ := h
      split at h
      · obtain ⟨⟨vs', rest''⟩, hvs', heq⟩ := Option.bind_eq_some_iff.1 h
        obtain ⟨rfl, -⟩ := Prod.mk.inj (Option.some.inj heq)
        intro u hu
        rcases List.mem_cons.1 hu with rfl | hu
        · exact hitem hv
        · exact ih hvs' u hu
      · obtain ⟨rfl, -⟩ := Prod.mk.inj (Option.some.inj h)
        intro u hu
        rw [List.mem_singleton.1 hu]
        exact hitem hv
      · simp at h

/-- The members of an inline table are put into it one by one, so it stays tidy. Induction on the
number of members still to come. -/
theorem tidy_membersWithin {item : Reader Node} (hitem : Reader.Yields item Node.Tidy) (n : Nat)
    {t : Table} (ht : t.Tidy) : Reader.Yields (membersWithin item t n) Table.Tidy := by
  induction n generalizing t with
  | zero =>
    intro s v rest h
    simp [membersWithin] at h
  | succ n ih =>
    intro s t' rest h
    simp only [membersWithin, Option.bind_eq_bind, Option.bind_eq_some_iff] at h
    obtain ⟨⟨path, rest₁⟩, -, rest₂, -, ⟨v, rest₃⟩, hv, t₁, ht₁, h⟩ := h
    have htidy : t₁.Tidy := .put (hitem hv) ht ht₁
    split at h
    · exact ih htidy h
    · obtain ⟨rfl, -⟩ := Prod.mk.inj (Option.some.inj h)
      exact htidy
    · simp at h

/-- A value is tidy. Induction on the depth to which it may nest. -/
theorem tidy_valueWithin (depth : Nat) : Reader.Yields (valueWithin depth) Node.Tidy := by
  induction depth with
  | zero =>
    intro s v rest h
    simp [valueWithin] at h
  | succ depth ih =>
    intro s v rest h
    unfold valueWithin at h
    -- the two kinds of quotes and the two truth values
    split at h
    · obtain ⟨_, -, heq⟩ := Option.map_eq_some_iff.1 h
      obtain ⟨rfl, -⟩ := Prod.mk.inj heq
      exact .scalar trivial
    · obtain ⟨_, -, heq⟩ := Option.map_eq_some_iff.1 h
      obtain ⟨rfl, -⟩ := Prod.mk.inj heq
      exact .scalar trivial
    · obtain ⟨rfl, -⟩ := Prod.mk.inj (Option.some.inj h)
      exact .scalar trivial
    · obtain ⟨rfl, -⟩ := Prod.mk.inj (Option.some.inj h)
      exact .scalar trivial
    -- an array, and then a table in braces, each one level deeper
    · split at h
      · simp at h
      · obtain ⟨⟨vs, _⟩, hvs, heq⟩ := Option.map_eq_some_iff.1 h
        obtain ⟨rfl, -⟩ := Prod.mk.inj heq
        exact .array (tidy_itemsWithin ih _ hvs)
    · split at h
      · simp at h
      · split at h
        · obtain ⟨rfl, -⟩ := Prod.mk.inj (Option.some.inj h)
          exact Table.tidy_nil.table _
        · obtain ⟨⟨t, _⟩, ht, heq⟩ := Option.map_eq_some_iff.1 h
          obtain ⟨rfl, -⟩ := Prod.mk.inj heq
          exact (tidy_membersWithin ih _ Table.tidy_nil ht).table _
    · exact tidy_number h

/-- A line of the document keeps it tidy, a header as well as a key with its value. -/
theorem tidy_line {d d' : Document} {s rest : List Char} (hd : d.root.Tidy)
    (h : line d s = some (d', rest)) : d'.root.Tidy := by
  unfold line at h
  split at h
  -- a table of an array, a table, or a key and its value
  · simp only [Option.bind_eq_bind, Option.bind_eq_some_iff] at h
    obtain ⟨⟨path, _⟩, -, _, -, _, -, _, -, d₁, hopen, heq⟩ := h
    obtain ⟨rfl, -⟩ := Prod.mk.inj (Option.some.inj heq)
    unfold Document.openItem at hopen
    split at hopen
    · simp at hopen
    · obtain ⟨root, hroot, rfl⟩ := Option.map_eq_some_iff.1 hopen
      exact .modifyAt (fun _ _ ht h => .openItem ht h) hd hroot
  · simp only [Option.bind_eq_bind, Option.bind_eq_some_iff] at h
    obtain ⟨⟨path, _⟩, -, _, -, _, -, d₁, hopen, heq⟩ := h
    obtain ⟨rfl, -⟩ := Prod.mk.inj (Option.some.inj heq)
    unfold Document.openTable at hopen
    split at hopen
    · simp at hopen
    · obtain ⟨root, hroot, rfl⟩ := Option.map_eq_some_iff.1 hopen
      exact .modifyAt (fun _ _ ht h => .openMember ht h) hd hroot
  · simp only [Option.bind_eq_bind, Option.bind_eq_some_iff] at h
    obtain ⟨⟨path, _⟩, -, _, -, ⟨v, _⟩, hv, _, -, d₁, hput, heq⟩ := h
    obtain ⟨rfl, -⟩ := Prod.mk.inj (Option.some.inj heq)
    obtain ⟨root, hroot, rfl⟩ := Option.map_eq_some_iff.1 hput
    exact .modifyAt (fun _ _ ht h => .put (tidy_valueWithin _ hv) ht h) hd hroot

/-- The lines one after the other. Induction on the number of lines still to come. -/
theorem tidy_linesWithin {d d' : Document} (n : Nat) {s : List Char} (hd : d.root.Tidy)
    (h : linesWithin d n s = some d') : d'.root.Tidy := by
  induction n generalizing d s with
  | zero => simp [linesWithin] at h
  | succ n ih =>
    rw [linesWithin] at h
    split at h
    · rw [← Option.some.inj h]
      exact hd
    · obtain ⟨⟨d₁, rest⟩, hline, h⟩ := Option.bind_eq_some_iff.1 h
      exact ih (tidy_line hd hline) h

/-- **A document that is read is tidy.** -/
theorem tidy_read {text : String} {d : Document} (h : read? text = some d) : d.root.Tidy :=
  tidy_linesWithin _ Table.tidy_nil h

/-! ## Documents as layers -/

/-- A table of a document becomes a table of settings with the same names. -/
theorem tidy_settingOfTable {origin : Origin} {members : List (String × Setting)}
    (hdistinct : Members.Distinct members) (hmembers : ∀ m ∈ members, m.2.Tidy) :
    (settingOfTable origin members).Tidy := by
  unfold settingOfTable
  cases hvalue : members.lookup valueKey with
  | some v => exact hmembers _ (Members.mem_of_lookup hvalue)
  | none =>
    refine .table ?_ fun m hm => hmembers m (List.mem_filter.1 hm).1
    exact hdistinct.sublist (List.filter_sublist.map _)

/-- The members of a table as settings have the names that they had. -/
theorem names_settingsOfMembers {origin : Origin} {members : List (String × Node)}
    {settings : List (String × Setting)} (h : settingsOfMembers? origin members = some settings) :
    settings.map (·.1) = members.map (·.1) := by
  induction members generalizing settings with
  | nil =>
    rw [settingsOfMembers?] at h
    rw [← Option.some.inj h]
    rfl
  | cons m rest ih =>
    obtain ⟨key, v⟩ := m
    simp only [settingsOfMembers?, Option.bind_eq_bind, Option.bind_eq_some_iff] at h
    obtain ⟨s, -, rest', hrest', heq⟩ := h
    rw [← Option.some.inj heq, List.map_cons, List.map_cons, ih hrest']

mutual

/-- A tidy value becomes a tidy setting. Recursion over the value, together with its items,
members and tables. -/
theorem tidy_toSetting {origin : Origin} : ∀ {v : Node} {s : Setting}, v.Tidy →
    v.toSetting? origin = some s → s.Tidy
  | .scalar value, s, hv, h => by
    cases hv with
    | scalar inRange =>
      rw [Node.toSetting?] at h
      rw [← Option.some.inj h]
      exact .scalar inRange
  | .moment, s, _, h => by
    rw [Node.toSetting?] at h
    rw [← Option.some.inj h]
    exact Setting.tidy_nil origin
  | .array items, s, hv, h => by
    cases hv with
    | array hitems =>
      rw [Node.toSetting?] at h
      obtain ⟨settings, hsettings, rfl⟩ := Option.map_eq_some_iff.1 h
      exact .sequence (tidy_settingsOfItems hitems hsettings)
  | .table kind members, s, hv, h => by
    cases hv with
    | table distinct hmembers =>
      rw [Node.toSetting?] at h
      split at h
      · obtain ⟨settings, hsettings, rfl⟩ := Option.map_eq_some_iff.1 h
        refine tidy_settingOfTable ?_ (tidy_settingsOfMembers hmembers hsettings)
        rw [Members.Distinct, names_settingsOfMembers hsettings]
        exact distinct
      · simp at h
  | .tables items, s, hv, h => by
    cases hv with
    | tables distinct hmembers =>
      rw [Node.toSetting?] at h
      obtain ⟨settings, hsettings, rfl⟩ := Option.map_eq_some_iff.1 h
      exact .sequence (tidy_settingsOfTables distinct hmembers hsettings)

theorem tidy_settingsOfItems {origin : Origin} : ∀ {items : List Node} {settings : List Setting},
    (∀ v ∈ items, v.Tidy) → settingsOfItems? origin items = some settings →
      ∀ s ∈ settings, s.Tidy
  | [], settings, _, h => by
    rw [settingsOfItems?] at h
    rw [← Option.some.inj h]
    simp
  | v :: rest, settings, hitems, h => by
    simp only [settingsOfItems?, Option.bind_eq_bind, Option.bind_eq_some_iff] at h
    obtain ⟨s, hs, settings', hrest, heq⟩ := h
    rw [← Option.some.inj heq]
    intro u hu
    rcases List.mem_cons.1 hu with rfl | hu
    · exact tidy_toSetting (hitems v List.mem_cons_self) hs
    · exact tidy_settingsOfItems (fun v hv => hitems v (List.mem_cons_of_mem _ hv)) hrest u hu

theorem tidy_settingsOfMembers {origin : Origin} : ∀ {members : List (String × Node)}
    {settings : List (String × Setting)}, (∀ m ∈ members, m.2.Tidy) →
      settingsOfMembers? origin members = some settings → ∀ m ∈ settings, m.2.Tidy
  | [], settings, _, h => by
    rw [settingsOfMembers?] at h
    rw [← Option.some.inj h]
    simp
  | (key, v) :: rest, settings, hmembers, h => by
    simp only [settingsOfMembers?, Option.bind_eq_bind, Option.bind_eq_some_iff] at h
    obtain ⟨s, hs, settings', hrest, heq⟩ := h
    rw [← Option.some.inj heq]
    intro m hm
    rcases List.mem_cons.1 hm with rfl | hm
    · exact tidy_toSetting (hmembers (key, v) List.mem_cons_self) hs
    · exact tidy_settingsOfMembers (fun m hm => hmembers m (List.mem_cons_of_mem _ hm)) hrest m hm

theorem tidy_settingsOfTables {origin : Origin} : ∀ {items : List (List (String × Node))}
    {settings : List Setting}, (∀ t ∈ items, Members.Distinct t) →
      (∀ t ∈ items, ∀ m ∈ t, m.2.Tidy) → settingsOfTables? origin items = some settings →
      ∀ s ∈ settings, s.Tidy
  | [], settings, _, _, h => by
    rw [settingsOfTables?] at h
    rw [← Option.some.inj h]
    simp
  | t :: rest, settings, hdistinct, hmembers, h => by
    rw [settingsOfTables?] at h
    split at h
    · simp only [Option.bind_eq_bind, Option.bind_eq_some_iff] at h
      obtain ⟨ms, hms, settings', hrest, heq⟩ := h
      rw [← Option.some.inj heq]
      intro u hu
      rcases List.mem_cons.1 hu with rfl | hu
      · have hnames := names_settingsOfMembers hms
        refine tidy_settingOfTable ?_
          (tidy_settingsOfMembers (hmembers t List.mem_cons_self) hms)
        rw [Members.Distinct, hnames]
        exact hdistinct t List.mem_cons_self
      · exact tidy_settingsOfTables (fun t ht => hdistinct t (List.mem_cons_of_mem _ ht))
          (fun t ht => hmembers t (List.mem_cons_of_mem _ ht)) hrest u hu
    · simp at h

end

end Toml

/-- **A file as a layer is a tidy table.** -/
theorem Setting.tidy_ofFile {files : Files} {path : String} {layer : Setting}
    (h : Setting.ofFile? files path = .ok layer) :
    ∃ origin members, layer = .table origin members ∧ layer.Tidy := by
  unfold ofFile? at h
  split at h
  · rw [← Except.ok.inj h]
    exact ⟨_, _, rfl, tidy_nil _⟩
  · next place text _ =>
    split at h
    · simp at h
    · next layer' hread =>
      rw [← Except.ok.inj h]
      obtain ⟨d, hd, hlayer⟩ := Option.bind_eq_some_iff.1 hread
      obtain ⟨members, hmembers, rfl⟩ := Option.map_eq_some_iff.1 hlayer
      have htidy := Toml.tidy_read hd
      refine ⟨_, _, rfl, .table ?_ (Toml.tidy_settingsOfMembers htidy.member hmembers)⟩
      rw [Members.Distinct, Toml.names_settingsOfMembers hmembers]
      exact htidy.distinct

end TimingWheel
