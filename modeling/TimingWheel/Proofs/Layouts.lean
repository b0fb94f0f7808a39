import TimingWheel.Proofs.Tokens

/-!
# Layouts of JSON

A value can be written in many ways that differ in the blanks between its tokens. All of these are
read as the value, and both of the ways in which values are written are among them.

* **`Json.Layout`** — the characters are the tokens of a value, in order, with any blanks between
  them.
* **`Json.readValue_layout`** — a value is read off any layout of it, whatever follows.
* **`Json.Sound`** — the values that can be written: numbers are numbers, and every string and every
  key has a text.
* **`Json.layout_compactChars`**, **`Json.layout_prettyChars`** — what a value is written as,
  without blanks or with one item a line, is a layout of it.
* **`Json.read?_of_isText`**, **`Json.isText_compact`**, **`Json.isText_pretty`** — the same of
  whole texts.
-/

namespace TimingWheel.Json

/-! ## Tokens with blanks between them -/

mutual

/-- The tokens of a value. -/
inductive Layout : Json → List Char → Prop where
  | null : Layout .null "null".toList
  | bool (b : Bool) : Layout (.bool b) (if b then "true" else "false").toList
  | number {literal : String} (h : IsNumber literal) : Layout (.number literal) literal.toList
  | string (text : String) : Layout (.string (some text)) (quoted (some text))
  | noItems {gap : List Char} (hgap : IsGap gap) : Layout (.array []) ('[' :: (gap ++ [']']))
  | array {items : List Json} {gap s gap' : List Char} (hgap : IsGap gap)
      (h : ItemsLayout items s) (hgap' : IsGap gap') :
      Layout (.array items) ('[' :: (gap ++ (s ++ (gap' ++ [']']))))
  | noMembers {gap : List Char} (hgap : IsGap gap) :
      Layout (.object []) ('\x7b' :: (gap ++ ['\x7d']))
  | object {members : List (Option String × Json)} {gap s gap' : List Char} (hgap : IsGap gap)
      (h : MembersLayout members s) (hgap' : IsGap gap') :
      Layout (.object members) ('\x7b' :: (gap ++ (s ++ (gap' ++ ['\x7d']))))

/-- The tokens of the items of an array, from the first item to the last one. -/
inductive ItemsLayout : List Json → List Char → Prop where
  | last {v : Json} {s : List Char} (h : Layout v s) : ItemsLayout [v] s
  | more {v : Json} {items : List Json} {s gap gap' s' : List Char} (h : Layout v s)
      (hgap : IsGap gap) (hgap' : IsGap gap') (hitems : ItemsLayout items s') :
      ItemsLayout (v :: items) (s ++ (gap ++ ',' :: (gap' ++ s')))

/-- The tokens of the members of an object, from the first member to the last one. -/
inductive MembersLayout : List (Option String × Json) → List Char → Prop where
  | last {key : String} {v : Json} {before after s : List Char} (hbefore : IsGap before)
      (hafter : IsGap after) (h : Layout v s) :
      MembersLayout [(some key, v)] (quoted (some key) ++ (before ++ ':' :: (after ++ s)))
  | more {key : String} {v : Json} {members : List (Option String × Json)}
      {before after s gap gap' s' : List Char} (hbefore : IsGap before) (hafter : IsGap after)
      (h : Layout v s) (hgap : IsGap gap) (hgap' : IsGap gap')
      (hmembers : MembersLayout members s') :
      MembersLayout ((some key, v) :: members)
        (quoted (some key) ++ (before ++ ':' :: (after ++ (s ++ (gap ++ ',' :: (gap' ++ s'))))))

end

/-! ## Reading -/

/-- A text starts with a token that closes nothing. -/
def Opens (s : List Char) : Prop :=
  ∃ c t, s = c :: t ∧ isBlank c = false ∧ c ≠ ']' ∧ c ≠ '\x7d'

section

variable {s t rest : List Char} {v : Json} {depth : Nat} {c : Char}

theorem Opens.append (h : Opens s) (t : List Char) : Opens (s ++ t) := by
  obtain ⟨c, s, rfl, hc⟩ := h
  exact ⟨c, s ++ t, rfl, hc⟩

/-- Skipping blanks ends at a token. -/
theorem Opens.skipBlanks_gap {gap : List Char} (h : Opens s) (hgap : IsGap gap) :
    skipBlanks (gap ++ s) = s := by
  obtain ⟨c, t, rfl, hc, -⟩ := h
  exact skipBlanks_token hgap hc t

/-- Every value starts with a token that closes nothing. -/
theorem Layout.opens (h : Layout v s) : Opens s := by
  cases h with
  | null => exact ⟨'n', ['u', 'l', 'l'], rfl, by decide⟩
  | bool b =>
    cases b with
    | true => exact ⟨'t', ['r', 'u', 'e'], rfl, by decide⟩
    | false => exact ⟨'f', ['a', 'l', 's', 'e'], rfl, by decide⟩
  | number h =>
    obtain ⟨c, t, hchars, hstart⟩ := h.starts
    refine ⟨c, t, hchars, Bool.eq_false_iff.2 fun hblank => ?_, ?_, ?_⟩
    · simp only [isBlank, Bool.or_eq_true, decide_eq_true_eq] at hblank
      rcases hblank with ((rfl | rfl) | rfl) | rfl <;> exact absurd hstart (by decide)
    · rintro rfl
      exact absurd hstart (by decide)
    · rintro rfl
      exact absurd hstart (by decide)
  | string text => exact ⟨_, _, rfl, by decide⟩
  | noItems hgap => exact ⟨_, _, rfl, by decide⟩
  | array hgap h => exact ⟨_, _, rfl, by decide⟩
  | noMembers hgap => exact ⟨_, _, rfl, by decide⟩
  | object hgap h => exact ⟨_, _, rfl, by decide⟩

theorem ItemsLayout.opens {items : List Json} (h : ItemsLayout items s) : Opens s := by
  cases h with
  | last h => exact h.opens
  | more h hgap hgap' hitems => exact h.opens.append _

theorem MembersLayout.opens {members : List (Option String × Json)} (h : MembersLayout members s) :
    Opens s := by
  cases h <;> exact ⟨_, _, rfl, by decide⟩

/-- What starts as a number is read as one. -/
theorem readValue_number (h : c = '-' ∨ c.isDigit = true) (s : List Char) :
    readValue (depth + 1) (c :: s) = readNumber (c :: s) := by
  unfold readValue
  split <;> simp_all

/-- Behind an opening bracket come items, unless a closing one comes at once. -/
theorem readValue_items (h : Opens (skipBlanks s)) :
    readValue (depth + 1) ('[' :: s)
      = (readItems depth (skipBlanks s)).map fun (items, rest) => (.array items, rest) := by
  obtain ⟨c, t, hs, -, hc, -⟩ := h
  simp [readValue, hs, hc]

/-- Behind an opening brace come members, unless a closing one comes at once. -/
theorem readValue_members (h : Opens (skipBlanks s)) :
    readValue (depth + 1) ('\x7b' :: s)
      = (readMembers depth (skipBlanks s)).map fun (members, rest) => (.object members, rest) := by
  obtain ⟨c, t, hs, -, -, hc⟩ := h
  simp [readValue, hs, hc]

/-- Behind a key comes a colon, and behind that the value. -/
theorem stringBody_key (key : String) {before after : List Char} (hbefore : IsGap before)
    (hafter : IsGap after) (h : Opens s) :
    ∃ body, quoted (some key) ++ (before ++ ':' :: (after ++ s)) = '"' :: body
      ∧ ∃ behindKey behindColon, stringBody body = some (some key, behindKey)
        ∧ skipBlanks behindKey = ':' :: behindColon ∧ skipBlanks behindColon = s := by
  obtain ⟨body, hquoted, hbody⟩ := stringBody_quoted key (before ++ ':' :: (after ++ s))
  exact ⟨body, hquoted, _, _, hbody, skipBlanks_token hbefore (by decide) _,
    h.skipBlanks_gap hafter⟩

/-- A number ends before a character that cannot be part of one. -/
theorem ends_cons (h : c.isDigit = false ∧ c ≠ '.' ∧ c ≠ 'e' ∧ c ≠ 'E') (s : List Char) :
    Ends (c :: s) := by
  intro c' hc'
  obtain rfl : c = c' := Option.some.inj hc'
  exact h

end

mutual

/-- **A value is read off any layout of it**, whatever follows that a number could not go on with.
Every level of nesting takes two characters at least, so a depth of as many as there are characters
is enough. -/
theorem readValue_layout : (v : Json) → (depth : Nat) → {s rest : List Char} → Layout v s →
    Ends rest → s.length ≤ depth → readValue depth (s ++ rest) = some (v, rest)
  | v, 0, s, rest, h, hrest, hdepth => by
    obtain ⟨c, t, rfl, -⟩ := h.opens
    simp at hdepth
  | .null, depth + 1, _, _, .null, _, _ => by simp [readValue]
  | .bool b, depth + 1, _, _, .bool _, _, _ => by cases b <;> simp [readValue]
  | .number literal, depth + 1, _, rest, .number h, hrest, _ => by
    obtain ⟨c, t, hchars, hstart⟩ := h.starts
    have hread := stable_readNumber h hrest
    rw [hchars] at hread ⊢
    rw [List.cons_append, readValue_number hstart]
    exact hread
  | .string _, depth + 1, _, rest, .string text, _, _ => by
    obtain ⟨body, hquoted, hbody⟩ := stringBody_quoted text rest
    rw [hquoted]
    simp only [readValue, hbody, Option.map_some]
  | .array _, depth + 1, _, rest, .noItems hgap, _, _ => by
    have hclosed := skipBlanks_token hgap (c := ']') (by decide) rest
    rw [List.cons_append, List.append_assoc, List.singleton_append]
    simp only [readValue, hclosed]
  | .object _, depth + 1, _, rest, .noMembers hgap, _, _ => by
    have hclosed := skipBlanks_token hgap (c := '\x7d') (by decide) rest
    rw [List.cons_append, List.append_assoc, List.singleton_append]
    simp only [readValue, hclosed]
  | .array items, depth + 1, _, rest, .array hgap h hgap', _, hdepth => by
    simp only [List.length_cons, List.length_append] at hdepth
    have hskip := fun t => (h.opens.append t).skipBlanks_gap hgap
    -- the items are shorter than the array by its brackets, so they are read within the depth
    have hitems := readItems_layout items depth rest h hgap' (by omega)
    simp only [List.cons_append, List.append_assoc, List.nil_append]
    rw [readValue_items (by rw [hskip]; exact h.opens.append _), hskip, hitems, Option.map_some]
  | .object members, depth + 1, _, rest, .object hgap h hgap', _, hdepth => by
    simp only [List.length_cons, List.length_append] at hdepth
    have hskip := fun t => (h.opens.append t).skipBlanks_gap hgap
    have hmembers := readMembers_layout members depth rest h hgap' (by omega)
    simp only [List.cons_append, List.append_assoc, List.nil_append]
    rw [readValue_members (by rw [hskip]; exact h.opens.append _), hskip, hmembers,
      Option.map_some]

/-- The items of an array are read up to the closing bracket, by recursion over the items together
with the values in them. -/
theorem readItems_layout : (items : List Json) → (depth : Nat) → {s gap : List Char} →
    (rest : List Char) → ItemsLayout items s → IsGap gap → s.length < depth →
    readItems depth (s ++ (gap ++ ']' :: rest)) = some (items, rest)
  | [v], depth + 1, _, _, rest, .last h, hgap, hdepth => by
    have hclosed := skipBlanks_token hgap (c := ']') (by decide) rest
    have hends := hgap.ends (ends_cons (c := ']') (by decide) rest)
    have hv := readValue_layout v depth h hends (by omega)
    simp only [readItems, hv, hclosed, Option.bind_eq_bind, Option.bind_some]
  | v :: items, depth + 1, _, _, rest, .more h hbefore hafter hitems, hgap, hdepth => by
    simp only [List.length_cons, List.length_append] at hdepth
    have hcomma := skipBlanks_token hbefore (c := ',') (by decide)
    have hskip := fun t => (hitems.opens.append t).skipBlanks_gap hafter
    have hends := fun s => hbefore.ends (ends_cons (c := ',') (by decide) s)
    have hv := fun s => readValue_layout v depth h (hends s) (by omega)
    have hread := readItems_layout items depth rest hitems hgap (by omega)
    simp only [List.append_assoc, List.cons_append]
    simp only [readItems, hv, hcomma, hskip, hread, Option.bind_eq_bind, Option.bind_some]

/-- The members of an object are read up to the closing brace, in the same way. -/
theorem readMembers_layout : (members : List (Option String × Json)) → (depth : Nat) →
    {s gap : List Char} → (rest : List Char) → MembersLayout members s → IsGap gap →
    s.length < depth → readMembers depth (s ++ (gap ++ '\x7d' :: rest)) = some (members, rest)
  | [(some key, v)], depth + 1, _, _, rest, .last hbefore hafter h, hgap, hdepth => by
    simp only [List.length_cons, List.length_append] at hdepth
    have hclosed := skipBlanks_token hgap (c := '\x7d') (by decide) rest
    have hends := hgap.ends (ends_cons (c := '\x7d') (by decide) rest)
    have hv := readValue_layout v depth h hends (by omega)
    obtain ⟨body, hquoted, behindKey, behindColon, hkey, hcolon, hvalue⟩ :=
      stringBody_key key hbefore hafter (h.opens.append _)
    simp only [List.append_assoc, List.cons_append]
    rw [hquoted]
    simp only [readMembers, hkey, hcolon, hvalue, hv, hclosed, Option.bind_eq_bind,
      Option.bind_some]
  | (some key, v) :: members, depth + 1, _, _, rest, .more hbefore hafter h hgap hgap' hmembers,
      hend, hdepth => by
    simp only [List.length_cons, List.length_append] at hdepth
    have hcomma := skipBlanks_token hgap (c := ',') (by decide)
    have hskip := fun t => (hmembers.opens.append t).skipBlanks_gap hgap'
    have hends := fun s => hgap.ends (ends_cons (c := ',') (by decide) s)
    have hv := fun s => readValue_layout v depth h (hends s) (by omega)
    have hread := readMembers_layout members depth rest hmembers hend (by omega)
    obtain ⟨body, hquoted, behindKey, behindColon, hkey, hcolon, hvalue⟩ :=
      stringBody_key key hbefore hafter (h.opens.append _)
    simp only [List.append_assoc, List.cons_append]
    rw [hquoted]
    simp only [readMembers, hkey, hcolon, hvalue, hv, hcomma, hskip, hread, Option.bind_eq_bind,
      Option.bind_some]

end

/-! ## Writing -/

/-- A value that can be written. -/
inductive Sound : Json → Prop where
  | null : Sound .null
  | bool (b : Bool) : Sound (.bool b)
  | number {literal : String} (h : IsNumber literal) : Sound (.number literal)
  | string (text : String) : Sound (.string (some text))
  | array {items : List Json} (h : ∀ v ∈ items, Sound v) : Sound (.array items)
  | object {members : List (Option String × Json)} (hkeys : ∀ m ∈ members, m.1.isSome = true)
      (h : ∀ m ∈ members, Sound m.2) : Sound (.object members)

/-- A line break with its indentation is nothing but blanks. -/
theorem isGap_newline (depth : Nat) : IsGap (newline depth) := by
  intro c hc
  rcases List.mem_cons.1 hc with rfl | hblank
  · decide
  · rw [List.eq_of_mem_replicate hblank]
    decide

theorem isGap_blank : IsGap [' '] := by
  intro c hc
  rw [List.mem_singleton.1 hc]
  decide

mutual

/-- **What is written without blanks is a layout of the value.** -/
theorem layout_compactChars : (v : Json) → Sound v → Layout v (compactChars v)
  | .null, _ => .null
  | .bool b, _ => .bool b
  | .number _, .number h => .number h
  | .string _, .string text => .string text
  | .array [], _ => .noItems .nil
  | .array (v :: items), .array h =>
    .array .nil (layout_compactItems (v :: items) (List.cons_ne_nil _ _) h) .nil
  | .object [], _ => .noMembers .nil
  | .object (m :: members), .object hkeys h =>
    .object .nil (layout_compactMembers (m :: members) (List.cons_ne_nil _ _) hkeys h) .nil

/-- Items with commas and nothing else between them are a layout of the items. -/
theorem layout_compactItems : (items : List Json) → items ≠ [] → (∀ v ∈ items, Sound v) →
    ItemsLayout items (compactItems items)
  | [], hsome, _ => absurd rfl hsome
  | [v], _, h => .last (layout_compactChars v (h v List.mem_cons_self))
  | v :: u :: items, _, h =>
    .more (layout_compactChars v (h v List.mem_cons_self)) .nil .nil
      (layout_compactItems (u :: items) (List.cons_ne_nil _ _)
        fun v hv => h v (List.mem_cons_of_mem _ hv))

/-- Members with commas and colons and nothing else are a layout of the members. -/
theorem layout_compactMembers : (members : List (Option String × Json)) → members ≠ [] →
    (∀ m ∈ members, m.1.isSome = true) → (∀ m ∈ members, Sound m.2) →
    MembersLayout members (compactMembers members)
  | [], hsome, _, _ => absurd rfl hsome
  | (none, v) :: _, _, hkeys, _ => by
    have hkey := hkeys (none, v) List.mem_cons_self
    simp at hkey
  | [(some key, v)], _, _, h =>
    .last .nil .nil (layout_compactChars v (h (some key, v) List.mem_cons_self))
  | (some key, v) :: m :: members, _, hkeys, h =>
    .more .nil .nil (layout_compactChars v (h (some key, v) List.mem_cons_self)) .nil .nil
      (layout_compactMembers (m :: members) (List.cons_ne_nil _ _)
        (fun m hm => hkeys m (List.mem_cons_of_mem _ hm))
        fun m hm => h m (List.mem_cons_of_mem _ hm))

end

mutual

/-- **What is written with one item a line is a layout of the value.** -/
theorem layout_prettyChars : (v : Json) → (depth : Nat) → Sound v → Layout v (prettyChars depth v)
  | .null, _, _ => .null
  | .bool b, _, _ => .bool b
  | .number _, _, .number h => .number h
  | .string _, _, .string text => .string text
  | .array [], _, _ => .noItems .nil
  | .array (v :: items), depth, .array h => by
    obtain ⟨s, hs, hitems⟩ := layout_prettyItems (v :: items) (depth + 1) (List.cons_ne_nil _ _) h
    show Layout _ ('[' :: (prettyItems (depth + 1) (v :: items) ++ newline depth ++ [']']))
    rw [hs, List.append_assoc, List.append_assoc]
    exact .array (isGap_newline _) hitems (isGap_newline _)
  | .object [], _, _ => .noMembers .nil
  | .object (m :: members), depth, .object hkeys h => by
    obtain ⟨s, hs, hmembers⟩ :=
      layout_prettyMembers (m :: members) (depth + 1) (List.cons_ne_nil _ _) hkeys h
    show Layout _
      ('\x7b' :: (prettyMembers (depth + 1) (m :: members) ++ newline depth ++ ['\x7d']))
    rw [hs, List.append_assoc, List.append_assoc]
    exact .object (isGap_newline _) hmembers (isGap_newline _)

/-- Items on lines of their own are a layout of the items, behind the first line break. -/
theorem layout_prettyItems : (items : List Json) → (depth : Nat) → items ≠ [] →
    (∀ v ∈ items, Sound v) →
    ∃ s, prettyItems depth items = newline depth ++ s ∧ ItemsLayout items s
  | [], _, hsome, _ => absurd rfl hsome
  | [v], depth, _, h =>
    ⟨_, rfl, .last (layout_prettyChars v depth (h v List.mem_cons_self))⟩
  | v :: u :: items, depth, _, h => by
    obtain ⟨s, hs, hitems⟩ := layout_prettyItems (u :: items) depth (List.cons_ne_nil _ _)
      fun v hv => h v (List.mem_cons_of_mem _ hv)
    refine ⟨_, ?_, .more (layout_prettyChars v depth (h v List.mem_cons_self)) .nil
      (isGap_newline depth) hitems⟩
    show newline depth ++ prettyChars depth v ++ ',' :: prettyItems depth (u :: items) = _
    rw [hs, List.append_assoc]
    rfl

/-- Members on lines of their own are a layout of the members, behind the first line break. -/
theorem layout_prettyMembers : (members : List (Option String × Json)) → (depth : Nat) →
    members ≠ [] → (∀ m ∈ members, m.1.isSome = true) → (∀ m ∈ members, Sound m.2) →
    ∃ s, prettyMembers depth members = newline depth ++ s ∧ MembersLayout members s
  | [], _, hsome, _, _ => absurd rfl hsome
  | (none, v) :: _, _, _, hkeys, _ => by
    have hkey := hkeys (none, v) List.mem_cons_self
    simp at hkey
  | [(some key, v)], depth, _, _, h => by
    refine ⟨_, ?_, .last .nil isGap_blank
      (layout_prettyChars v depth (h (some key, v) List.mem_cons_self))⟩
    rw [prettyMembers, List.append_assoc]
    rfl
  | (some key, v) :: m :: members, depth, _, hkeys, h => by
    obtain ⟨s, hs, hmembers⟩ := layout_prettyMembers (m :: members) depth (List.cons_ne_nil _ _)
      (fun m hm => hkeys m (List.mem_cons_of_mem _ hm)) fun m hm => h m (List.mem_cons_of_mem _ hm)
    refine ⟨_, ?_, .more .nil isGap_blank
      (layout_prettyChars v depth (h (some key, v) List.mem_cons_self)) .nil (isGap_newline depth)
      hmembers⟩
    show newline depth ++ quoted (some key)
      ++ ':' :: ' ' :: (prettyChars depth v ++ ',' :: prettyMembers depth (m :: members)) = _
    rw [hs, List.append_assoc]
    rfl

end

/-! ## Whole texts -/

/-- A text holds a value and blanks. -/
def IsText (v : Json) (text : String) : Prop :=
  ∃ before s after, text.toList = before ++ (s ++ after)
    ∧ IsGap before ∧ Layout v s ∧ IsGap after

section

variable {v : Json} {text : String}

/-- **A value is read from every text of it.** -/
theorem read?_of_isText (h : IsText v text) : read? text = some v := by
  obtain ⟨before, s, after, htext, hbefore, hlayout, hafter⟩ := h
  have hskip := (hlayout.opens.append after).skipBlanks_gap hbefore
  have hends : Ends after := by
    rw [← List.append_nil after]
    exact hafter.ends .nil
  have hread := readValue_layout v (2 * text.toList.length + 2) hlayout hends (by
    rw [htext]
    simp only [List.length_append]
    omega)
  have hdone : skipBlanks after = [] := by
    rw [← List.append_nil after]
    exact skipBlanks_gap hafter []
  rw [read?, readChars?, htext, hskip, ← htext, hread]
  simp [hdone]

/-- The compact text of a value is a text of it. -/
theorem isText_compact (h : Sound v) : IsText v v.compact :=
  ⟨[], v.compactChars, [], by simp [compact], .nil, layout_compactChars v h, .nil⟩

/-- So is the pretty one. -/
theorem isText_pretty (h : Sound v) : IsText v v.pretty :=
  ⟨[], v.prettyChars 0, [], by simp [pretty], .nil, layout_prettyChars v 0 h, .nil⟩

end

end TimingWheel.Json
