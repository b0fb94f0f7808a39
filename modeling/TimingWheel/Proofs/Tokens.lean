import Mathlib
import TimingWheel.Encoding

/-!
# Tokens of JSON

Blanks, numbers and strings are read up to where they end, whatever comes behind them. What is
written of a number or a text is read as that number or text again.

* **`Json.skipBlanks_gap`** — blanks before a token are skipped.
* **`Json.stable_readNumber`** — a number is read from the beginning of a longer text as it is read
  alone, unless what follows could go on with it (`Json.Ends`).
* **`Json.isNumber_ofNat`**, **`Json.count?_ofNat`** — the decimal digits of a count are a number,
  and are read as the count.
* **`Json.stringBody_quoted`** — a text is read from its escapes.
-/

namespace TimingWheel.Json

/-! ## Blanks -/

/-- Nothing but blanks. -/
def IsGap (gap : List Char) : Prop := ∀ c ∈ gap, isBlank c = true

section

variable {gap : List Char} {c : Char}

theorem IsGap.nil : IsGap [] := fun _ h => absurd h List.not_mem_nil

theorem skipBlanks_gap (h : IsGap gap) (s : List Char) : skipBlanks (gap ++ s) = skipBlanks s :=
  List.dropWhile_append_of_pos h

/-- Blanks are skipped up to the first character that is none. -/
theorem skipBlanks_token (h : IsGap gap) (hc : isBlank c = false) (s : List Char) :
    skipBlanks (gap ++ c :: s) = c :: s := by
  rw [skipBlanks_gap h, skipBlanks, List.dropWhile_cons, hc]
  rfl

end

/-! ## Numbers -/

/-- No number goes on with what follows. -/
def Ends (rest : List Char) : Prop :=
  ∀ c ∈ rest.head?, c.isDigit = false ∧ c ≠ '.' ∧ c ≠ 'e' ∧ c ≠ 'E'

section

variable {gap rest : List Char}

theorem Ends.nil : Ends [] := fun _ h => by simp at h

/-- Blanks end a number. -/
theorem IsGap.ends (h : IsGap gap) (hrest : Ends rest) : Ends (gap ++ rest) := by
  cases gap with
  | nil => exact hrest
  | cons c gap =>
    intro c' hc'
    obtain rfl : c = c' := Option.some.inj hc'
    have hblank := h c List.mem_cons_self
    simp only [isBlank, Bool.or_eq_true, decide_eq_true_eq] at hblank
    rcases hblank with ((rfl | rfl) | rfl) | rfl <;> decide

/-- What is read off a text is read off a longer one, too, unless a number could go on with what
follows. -/
def Stable {α : Type} (read : List Char → Option (α × List Char)) : Prop :=
  ∀ {s t rest : List Char} {v : α}, read s = some (v, t) → Ends rest →
    read (s ++ rest) = some (v, t ++ rest)

/-- What a reader makes of its token does not change how far it reads. -/
theorem Stable.map {α β : Type} {read : List Char → Option (α × List Char)} (h : Stable read)
    (f : α → β) : Stable fun s => (read s).map fun (v, rest) => (f v, rest) := by
  intro s t rest v hread hrest
  obtain ⟨⟨u, t'⟩, hu, hv⟩ := Option.map_eq_some_iff.1 hread
  obtain ⟨rfl, rfl⟩ := Prod.mk.inj hv
  show (read (s ++ rest)).map _ = _
  rw [h hu hrest, Option.map_some]

/-- Digits are read up to where they end. -/
theorem stable_digits : Stable digits := by
  intro s t rest ds h hrest
  have hstop : rest.takeWhile Char.isDigit = [] := by
    cases rest with
    | nil => rfl
    | cons c rest => rw [List.takeWhile_cons_of_neg (by simp [(hrest c rfl).1])]
  have htake : (s ++ rest).takeWhile Char.isDigit = s.takeWhile Char.isDigit := by
    rw [List.takeWhile_append, hstop, List.append_nil]
    split
    · next hall => exact ((List.takeWhile_prefix _).eq_of_length hall).symm
    · rfl
  have hdrop : (s ++ rest).dropWhile Char.isDigit = s.dropWhile Char.isDigit ++ rest := by
    have hwhole : s.takeWhile Char.isDigit ++ (s ++ rest).dropWhile Char.isDigit
        = s.takeWhile Char.isDigit ++ (s.dropWhile Char.isDigit ++ rest) := by
      rw [← List.append_assoc, List.takeWhile_append_dropWhile, ← htake,
        List.takeWhile_append_dropWhile]
    exact List.append_cancel_left hwhole
  simp only [digits, htake, hdrop] at h ⊢
  split at h
  · simp at h
  · next hsome =>
    obtain ⟨rfl, rfl⟩ := Prod.mk.inj (Option.some.inj h)
    rw [if_neg hsome]

/-- The digits before the point are read off a longer text as well. A leading zero stands alone. -/
theorem stable_wholePart : Stable wholePart := by
  intro s t rest ds h hrest
  cases s with
  | nil => simp [wholePart, digits] at h
  | cons c s =>
    by_cases hzero : c = '0'
    · subst hzero
      obtain ⟨rfl, rfl⟩ := Prod.mk.inj (Option.some.inj h)
      rfl
    · simp only [wholePart, List.cons_append, List.cons.injEq, hzero, false_and, imp_self,
        implies_true] at h ⊢
      exact stable_digits h hrest

theorem stable_fractionPart : Stable fractionPart := by
  intro s t rest ds h hrest
  cases s with
  | nil =>
    obtain ⟨rfl, rfl⟩ := Prod.mk.inj (Option.some.inj h)
    cases rest with
    | nil => rfl
    | cons c rest =>
      have hpoint := (hrest c rfl).2.1
      simp [fractionPart, hpoint]
  | cons c s =>
    by_cases hpoint : c = '.'
    · subst hpoint
      exact stable_digits.map ('.' :: ·) h hrest
    · simp only [fractionPart, List.cons_append, List.cons.injEq, hpoint, false_and, imp_self,
        implies_true, Option.some.injEq, Prod.mk.injEq] at h ⊢
      obtain ⟨rfl, rfl⟩ := h
      exact ⟨rfl, rfl⟩

theorem stable_exponentPart : Stable exponentPart := by
  intro s t rest ds h hrest
  cases s with
  | nil =>
    obtain ⟨rfl, rfl⟩ := Prod.mk.inj (Option.some.inj h)
    cases rest with
    | nil => rfl
    | cons c rest =>
      obtain ⟨-, -, hsmall, hcapital⟩ := hrest c rfl
      simp [exponentPart, hsmall, hcapital]
  | cons e s =>
    simp only [exponentPart, List.cons_append] at h ⊢
    split at h
    · next hmark =>
      rw [if_pos hmark]
      -- a sign may stand before the digits
      split at h
      · exact stable_digits.map (e :: '+' :: ·) h hrest
      · exact stable_digits.map (e :: '-' :: ·) h hrest
      · next hplus hminus =>
        cases s with
        | nil => simp [digits] at h
        | cons c s =>
          have hplus' : c ≠ '+' := fun heq => hplus s (by rw [heq])
          have hminus' : c ≠ '-' := fun heq => hminus s (by rw [heq])
          simp only [List.cons_append, List.cons.injEq, hplus', hminus', false_and, imp_self,
            implies_true]
          exact stable_digits.map (e :: ·) h hrest
    · next hmark =>
      obtain ⟨rfl, rfl⟩ := Prod.mk.inj (Option.some.inj h)
      rw [if_neg hmark]
      rfl

theorem stable_magnitude : Stable magnitude := by
  intro s t rest l h hrest
  simp only [magnitude, Option.bind_eq_bind, Option.bind_eq_some_iff] at h
  obtain ⟨⟨whole, s₁⟩, hwhole, ⟨fraction, s₂⟩, hfraction, ⟨exponent, s₃⟩, hexponent, hall⟩ := h
  obtain ⟨rfl, rfl⟩ := Prod.mk.inj (Option.some.inj hall)
  simp only [magnitude, stable_wholePart hwhole hrest, stable_fractionPart hfraction hrest,
    stable_exponentPart hexponent hrest, Option.bind_eq_bind, Option.bind_some]

/-- **A number is read as it is read alone**, whatever follows that it could not go on with. -/
theorem stable_readNumber : Stable readNumber := by
  intro s t rest v h hrest
  cases s with
  | nil => simp [readNumber, magnitude, wholePart, digits] at h
  | cons c s =>
    by_cases hsign : c = '-'
    · subst hsign
      exact stable_magnitude.map (fun l => Json.number (String.ofList ('-' :: l))) h hrest
    · simp only [readNumber, List.cons_append, List.cons.injEq, hsign, false_and, imp_self,
        implies_true] at h ⊢
      exact stable_magnitude.map (fun l => Json.number (String.ofList l)) h hrest

/-- A text that is a number from its beginning to its end. -/
def IsNumber (literal : String) : Prop :=
  readNumber literal.toList = some (.number literal, [])

/-- A number starts with a minus or with a digit. -/
theorem IsNumber.starts {literal : String} (h : IsNumber literal) :
    ∃ c s, literal.toList = c :: s ∧ (c = '-' ∨ c.isDigit = true) := by
  unfold IsNumber at h
  generalize literal.toList = chars at h
  cases chars with
  | nil => simp [readNumber, magnitude, wholePart, digits] at h
  | cons c s =>
    refine ⟨c, s, rfl, or_iff_not_imp_left.2 fun hsign => ?_⟩
    simp only [readNumber, List.cons.injEq, hsign, false_and, imp_self, implies_true] at h
    obtain ⟨_, hmagnitude, _⟩ := Option.map_eq_some_iff.1 h
    simp only [magnitude, Option.bind_eq_bind, Option.bind_eq_some_iff] at hmagnitude
    obtain ⟨_, hwhole, _⟩ := hmagnitude
    by_cases hzero : c = '0'
    · rw [hzero]
      rfl
    · simp only [wholePart, List.cons.injEq, hzero, false_and, imp_self, implies_true, digits]
        at hwhole
      by_contra hdigit
      simp [hdigit] at hwhole

theorem isDigit_of_mem_toDigits {n : Nat} {c : Char} (h : c ∈ Nat.toDigits 10 n) :
    c.isDigit = true :=
  Nat.isDigit_of_mem_toDigits (by decide) (by decide) h

/-- Only zero is written with a zero in front. -/
theorem toDigits_head {n : Nat} (h : 0 < n) (s : List Char) : Nat.toDigits 10 n ≠ '0' :: s := by
  induction n using Nat.strongRecOn generalizing s with
  | ind n ih =>
    intro hdigits
    by_cases hone : n < 10
    · rw [Nat.toDigits_of_lt_base hone] at hdigits
      have hfew : ∀ k : Fin 10, k.val.digitChar = '0' → k.val = 0 := by decide
      have hzero := hfew ⟨n, hone⟩ (List.cons.inj hdigits).1
      exact absurd hzero (Nat.ne_of_gt h)
    · rw [Nat.toDigits_of_base_le (by decide) (Nat.le_of_not_lt hone)] at hdigits
      -- the first digit is that of what is left without the last digit
      obtain ⟨c, s', hfirst⟩ := List.exists_cons_of_length_pos
        (@Nat.length_toDigits_pos 10 (n / 10))
      rw [hfirst, List.cons_append] at hdigits
      rw [(List.cons.inj hdigits).1] at hfirst
      exact ih (n / 10) (by omega) (by omega) s' hfirst

/-- The digits of a number are read as they are: none but zero has a leading zero. -/
theorem wholePart_toDigits (n : Nat) :
    wholePart (Nat.toDigits 10 n) = some (Nat.toDigits 10 n, []) := by
  rcases Nat.eq_zero_or_pos n with rfl | hpos
  · rfl
  have hhead := toDigits_head hpos
  have hall : ∀ c ∈ Nat.toDigits 10 n, c.isDigit = true := fun _ => isDigit_of_mem_toDigits
  have hlength := @Nat.length_toDigits_pos 10 n
  generalize Nat.toDigits 10 n = ds at *
  have htake : ds.takeWhile Char.isDigit = ds := List.takeWhile_eq_self_iff.2 hall
  have hdrop : ds.dropWhile Char.isDigit = [] := List.dropWhile_eq_nil_iff.2 hall
  unfold wholePart
  split
  · next s => exact absurd rfl (hhead s)
  · rw [digits, htake, hdrop, if_neg]
    rw [List.isEmpty_iff]
    exact List.ne_nil_of_length_pos hlength

/-- **The digits of a count are a number.** -/
theorem isNumber_ofNat (n : Nat) : IsNumber (toString n) := by
  have hmagnitude : magnitude (Nat.toDigits 10 n) = some (Nat.toDigits 10 n, []) := by
    simp [magnitude, wholePart_toDigits, fractionPart, exponentPart]
  have hlist : (toString n).toList = Nat.toDigits 10 n := Nat.toList_repr
  have htext : toString n = String.ofList (Nat.toDigits 10 n) := rfl
  unfold IsNumber
  rw [hlist, htext]
  unfold readNumber
  split
  · next s heq =>
    have hminus : '-' ∈ Nat.toDigits 10 n := by
      rw [heq]
      exact List.mem_cons_self
    exact absurd (isDigit_of_mem_toDigits hminus) (by decide)
  · rw [hmagnitude]
    rfl

/-- **The digits of a count are read as the count.** -/
theorem count?_ofNat {n : Nat} (h : n ≤ ceiling) : (ofNat n).count? = some n := by
  have hlist : (toString n).toList = Nat.toDigits 10 n := Nat.toList_repr
  have hpush : Text.pushDigit = fun n c => 10 * n + (c.toNat - '0'.toNat) := by
    funext n c
    rw [Text.pushDigit, Nat.mul_comm]
  have hvalue : (Nat.toDigits 10 n).foldl Text.pushDigit 0 = n := by
    rw [hpush]
    exact Nat.ofDigitChars_toDigits (by decide) (by decide)
  have hdigits : Text.digits? (Nat.toDigits 10 n) = some n := by
    have hall : (Nat.toDigits 10 n).all Char.isDigit = true :=
      List.all_eq_true.2 fun _ => isDigit_of_mem_toDigits
    have hsome : (Nat.toDigits 10 n).isEmpty = false :=
      List.isEmpty_eq_false_iff.2 (List.ne_nil_of_length_pos Nat.length_toDigits_pos)
    rw [Text.digits?, hall, hsome, hvalue]
    rfl
  show Text.plainCount? (toString n).toList = some n
  rw [hlist, Text.plainCount?, hdigits, Option.filter_some, if_pos (decide_eq_true h)]

end

/-! ## Strings -/

section

variable {c mark : Char}

/-- An escape of one letter is read as the code point of its character. -/
theorem stringUnits_short (h : shortEscape? mark = some c) (s : List Char) :
    stringUnits ('\\' :: mark :: s)
      = (stringUnits s).map fun (units, rest) => (c.toNat :: units, rest) := by
  have hmark : mark ≠ 'u' := by
    rintro rfl
    cases h
  rw [stringUnits]
  · simp only [h]
    cases stringUnits s <;> rfl
  · intro _ _ _ _ _ heq
    exact absurd heq hmark

/-- An escape of four digits is read as the code point that they write. -/
theorem stringUnits_control (h : c.toNat < 32) (s : List Char) :
    stringUnits ('\\' :: 'u' :: '0' :: '0' :: Text.hexDigit (c.toNat / 16)
        :: Text.hexDigit (c.toNat % 16) :: s)
      = (stringUnits s).map fun (units, rest) => (c.toNat :: units, rest) := by
  have hzero : Text.hexValue? '0' = some 0 := by decide
  have hhigh := Text.hexValue?_hexDigit (n := c.toNat / 16) (by omega)
  have hlow := Text.hexValue?_hexDigit (n := c.toNat % 16) (by omega)
  have hnumber : Text.hexNumber?
      ['0', '0', Text.hexDigit (c.toNat / 16), Text.hexDigit (c.toNat % 16)] = some c.toNat := by
    simp only [Text.hexNumber?, List.foldlM_cons, List.foldlM_nil, hzero, hhigh, hlow,
      Option.map_some, Option.bind_eq_bind, Option.bind_some, Option.pure_def, Option.some.injEq]
    omega
  rw [stringUnits, hnumber]
  cases stringUnits s <;> rfl

/-- Any other character stands for itself. -/
theorem stringUnits_plain (hquote : c ≠ '"') (hslash : c ≠ '\\') (hcontrol : ¬ c.toNat < 32)
    (s : List Char) :
    stringUnits (c :: s)
      = (stringUnits s).map fun (units, rest) => (c.toNat :: units, rest) := by
  rw [stringUnits]
  · rw [if_neg (not_or.2 ⟨hslash, hcontrol⟩)]
    cases stringUnits s <;> rfl
  · exact hquote
  · intro _ _ _ _ _ heq
    exact absurd heq hslash
  · intro _ _ heq
    exact absurd heq hslash

/-- An escaped character is read as its code point. -/
theorem stringUnits_escape (c : Char) (s : List Char) :
    stringUnits (escape c ++ s)
      = (stringUnits s).map fun (units, rest) => (c.toNat :: units, rest) := by
  unfold escape
  split_ifs with hquote hslash hline hreturn htab hback hfeed hcontrol
  · exact stringUnits_short (by rw [hquote]; rfl) s
  · exact stringUnits_short (by rw [hslash]; rfl) s
  · exact stringUnits_short (by rw [hline]; rfl) s
  · exact stringUnits_short (by rw [hreturn]; rfl) s
  · exact stringUnits_short (by rw [htab]; rfl) s
  · exact stringUnits_short (by rw [← c.ofNat_toNat, hback]; rfl) s
  · exact stringUnits_short (by rw [← c.ofNat_toNat, hfeed]; rfl) s
  · exact stringUnits_control hcontrol s
  · exact stringUnits_plain hquote hslash hcontrol s

end

/-- The code point of a character is no half of a pair. -/
theorem not_half (c : Char) : isHighHalf c.toNat = false ∧ isLowHalf c.toNat = false := by
  have hvalid : c.toNat < 0xD800 ∨ (0xDFFF < c.toNat ∧ c.toNat < 0x110000) := c.valid
  simp only [isHighHalf, isLowHalf, Bool.and_eq_false_iff, decide_eq_false_iff_not]
  omega

/-- Characters are their own units, and no character is half of a pair. -/
theorem textOfUnits_toNat (chars : List Char) :
    textOfUnits (chars.map Char.toNat) = some chars := by
  induction chars with
  | nil => rfl
  | cons c chars ih =>
    obtain ⟨hhigh, hlow⟩ := not_half c
    cases chars with
    | nil => simp [textOfUnits, hhigh, hlow, Char.ofNat_toNat]
    | cons c' chars =>
      rw [List.map_cons] at ih
      simp [textOfUnits, hhigh, hlow, ih, Char.ofNat_toNat]

/-- What was escaped is read back up to the closing quote, by induction on the characters. -/
theorem stringUnits_escaped (chars rest : List Char) :
    stringUnits (chars.flatMap escape ++ '"' :: rest) = some (chars.map Char.toNat, rest) := by
  induction chars with
  | nil => rfl
  | cons c chars ih =>
    rw [List.flatMap_cons, List.append_assoc, stringUnits_escape, ih]
    rfl

/-- **A text is read from its escapes**, up to its closing quote. -/
theorem stringBody_quoted (text : String) (rest : List Char) :
    ∃ body, quoted (some text) ++ rest = '"' :: body
      ∧ stringBody body = some (some text, rest) := by
  refine ⟨text.toList.flatMap escape ++ '"' :: rest, ?_, ?_⟩
  · rw [quoted, Option.getD_some, List.cons_append, List.append_assoc]
    rfl
  · rw [stringBody, stringUnits_escaped, Option.map_some]
    simp only [textOfUnits_toNat, Option.map_some, String.ofList_toList]

end TimingWheel.Json
