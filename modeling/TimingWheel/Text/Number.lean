import TimingWheel.Count

/-!
# Decimal numbers in text

* `Text.digits?` is the number that decimal digits write, of any size.
* `Text.plainCount?` is that number where it is a count.
* `Text.readCount` reads a count, which may have a plus in front, and tells why a text is none. The
  text is judged from the left: a sign or blank among the digits is found only where the digits
  before it do not already write too large a number.
-/

namespace TimingWheel

/-- Why a text is no count. -/
inductive NumberFault where
  | missing
  | badDigit
  | tooLarge
  deriving Repr, DecidableEq

def NumberFault.message : NumberFault → String
  | missing => "cannot parse integer from empty string"
  | badDigit => "invalid digit found in string"
  | tooLarge => "number too large to fit in target type"

namespace Text

/-- A number with one more digit written behind it. -/
def pushDigit (n : Nat) (c : Char) : Nat := n * 10 + (c.toNat - '0'.toNat)

/-- The number that decimal digits write, `none` for a text that is empty or holds anything else. -/
def digits? (s : List Char) : Option Nat :=
  if s.isEmpty || !s.all Char.isDigit then none else some (s.foldl pushDigit 0)

/-- The count that decimal digits alone write. -/
def plainCount? (s : List Char) : Option Nat := (digits? s).filter (· ≤ ceiling)

/-- The count that digits write behind those of `n`. -/
def readDigits (n : Nat) : List Char → Except NumberFault Nat
  | [] => .ok n
  | c :: rest =>
    if !c.isDigit then .error .badDigit
    else if pushDigit n c ≤ ceiling then readDigits (pushDigit n c) rest
    else .error .tooLarge

/-- The count that a text writes. -/
def readCount : List Char → Except NumberFault Nat
  | [] => .error .missing
  | ['+'] => .error .badDigit
  | '+' :: rest => readDigits 0 rest
  | s => readDigits 0 s

/-- The count that a text writes, if it is one. -/
def count? (s : List Char) : Option Nat := (readCount s).toOption

/-- Whatever digits are read behind a count, what comes of them is a count. -/
theorem readDigits_le {s : List Char} {m n : Nat} (hm : m ≤ ceiling)
    (h : readDigits m s = .ok n) : n ≤ ceiling := by
  induction s generalizing m with
  | nil =>
    simp only [readDigits, Except.ok.injEq] at h
    exact h ▸ hm
  | cons c rest ih =>
    rw [readDigits] at h
    split at h
    · cases h
    · split at h
      · next hle => exact ih hle h
      · cases h

/-- A count that was read is one. -/
theorem readCount_le {s : List Char} {n : Nat} (h : readCount s = .ok n) : n ≤ ceiling := by
  unfold readCount at h
  split at h
  · cases h
  · cases h
  · exact readDigits_le (Nat.zero_le _) h
  · exact readDigits_le (Nat.zero_le _) h

end Text

end TimingWheel
