import TimingWheel.Text.Hex
import TimingWheel.Toml.Document

/-!
# TOML scalars

Readers of texts, numbers, dates and times. Each takes the characters at which its kind of scalar
starts and answers with what it read and what is left, or `none` where the text breaks the rules of
the format.
-/

namespace TimingWheel.Toml

/-- A reader of a part of a text. -/
abbrev Reader (α : Type) := List Char → Option (α × List Char)

/-! ## Texts -/

/-- The characters that stand for themselves between quotes; quotes and backslashes aside. -/
def isPlain (c : Char) : Bool := c = '\t' || (32 ≤ c.toNat && c.toNat ≠ 127)

/-- The character of an escape whose backslash is past. -/
def escaped : Reader Char
  | 'b' :: rest => some (Char.ofNat 8, rest)
  | 't' :: rest => some ('\t', rest)
  | 'n' :: rest => some ('\n', rest)
  | 'f' :: rest => some (Char.ofNat 12, rest)
  | 'r' :: rest => some ('\r', rest)
  | '"' :: rest => some ('"', rest)
  | '\\' :: rest => some ('\\', rest)
  | 'u' :: a :: b :: c :: d :: rest => (Text.charOfHex? [a, b, c, d]).map (·, rest)
  | 'U' :: a :: b :: c :: d :: e :: f :: g :: h :: rest =>
    (Text.charOfHex? [a, b, c, d, e, f, g, h]).map (·, rest)
  | _ => none

/-- A text in double quotes, the opening quote past, of at most the given number of characters. -/
def basicText : Nat → Reader (List Char)
  | 0, _ => none
  | n + 1, s =>
    match s with
    | '"' :: rest => some ([], rest)
    | '\\' :: rest => do
      let (c, rest) ← escaped rest
      let (text, rest) ← basicText n rest
      some (c :: text, rest)
    | c :: rest =>
      if isPlain c then (basicText n rest).map fun (text, rest) => (c :: text, rest) else none
    | [] => none

/-- A text in single quotes, the opening quote past. -/
def literalText : Reader (List Char)
  | '\'' :: rest => some ([], rest)
  | c :: rest =>
    if isPlain c then (literalText rest).map fun (text, rest) => (c :: text, rest) else none
  | [] => none

/-- The end of a line, if the text is at one. -/
def newline? : List Char → Option (List Char)
  | '\n' :: rest => some rest
  | '\r' :: '\n' :: rest => some rest
  | _ => none

def skipNewline (s : List Char) : List Char := (newline? s).getD s

/-- A blank within a line. -/
def isBlank (c : Char) : Bool := c = ' ' || c = '\t'

def skipBlanks (s : List Char) : List Char := s.dropWhile isBlank

def skipBlankLines : List Char → List Char
  | c :: rest =>
    if isBlank c || c = '\n' then skipBlankLines rest
    else if c = '\r' ∧ rest.head? = some '\n' then skipBlankLines rest
    else c :: rest
  | [] => []

/-- Quotes at which a text in three quotes may end: three to five of them end it, and those beyond
three belong to it. -/
def closing? (quote : Char) (s : List Char) : Option (List Char × List Char) :=
  let run := min (s.takeWhile (· = quote)).length 5
  if 3 ≤ run then some (List.replicate (run - 3) quote, s.drop run) else none

/-- A text in three double quotes, the opening ones past, of at most the given number of
characters. A backslash at the end of a line hides the end and all blanks after it. -/
def basicLines : Nat → Reader (List Char)
  | 0, _ => none
  | n + 1, s =>
    match closing? '"' s, newline? s, s with
    | some done, _, _ => some done
    | none, some rest, _ => (basicLines n rest).map fun (text, rest) => ('\n' :: text, rest)
    | none, none, '\\' :: rest =>
      match newline? (skipBlanks rest) with
      | some rest => basicLines n (skipBlankLines rest)
      | none => do
        let (c, rest) ← escaped rest
        let (text, rest) ← basicLines n rest
        some (c :: text, rest)
    | none, none, c :: rest =>
      if isPlain c then (basicLines n rest).map fun (text, rest) => (c :: text, rest) else none
    | none, none, [] => none

/-- A text in three single quotes, the opening ones past, of at most the given number of
characters. -/
def literalLines : Nat → Reader (List Char)
  | 0, _ => none
  | n + 1, s =>
    match closing? '\'' s, newline? s, s with
    | some done, _, _ => some done
    | none, some rest, _ => (literalLines n rest).map fun (text, rest) => ('\n' :: text, rest)
    | none, none, c :: rest =>
      if isPlain c then (literalLines n rest).map fun (text, rest) => (c :: text, rest) else none
    | none, none, [] => none

def quotedText : Reader String
  | '"' :: '"' :: '"' :: rest => done (basicLines (rest.length + 1) (skipNewline rest))
  | '\'' :: '\'' :: '\'' :: rest => done (literalLines (rest.length + 1) (skipNewline rest))
  | '"' :: rest => done (basicText (rest.length + 1) rest)
  | '\'' :: rest => done (literalText rest)
  | _ => none
where
  done (r : Option (List Char × List Char)) : Option (String × List Char) :=
    r.map fun (text, rest) => (String.ofList text, rest)

/-! ## Numbers -/

/-- Digits of a base, with single underscores between them. -/
def digitsOf (isDigit : Char → Bool) : Reader (List Char)
  | [] => none
  | c :: rest => if isDigit c then some (more rest |>.map (c :: ·) id) else none
where
  more : List Char → List Char × List Char
    | '_' :: c :: rest =>
      if isDigit c then (more rest).map (c :: ·) id else ([], '_' :: c :: rest)
    | c :: rest => if isDigit c then (more rest).map (c :: ·) id else ([], c :: rest)
    | [] => ([], [])

/-- The value of digits of a base. -/
def valueOf (base : Nat) (digits : List Char) : Nat :=
  digits.foldl (fun n c => n * base + (Text.hexValue? c).getD 0) 0

/-- An integer, if it is in range. -/
def integer? (i : Int) : Option Node :=
  if -0x8000000000000000 ≤ i ∧ i < 0x8000000000000000 then some (.scalar (.signed i)) else none

/-- An integer in a base other than ten, its mark past. -/
def based (base : Nat) (isDigit : Char → Bool) (s : List Char) : Option (Node × List Char) := do
  let (digits, rest) ← digitsOf isDigit s
  some (← integer? (valueOf base digits), rest)

/-- The whole part of a decimal, which has no leading zeros. -/
def wholePart : Reader (List Char)
  | '0' :: rest => some (['0'], rest)
  | s => digitsOf Char.isDigit s

def fractionPart : Reader (List Char)
  | '.' :: rest => digitsOf Char.isDigit rest
  | _ => none

def exponentPart : Reader Int
  | e :: rest =>
    if e = 'e' ∨ e = 'E' then
      match rest with
      | '-' :: rest => (digitsOf Char.isDigit rest).map fun (ds, r) => (-(valueOf 10 ds : Int), r)
      | '+' :: rest => (digitsOf Char.isDigit rest).map fun (ds, r) => ((valueOf 10 ds : Int), r)
      | rest => (digitsOf Char.isDigit rest).map fun (ds, r) => ((valueOf 10 ds : Int), r)
    else none
  | [] => none

/-- A number in base ten. One with a fraction or an exponent is a floating point number, which may
not be too large to be finite unless it is negative. -/
def decimal (negative : Bool) (s : List Char) : Option (Node × List Char) := do
  let (whole, afterWhole) ← wholePart s
  let fraction := fractionPart afterWhole
  let (fractionDigits, afterFraction) := fraction.getD ([], afterWhole)
  let exponent := exponentPart afterFraction
  let (exponentValue, rest) := exponent.getD (0, afterFraction)
  if fraction.isNone && exponent.isNone then
    let n := valueOf 10 whole
    some (← integer? (if negative then -(n : Int) else n), rest)
  else
    let x := Binary64.ofDecimal negative (valueOf 10 (whole ++ fractionDigits))
      (exponentValue - fractionDigits.length)
    if x = .infinite false then none else some (.scalar (.float x), rest)

/-- A number without its sign, or one of the names for what is no number. -/
def unsigned (negative : Bool) : Reader Node
  | 'i' :: 'n' :: 'f' :: rest => some (.scalar (.float (.infinite negative)), rest)
  | 'n' :: 'a' :: 'n' :: rest => some (.scalar (.float .nan), rest)
  | s => decimal negative s

def numeral : Reader Node
  | '+' :: rest => unsigned false rest
  | '-' :: rest => unsigned true rest
  | '0' :: 'x' :: rest => based 16 (fun c => (Text.hexValue? c).isSome) rest
  | '0' :: 'o' :: rest => based 8 (fun c => '0' ≤ c ∧ c ≤ '7') rest
  | '0' :: 'b' :: rest => based 2 (fun c => c = '0' ∨ c = '1') rest
  | s => unsigned false s

/-! ## Dates and times -/

/-- A number of exactly the given count of digits. -/
def fixed (count : Nat) (s : List Char) : Option (Nat × List Char) :=
  let ds := s.take count
  if ds.length = count ∧ ds.all Char.isDigit then some (valueOf 10 ds, s.drop count) else none

/-- A number of two digits in a range. -/
def twoDigits (lo hi : Nat) (s : List Char) : Option (Nat × List Char) := do
  let (n, rest) ← fixed 2 s
  if lo ≤ n ∧ n ≤ hi then some (n, rest) else none

def expect (c : Char) : List Char → Option (List Char)
  | d :: rest => if d = c then some rest else none
  | [] => none

def daysOf (year month : Nat) : Nat :=
  if month = 2 then
    if year % 4 = 0 ∧ (year % 100 ≠ 0 ∨ year % 400 = 0) then 29 else 28
  else if month = 4 ∨ month = 6 ∨ month = 9 ∨ month = 11 then 30
  else 31

def date (s : List Char) : Option (List Char) := do
  let (year, s) ← fixed 4 s
  let (month, s) ← twoDigits 1 12 (← expect '-' s)
  let (_, s) ← twoDigits 1 (daysOf year month) (← expect '-' s)
  some s

def time (s : List Char) : Option (List Char) := do
  let (_, s) ← twoDigits 0 23 s
  let (_, s) ← twoDigits 0 59 (← expect ':' s)
  let (_, s) ← twoDigits 0 60 (← expect ':' s)
  match s with
  | '.' :: rest =>
    if (rest.takeWhile Char.isDigit).isEmpty then none else some (rest.dropWhile Char.isDigit)
  | s => some s

/-- What is left after an offset from universal time, which may be missing. -/
def offset (s : List Char) : Option (List Char) :=
  match s with
  | 'Z' :: rest | 'z' :: rest => some rest
  | '+' :: rest | '-' :: rest => do
    let (_, s) ← twoDigits 0 23 rest
    let (_, s) ← twoDigits 0 59 (← expect ':' s)
    some s
  | s => some s

def startsDate (s : List Char) : Bool :=
  (s.take 4).length = 4 && (s.take 4).all Char.isDigit && s[4]? == some '-'

def startsTime (s : List Char) : Bool :=
  (s.take 2).length = 2 && (s.take 2).all Char.isDigit && s[2]? == some ':'

/-- What is left after a date and, behind a mark, a time. -/
def dateTime (s : List Char) : Option (List Char) := do
  let s ← date s
  match s with
  | mark :: rest =>
    if (mark = 'T' ∨ mark = 't' ∨ mark = ' ') ∧ startsTime rest then offset (← time rest)
    else some (mark :: rest)
  | [] => some []

def number (s : List Char) : Option (Node × List Char) :=
  if startsDate s then (dateTime s).map (.moment, ·)
  else if startsTime s then (time s).map (.moment, ·)
  else numeral s

end TimingWheel.Toml
