import TimingWheel.Layers.Setting
import TimingWheel.Text.Blank
import TimingWheel.Text.Hex
import TimingWheel.Text.Number

/-!
# Values of environment variables

A variable's text is read as a value of a small notation: `true` and `false`, a text in double
quotes, a character in single quotes, `[a, b]`, `{k=v}`, and otherwise a word. A word with a point
in it that writes a decimal is a floating point number, a word of digits is a count, with a minus in
front it is a negative number, and any other word is a text.

A text that the notation does not cover as a whole is taken as it stands, blanks included.

Values nest, so readers are given a depth that they may go down; a text of `n` characters cannot
need more than `2 * n + 2`.
-/

namespace TimingWheel.Variable

/-- A number with a minus in front. -/
def negative? : List Char → Option Int
  | '-' :: rest => do
    let n ← Text.digits? rest
    if n ≤ 0x8000000000000000 then some (-(n : Int)) else none
  | _ => none

/-- A decimal in parts: the digits before and after the point, and the exponent. -/
def decimalParts? (s : List Char) : Option (List Char × List Char × Int) :=
  let whole := s.takeWhile Char.isDigit
  let s := s.dropWhile Char.isDigit
  let (fraction, s) := match s with
    | '.' :: rest => (rest.takeWhile Char.isDigit, rest.dropWhile Char.isDigit)
    | s => ([], s)
  if whole.isEmpty && fraction.isEmpty then none
  else
    match s with
    | [] => some (whole, fraction, 0)
    | e :: rest =>
      if e = 'e' ∨ e = 'E' then do
        let exponent ← match rest with
          | '+' :: rest => (Text.digits? rest).map Int.ofNat
          | '-' :: rest => (Text.digits? rest).map fun n => -(n : Int)
          | rest => (Text.digits? rest).map Int.ofNat
        some (whole, fraction, exponent)
      else none

def decimal? (s : List Char) : Option Binary64 := do
  let (negative, s) := match s with
    | '-' :: rest => (true, rest)
    | '+' :: rest => (false, rest)
    | s => (false, s)
  let (whole, fraction, exponent) ← decimalParts? s
  let digits ← Text.digits? (whole ++ fraction)
  some (.ofDecimal negative digits (exponent - fraction.length))

def word (s : List Char) : Scalar :=
  let asFloat := if s.contains '.' then decimal? s else none
  match asFloat, Text.count? s, negative? s with
  | some x, _, _ => .float x
  | none, some n, _ => .count n
  | none, none, some i => .signed i
  | none, none, none => .text (String.ofList s)

def isSeparator (c : Char) : Bool :=
  c = ',' || c = '\x7b' || c = '\x7d' || c = '[' || c = ']'

/-- Whether a character can stand in a key without quotes. -/
def isKeyChar (c : Char) : Bool := c.isAlphanum || c = '_' || c = '-'

def skipBlanks (s : List Char) : List Char := s.dropWhile Text.isAsciiBlank

/-- A text between double quotes, the opening one past. -/
def quoted : List Char → Option (List Char × List Char)
  | [] => none
  | '"' :: rest => some ([], rest)
  | '\\' :: 'u' :: a :: b :: c :: d :: rest => do
    let ch ← Text.charOfHex? [a, b, c, d]
    let (text, rest) ← quoted rest
    some (ch :: text, rest)
  | '\\' :: 'U' :: a :: b :: c :: d :: e :: f :: g :: h :: rest => do
    let ch ← Text.charOfHex? [a, b, c, d, e, f, g, h]
    let (text, rest) ← quoted rest
    some (ch :: text, rest)
  | '\\' :: c :: rest => do
    let ch ← match c with
      | '"' => some '"'
      | '\\' => some '\\'
      | 'b' => some (Char.ofNat 8)
      | 'f' => some (Char.ofNat 12)
      | 'n' => some '\n'
      | 'r' => some '\r'
      | 't' => some '\t'
      | _ => none
    let (text, rest) ← quoted rest
    some (ch :: text, rest)
  | c :: rest =>
    if c = '\\' ∨ c.toNat = 127 ∨ (c.toNat < 32 ∧ c ≠ '\t') then none
    else do
      let (text, rest) ← quoted rest
      some (c :: text, rest)

def key (s : List Char) : Option (List Char × List Char) :=
  match s with
  | '"' :: rest => quoted rest
  | s =>
    let k := s.takeWhile isKeyChar
    if k.isEmpty then none else some (k, s.dropWhile isKeyChar)

mutual

/-- A value that starts here. -/
def token : Nat → List Char → Option (Setting × List Char)
  | 0, _ => none
  | depth + 1, s =>
    match s with
    | 't' :: 'r' :: 'u' :: 'e' :: rest => some (.scalar .environment (.bool true), rest)
    | 'f' :: 'a' :: 'l' :: 's' :: 'e' :: rest => some (.scalar .environment (.bool false), rest)
    | '\x7b' :: rest => (members depth rest).map fun (ms, rest) => (.table .environment ms, rest)
    | '[' :: rest => (items depth rest).map fun (vs, rest) => (.sequence .environment vs, rest)
    | '"' :: rest =>
      (quoted rest).map fun (t, rest) => (.scalar .environment (.text (String.ofList t)), rest)
    | '\'' :: c :: '\'' :: rest =>
      some (.scalar .environment (.text (String.ofList [c])), rest)
    | '\'' :: _ => none
    | s =>
      some (.scalar .environment (word (Text.trim (s.takeWhile (!isSeparator ·)))),
        s.dropWhile (!isSeparator ·))

/-- Items of a sequence and its closing bracket; a comma may stand before it. -/
def items : Nat → List Char → Option (List Setting × List Char)
  | 0, _ => none
  | depth + 1, s =>
    match s with
    | ']' :: rest => some ([], rest)
    | s => do
      let (v, rest) ← token depth (skipBlanks s)
      match skipBlanks rest with
      | ',' :: rest =>
        let (vs, rest) ← items depth rest
        some (v :: vs, rest)
      | ']' :: rest => some ([v], rest)
      | _ => none

/-- Members of a table and its closing brace; a comma may stand before it. -/
def members : Nat → List Char → Option (List (String × Setting) × List Char)
  | 0, _ => none
  | depth + 1, s =>
    match s with
    | '\x7d' :: rest => some ([], rest)
    | s => do
      let (k, rest) ← key (skipBlanks s)
      match skipBlanks rest with
      | '=' :: rest =>
        let (v, rest) ← token depth (skipBlanks rest)
        match skipBlanks rest with
        | ',' :: rest =>
          let (ms, rest) ← members depth rest
          some ((String.ofList k, v) :: ms, rest)
        | '\x7d' :: rest => some ([(String.ofList k, v)], rest)
        | _ => none
      | _ => none

end

def value (text : String) : Setting :=
  let s := text.toList
  match token (2 * s.length + 2) (skipBlanks s) with
  | some (v, rest) => if (skipBlanks rest).isEmpty then v else raw
  | none => raw
where
  raw : Setting := .scalar .environment (.text text)

end TimingWheel.Variable
