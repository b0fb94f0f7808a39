import TimingWheel.Toml.Scalars

/-!
# Reading TOML

`Toml.read?` reads a whole document. A line is blank, a comment, a header or a key with its value;
a value may be an array, which may span lines, or a table in braces, which may not.

Values may be nested less than `maxDepth` deep, and a key has fewer parts than that.
-/

namespace TimingWheel.Toml

/-- The depth that nested values do not reach. -/
def maxDepth : Nat := 80

/-- Whether a character may stand in a comment. -/
def isCommentChar (c : Char) : Bool := isPlain c

/-- Leaves out a comment, if there is one. -/
def skipComment : List Char → List Char
  | '#' :: rest => rest.dropWhile isCommentChar
  | s => s

/-- Leaves out blanks, comments and ends of lines, at most the given number of them. -/
def skipLines : Nat → List Char → List Char
  | 0, s => s
  | n + 1, s =>
    let s := skipComment (skipBlanks s)
    match newline? s with
    | some rest => skipLines n rest
    | none => s

/-- What is left of a text after blanks and a comment up to the end of the line. -/
def endOfLine (s : List Char) : Option (List Char) :=
  match skipComment (skipBlanks s) with
  | [] => some []
  | s => newline? s

/-- Whether a character may stand in a key without quotes. -/
def isKeyChar (c : Char) : Bool := c.isAlphanum || c = '_' || c = '-'

/-- One part of a key. -/
def keyPart : Reader String
  | '"' :: rest =>
    (basicText (rest.length + 1) rest).map fun (k, rest) => (String.ofList k, rest)
  | '\'' :: rest => (literalText rest).map fun (k, rest) => (String.ofList k, rest)
  | s =>
    let k := s.takeWhile isKeyChar
    if k.isEmpty then none else some (String.ofList k, s.dropWhile isKeyChar)

/-- The parts of a dotted key with blanks around them, at most the given number of parts. -/
def keyWithin : Nat → Reader (List String)
  | 0, _ => none
  | n + 1, s => do
    let (part, rest) ← keyPart (skipBlanks s)
    match skipBlanks rest with
    | '.' :: rest =>
      let (parts, rest) ← keyWithin n rest
      some (part :: parts, rest)
    | rest => some ([part], rest)

def key : Reader (List String) := keyWithin (maxDepth - 1)

/-- Items of an array and its closing bracket, at most the given number of items. -/
def itemsWithin (item : Reader Node) : Nat → Reader (List Node)
  | 0, _ => none
  | n + 1, s =>
    match skipLines (s.length + 1) s with
    | ']' :: rest => some ([], rest)
    | s => do
      let (v, rest) ← item s
      match skipLines (rest.length + 1) rest with
      | ',' :: rest =>
        let (vs, rest) ← itemsWithin item n rest
        some (v :: vs, rest)
      | ']' :: rest => some ([v], rest)
      | _ => none

/-- Members of a table in braces and its closing brace, added to a table, at most the given number
of them. -/
def membersWithin (item : Reader Node) (t : Table) : Nat → Reader Table
  | 0, _ => none
  | n + 1, s => do
    let (path, rest) ← key s
    let (v, rest) ← item (skipBlanks (← expect '=' rest))
    let t ← Table.put v path t
    match skipBlanks rest with
    | ',' :: rest => membersWithin item t n rest
    | '\x7d' :: rest => some (t, rest)
    | _ => none

/-- A value nested less deep than given. -/
def valueWithin : Nat → Reader Node
  | 0, _ => none
  | depth + 1, s =>
    match s with
    | '"' :: _ | '\'' :: _ => (quotedText s).map fun (t, rest) => (.scalar (.text t), rest)
    | 't' :: 'r' :: 'u' :: 'e' :: rest => some (.scalar (.bool true), rest)
    | 'f' :: 'a' :: 'l' :: 's' :: 'e' :: rest => some (.scalar (.bool false), rest)
    | '[' :: rest =>
      if depth = 0 then none
      else
        (itemsWithin (valueWithin depth) (rest.length + 1) rest).map fun (vs, rest) =>
          (.array vs, rest)
    | '\x7b' :: rest =>
      if depth = 0 then none
      else
        match skipBlanks rest with
        | '\x7d' :: rest => some (.table .braced [], rest)
        | rest =>
          (membersWithin (valueWithin depth) [] (rest.length + 1) rest).map fun (t, rest) =>
            (.table .braced t, rest)
    | s => number s

def value : Reader Node := valueWithin maxDepth

/-- Takes up one line, its leading blanks past, and answers with what is left. -/
def line (d : Document) (s : List Char) : Option (Document × List Char) :=
  match s with
  | '[' :: '[' :: rest => do
    let (path, rest) ← key rest
    let rest ← endOfLine (← expect ']' (← expect ']' rest))
    some (← d.openItem path, rest)
  | '[' :: rest => do
    let (path, rest) ← key rest
    let rest ← endOfLine (← expect ']' rest)
    some (← d.openTable path, rest)
  | s => do
    let (path, rest) ← key s
    let (v, rest) ← value (skipBlanks (← expect '=' rest))
    let rest ← endOfLine rest
    some (← d.put path v, rest)

/-- Takes up lines, at most the given number of them. -/
def linesWithin (d : Document) : Nat → List Char → Option Document
  | 0, _ => none
  | n + 1, s =>
    match skipLines (s.length + 1) s with
    | [] => some d
    | s => do
      let (d, rest) ← line d s
      linesWithin d n rest

/-- Leaves out a byte-order mark. -/
def skipMark : List Char → List Char
  | c :: rest => if c.toNat = 0xFEFF then rest else c :: rest
  | [] => []

def read? (text : String) : Option Document :=
  let s := skipMark text.toList
  linesWithin {} (s.length + 1) s

end TimingWheel.Toml
