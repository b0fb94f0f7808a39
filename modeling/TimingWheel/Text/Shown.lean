/-!
# What a terminal shows

A text may hold characters that steer a terminal instead of being shown: controls, and sequences
that an escape character begins. `Text.shown` is what is left of a text without them. Blanks are
shown, even those among the controls.

How a sequence goes on, and where it ends, is told by what it is: `Control` lists the kinds.
-/

namespace TimingWheel.Text

/-- What a terminal is in the middle of. -/
inductive Control where
  /-- Nothing: what comes is shown. -/
  | none
  /-- An escape character has come. -/
  | escape
  /-- An escape character and some of its arguments have come. -/
  | arguments
  /-- A sequence that a letter ends. -/
  | sequence
  /-- A command that the bell ends. -/
  | command
  /-- The parameters of a string, which a letter ends. -/
  | parameters
  /-- A string that nothing shown ends. -/
  | string
  deriving Repr, DecidableEq

def isEscape (c : Char) : Bool := c.toNat == 0x1B

/-- The two controls that break off whatever is going on. -/
def isAbort (c : Char) : Bool := c.toNat == 0x18 || c.toNat == 0x1A

/-- The blanks among the controls: tab, line feed, form feed and carriage return. -/
def isBlankControl (c : Char) : Bool := c == '\t' || c == '\n' || c.toNat == 12 || c == '\r'

def isWithin (lo hi : Nat) (c : Char) : Bool := lo ≤ c.toNat && c.toNat ≤ hi

/-- Whether a character ends a string by one of the bytes that encode it. -/
def endsString (c : Char) : Bool := (String.utf8EncodeChar c).any (· == 0x9C)

namespace Control

/-- Whether a character is shown. Within a sequence only blanks are. -/
def shows (c : Char) : Control → Bool
  | none => isWithin 0x20 0x7E c || 0x80 ≤ c.toNat || isBlankControl c
  | escape | arguments | sequence => isBlankControl c
  | command | parameters | string => false

/-- What is going on behind an escape character and one more character. -/
def begin (c : Char) : Control :=
  if c = '[' then sequence
  else if c = ']' then command
  else if c = 'P' then parameters
  else if c = 'X' ∨ c = '^' ∨ c = '_' then string
  else if isWithin 0x20 0x2F c then arguments
  else if isWithin 0x30 0x7E c then none
  else escape

/-- What is going on behind a character that is not shown. -/
def next (k : Control) (c : Char) : Control :=
  if isEscape c then escape
  else if isAbort c then none
  else
    match k with
    | none => none
    | escape => begin c
    | arguments => if isWithin 0x30 0x7E c then none else arguments
    | sequence => if isWithin 0x40 0x7E c then none else sequence
    | command => if c.toNat = 7 then none else command
    | parameters => if isWithin 0x40 0x7E c then string else parameters
    | string => if endsString c then none else string

end Control

/-- What is shown of a text in the middle of something. A blank that is shown suspends a sequence:
what can be shown behind it is shown, and the sequence goes on behind that, unless there was a
character beyond ASCII. -/
def shownWithin (k : Control) (suspended : Bool) : List Char → List Char
  | [] => []
  | c :: rest =>
    if k.shows c || (suspended && Control.none.shows c) then
      c :: shownWithin (if 0x80 ≤ c.toNat then .none else k) true rest
    else shownWithin (k.next c) false rest

/-- What a terminal shows of a text. -/
def shown (text : String) : String := String.ofList (shownWithin .none false text.toList)

end TimingWheel.Text
