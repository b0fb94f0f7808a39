import TimingWheel.CommandLine.UsageFault
import TimingWheel.Layers.Load
import TimingWheel.Soak

/-!
# Requests

What a command line asks for. `Request.read` reads it word by word: switches before the command, the
command, and switches after it. A switch that shapes the timer may stand in either part; where it
stands in both, the part after the command wins.

The value of a switch may follow as a word of its own. Such a value is judged once the next switch
or the end of its part is reached, one that is attached with an equals sign at once. That decides
which of two faults is found.
-/

namespace TimingWheel.CommandLine

/-- What a command line asks for. -/
inductive Request where
  | help (page : Page)
  | version
  /-- Print the settings that a path and overrides lead to. -/
  | settings (path : Option String) (overrides : Overrides)
  /-- Soak a timer with such settings. -/
  | soak (path : Option String) (overrides : Overrides) (load : Soak)
  deriving Repr, DecidableEq

/-! ## Words -/

/-- What a word of a command line looks like. -/
inductive Word where
  /-- Two dashes: what follows are no switches. -/
  | separator
  /-- A name behind two dashes, and what stands behind an equals sign. -/
  | named (name : String) (value : Option String)
  /-- Letters behind a single dash, the first of them. -/
  | lettered (first : Char)
  | plain
  deriving Repr, DecidableEq

/-- Parts of a text before and after its first equals sign. -/
def splitValue (s : List Char) : String × Option String :=
  let isName (c : Char) : Bool := c != '='
  (String.ofList (s.takeWhile isName),
    match s.dropWhile isName with
    | [] => none
    | _ :: value => some (String.ofList value))

def Word.ofText (text : String) : Word :=
  match text.toList with
  | ['-', '-'] => .separator
  | '-' :: '-' :: rest =>
    let (name, value) := splitValue rest
    .named name value
  | '-' :: c :: _ => .lettered c
  | _ => .plain

/-! ## Parts -/

/-- What a switch is set to. -/
inductive Value where
  | text (s : String)
  | count (n : Nat)
  /-- The switch takes no value and is set. -/
  | present
  deriving Repr, DecidableEq

def Value.read (switch : Switch) (text : String) : Except UsageFault Value :=
  if switch = .config then .ok (.text text)
  else ((Text.readCount text.toList).map Value.count).mapError (.badNumber text switch)

/-- One part of a command line as far as it is read. -/
structure Part where
  page : Page
  values : List (Switch × Value) := []
  /-- The latest switch, when its value is a word of its own that was not judged yet. -/
  pending : Option (Switch × Option String) := none
  deriving Repr, DecidableEq

namespace Part

/-- Whether the next plain word is the value of a switch. -/
def awaitsValue (p : Part) : Bool := p.pending.any (·.2.isNone)

/-- Sets a switch that is not set yet. -/
def set (p : Part) (switch : Switch) (value : Except UsageFault Value) : Except UsageFault Part :=
  if p.values.any (·.1 == switch) then .error (.repeated switch)
  else value.map fun v => { p with values := (switch, v) :: p.values }

/-- Judges the value that was put off. -/
def resolve (p : Part) : Except UsageFault Part :=
  match p.pending with
  | none => .ok p
  | some (switch, none) => .error (.valueMissing switch)
  | some (switch, some text) => { p with pending := none }.set switch (Value.read switch text)

/-- Takes a plain word as the value of the latest switch. -/
def supply (p : Part) (text : String) : Part :=
  { p with pending := p.pending.map fun (switch, _) => (switch, some text) }

/-- A word that is neither a switch nor a value. -/
def refuse (p : Part) (word : String) : UsageFault :=
  if p.page = .program then .unknownCommand word else .unexpected word

/-- A word behind the two dashes, where not even a command can stand. -/
def refuseBehind (p : Part) (word : String) : UsageFault :=
  if (Page.ofName? word).isSome then .unexpected word else p.refuse word

end Part

/-! ## The command line as a whole -/

/-- A command line as far as it is read. -/
structure Scan where
  part : Part := { page := .program }
  /-- The part before the command, once that is named. -/
  before : Option Part := none
  deriving Repr, DecidableEq

/-- Where reading a word leads. -/
inductive Progress where
  | more (scan : Scan)
  /-- Whatever follows does not matter. -/
  | over (request : Request)
  deriving Repr, DecidableEq

namespace Scan

/-- Goes on with another state of the part that is read. -/
def goOn (s : Scan) (part : Part) : Progress := .more { s with part }

/-- The command that a word names here. -/
def command? (s : Scan) (word : String) : Option Page :=
  if s.part.page = .program ∧ !s.part.awaitsValue then Page.ofName? word else none

/-- Goes on to the part behind a command. -/
def enter (s : Scan) (page : Page) : Scan := { part := { page }, before := some s.part }

def switch (s : Scan) (switch : Switch) (value : Option String) : Except UsageFault Progress :=
  match switch.takesValue, value with
  | true, some text => do
    let part ← s.part.resolve
    return s.goOn (← part.set switch (Value.read switch text))
  | true, none => do
    let part ← s.part.resolve
    return s.goOn { part with pending := some (switch, none) }
  | false, some text => .error (.unexpectedValue text switch)
  | false, none => do
    let part ← s.part.resolve
    match switch with
    | .help => return .over (.help part.page)
    | .version => return .over .version
    | _ => return s.goOn (← part.set switch (.ok .present))

def word (s : Scan) (text : String) : Word → Except UsageFault Progress
  | .separator => .ok (.more s)
  | .named name value =>
    match s.part.page.switch? name with
    | some switch => s.switch switch value
    | none => .error (.unexpected ("--" ++ name))
  | .lettered c =>
    match s.part.page.lettered? c with
    | some switch => s.switch switch none
    | none => .error (.unexpected ("-" ++ c.toString))
  | .plain =>
    if s.part.awaitsValue then .ok (s.goOn (s.part.supply text))
    else .error (s.part.refuse text)

def request (page : Page) (values : List (Switch × Value)) : Request :=
  let count? (switch : Switch) : Option Nat :=
    match values.lookup switch with
    | some (.count n) => some n
    | _ => none
  let path :=
    match values.lookup .config with
    | some (.text path) => some path
    | _ => none
  let overrides : Overrides :=
    { slots := count? .slots, levels := count? .levels, intervalMs := count? .baseMs }
  let load : Soak := {}
  match page with
  | .soak =>
    .soak path overrides
      { jobs := (count? .jobs).getD load.jobs
        intervalMs := (count? .intervalMs).getD load.intervalMs
        seconds := (count? .seconds).getD load.seconds
        singleton := (values.lookup .singleton).isSome }
  | _ => .settings path overrides

/-- The request at the end of a command line. The part behind the command is judged first, and its
values win. -/
def finish (s : Scan) : Except UsageFault Request := do
  let part ← s.part.resolve
  match s.before with
  | none => .error (if part.values.isEmpty then .nothingAsked else .noCommand)
  | some before =>
    let before ← before.resolve
    return request part.page (part.values ++ before.values)

end Scan

/-- The page that the words behind the command `help` lead to. Only the program has commands. -/
def helpOn : List String → Except UsageFault Request
  | [] => .ok (.help .program)
  | word :: rest =>
    match Page.ofName? word, rest with
    | none, _ => .error (.unknownCommand word)
    | some page, [] => .ok (.help page)
    | some _, next :: _ => .error (.unknownCommand next)

/-- Reads the words of a command line from a state on. -/
def readFrom (s : Scan) : List String → Except UsageFault Request
  | [] => s.finish
  | text :: rest =>
    match s.command? text with
    | some .help => helpOn rest
    | some page => readFrom (s.enter page) rest
    | none =>
      match Word.ofText text, rest with
      | .separator, next :: _ => .error (s.part.refuseBehind next)
      | word, rest => do
        match ← s.word text word with
        | .more s => readFrom s rest
        | .over request => return request

/-- What the words of a command line ask for. -/
def Request.read (words : List String) : Except UsageFault Request := readFrom {} words

end TimingWheel.CommandLine
