import TimingWheel.Layers.Setting

/-!
# TOML documents

A document is a table of nodes. Tables come to be in four ways, and the way decides what may still
be added to a table: by a header of their own, by the header of a table inside of them, by a dotted
key, or written out in braces.

* `Document.openTable` and `Document.openItem` are the two kinds of header.
* `Document.put` is a key with its value below a header.
* `Table.put` is a key with its value within one table; it serves tables in braces, too.

Each answers `none` where the document would define something twice.
-/

namespace TimingWheel.Toml

/-- How a table came to be. -/
inductive TableKind where
  /-- By its own header. -/
  | header
  /-- By the header of a table inside of it. -/
  | implied
  /-- By a dotted key. -/
  | dotted
  /-- Written out in braces. -/
  | braced
  deriving Repr, DecidableEq

inductive Node where
  | scalar (value : Scalar)
  /-- A date, a time or both; nothing needs to know which. -/
  | moment
  | array (items : List Node)
  | table (kind : TableKind) (members : List (String × Node))
  /-- Tables under headers in double brackets. -/
  | tables (items : List (List (String × Node)))
  deriving Repr, Inhabited

abbrev Table := List (String × Node)

namespace Table

/-- Changes the last item of a nonempty list. -/
def modifyLast (f : Table → Option Table) : List Table → Option (List Table)
  | [] => none
  | [t] => (f t).map ([·])
  | t :: rest => (modifyLast f rest).map (t :: ·)

/-- Adds a value under a dotted key. Tables on the way come to be, or came to be by a dotted key;
one implied by a header may be passed through and not added to. -/
def put (v : Node) : List String → Table → Option Table
  | [], _ => none
  | [key], t => if (t.lookup key).isSome then none else some (Members.set key v t)
  | key :: next :: rest, t =>
    match t.lookup key with
    | none => (put v (next :: rest) []).map fun sub => Members.set key (.table .dotted sub) t
    | some (.table .dotted sub) =>
      (put v (next :: rest) sub).map fun sub => Members.set key (.table .dotted sub) t
    | some (.table .implied sub) =>
      if rest.isEmpty then none
      else (put v (next :: rest) sub).map fun sub => Members.set key (.table .implied sub) t
    | some (.tables items) =>
      if rest.isEmpty then none
      else
        (modifyLast (put v (next :: rest)) items).map fun items =>
          Members.set key (.tables items) t
    | some _ => none

/-- Changes the table that a header's path leads to. Tables on the way that are not there yet are
implied; of tables under double brackets the last one is meant. -/
def modifyAt (f : Table → Option Table) : List String → Table → Option Table
  | [], t => f t
  | key :: rest, t =>
    match t.lookup key with
    | none => (modifyAt f rest []).map fun sub => Members.set key (.table .implied sub) t
    | some (.table .braced _) => none
    | some (.table kind sub) =>
      (modifyAt f rest sub).map fun sub => Members.set key (.table kind sub) t
    | some (.tables items) =>
      (modifyLast (modifyAt f rest) items).map fun items => Members.set key (.tables items) t
    | some _ => none

/-- Opens the table of a header: a new one, or one that was only implied so far. -/
def openMember (key : String) (t : Table) : Option Table :=
  match t.lookup key with
  | none => some (Members.set key (.table .header []) t)
  | some (.table .implied sub) => some (Members.set key (.table .header sub) t)
  | some _ => none

/-- Opens one more table of a header in double brackets. -/
def openItem (key : String) (t : Table) : Option Table :=
  match t.lookup key with
  | none => some (Members.set key (.tables [[]]) t)
  | some (.tables items) => some (Members.set key (.tables (items ++ [[]])) t)
  | some _ => none

end Table

/-- A document while it is read: its tables, and the header that is in force. -/
structure Document where
  root : Table := []
  header : List String := []
  deriving Repr

namespace Document

def openTable (d : Document) (path : List String) : Option Document :=
  match path.getLast? with
  | none => none
  | some key =>
    (Table.modifyAt (Table.openMember key) path.dropLast d.root).map fun root =>
      { root, header := path }

def openItem (d : Document) (path : List String) : Option Document :=
  match path.getLast? with
  | none => none
  | some key =>
    (Table.modifyAt (Table.openItem key) path.dropLast d.root).map fun root =>
      { root, header := path }

/-- Adds a value under a dotted key below the header in force. -/
def put (d : Document) (path : List String) (v : Node) : Option Document :=
  (Table.modifyAt (Table.put v path) d.header d.root).map fun root => { d with root }

end Document

/-! ## Documents as layers

Two keys are reserved below the root. A table with the first one stands for the value under that
key, whatever else is in it. The second one may hold an integer, which means nothing. -/

/-- The reserved key of the value that a table stands for. -/
def valueKey : String := "___figment_value_value"

/-- The reserved key of an integer without a meaning. -/
def idKey : String := "___figment_value_id"

/-- Whether the reserved key of an integer, where it is used, holds one. -/
def hasFitId (t : Table) : Bool :=
  match t.lookup idKey with
  | none | some (.scalar (.signed _)) => true
  | some _ => false

/-- The setting that the members of a table below the root make up. -/
def settingOfTable (origin : Origin) (members : List (String × Setting)) : Setting :=
  (members.lookup valueKey).getD (.table origin (members.filter (·.1 != idKey)))

mutual

/-- A node as a setting. A date or time is a table of some kind. -/
def Node.toSetting? (origin : Origin) : Node → Option Setting
  | .scalar value => some (.scalar origin value)
  | .moment => some (.table origin [])
  | .array items => (settingsOfItems? origin items).map (.sequence origin)
  | .table _ members =>
    if hasFitId members then (settingsOfMembers? origin members).map (settingOfTable origin)
    else none
  | .tables items => (settingsOfTables? origin items).map (.sequence origin)

def settingsOfItems? (origin : Origin) : List Node → Option (List Setting)
  | [] => some []
  | v :: rest => do
    let v ← v.toSetting? origin
    return v :: (← settingsOfItems? origin rest)

def settingsOfMembers? (origin : Origin) :
    List (String × Node) → Option (List (String × Setting))
  | [] => some []
  | (key, v) :: rest => do
    let v ← v.toSetting? origin
    return (key, v) :: (← settingsOfMembers? origin rest)

def settingsOfTables? (origin : Origin) :
    List (List (String × Node)) → Option (List Setting)
  | [] => some []
  | t :: rest =>
    if hasFitId t then do
      let members ← settingsOfMembers? origin t
      return settingOfTable origin members :: (← settingsOfTables? origin rest)
    else none

end

/-- A document as a layer. -/
def Document.toSetting? (origin : Origin) (d : Document) : Option Setting :=
  (settingsOfMembers? origin d.root).map (.table origin)

end TimingWheel.Toml
