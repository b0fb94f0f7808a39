import TimingWheel.Binary64
import TimingWheel.Members

/-!
# Layered settings

What a layer of configuration says, before anything is known about which settings there are: a tree
of scalars, sequences and tables in which every node knows the layer it comes from.

`Setting.merge` puts one layer over another. Tables are merged key by key; anything else of the
upper layer takes the place of what is below it. What is told about a merged table is told of the
upper layer.
-/

namespace TimingWheel

inductive Origin where
  | defaults
  /-- A file, by the place it was found at. -/
  | file (place : String)
  | environment
  | flags
  deriving Repr, DecidableEq

/-- A setting without parts. -/
inductive Scalar where
  | text (s : String)
  | bool (b : Bool)
  | signed (i : Int)
  | count (n : Nat)
  | float (x : Binary64)
  deriving Repr, DecidableEq

/-- What a layer says. -/
inductive Setting where
  | scalar (origin : Origin) (value : Scalar)
  | sequence (origin : Origin) (items : List Setting)
  | table (origin : Origin) (members : List (String × Setting))
  deriving Repr

namespace Setting

def origin : Setting → Origin
  | scalar o _ | sequence o _ | table o _ => o

/-- The members of a table, none of anything else. -/
def members : Setting → List (String × Setting)
  | table _ ms => ms
  | _ => []

mutual

def merge (lower : Setting) : Setting → Setting
  | .table o ms =>
    match lower with
    | .table _ ls => .table o (mergeMembers ls ms)
    | _ => .table o ms
  | upper => upper

/-- Members of an upper table over those of a lower one. -/
def mergeMembers (lower : List (String × Setting)) :
    List (String × Setting) → List (String × Setting)
  | [] => lower
  | m :: rest => mergeMembers (mergeMember lower m) rest

/-- One member of an upper table over those of a lower one. -/
def mergeMember (lower : List (String × Setting)) : String × Setting → List (String × Setting)
  | (key, v) =>
    match lower.lookup key with
    | none => Members.set key v lower
    | some l => Members.set key (merge l v) lower

end

/-- A setting at the end of a path of keys. -/
def nest (origin : Origin) : List String → Setting → Setting
  | [], v => v
  | key :: rest, v => .table origin [(key, nest origin rest v)]

end Setting

end TimingWheel
