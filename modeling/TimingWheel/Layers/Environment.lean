import TimingWheel.Layers.Extract
import TimingWheel.Layers.Variable

/-!
# The environment as a layer

Variables whose names start with `TICKWHEEL_TIMER_`, in any letter case, set what the rest of the
name says, below `timer`; a point in the rest leads one level down. Of two variables for the same
setting the later one wins.
-/

namespace TimingWheel

/-- Environment variables in their order. -/
abbrev Environment := List (String × String)

namespace Environment

/-- The value of a variable; names are exact here. -/
def get? (env : Environment) (name : String) : Option String := env.lookup name

/-- Parts of a text between points. -/
def splitPoints : List Char → List (List Char)
  | [] => [[]]
  | c :: rest =>
    match splitPoints rest with
    | [] => [[c]]
    | part :: parts => if c = '.' then [] :: part :: parts else (c :: part) :: parts

/-- What stands behind the start that the names of settings share. -/
def settingName? (name : String) : Option (List Char) :=
  let cs := Text.trim name.toList
  let stem := variableStem.toList
  let head := cs.take stem.length
  if head.map Char.toUpper = stem then some (cs.drop stem.length) else none

/-- The path of keys that a variable sets, without the leading `timer`. -/
def path? (name : String) : Option (List String) := do
  let parts := splitPoints (← settingName? name)
  if parts.any List.isEmpty then none
  else some (parts.map fun part => String.ofList (part.map Char.toLower))

/-- The layer that the variables make up. -/
def layer (env : Environment) : Setting :=
  env.foldl
    (fun layer (name, text) =>
      match path? name with
      | none => layer
      | some path => layer.merge (.nest .environment ("timer" :: path) (Variable.value text)))
    (.table .environment [])

end Environment

end TimingWheel
