/-!
# Finding the settings file

Files are known by their places seen from the working directory: a number of steps up, then names.
A relative path is looked for from the working directory, then from each directory above it.

A path that starts at the root of the file system means the file that is known by just that path.
-/

namespace TimingWheel

/-- Files with their texts, under paths from the working directory. -/
abbrev Files := List (String × String)

/-- A place seen from the working directory. -/
structure Place where
  /-- Directories above the working directory. -/
  up : Nat := 0
  /-- Names from there on down. -/
  names : List String := []
  deriving Repr, DecidableEq

namespace Place

/-- The place one name further; the name `..` leads up, a lone point or nothing stays. -/
def enter (p : Place) (name : String) : Place :=
  if name = "" ∨ name = "." then p
  else if name = ".." then
    if p.names.isEmpty then { p with up := p.up + 1 } else { p with names := p.names.dropLast }
  else { p with names := p.names ++ [name] }

def ofPath (path : String) : Place := (path.splitOn "/").foldl enter {}

/-- Whether a place is that of the working directory, of one above it, or on the way to a file. -/
def isDirectory (files : Files) (p : Place) : Bool :=
  p.names.isEmpty || files.any fun (path, _) =>
    let q := ofPath path
    q.up == p.up && p.names.length < q.names.length && p.names.isPrefixOf q.names

/-- Follows the names of a path, the last of which is to be a file. -/
def follow (files : Files) (p : Place) : List String → Option Place
  | [] => none
  | [name] => if name = "" ∨ name = "." ∨ name = ".." then none else some (p.enter name)
  | name :: rest =>
    let q := p.enter name
    if q.isDirectory files then follow files q rest else none

def text? (files : Files) (p : Place) : Option String :=
  (files.find? fun (path, _) => ofPath path == p).map (·.2)

end Place

namespace Files

/-- How far up the places of files lie. -/
def maxUp (files : Files) : Nat := files.foldl (fun n (path, _) => max n (Place.ofPath path).up) 0

/-- The file that a path means, with the path to it from the working directory. The search goes up
as long as there is a file to find. -/
def find? (files : Files) (path : String) : Option (String × String) :=
  let names := path.splitOn "/"
  if path.startsWith "/" then (files.lookup path).map fun text => (path, text)
  else
    (List.range (files.maxUp + 1)).findSome? fun up => do
      let place ← Place.follow files { up } names
      let text ← place.text? files
      let shown := List.replicate up ".." ++ names.filter fun name => name != "" && name != "."
      some ("/".intercalate shown, text)

end Files

end TimingWheel
