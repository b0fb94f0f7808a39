import TimingWheel.CommandLine.Switch

/-!
# Help

The page that explains the program or one of its commands: what it is for, how it is asked for, and
a line for each command and each switch.
-/

namespace TimingWheel.CommandLine

/-- Two columns, the second one aligned. -/
def columns (rows : List (String × String)) : String :=
  let width := rows.foldl (fun n (left, _) => max n left.length) 0
  let gap (left : String) := String.ofList (List.replicate (width - left.length) ' ')
  String.join (rows.map fun (left, right) => "  " ++ left ++ gap left ++ "  " ++ right ++ "\n")

/-- A switch with its letter, or the room for one. -/
def Switch.lettered (s : Switch) : String :=
  match s.letter? with
  | some c => "-" ++ c.toString ++ ", " ++ s.written
  | none => "    " ++ s.written

/-- A headed section, nothing where it would be empty. -/
def headed (title : String) (rows : List (String × String)) : String :=
  if rows.isEmpty then "" else "\n" ++ title ++ ":\n" ++ columns rows

namespace Page

/-- The text that explains a page. -/
def explanation (p : Page) : String :=
  let commands := if p = program then Page.commands.map fun c => (c.name, c.about) else []
  let words := if p = help then [("[COMMAND]...", "Print help for the subcommand(s)")] else []
  p.about ++ "\n\nUsage: " ++ p.usage ++ "\n" ++ headed "Commands" commands
    ++ headed "Arguments" words
    ++ headed "Options" (p.switches.map fun s => (s.lettered, s.about))

end Page

end TimingWheel.CommandLine
