import TimingWheel.Text.Number

/-!
# Pages and switches

A command line asks for one of the commands, with switches before and after its name. A `Page` is
what one part of a command line is about: the program as a whole, or one command. Each page has its
own switches; those that shape the timer are on all of them.
-/

namespace TimingWheel.CommandLine

/-- What one part of a command line is about. -/
inductive Page where
  | program
  | settings
  | soak
  | help
  deriving Repr, DecidableEq

namespace Page

/-- The commands, in the order in which they are listed. -/
def commands : List Page := [settings, soak, help]

/-- The name of a command; that of the program for the page that is about it. -/
def name : Page → String
  | program => "tickwheel"
  | settings => "config"
  | soak => "soak"
  | help => "help"

def ofName? (text : String) : Option Page := commands.find? (·.name == text)

def about : Page → String
  | program => "Hierarchical timing wheel tools"
  | settings => "Print the resolved configuration as JSON"
  | soak => "Schedule many repeating jobs and compare executions against the ideal"
  | help => "Print this message or the help of the given subcommand(s)"

def usage : Page → String
  | program => "tickwheel [OPTIONS] <COMMAND>"
  | settings => "tickwheel config [OPTIONS]"
  | soak => "tickwheel soak [OPTIONS]"
  | help => "tickwheel help [COMMAND]..."

end Page

/-- Something that a command line can set or ask for by name. -/
inductive Switch where
  | config
  | slots
  | levels
  | baseMs
  | jobs
  | intervalMs
  | seconds
  | singleton
  | help
  | version
  deriving Repr, DecidableEq

namespace Switch

/-- The name, which stands behind two dashes. -/
def name : Switch → String
  | config => "config"
  | slots => "slots"
  | levels => "levels"
  | baseMs => "base-ms"
  | jobs => "jobs"
  | intervalMs => "interval-ms"
  | seconds => "seconds"
  | singleton => "singleton"
  | help => "help"
  | version => "version"

/-- The letter that stands behind a single dash. -/
def letter? : Switch → Option Char
  | help => some 'h'
  | version => some 'V'
  | _ => none

def valueName? : Switch → Option String
  | config => some "CONFIG"
  | slots => some "SLOTS"
  | levels => some "LEVELS"
  | baseMs => some "BASE_MS"
  | jobs => some "JOBS"
  | intervalMs => some "INTERVAL_MS"
  | seconds => some "SECONDS"
  | singleton | help | version => none

def takesValue (s : Switch) : Bool := s.valueName?.isSome

/-- The switch as it is written, with the name of its value. -/
def written (s : Switch) : String :=
  "--" ++ s.name ++ (s.valueName?.elim "" fun value => " <" ++ value ++ ">")

def about : Switch → String
  | config => "Config file (default: $TICKWHEEL_CONFIG, then ~/.tickwheel/tickwheel.toml)"
  | slots => "Slots per wheel level"
  | levels => "Number of wheel levels"
  | baseMs => "Tick period of the finest level, in milliseconds"
  | jobs => "Number of repeating jobs to schedule [default: 1000]"
  | intervalMs => "Interval of every job, in milliseconds [default: 100]"
  | seconds => "How long to let the jobs run [default: 5]"
  | singleton => "Register the jobs as singletons"
  | help => "Print help"
  | version => "Print version"

end Switch

/-- The switches of a page, in the order in which they are listed. -/
def Page.switches : Page → List Switch
  | .program => [.config, .slots, .levels, .baseMs, .help, .version]
  | .settings => [.config, .slots, .levels, .baseMs, .help]
  | .soak =>
    [.config, .jobs, .intervalMs, .slots, .levels, .seconds, .baseMs, .singleton, .help]
  | .help => []

def Page.switch? (p : Page) (name : String) : Option Switch := p.switches.find? (·.name == name)

def Page.lettered? (p : Page) (c : Char) : Option Switch :=
  p.switches.find? (·.letter? == some c)

end TimingWheel.CommandLine
