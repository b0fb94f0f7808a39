import TimingWheel.Config
import TimingWheel.Json.Reader
import TimingWheel.Stats

/-!
# JSON forms of settings, statuses and statistics

A record is written as an object with its fields in order. It is read from such an object, whatever
the order and whatever else is in there, or from an array of its fields in order. A count is written
in plain decimal digits, and a status is its name, or an object with that name for its only member.

Fields of settings may be left out and have defaults then; fields of statistics may not.
-/

namespace TimingWheel

namespace Json

def count? : Json → Option Nat
  | .number literal => Text.plainCount? literal.toList
  | _ => none

/-- The name that a value without contents is. -/
def name? : Json → Option String
  | .string text => text
  | .object [(key, .null)] => key
  | _ => none

def items? : Json → Option (List Json)
  | .array items => some items
  | _ => none

/-- The value of a member, `none` inside where there is none. A member that occurs twice is
refused. -/
def member? (members : List (Option String × Json)) (key : String) : Option (Option Json) :=
  match members.filter (·.1 == some key) with
  | [] => some none
  | [(_, v)] => some (some v)
  | _ => none

/-- The fields of a record, `none` for one that is missing. -/
def fields? (keys : List String) : Json → Option (List (Option Json))
  | .object members =>
    if members.any (·.1.isNone) then none else keys.mapM (member? members)
  | .array items =>
    if keys.length < items.length then none
    else some (items.map some ++ List.replicate (keys.length - items.length) none)
  | _ => none

/-- A field that has a default. -/
def optional {α : Type} (decode : Json → Option α) (default : α) : Option Json → Option α
  | none => some default
  | some v => decode v

end Json

namespace TimerConfig

def fieldNames : List String := ["slots", "levels", "interval_ms", "max_job_threads"]

def toJson (c : TimerConfig) : Json :=
  .ofMembers [("slots", .ofNat c.slots), ("levels", .ofNat c.levels),
    ("interval_ms", .ofNat c.intervalMs), ("max_job_threads", .ofNat c.maxJobThreads)]

def ofJson? (v : Json) : Option TimerConfig := do
  let d : TimerConfig := {}
  match ← v.fields? fieldNames with
  | [slots, levels, intervalMs, maxJobThreads] =>
    some
      { slots := ← Json.optional Json.count? d.slots slots
        levels := ← Json.optional Json.count? d.levels levels
        intervalMs := ← Json.optional Json.count? d.intervalMs intervalMs
        maxJobThreads := ← Json.optional Json.count? d.maxJobThreads maxJobThreads }
  | _ => none

end TimerConfig

namespace Settings

def toJson (s : Settings) : Json := .ofMembers [("timer", s.timer.toJson)]

def ofJson? (v : Json) : Option Settings := do
  match ← v.fields? ["timer"] with
  | [timer] => some { timer := ← Json.optional TimerConfig.ofJson? {} timer }
  | _ => none

def text (s : Settings) : String := s.toJson.pretty

def ofText? (text : String) : Option Settings := (Json.read? text).bind ofJson?

end Settings

namespace EntryStatus

def toJson (s : EntryStatus) : Json := .ofText s.name

def ofJson? (v : Json) : Option EntryStatus := v.name?.bind ofName?

end EntryStatus

namespace TimerStatus

def toJson (s : TimerStatus) : Json := .ofText s.name

def ofJson? (v : Json) : Option TimerStatus := v.name?.bind ofName?

end TimerStatus

namespace LevelStats

def fieldNames : List String := ["level", "resolution_ms", "ticks", "pending"]

def toJson (l : LevelStats) : Json :=
  .ofMembers [("level", .ofNat l.level), ("resolution_ms", .ofNat l.resolutionMs),
    ("ticks", .ofNat l.ticks), ("pending", .ofNat l.pending)]

def ofJson? (v : Json) : Option LevelStats := do
  match ← v.fields? fieldNames with
  | [some level, some resolutionMs, some ticks, some pending] =>
    some
      { level := ← level.count?
        resolutionMs := ← resolutionMs.count?
        ticks := ← ticks.count?
        pending := ← pending.count? }
  | _ => none

end LevelStats

namespace TimerStats

def toJson (s : TimerStats) : Json :=
  .ofMembers [("status", s.status.toJson), ("levels", .array (s.levels.map LevelStats.toJson))]

def ofJson? (v : Json) : Option TimerStats := do
  match ← v.fields? ["status", "levels"] with
  | [some status, some levels] =>
    some
      { status := ← TimerStatus.ofJson? status
        levels := ← (← levels.items?).mapM LevelStats.ofJson? }
  | _ => none

def text (s : TimerStats) : String := s.toJson.compact

def ofText? (text : String) : Option TimerStats := (Json.read? text).bind ofJson?

end TimerStats

end TimingWheel
