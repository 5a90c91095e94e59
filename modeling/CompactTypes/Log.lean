import CompactTypes.Error

/-!
# The log

A `LogEntry` is a line that a conversion writes about its progress.  `Logged α` is the
result of an activity together with what it has written; an activity that fails keeps what
it has written before.
-/

namespace CompactTypes

/-- How important a line of the log is, the most important first. -/
inductive LogLevel where
  | warn
  | info
  | debug
  | trace
  deriving DecidableEq, Repr, Inhabited

namespace LogLevel

/-- How unimportant a level is. -/
def rank : LogLevel → Nat
  | warn => 0
  | info => 1
  | debug => 2
  | trace => 3

/-- The level down to which lines are shown when that many requests for more are made. -/
def ofVerbosity : Nat → LogLevel
  | 0 => warn
  | 1 => info
  | 2 => debug
  | _ => trace

/-- The name of a level. -/
def name : LogLevel → String
  | warn => "warn"
  | info => "info"
  | debug => "debug"
  | trace => "trace"

/-- The mark of a level in the log. -/
def mark : LogLevel → String
  | warn => "WARN"
  | info => "INFO"
  | debug => "DEBUG"
  | trace => "TRACE"

end LogLevel

/-- A line of the log. -/
structure LogEntry where
  level : LogLevel
  /-- The activity that has written the line. -/
  topic : String
  text : String
  deriving DecidableEq, Repr, Inhabited

namespace LogEntry

/-- The line as it is shown. -/
def render (e : LogEntry) : String :=
  e.level.mark ++ " [" ++ e.topic ++ "] " ++ e.text

/-- Whether a line is shown when lines down to the given level are. -/
def isShown (level : LogLevel) (e : LogEntry) : Bool :=
  e.level.rank ≤ level.rank

end LogEntry

/-- The result of an activity, and what it has written to the log. -/
structure Logged (α : Type) where
  log : List LogEntry
  result : Except Error α

namespace Logged

/-- An activity that writes nothing. -/
def ofExcept {α : Type} (result : Except Error α) : Logged α :=
  ⟨[], result⟩

/-- Writes lines to the log. -/
def write (log : List LogEntry) : Logged Unit :=
  ⟨log, .ok ⟨⟩⟩

/-- Goes on after an activity that has not failed. -/
def andThen {α β : Type} (a : Logged α) (f : α → Logged β) : Logged β :=
  match a.result with
  | .error e => ⟨a.log, .error e⟩
  | .ok x =>
    let next := f x
    ⟨a.log ++ next.log, next.result⟩

instance : Monad Logged where
  pure x := ⟨[], .ok x⟩
  bind := andThen

end Logged

end CompactTypes
