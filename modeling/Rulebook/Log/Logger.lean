import Rulebook.Log.Level
import Rulebook.Record.Loading

/-!
The logger of the library. Its records go to its handlers, and on to the handlers of the program
around it if it propagates. Setting it up installs a handler for the console, and one for a file if
the file can be opened, in place of those that an earlier setup installed; handlers of the program
itself stay where they are.
-/

namespace Rulebook.Log

/-- A record of a log. -/
structure Entry where
  logger : String
  severity : Severity
  message : String

namespace Entry

/-- An entry as it reaches the program around the library. -/
def summary (e : Entry) : String := s!"{e.severity.name} {e.logger}: {e.message}"

/-- The line that a handler writes for an entry at some time; a traced one tells the time and the
logger. -/
def line (time : String) (traced : Bool) (e : Entry) : String :=
  if traced then s!"[{time}] [{e.severity.name}] [{e.logger}] {e.message}"
  else s!"rulejson {e.severity.name}: {e.message}"

end Entry

/-- Where a handler writes. -/
inductive Sink where
  | console
  | file
  /-- To wherever the program wants. -/
  | foreign
deriving DecidableEq

/-- A handler of entries. -/
structure Handler where
  sink : Sink
  level : Level
  traced : Bool
deriving DecidableEq

namespace Handler

/-- Whether a handler has been installed by a setup. -/
def isInstalled (h : Handler) : Bool := h.sink != .foreign

/-- A handler that a program brings along. -/
def foreign : Handler := ⟨.foreign, .number 0, false⟩

/-- A handler with its level. -/
def shown (h : Handler) : String :=
  let sink := match h.sink with
    | .console => "console"
    | .file => "file"
    | .foreign => "own"
  s!"{sink}:{h.level.shown}"

end Handler

/-- What became of the log file that a setup names. -/
inductive LogFile where
  | absent
  | opened
  | failed (path reason : String)

/-- How a logger is to be set up. -/
structure Setup where
  level : Value := .int 30
  file : LogFile := .absent
  traced : Bool := false
  propagate : Bool := false

/-- The lines that entries bring forth: on the console, in the log file, and the entries that reach
the program around the library. -/
structure Output where
  console : List String := []
  file : List String := []
  around : List String := []

/-- One output after another. -/
def Output.append (a b : Output) : Output :=
  ⟨a.console ++ b.console, a.file ++ b.file, a.around ++ b.around⟩

/-- The logger of the library. -/
structure Logger where
  level : Level := .number 0
  propagate : Bool := true
  handlers : List Handler := []
  /-- Whether the log file exists. -/
  hasFile : Bool := false

namespace Logger

def name : String := "rulejson"

/-- The level of the program around the library. -/
def levelAround : Int := 30

/-- Whether a logger is the one of the library or below it. -/
def isInside (logger : String) : Bool :=
  logger == name || (name ++ ".").toList.isPrefixOf logger.toList

/-- The level that counts: a level of zero leaves it to the program around the library. -/
def effectiveLevel (l : Logger) : Int :=
  if l.level.value = 0 then levelAround else l.level.value

/-- Whether entries of a severity count in a logger. -/
def isEnabled (l : Logger) (logger : String) (severity : Severity) : Bool :=
  decide ((if isInside logger then l.effectiveLevel else levelAround) ≤ severity.value)

def lines (l : Logger) (time : String) (sink : Sink) (e : Entry) : List String :=
  (l.handlers.filter fun h => h.sink = sink ∧ h.level.value ≤ e.severity.value).map fun h =>
    e.line time h.traced

/-- What an entry at some time brings forth. -/
def emit (l : Logger) (time : String) (e : Entry) : Output :=
  if !l.isEnabled e.logger e.severity then {}
  else if !isInside e.logger then { around := [e.summary] }
  else
    ⟨l.lines time .console e, l.lines time .file e, if l.propagate then [e.summary] else []⟩

/-- What some entries bring forth. -/
def emitAll (l : Logger) (time : String) (entries : List Entry) : Output :=
  (entries.map (l.emit time)).foldr Output.append {}

/-- The logger without the handlers that a setup has installed. -/
def cleared (l : Logger) : Logger :=
  { l with handlers := l.handlers.filter (!·.isInstalled) }

/-- Back to the state before any setup. -/
def reset (l : Logger) : Logger := { l.cleared with level := .number 0, propagate := true }

/-- Adds a handler behind the others. -/
def add (l : Logger) (h : Handler) : Logger := { l with handlers := l.handlers ++ [h] }

/-- Sets a logger up at some time. The level is looked at first, so that a bad one changes nothing;
a log file that cannot be opened is an entry of its own. -/
def configure (l : Logger) (time : String) (s : Setup) : Option (Logger × Output) :=
  (Level.ofValue? s.level).map fun level =>
    let handler (sink : Sink) : Handler := ⟨sink, level, s.traced⟩
    let l := { l.cleared with level := level, propagate := s.propagate }.add (handler .console)
    match s.file with
    | .absent => (l, {})
    | .opened => ({ l with hasFile := true }.add (handler .file), {})
    | .failed path reason =>
      (l, l.emit time ⟨name, .warning, s!"Could not create log file {path}: {reason}"⟩)

end Logger

/-- The entries on the keys that a loading has passed over. -/
def loadingEntries {ε α : Type} (x : Loading ε α) : List Entry :=
  x.warnings.map fun w => ⟨"rulejson.ast.serialization", .warning, w.message⟩

/-- The entry on an operation that has ended well. -/
def timingEntry (logger operation elapsed : String) : Entry :=
  ⟨logger, .debug, s!"{operation} completed in {elapsed}s"⟩

/-- The entry on an operation of a pipeline, unless it has failed. -/
def pipelineEntries {ε α : Type} (operation elapsed : String) (result : Except ε α) : List Entry :=
  match result with
  | .ok _ => [timingEntry "rulejson.serialization" operation elapsed]
  | .error _ => []

end Rulebook.Log
