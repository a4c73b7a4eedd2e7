/-!
# Logs

What a run has to say besides its result is a list of log entries in the
order in which they were made.
-/


namespace QuantumLowering

/-- How much an entry matters. -/
inductive LogLevel where
  | error
  | warn
  | info
  | debug
deriving DecidableEq

/-- The name of a level. -/
def LogLevel.text : LogLevel → String
  | error => "ERROR"
  | warn => "WARN"
  | info => "INFO"
  | debug => "DEBUG"

/-- An entry of a log. -/
structure LogEntry where
  /-- How much it matters. -/
  level : LogLevel
  /-- What it says. -/
  message : String
deriving DecidableEq

/-- The line of an entry. -/
def LogEntry.text (e : LogEntry) : String := e.level.text ++ " " ++ e.message

/-- Entries in the order in which they were made. -/
abbrev Log := List LogEntry

end QuantumLowering
