/-!
# Lines logged by guests

A guest logs a line with a number for its severity. The lines are kept in order until the embedder
takes them.
-/

namespace WasmHost

/-- The severity of a line. -/
inductive LogLevel where
  | debug
  | info
  | warn
  | error
  deriving DecidableEq, Repr

namespace LogLevel

/-- The word for a severity. -/
def text : LogLevel → String
  | debug => "debug"
  | info => "info"
  | warn => "warn"
  | error => "error"

/-- The place in the order of severities. -/
def rank : LogLevel → Nat
  | debug => 0
  | info => 1
  | warn => 2
  | error => 3

/-- The severity a guest's number stands for; a number that stands for none is informational. -/
def ofNumber (n : Int) : LogLevel :=
  if n = 0 then debug else if n = 2 then warn else if n = 3 then error else info

theorem ofNumber_rank (l : LogLevel) : ofNumber l.rank = l := by cases l <;> decide

end LogLevel

/-- A line with its severity. -/
structure LogEntry where
  level : LogLevel
  message : String
  deriving DecidableEq, Repr

/-- The lines logged and not yet taken, oldest first. -/
structure GuestLog where
  entries : List LogEntry
  deriving DecidableEq, Repr

namespace GuestLog

/-- No lines. -/
def empty : GuestLog := ⟨[]⟩

/-- Adds a line. -/
def push (log : GuestLog) (entry : LogEntry) : GuestLog := ⟨log.entries ++ [entry]⟩

/-- Hands out all lines and keeps none. -/
def take (log : GuestLog) : List LogEntry × GuestLog := (log.entries, empty)

/-- What a line says for bytes that are no text. -/
def undecodable : String := "<invalid utf8>"

/-- The text of the bytes of a line. -/
def decode (bytes : ByteArray) : String := (String.fromUTF8? bytes).getD undecodable

end GuestLog

end WasmHost
