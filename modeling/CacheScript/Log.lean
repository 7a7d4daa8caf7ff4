/-
Log lines. Every line keeps who wrote it, so that the lines of a watcher can
be told from those of the run it watches, and keeps the node it speaks of as
a node rather than as text, so that a reader of the log chooses how nodes are
named.
-/

namespace CacheScript

/-- A node of a tree, as the positions on the way from it up to the root. -/
abbrev NodeId := List Nat

namespace Log

/-- How urgent a line is. -/
inductive Level where
  | error
  | warn
  | info
  | debug
  | trace
deriving DecidableEq

/-- The name of a level. -/
def Level.name : Level → String
  | .error => "ERROR"
  | .warn => "WARN"
  | .info => "INFO"
  | .debug => "DEBUG"
  | .trace => "TRACE"

/-- The level of a name, in any case of its letters. -/
def Level.ofName? (s : String) : Option Level :=
  [Level.error, .warn, .info, .debug, .trace].find? fun level =>
    s.toList.map Char.toUpper == level.name.toList

/-- Who wrote a line. -/
inductive Source where
  | node
  | store
  | words
  | watcher
deriving DecidableEq

/-- What a line says: a text, or a text about a node. -/
inductive Message where
  | plain (text : String)
  | about (before : String) (node : NodeId) (after : String)
deriving DecidableEq

/-- A message with its node named by `name`. -/
def Message.render (name : NodeId → String) : Message → String
  | .plain text => text
  | .about before node after => before ++ name node ++ after

/-- Something to be logged. -/
structure Remark where
  level : Level
  message : Message
deriving DecidableEq

/-- A line of the log: a remark, and who made it. -/
structure Line extends Remark where
  source : Source
deriving DecidableEq

/-- The line of a plain text. -/
def line (source : Source) (level : Level) (text : String) : Line :=
  { level, message := .plain text, source }

end Log

end CacheScript
