/-
Watchers: one that remembers everything it is told, one that remembers what a
listener on a channel would hear, and one that writes to the log and remembers
nothing.
-/
import CacheScript.Run

namespace CacheScript

/-- Something that a watcher is told. -/
inductive Event where
  | start (node : Label)
  | finish (node : Label) (outcome : Outcome)
  | log (message : String)
  | complete (outcome : Outcome)
deriving DecidableEq

/-- A message on a channel: nodes that become active and inactive, and codes
of failures. -/
inductive Notice where
  | active (node : NodeId) (tag : String)
  | inactive (node : NodeId) (tag : String) (code : Option String)
  | log (message : String)
  | finished (code : Option String)
deriving DecidableEq

/-- What an event tells the listeners on a channel. -/
def Event.notice : Event → Notice
  | start node => .active node.id node.tag
  | finish node outcome => .inactive node.id node.tag (outcome.failure?.map Failure.code)
  | log message => .log message
  | complete outcome => .finished (outcome.failure?.map Failure.code)

/-- What there is to log about an event. -/
def Event.remarks : Event → List Log.Remark
  | start node => [⟨.trace, .about ("start <" ++ node.tag ++ "> ") node.id ""⟩]
  | finish node .done => [⟨.debug, .about ("done <" ++ node.tag ++ "> ") node.id ""⟩]
  | finish node (.failed f) =>
    [⟨.debug, .about ("failed <" ++ node.tag ++ "> ") node.id (": " ++ f.message)⟩]
  | log _ => []
  | complete .done => []
  | complete (.failed f) => [⟨.warn, .plain ("script failed [" ++ f.code ++ "]: " ++ f.message)⟩]

namespace Watcher

/-- A watcher that does the same thing with every event. -/
def ofEvents {ω : Type} (told : Event → ω → ω × List Log.Remark) : Watcher ω where
  onStart node := told (.start node)
  onFinish node outcome := told (.finish node outcome)
  onLog message := told (.log message)
  onComplete outcome := told (.complete outcome)

/-- Remembers all events, the newest first. -/
def recorder : Watcher (List Event) :=
  ofEvents fun event seen => (event :: seen, [])

/-- Sends every event on a channel; remembers what was sent, the newest
first. -/
def channel : Watcher (List Notice) :=
  ofEvents fun event sent => (event.notice :: sent, [])

/-- Writes every event to the log. -/
def logging : Watcher Unit :=
  ofEvents fun event _ => ((), event.remarks)

end Watcher

end CacheScript
