/-
Records: the objects that stores hold for scripts.
-/
import CacheScript.Dict

namespace CacheScript

/-- A cached object: an id and named texts. -/
structure Record where
  id : String
  fields : Dict String
deriving DecidableEq

/-- The text of a field. -/
def Record.field? (r : Record) (name : String) : Option String :=
  r.fields.value? name

end CacheScript
