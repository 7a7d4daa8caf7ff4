/-
Sessions: the stores that the runs of a script share. Stores are registered
under their ids; of several with one id the last counts, and the others stay
where they are, out of reach.
-/
import CacheScript.Store
import CacheScript.Value

namespace CacheScript

/-- The registered stores, in order. -/
structure Session where
  stores : List (Store Record)

namespace Session

/-- The last store with an id, counting places from `place`. -/
def findFrom (id : String) : Nat → List (Store Record) → Option StoreRef
  | _, [] => none
  | place, s :: rest =>
    match findFrom id (place + 1) rest with
    | some ref => some ref
    | none => if s.id = id then some ⟨place, id⟩ else none

/-- The store registered under an id. -/
def find? (s : Session) (id : String) : Option StoreRef :=
  findFrom id 0 s.stores

/-- The store that a reference names. -/
def store? (s : Session) (ref : StoreRef) : Option (Store Record) :=
  s.stores[ref.place]?

/-- Load a key from the store that a reference names: the record, the session
after it, and the lines in the log. -/
def load (s : Session) (ref : StoreRef) (key : String) (create : Bool) :
    Option Record × Session × List Log.Line :=
  match s.store? ref with
  | none => (none, s, [])
  | some store =>
    let loaded := store.load key create
    (loaded.found.map (·.object), ⟨s.stores.set ref.place loaded.store⟩, loaded.lines)

end Session

end CacheScript
