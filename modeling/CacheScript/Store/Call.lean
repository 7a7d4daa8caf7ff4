/-
Calls of a store as values, and what they do when they are made one after
another.
-/
import CacheScript.Store

namespace CacheScript

variable {α : Type}

/-- A call of the store. -/
inductive Call (α : Type) where
  | load (key : String) (create : Bool)
  | insert (key : String) (object : α)
  | expire (key : String)
  | clear
  | contains (key : String)
  | size

/-- What a call answers. -/
inductive Reply (α : Type) where
  | loaded (found : Option (Entry α))
  | inserted (entry : Entry α)
  | expired (filled : Bool)
  | cleared
  | held (filled : Bool)
  | counted (size : Nat)
deriving DecidableEq

/-- The key of a call that has one. -/
def Call.key : Call α → String
  | load key _ | insert key _ | expire key | contains key => key
  | clear | size => ""

/-- What a call comes to: its reply, the store after it, and its lines in the
log. -/
structure Performed (α : Type) where
  reply : Reply α
  store : Store α
  lines : List Log.Line

namespace Store

/-- Make a call. -/
def perform (s : Store α) : Call α → Performed α
  | .load key create =>
    let loaded := s.load key create
    ⟨.loaded loaded.found, loaded.store, loaded.lines⟩
  | .insert key object =>
    let (entry, s) := s.insert key object
    ⟨.inserted entry, s, []⟩
  | .expire key =>
    let (filled, s) := s.expire key
    ⟨.expired filled, s, []⟩
  | .clear => ⟨.cleared, s.clear, []⟩
  | .contains key => ⟨.held (s.contains key), s, []⟩
  | .size => ⟨.counted s.size, s, []⟩

/-- Make calls one after another. -/
def performAll (s : Store α) : List (Call α) → List (Reply α) × Store α
  | [] => ([], s)
  | call :: calls =>
    let performed := s.perform call
    let (replies, s) := performed.store.performAll calls
    (performed.reply :: replies, s)

end Store

end CacheScript
