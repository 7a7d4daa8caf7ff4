/-
Stores: objects by key, made on demand. A store that may create asks its
loader for a key it does not hold, keeps the object it gets, and keeps
nothing when there is none.

Every object a store ever holds gets a serial number when it is put in, so
two answers are the same object exactly when their serials agree, whatever
the objects look like.
-/
import CacheScript.Dict
import CacheScript.Log

namespace CacheScript

/-- Whether a store may create what it does not hold. -/
inductive Policy where
  | createIfAbsent
  | lookupOnly
deriving DecidableEq

/-- What a loader says about a key. A failure is told by its causes, outermost
first. -/
inductive Answer (α : Type) where
  | found (object : α)
  | absent
  | failed (causes : List String)

/-- The line that tells how the loader of a store answered. -/
def Answer.line {α : Type} (store key : String) : Answer α → Log.Line
  | found _ => Log.line .store .debug ("store " ++ store ++ ": materialized " ++ key)
  | absent => Log.line .store .debug ("store " ++ store ++ ": no source entry for " ++ key)
  | failed causes => Log.line .store .warn ("store " ++ store ++ ": failed to load " ++ key ++ ": " ++
      ": ".intercalate causes)

/-- A source of objects. Its answer to a key may depend on the keys that it
was called with before, oldest first. It is taken to return an answer each time,
be it a failure, and not to use the store that calls it. -/
abbrev Loader (α : Type) := List String → String → Answer α

/-- An object in a store, with its serial number. -/
structure Entry (α : Type) where
  serial : Nat
  object : α
deriving DecidableEq

/-- A store. -/
structure Store (α : Type) where
  id : String
  policy : Policy
  loader : Loader α
  entries : Dict (Entry α)
  /-- How many objects were ever put in; the serial of the next one. -/
  made : Nat
  /-- How many objects came from the loader. -/
  materialized : Nat
  /-- The keys the loader was called with, oldest first. -/
  calls : List String

namespace Store

variable {α : Type}

/-- A store that holds nothing yet. -/
def empty (id : String) (policy : Policy) (loader : Loader α) : Store α :=
  { id, policy, loader, entries := [], made := 0, materialized := 0, calls := [] }

/-- Put an object under a key, in the place of any there was. -/
def insert (s : Store α) (key : String) (object : α) : Entry α × Store α :=
  (⟨s.made, object⟩,
    { s with entries := s.entries.put key ⟨s.made, object⟩, made := s.made + 1 })

/-- What a load comes to: the object, the store after it, and its lines in
the log. -/
structure Loaded (α : Type) where
  found : Option (Entry α)
  store : Store α
  lines : List Log.Line

/-- Ask the loader for a key, and keep the object it gives. -/
def materialize (s : Store α) (key : String) : Loaded α :=
  let answer := s.loader s.calls key
  let called := { s with calls := s.calls ++ [key] }
  match answer with
  | .found object =>
    let (entry, filled) := called.insert key object
    ⟨some entry, { filled with materialized := s.materialized + 1 }, [answer.line s.id key]⟩
  | _ => ⟨none, called, [answer.line s.id key]⟩

/-- The object under a key. An absent one is made first when `create` is set
and the policy allows it. -/
def load (s : Store α) (key : String) (create : Bool) : Loaded α :=
  match s.entries.value? key with
  | some entry => ⟨some entry, s, []⟩
  | none =>
    if create ∧ s.policy = .createIfAbsent then s.materialize key else ⟨none, s, []⟩

/-- Drop the object under a key; the answer is whether there was one. -/
def expire (s : Store α) (key : String) : Bool × Store α :=
  (s.entries.has key, { s with entries := s.entries.remove key })

/-- Drop everything. -/
def clear (s : Store α) : Store α :=
  { s with entries := [] }

/-- Whether there is an object under a key. -/
def contains (s : Store α) (key : String) : Bool :=
  s.entries.has key

/-- How many objects the store holds. -/
def size (s : Store α) : Nat :=
  s.entries.length

end Store

end CacheScript
