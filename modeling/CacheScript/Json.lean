/-
Documents: the values of JSON. Objects are dictionaries, so their members
come in the order of their names; integers that fit 64 bits are kept exactly
and all other numbers are finite doubles.
-/
import CacheScript.Dict
import CacheScript.Double

namespace CacheScript

/-- A number of a document: an integer from `-2 ^ 63` to `2 ^ 64 - 1`, or a
finite double. -/
inductive Number where
  | int (value : Int) (fits : -0x8000000000000000 ≤ value ∧ value < 0x10000000000000000)
  | double (value : Double)
deriving DecidableEq

/-- A document. -/
inductive Json where
  | null
  | bool (value : Bool)
  | num (value : Number)
  | str (value : String)
  | arr (items : List Json)
  | obj (members : List (String × Json))

instance : Inhabited Json := ⟨.null⟩

/-- Equality of numbers. An integer and a double are never equal. -/
def Number.equal : Number → Number → Bool
  | .int a _, .int b _ => a == b
  | .double a, .double b => a.equal b
  | _, _ => false

namespace Json

mutual
/-- Equality of documents, where numbers are compared as numbers. -/
def equal : Json → Json → Bool
  | null, null => true
  | bool a, bool b => a == b
  | num a, num b => a.equal b
  | str a, str b => a == b
  | arr xs, arr ys => equalItems xs ys
  | obj xs, obj ys => equalMembers xs ys
  | _, _ => false

/-- Equality of arrays, item by item. -/
def equalItems : List Json → List Json → Bool
  | [], [] => true
  | x :: xs, y :: ys => equal x y && equalItems xs ys
  | _, _ => false

/-- Equality of objects, member by member. -/
def equalMembers : List (String × Json) → List (String × Json) → Bool
  | [], [] => true
  | (k, x) :: xs, (l, y) :: ys => k == l && equal x y && equalMembers xs ys
  | _, _ => false
end

mutual
/-- Every object in a document has its members in order, no name twice. -/
def Ordered : Json → Prop
  | arr items => OrderedItems items
  | obj members => Dict.Sorted members ∧ OrderedMembers members
  | _ => True

/-- Every item of an array is ordered. -/
def OrderedItems : List Json → Prop
  | [] => True
  | item :: items => item.Ordered ∧ OrderedItems items

/-- Every member of an object is ordered. -/
def OrderedMembers : List (String × Json) → Prop
  | [] => True
  | (_, item) :: members => item.Ordered ∧ OrderedMembers members
end

mutual
/-- How deep arrays and objects are nested in a document. -/
def depth : Json → Nat
  | arr items => depthItems items + 1
  | obj members => depthMembers members + 1
  | _ => 0

/-- The depth of the deepest item. -/
def depthItems : List Json → Nat
  | [] => 0
  | item :: items => max item.depth (depthItems items)

/-- The depth of the deepest member. -/
def depthMembers : List (String × Json) → Nat
  | [] => 0
  | (_, item) :: members => max item.depth (depthMembers members)
end

/-- The members of an object. -/
def members? : Json → Option (Dict Json)
  | obj members => some members
  | _ => none

end Json

end CacheScript
