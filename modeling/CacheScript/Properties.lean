/-
Properties: the configured texts of a node or a loader, by name. Bags form a
chain, and the nearest bag that defines a name gives its value. A value read
as configured is left alone; a value read resolved has its references filled
from the whole chain, once.
-/
import CacheScript.Json.Write
import CacheScript.Template

namespace CacheScript

/-- A bag of named texts, with the bags it falls back on, nearest first. -/
structure Properties where
  own : Dict String
  ancestors : List (Dict String)

namespace Properties

/-- The bag that defines nothing. -/
def empty : Properties := ⟨[], []⟩

/-- A bag with nothing of its own that falls back on another. -/
def child (parent : Properties) : Properties := ⟨[], parent.own :: parent.ancestors⟩

/-- Define a name in the bag itself. -/
def set (p : Properties) (name value : String) : Properties :=
  { p with own := p.own.put name value }

/-- The value of the nearest bag that defines a name. -/
def get? (p : Properties) (name : String) : Option String :=
  (p.own :: p.ancestors).findSome? (·.value? name)

/-- What a bag answers after a definition. -/
theorem get?_set (p : Properties) (name value other : String) :
    (p.set name value).get? other = if other = name then some value else p.get? other := by
  simp only [get?, set, List.findSome?_cons, Dict.value?_put]
  by_cases h : other = name <;> simp [h]

/-- A value as configured. -/
def getRaw (p : Properties) (name default : String) : String :=
  (p.get? name).getD default

/-- A text with its references filled from the chain. -/
def interpolate (p : Properties) (text : String) : String :=
  CacheScript.interpolate p.get? text

/-- A value with its references filled from the chain. The default is taken
as it is. -/
def getString (p : Properties) (name default : String) : String :=
  match p.get? name with
  | some value => p.interpolate value
  | none => default

/-- The text that a member of an object configures: a string is itself, any
other value its compact text, and null configures nothing. -/
def textOf? : Json → Option String
  | .null => none
  | .str s => some s
  | j => some j.compact

/-- Define the names of members, in order; a member without a text defines
nothing. -/
def setMembers (p : Properties) (text? : Json → Option String) (members : List (String × Json)) : Properties :=
  members.foldl (fun p (name, value) => match text? value with
    | some text => p.set name text
    | none => p) p

/-- The last member of a name that has a text defines it. -/
theorem get?_setMembers (p : Properties) (text? : Json → Option String) (members : List (String × Json)) (name : String) :
    (p.setMembers text? members).get? name =
      (members.reverse.findSome? fun member => if name = member.1 then text? member.2 else none).or (p.get? name) := by
  induction members generalizing p with
  | nil => rfl
  | cons member members ih =>
    rw [setMembers, List.foldl_cons, ← setMembers, ih, List.reverse_cons, List.findSome?_append, Option.or_assoc]
    congr 1
    cases ht : text? member.2 with
    | none => simp [ht]
    | some text =>
      simp only [ht, get?_set]
      by_cases hn : name = member.1 <;> simp [hn, ht]

/-- The bag of an object's members. -/
def ofObject (members : Dict Json) : Properties :=
  empty.setMembers textOf? members

/-- The text with which a member of an element overrides its parent: strings,
numbers and booleans do, null, arrays and objects do not. -/
def overrideOf? : Json → Option String
  | .str s => some s
  | .bool b => some (Json.compact (.bool b))
  | .num n => some (Json.compact (.num n))
  | _ => none

/-- The bag of an element's members over its parent's bag. An element that is
no object defines nothing. -/
def ofElement (element : Json) (parent : Properties) : Properties :=
  parent.child.setMembers overrideOf? (element.members?.getD [])

/-- A chain of bags, each given by its definitions in order, nearest first. -/
def ofLayers (layers : List (List (String × String))) : Properties :=
  match layers with
  | [] => empty
  | layer :: layers => ⟨Dict.ofList layer, layers.map Dict.ofList⟩

end Properties

end CacheScript
