/-
Probes: four kinds of nodes to try a script with. One notes down what is bound
to a name, one fails, one runs its children several times, and one turns a
failure of its children into a binding.
-/
import CacheScript.Node.Build
import CacheScript.Run

namespace CacheScript

/-- A probing node. -/
inductive Probe where
  /-- Note down what is bound to `name`; `@root` is the input of the run and
  `@doc` the document at the current position. -/
  | record (name : String)
  /-- Fail, as if `name` were needed and not bound. -/
  | fail (name : String)
  /-- Run the children several times, up to the first failure. -/
  | again (times : Nat)
  /-- Run the children; bind `name` to the code of their failure, if any. -/
  | attempt (name : String)
deriving DecidableEq

namespace Probe

/-- Run something several times, up to the first failure. -/
def iterate {ω : Type} (body : State ω → Outcome × State ω) : Nat → State ω → Outcome × State ω
  | 0, s => (.done, s)
  | times + 1, s =>
    match body s with
    | (.done, s) => iterate body times s
    | (.failed f, s) => (.failed f, s)

/-- What is noted down under a name. -/
def observe {ω : Type} (input : Json) (s : State ω) (name : String) : Option String :=
  if name = "@root" then some input.compact
  else if name = "@doc" then some (Json.obj s.document).compact
  else (s.context.binding? name).map Value.display

instance : Performs Probe where
  perform
    | record name, input, _, s => (.done, s.note name (observe input s name))
    | fail name, _, _, s => (.failed (.missingBinding name), s)
    | again times, _, children, s => iterate children times s
    | attempt name, _, children, s =>
      match children s with
      | (.done, s) => (.done, s)
      | (.failed f, s) => (.done, s.bind name (.str f.code))

/-- Whether a probing node takes children. -/
def takesChildren : Probe → Bool
  | again _ | attempt _ => true
  | _ => false

/-- The integer that a text writes: decimal digits with or without a sign,
fitting 64 bits. -/
def integer? (text : String) : Option Int :=
  let (negative, digits) := match text.toList with
    | '-' :: cs => (true, cs)
    | '+' :: cs => (false, cs)
    | cs => (false, cs)
  let magnitude : Int := Nat.ofDigitChars 10 digits 0
  let n := if negative then -magnitude else magnitude
  if digits.isEmpty = false ∧ digits.all Char.isDigit = true ∧
      -0x8000000000000000 ≤ n ∧ n < 0x8000000000000000 then some n
  else none

/-- The probing kind of a name. -/
def kind? : String → Option (CustomKind Probe)
  | "record" => some ⟨false, fun _ p => .ok (record (p.getString "name" "$bound"))⟩
  | "fail" => some ⟨false, fun _ p => .ok (fail (p.getString "name" "failed"))⟩
  | "repeat" => some ⟨true, fun _ p => .ok (again ((integer? (p.getString "times" "2")).getD 2).toNat)⟩
  | "try" => some ⟨true, fun _ p => .ok (attempt (p.getString "name" "error"))⟩
  | _ => none

/-- The catalog in which tags have probing kinds, each given by its name; a
name that is none leaves its tag alone. -/
def catalog (tags : List (String × String)) : Catalog Probe :=
  ⟨Dict.ofList (tags.filterMap fun (tag, name) => (kind? name).map (tag, ·))⟩

end Probe

end CacheScript
