/-
Chains of bags and single bags. A chain answers as the bag in which every name
has the value of the nearest bag that defines it, whatever is asked, and goes on
doing so when names are defined in both (`flattened_answersAs`).

Which bag a value comes from makes no difference to its references: they are
filled from the whole chain, so a value of an ancestor sees the names of its
descendants.
-/
import CacheScript.Properties
import CacheScript.Proofs.Template.Cutting

namespace CacheScript

/-- A dictionary in front of another hides its values. -/
theorem Dict.value?_append {α : Type} (d e : Dict α) (name : String) :
    Dict.value? (d ++ e) name = (d.value? name).or (e.value? name) := by
  induction d with
  | nil => rfl
  | cons entry d ih =>
    obtain ⟨k, v⟩ := entry
    rw [List.cons_append, value?_cons, value?_cons]
    split
    · rfl
    · exact ih

theorem Dict.value?_flatten {α : Type} (chain : List (Dict α)) (name : String) :
    Dict.value? chain.flatten name = chain.findSome? (·.value? name) := by
  induction chain with
  | nil => rfl
  | cons d chain ih =>
    rw [List.flatten_cons, value?_append, ih, List.findSome?_cons]
    cases d.value? name <;> rfl

namespace Properties

/-- The value that the nearest bag of a chain that defines a name has for it. -/
def Nearest (p : Properties) (name value : String) : Prop :=
  ∃ (nearer : List (Dict String)) (bag : Dict String) (farther : List (Dict String)),
    p.own :: p.ancestors = nearer ++ bag :: farther ∧ (∀ d ∈ nearer, d.value? name = none) ∧
      bag.value? name = some value

/-- A single bag that has the nearest value of every name. -/
structure IsFlattened (p flat : Properties) : Prop where
  single : flat.ancestors = []
  nearest : ∀ name value, flat.own.value? name = some value ↔ p.Nearest name value

/-- The bags of a chain in one, the nearest put in last. -/
def flatten (p : Properties) : Properties :=
  ⟨(p.own :: p.ancestors).flatten.foldr (fun entry d => Dict.put d entry.1 entry.2) [], []⟩

/-- Define names one after the other. -/
def setAll (p : Properties) (updates : List (String × String)) : Properties :=
  updates.foldl (fun p (name, value) => p.set name value) p

/-- Two bags give the same answers. -/
structure AnswersAs (p q : Properties) : Prop where
  get : ∀ name, p.get? name = q.get? name
  raw : ∀ name default, p.getRaw name default = q.getRaw name default
  string : ∀ name default, p.getString name default = q.getString name default
  interpolated : ∀ text, p.interpolate text = q.interpolate text

variable {p flat : Properties}

theorem get?_eq_some_iff (p : Properties) (name value : String) : p.get? name = some value ↔ p.Nearest name value := by
  rw [get?, List.findSome?_eq_some_iff]
  constructor
  · rintro ⟨nearer, bag, farther, hchain, hvalue, hnone⟩
    exact ⟨nearer, bag, farther, hchain, hnone, hvalue⟩
  · rintro ⟨nearer, bag, farther, hchain, hnone, hvalue⟩
    exact ⟨nearer, bag, farther, hchain, hvalue, hnone⟩

/-- All answers follow from the values of the names. -/
theorem answersAs_of_get? {q : Properties} (h : ∀ name, p.get? name = q.get? name) : p.AnswersAs q := by
  have hget : p.get? = q.get? := funext h
  have htext : ∀ text, p.interpolate text = q.interpolate text := fun text => by
    rw [interpolate, interpolate, hget]
  refine ⟨h, fun name default => ?_, fun name default => ?_, htext⟩
  · rw [getRaw, getRaw, h]
  · rw [getString, getString, h]
    cases q.get? name with
    | none => rfl
    | some value => exact htext value

theorem isFlattened_flatten (p : Properties) : p.IsFlattened p.flatten := by
  refine ⟨rfl, fun name value => ?_⟩
  rw [flatten, Dict.value?_foldr_put, Dict.value?_flatten]
  exact p.get?_eq_some_iff name value

theorem IsFlattened.get? (h : p.IsFlattened flat) (name : String) : flat.get? name = p.get? name := by
  have hflat : flat.get? name = flat.own.value? name := by
    rw [Properties.get?, h.single, List.findSome?_singleton]
  refine Option.ext fun value => ?_
  rw [hflat, h.nearest, p.get?_eq_some_iff]

/-- Bags that agree still do after the same definitions. -/
theorem get?_setAll {q : Properties} (h : ∀ name, p.get? name = q.get? name) (updates : List (String × String))
    (name : String) : (p.setAll updates).get? name = (q.setAll updates).get? name := by
  induction updates generalizing p q with
  | nil => exact h name
  | cons update updates ih =>
    refine ih fun other => ?_
    rw [get?_set, get?_set, h]

/-- What is resolved is the nearest value, its references filled once and from
the whole chain. -/
theorem getString_of_nearest {name value : String} (h : p.Nearest name value) {c : Cut} (hc : c.IsProper)
    (hs : c.source = value.toList) (default : String) : p.getString name default = String.ofList (c.filled p.get?) := by
  rw [getString, (p.get?_eq_some_iff name value).2 h]
  show CacheScript.interpolate p.get? value = _
  rw [← Cut.interpolate_source hc, hs, String.ofList_toList]

theorem getString_of_undefined {name : String} (h : ∀ value, ¬ p.Nearest name value) (default : String) :
    p.getString name default = default := by
  have hnone : p.get? name = none := Option.eq_none_iff_forall_ne_some.2 fun value hv =>
    h value ((p.get?_eq_some_iff name value).1 hv)
  rw [getString, hnone]

/-- **A chain of bags answers as one bag does** that has the nearest value of
every name, before and after any definitions in both. A value is resolved
against the whole chain wherever it comes from, in one pass, and a default is
taken as it is. -/
theorem flattened_answersAs (p : Properties) :
    p.IsFlattened p.flatten ∧
      (∀ flat, p.IsFlattened flat → ∀ updates, (flat.setAll updates).AnswersAs (p.setAll updates)) ∧
      ∀ name default,
        (∀ value, p.Nearest name value → ∀ c : Cut, c.IsProper → c.source = value.toList →
          p.getString name default = String.ofList (c.filled p.get?)) ∧
        ((∀ value, ¬ p.Nearest name value) → p.getString name default = default) := by
  refine ⟨p.isFlattened_flatten, fun flat h updates => ?_, fun name default => ⟨fun value h c hc hs => ?_, fun h => ?_⟩⟩
  · exact answersAs_of_get? (get?_setAll h.get? updates)
  · exact getString_of_nearest h hc hs default
  · exact getString_of_undefined h default

/-- An inherited value sees the names of the child, and is not read again when
it comes out as a reference to itself. -/
example : getString ⟨[("name", "users")], [[("name", "none"), ("path", "${name}/${path}")]]⟩ "path" "" =
    "users/${name}/${path}" := by cbv

end Properties

end CacheScript
