/-
Configuring word sources. An element over its parent's properties configures as
one bag does, in which the strings, numbers and booleans of the element hide
what the parent has under their names. Which bag a value is taken from makes no
difference to its references, so an inherited list sees the element's values.

Every setting is overwritten each time, so nothing is left of what was
configured before, and a source answers by its last configuration alone
(`reconfigure_layered`).
-/
import CacheScript.Dict.Sorted
import CacheScript.Proofs.Properties.Flattening
import CacheScript.WordSource

namespace CacheScript

/-! ## Elements over properties -/

namespace Json

/-- The text of a string, a number or a boolean. -/
inductive IsScalar : Json → String → Prop
  | string (s : String) : IsScalar (.str s) s
  | number (n : Number) : IsScalar (.num n) (compact (.num n))
  | yes : IsScalar (.bool true) "true"
  | no : IsScalar (.bool false) "false"

/-- The element is an object with a string, a number or a boolean under the
name. -/
def Sets (element : Json) (name text : String) : Prop :=
  ∃ members value, element = .obj members ∧ (name, value) ∈ members ∧ value.IsScalar text

end Json

namespace Properties

/-- The bag has the element's values, and for all other names what the parent
chain has. -/
structure Layers (layered : Properties) (element : Json) (parent : Properties) : Prop where
  set : ∀ name text, element.Sets name text → layered.get? name = some text
  kept : ∀ name, (∀ text, ¬ element.Sets name text) → layered.get? name = parent.get? name

theorem overrideOf?_eq_some_iff {value : Json} {text : String} : overrideOf? value = some text ↔ value.IsScalar text := by
  constructor
  · intro h
    cases value with
    | bool b => cases b <;> cases h <;> constructor
    | num n => cases h; exact .number n
    | str s => cases h; exact .string _
    | null | arr _ | obj _ => cases h
  · rintro (_ | _ | _ | _) <;> rfl

/-- In an object without repeated names the last member of a name is the only
one. -/
theorem findSome?_override_eq_some_iff {members : List (String × Json)} (h : (members.map (·.1)).Nodup)
    {name text : String} :
    (members.reverse.findSome? fun member => if name = member.1 then overrideOf? member.2 else none) = some text ↔
      (Json.obj members).Sets name text := by
  have hmem {found : String}
      (hf : (members.reverse.findSome? fun member => if name = member.1 then overrideOf? member.2 else none) = some found) :
      ∃ value, (name, value) ∈ members ∧ value.IsScalar found := by
    obtain ⟨⟨k, value⟩, hm, hv⟩ := List.exists_of_findSome?_eq_some hf
    split at hv
    · rename_i hk
      cases hk
      exact ⟨value, List.mem_reverse.1 hm, overrideOf?_eq_some_iff.1 hv⟩
    · cases hv
  constructor
  · intro hf
    obtain ⟨value, hm, hv⟩ := hmem hf
    exact ⟨members, value, rfl, hm, hv⟩
  · rintro ⟨_, value, he, hm, hv⟩
    cases he
    cases hf : members.reverse.findSome? fun member => if name = member.1 then overrideOf? member.2 else none with
    | none =>
      have := List.findSome?_eq_none_iff.1 hf (name, value) (List.mem_reverse.2 hm)
      simp [overrideOf?_eq_some_iff.2 hv] at this
    | some found =>
      obtain ⟨other, hm', hv'⟩ := hmem hf
      cases Option.some.inj (((Dict.value?_eq_some_iff h).2 hm).symm.trans ((Dict.value?_eq_some_iff h).2 hm'))
      rw [← overrideOf?_eq_some_iff] at hv hv'
      rw [← hv, ← hv']

/-- The members of an element lie over the parent chain. -/
theorem layers_ofElement {element : Json} (h : element.Ordered) (parent : Properties) :
    (ofElement element parent).Layers element parent := by
  have hchild (name : String) : parent.child.get? name = parent.get? name := rfl
  cases element with
  | obj members =>
    have hnodup := Dict.Sorted.nodup h.1
    refine ⟨fun name text hset => ?_, fun name hkept => ?_⟩
    · rw [ofElement, get?_setMembers]
      show (List.findSome? _ members.reverse).or _ = _
      rw [(findSome?_override_eq_some_iff hnodup).2 hset, Option.some_or]
    · have hnone := Option.eq_none_iff_forall_ne_some.2 fun text hf =>
        hkept text ((findSome?_override_eq_some_iff hnodup).1 hf)
      rw [ofElement, get?_setMembers]
      show (List.findSome? _ members.reverse).or _ = _
      rw [hnone, Option.none_or, hchild]
  | _ => exact ⟨fun name text ⟨_, _, he, _⟩ => (nomatch he), fun name _ => hchild name⟩

/-- What lies over a chain is settled name by name. -/
theorem Layers.get?_eq {p q : Properties} {element : Json} {parent : Properties} (hp : p.Layers element parent)
    (hq : q.Layers element parent) (name : String) : p.get? name = q.get? name := by
  by_cases h : ∃ text, element.Sets name text
  · obtain ⟨text, h⟩ := h
    rw [hp.set name text h, hq.set name text h]
  · rw [hp.kept name (not_exists.1 h), hq.kept name (not_exists.1 h)]

theorem Layers.congr {p q : Properties} {element : Json} {parent : Properties} (h : p.Layers element parent)
    (hq : ∀ name, q.get? name = p.get? name) : q.Layers element parent :=
  ⟨fun name text hset => (hq name).trans (h.set name text hset), fun name hkept => (hq name).trans (h.kept name hkept)⟩

/-- An inherited value is filled from what lies over it too. -/
theorem Layers.getString_kept {layered : Properties} {element : Json} {parent : Properties}
    (h : layered.Layers element parent) {name value : String} (hkept : ∀ text, ¬ element.Sets name text)
    (hvalue : parent.get? name = some value) {c : Cut} (hc : c.IsProper) (hs : c.source = value.toList) (default : String) :
    layered.getString name default = String.ofList (c.filled layered.get?) :=
  getString_of_nearest ((layered.get?_eq_some_iff name value).1 ((h.kept name hkept).trans hvalue)) hc hs default

end Properties

/-! ## Settings are overwritten -/

namespace WordSource

/-- One time that a source is configured. -/
inductive Configuration where
  | properties (p : Properties)
  | element (element : Json) (parent : Properties)

/-- Configure a source once more. -/
def apply (source : WordSource) : Configuration → WordSource
  | .properties p => source.reconfigure p
  | .element element parent => source.reconfigureElement element parent

/-- Configure a source any number of times, in order. -/
def applyAll (source : WordSource) (configurations : List Configuration) : WordSource :=
  configurations.foldl apply source

/-- Each list is configured from its own property, whatever it was before. -/
theorem get_overwrite (p : Properties) (kind : Kind) (lists : WordLists) (list : WordList) :
    (overwrite p kind lists).get list = configured p kind list := by
  simp only [overwrite, WordList.all, List.foldl_cons, List.foldl_nil, WordLists.get_set]
  cases list <;> rfl

theorem overwrite_eq (p : Properties) (kind : Kind) (lists others : WordLists) :
    overwrite p kind lists = overwrite p kind others :=
  WordLists.ext_get fun list => by rw [get_overwrite, get_overwrite]

@[simp] theorem kind_reconfigure (source : WordSource) (p : Properties) : (source.reconfigure p).kind = source.kind := by
  cases source <;> rfl

@[simp] theorem kind_apply (source : WordSource) (configuration : Configuration) :
    (source.apply configuration).kind = source.kind := by
  cases configuration <;> exact kind_reconfigure _ _

/-- Configuring never changes the kind of a source. -/
theorem kind_applyAll (source : WordSource) (configurations : List Configuration) :
    (source.applyAll configurations).kind = source.kind := by
  induction configurations generalizing source with
  | nil => rfl
  | cons configuration configurations ih => exact (ih _).trans (kind_apply source configuration)

/-- Of sources of one kind nothing else is left. -/
theorem reconfigure_eq {source other : WordSource} (h : source.kind = other.kind) (p : Properties) :
    source.reconfigure p = other.reconfigure p := by
  cases source <;> cases other <;> cases h
  · exact congrArg inline (overwrite_eq p _ _ _)
  · exact congrArg (files _) (overwrite_eq p _ _ _)

theorem apply_eq {source other : WordSource} (h : source.kind = other.kind) (configuration : Configuration) :
    source.apply configuration = other.apply configuration := by
  cases configuration <;> exact reconfigure_eq h _

/-- Bags with the same values configure a source alike. -/
theorem reconfigure_congr {p q : Properties} (h : ∀ name, p.get? name = q.get? name) (source : WordSource) :
    source.reconfigure p = source.reconfigure q := by
  have hstring := (Properties.answersAs_of_get? h).string
  have hlists (kind : Kind) (lists : WordLists) : overwrite p kind lists = overwrite q kind lists :=
    WordLists.ext_get fun list => by rw [get_overwrite, get_overwrite, configured, configured, hstring]
  cases source with
  | inline words => exact congrArg inline (hlists _ _)
  | files home names => rw [reconfigure, reconfigure, hlists, hstring]

/-- The last configuration settles all answers. -/
theorem applyAll_snoc {source other : WordSource} (h : source.kind = other.kind) (earlier others : List Configuration)
    (last : Configuration) : source.applyAll (earlier ++ [last]) = other.applyAll (others ++ [last]) := by
  rw [applyAll, applyAll, List.foldl_append, List.foldl_append]
  exact apply_eq ((kind_applyAll source earlier).trans (h.trans (kind_applyAll other others).symm)) last

/-- A source whose words are given does not look at files. -/
theorem query_inline {source : WordSource} (h : source.kind = .inline) (files others : FileSystem) (list : WordList) :
    source.query files list = source.query others list := by
  cases source with
  | inline words => rfl
  | files home names => cases h

/-- **Configuration is layered and leaves nothing behind.** An element over a
chain of bags configures a source of either kind as any bag does that has the
element's strings, numbers and booleans and else what the chain has, and values
of the chain are filled from the element's first. After any configurations, the
last of them alone settles the source, and with it all that is answered, but for
the files where words are read from files. -/
theorem reconfigure_layered :
    (∀ element : Json, element.Ordered → ∀ parent : Properties,
      (Properties.ofElement element parent).Layers element parent ∧
        ∀ layered : Properties, layered.Layers element parent →
          (∀ source : WordSource, source.reconfigureElement element parent = source.reconfigure layered) ∧
          ∀ name value, (∀ text, ¬ element.Sets name text) → parent.get? name = some value →
            ∀ c : Cut, c.IsProper → c.source = value.toList → ∀ default,
              layered.getString name default = String.ofList (c.filled layered.get?)) ∧
      ∀ source other : WordSource, source.kind = other.kind → ∀ earlier others last,
        source.applyAll (earlier ++ [last]) = other.applyAll (others ++ [last]) ∧
          (source.kind = .inline → ∀ files files' list,
            (source.applyAll (earlier ++ [last])).query files list =
              (other.applyAll (others ++ [last])).query files' list) := by
  refine ⟨fun element h parent => ⟨Properties.layers_ofElement h parent, fun layered hl => ⟨fun source => ?_, ?_⟩⟩,
    fun source other h earlier others last => ⟨applyAll_snoc h earlier others last, fun hinline files files' list => ?_⟩⟩
  · exact reconfigure_congr ((Properties.layers_ofElement h parent).get?_eq hl) source
  · exact fun name value hkept hvalue c hc hs default => hl.getString_kept hkept hvalue hc hs default
  · rw [applyAll_snoc h earlier others last]
    exact query_inline ((kind_applyAll other _).trans (h.symm.trans hinline)) files files' list

/-- Members of each shape over a chain of two bags. -/
theorem reconfigure_layered_overlapping :
    let element := Json.obj [("ext", .null), ("main", .str "x, ${stop}"), ("stop", .bool true)]
    let parent : Properties := ⟨[("ext", "e,${main}")], [[("ext", "hidden"), ("main", "hidden"), ("quantifier", "q${stop}")]]⟩
    let layered : Properties :=
      ⟨[("ext", "e,${main}"), ("main", "x, ${stop}"), ("quantifier", "q${stop}"), ("stop", "true")], []⟩
    let source := (new .inline).reconfigure parent
    (element.Ordered ∧ layered.Layers element parent ∧ source.kind = (new .inline).kind) ∧
      source.reconfigureElement element parent = source.reconfigure layered ∧
      source.applyAll ([.properties .empty, .element .null parent] ++ [.element element parent]) =
        (new .inline).applyAll ([] ++ [.element element parent]) ∧
      (new .inline).reconfigureElement element parent =
        inline ⟨["x", "true"], ["qtrue"], ["e", "x", "${stop}"], ["true"]⟩ := by
  intro element parent layered source
  have hordered : element.Ordered := by
    simp only [element, Json.Ordered, Json.OrderedMembers, Dict.Sorted, and_true]
    decide
  have hflat : layered = (Properties.ofElement element parent).flatten := by with_unfolding_all rfl
  have hlayers : layered.Layers element parent := by
    rw [hflat]
    exact (Properties.layers_ofElement hordered parent).congr (Properties.isFlattened_flatten _).get?
  obtain ⟨hlayered, hlast⟩ := reconfigure_layered
  exact ⟨⟨hordered, hlayers, rfl⟩, ((hlayered element hordered parent).2 layered hlayers).1 source,
    (hlast source (new .inline) rfl _ [] _).1, by cbv⟩

end WordSource

end CacheScript
