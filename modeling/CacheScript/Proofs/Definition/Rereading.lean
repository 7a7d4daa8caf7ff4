/-
Definitions, written and read again. A definition is written as an object of its
three members, which may come in any order, as may the properties
(`Definition.Spells`). Reading the compact text of such a document gives the
definition back, so a script that is built from the text is built as from the
definition itself (`parse?_compact_of_spells`).

That the documents in between come back is known (`Json.rawParse?_compact`).
What is left is one induction over the tree of definitions: each member gives the
field of its name, whatever order they come in, and children are two levels
deeper.
-/
import CacheScript.Proofs.Json.Rereading
import CacheScript.Script
import Mathlib.Data.List.Perm.Basic

namespace CacheScript

namespace Definition

mutual
/-- The properties of every node are in order, no name twice, and so is every
object in them. -/
def Ordered : Definition → Prop
  | ⟨_, props, children⟩ => Dict.Sorted props ∧ Json.OrderedMembers props ∧ OrderedAll children

/-- The same of every definition of a list. -/
def OrderedAll : List Definition → Prop
  | [] => True
  | child :: children => child.Ordered ∧ OrderedAll children
end

mutual
/-- A document that a definition may be written as: an object of the tag, the
properties and the children, members and properties in any order. -/
def Spells : Definition → Json → Prop
  | ⟨tag, props, children⟩, j =>
    ∃ members entries items, j = .obj members ∧
      members.Perm [("tag", .str tag), ("props", .obj entries), ("children", .arr items)] ∧
      entries.Perm props ∧ SpellAll children items

/-- Documents that definitions may be written as, one by one. -/
def SpellAll : List Definition → List Json → Prop
  | [], items => items = []
  | child :: children, items => ∃ item rest, items = item :: rest ∧ child.Spells item ∧ SpellAll children rest
end

mutual
theorem spells_toJson : ∀ d : Definition, d.Spells d.toJson
  | ⟨_, props, children⟩ =>
    ⟨_, props, toJsons children, rfl, List.reverse_perm [("tag", _), ("props", _), ("children", _)], .refl props,
      spellAll_toJsons children⟩

theorem spellAll_toJsons : ∀ children : List Definition, SpellAll children (toJsons children)
  | [] => rfl
  | child :: children => ⟨_, _, rfl, spells_toJson child, spellAll_toJsons children⟩
end

/-! ## Fields in any order -/

/-- The field that a definition has under a name. -/
def field (d : Definition) (name : String) : Field :=
  if name = "tag" then .tag d.tag else if name = "props" then .props d.props else .children d.children

theorem ofFields?_of_perm {d : Definition} {fields : List Field}
    (h : fields.Perm [.tag d.tag, .props d.props, .children d.children]) : ofFields? fields = some d := by
  have htag : fields.filterMap Field.tag? = [d.tag] := List.perm_singleton.1 (h.filterMap Field.tag?)
  have hprops : fields.filterMap Field.props? = [d.props] := List.perm_singleton.1 (h.filterMap Field.props?)
  have hchildren : fields.filterMap Field.children? = [d.children] :=
    List.perm_singleton.1 (h.filterMap Field.children?)
  cases d
  rw [ofFields?, htag, hprops, hchildren]

section Members

variable {depth : Nat} {members : List (Option String × Raw)} {fields : List Field}

theorem fieldsOfRaw?_tag (tag : String) (h : fieldsOfRaw? depth members = some fields) :
    fieldsOfRaw? depth ((some "tag", .text (some tag)) :: members) = some (.tag tag :: fields) := by
  simp [fieldsOfRaw?, h, tagOfRaw?]

theorem fieldsOfRaw?_props {raw : Raw} {props : Dict Json} (hprops : propsOfRaw? depth raw = some props)
    (h : fieldsOfRaw? depth members = some fields) :
    fieldsOfRaw? depth ((some "props", raw) :: members) = some (.props props :: fields) := by
  simp [fieldsOfRaw?, h, hprops]

theorem fieldsOfRaw?_children {raws : List Raw} {children : List Definition}
    (hchildren : ofRaws? depth raws = some children) (h : fieldsOfRaw? (depth + 1) members = some fields) :
    fieldsOfRaw? (depth + 1) ((some "children", .array raws) :: members) = some (.children children :: fields) := by
  simp [fieldsOfRaw?, h, hchildren]

end Members

theorem propsOfRaw?_rawMembers {depth : Nat} {entries props : List (String × Json)} (hsorted : Dict.Sorted props)
    (hperm : entries.Perm props) (h : Json.membersOfRaw? depth (Json.rawMembers entries) = some entries) :
    propsOfRaw? (depth + 1) (.object (Json.rawMembers entries)) = some props := by
  rw [propsOfRaw?, Json.ofRaw?, h, Option.map_some, hsorted.ofList_perm hperm]
  rfl

/-- Every member gives the field of its name. -/
theorem fieldsOfRaw?_rawMembers {d : Definition} {depth : Nat} {entries : List (String × Json)} {items : List Json}
    (hprops : propsOfRaw? (depth + 1) (Json.obj entries).raw = some d.props)
    (hchildren : ofRaws? depth (Json.raws items) = some d.children) {members : List (String × Json)}
    (h : ∀ member ∈ members, member ∈ [("tag", .str d.tag), ("props", .obj entries), ("children", .arr items)]) :
    fieldsOfRaw? (depth + 1) (Json.rawMembers members) = some (members.map fun member => d.field member.1) := by
  induction members with
  | nil => rfl
  | cons member members ih =>
    rw [List.forall_mem_cons] at h
    have hlater := ih h.2
    simp only [List.mem_cons, List.not_mem_nil, or_false] at h
    rcases h.1 with rfl | rfl | rfl
    · exact fieldsOfRaw?_tag d.tag hlater
    · exact fieldsOfRaw?_props hprops hlater
    · exact fieldsOfRaw?_children hchildren hlater

theorem ofRaw?_rawMembers {d : Definition} {depth : Nat} {entries : List (String × Json)} {items : List Json}
    (hprops : propsOfRaw? (depth + 1) (Json.obj entries).raw = some d.props)
    (hchildren : ofRaws? depth (Json.raws items) = some d.children) {members : List (String × Json)}
    (h : members.Perm [("tag", .str d.tag), ("props", .obj entries), ("children", .arr items)]) :
    ofRaw? (depth + 2) (.object (Json.rawMembers members)) = some d := by
  rw [ofRaw?, fieldsOfRaw?_rawMembers hprops hchildren fun _ => h.mem_iff.1, Option.bind_some]
  exact ofFields?_of_perm (h.map fun member => d.field member.1)

/-! ## Definitions -/

mutual
/-- A definition is what a document that it may be written as is taken for. -/
theorem ofRaw?_of_spells : ∀ {d : Definition} {j : Json} {depth : Nat}, d.Ordered → d.Spells j →
    (∀ x ∈ j.doubles, x.ReadsBack) → j.depth ≤ depth → ofRaw? depth j.raw = some d
  | ⟨_, _, _⟩, _, 0, _, ⟨_, _, _, rfl, _⟩, _, hdepth => absurd hdepth (Nat.not_succ_le_zero _)
  | ⟨tag, props, children⟩, _, depth + 1, ⟨hsorted, hprops, hchildren⟩,
    ⟨members, entries, items, rfl, hmembers, hentries, hitems⟩, hdoubles, hdepth => by
    have hdoubles := Json.forall_doublesAmong.1 hdoubles
    have hdepth := Json.depthMembers_le.1 (Nat.le_of_succ_le_succ hdepth)
    simp only [hmembers.mem_iff, List.forall_mem_cons] at hdoubles hdepth
    obtain ⟨-, hdoublesProps, hdoublesItems, -⟩ := hdoubles
    obtain ⟨-, hdepthProps, hdepthItems, -⟩ := hdepth
    -- the array of the children takes a level, so there is one left for them
    obtain ⟨depth, rfl⟩ : ∃ k, depth = k + 1 := ⟨depth - 1, by rw [Json.depth] at hdepthItems; omega⟩
    have hordered : Json.OrderedMembers entries :=
      Json.orderedMembers_iff.2 fun entry he => Json.orderedMembers_iff.1 hprops entry (hentries.mem_iff.1 he)
    have hentriesRead :=
      Json.membersOfRaw?_rawMembers entries depth hdoublesProps hordered (Nat.le_of_succ_le_succ hdepthProps)
    have hitemsRead := ofRaws?_of_spellAll hchildren hitems hdoublesItems (Nat.le_of_succ_le_succ hdepthItems)
    exact ofRaw?_rawMembers (propsOfRaw?_rawMembers hsorted hentries hentriesRead) hitemsRead hmembers

theorem ofRaws?_of_spellAll : ∀ {children : List Definition} {items : List Json} {depth : Nat}, OrderedAll children →
    SpellAll children items → (∀ x ∈ Json.doublesIn items, x.ReadsBack) → Json.depthItems items ≤ depth →
    ofRaws? depth (Json.raws items) = some children
  | [], _, _, _, rfl, _, _ => rfl
  | child :: children, _, depth, hd, ⟨item, items, rfl, hitem, hitems⟩, hdoubles, hdepth => by
    simp only [Json.doublesIn, List.mem_append, or_imp, forall_and] at hdoubles
    rw [Json.depthItems, Nat.max_le] at hdepth
    rw [Json.raws, ofRaws?, ofRaw?_of_spells hd.1 hitem hdoubles.1 hdepth.1]
    rw [ofRaws?_of_spellAll hd.2 hitems hdoubles.2 hdepth.2]
    rfl
end

/-- **A definition survives being written.** A document that it may be written
as, nested no deeper than a reader goes, is read as the definition, as far as
the doubles in it read back; so the script of the text is the one that is built
from the definition, or fails to build in the same way. -/
theorem parse?_compact_of_spells {d : Definition} (hd : d.Ordered) :
    d.Spells d.toJson ∧
      ∀ j, d.Spells j → j.depth ≤ maxDepth → (∀ x ∈ j.doubles, x.ReadsBack) →
        parse? j.compact = some d ∧
          ∀ (κ : Type) (catalog : Catalog κ),
            Script.parse catalog j.compact = (Script.build catalog d).mapError .build := by
  refine ⟨spells_toJson d, fun j hj hdepth hdoubles => ?_⟩
  have hread : parse? j.compact = some d := by
    rw [parse?, Json.rawParse?_compact hdoubles, Option.bind_some, ofRaw?_of_spells hd hj hdoubles hdepth]
  refine ⟨hread, fun κ catalog => ?_⟩
  simp only [Script.parse, hread]
  cases Script.build catalog d <;> rfl

/-- Two nodes, with properties that need escapes, a point and brackets. -/
def pausing : Definition :=
  ⟨"segment", [("after", .arr [.num (.double .half)]), ("say", .str "\"no\"\n")],
    [⟨"pause", [], []⟩]⟩

/-- A document that these may be written as, with neither the members nor the
properties in the order of their names. -/
def pausingDocument : Json :=
  .obj [("tag", .str "segment"),
    ("props", .obj [("say", .str "\"no\"\n"),
      ("after", .arr [.num (.double .half)])]),
    ("children", .arr [.obj [("tag", .str "pause"), ("props", .obj []), ("children", .arr [])]])]

theorem parse?_compact_of_spells_pausing :
    pausingDocument.compact = "\x7b\"tag\":\"segment\",\"props\":\x7b\"say\":\"\\\"no\\\"\\n\",\"after\":[0.5]\x7d," ++
        "\"children\":[\x7b\"tag\":\"pause\",\"props\":\x7b\x7d,\"children\":[]\x7d]\x7d" ∧
      parse? pausingDocument.compact = some pausing ∧
      Script.parse .standard pausingDocument.compact = .error (.build (.unknownTag "pause")) := by
  have hd : pausing.Ordered := by
    refine ⟨List.pairwise_pair.2 ?_, ⟨⟨trivial, trivial⟩, trivial, trivial⟩, ⟨.nil, trivial, trivial⟩, trivial⟩
    decide
  have hj : pausing.Spells pausingDocument :=
    ⟨_, _, _, rfl, .refl _, .swap _ _ _, _, _, rfl, ⟨_, _, _, rfl, .refl _, .refl _, rfl⟩, rfl⟩
  have hdepth : pausingDocument.depth ≤ maxDepth := by decide
  have hdoubles : ∀ x ∈ pausingDocument.doubles, x.ReadsBack := by
    intro x hx
    rw [List.mem_singleton.1 hx]
    exact Double.readsBack_half
  obtain ⟨hparse, hscript⟩ := (parse?_compact_of_spells hd).2 pausingDocument hj hdepth hdoubles
  exact ⟨by decide +kernel, hparse, (hscript _ .standard).trans (by with_unfolding_all rfl)⟩

end Definition

end CacheScript
