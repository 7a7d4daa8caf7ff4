/-
Which definitions can be built. A node of a definition is sound when nothing is
wrong with it itself, whatever its children are; building succeeds exactly when
every node is (`build_standard`), and else fails with what is wrong with the
first that is not. What is built has the nodes of the definition, in place.
-/
import CacheScript.Proofs.Node.Built

namespace CacheScript

namespace Definition

/-! ## Sound nodes -/

mutual
/-- The nodes of a definition, parents before children and children in order. -/
def nodes : Definition → List Definition
  | ⟨tag, props, children⟩ => ⟨tag, props, children⟩ :: nodesAll children

/-- The nodes of definitions, one after the other. -/
def nodesAll : List Definition → List Definition
  | [] => []
  | d :: ds => d.nodes ++ nodesAll ds
end

/-- The text of an attribute. One that is null is not there, and of several
with one name the last counts. -/
def attribute? (d : Definition) (name : String) : Option String :=
  d.props.reverse.findSome? fun prop => if name = prop.1 then Properties.textOf? prop.2 else none

/-- The attribute is there, and does not come out empty when the references in
it are filled from the attributes of the same node, once. -/
def Provides (d : Definition) (name : String) : Prop :=
  ∃ text, d.attribute? name = some text ∧ interpolate d.attribute? text ≠ ""

/-- Nothing is wrong with the node itself. -/
def IsSound (d : Definition) : Prop :=
  ∃ kind : Kind, kind.tag = d.tag ∧ (∀ name ∈ kind.requiredName?, d.Provides name) ∧
    (kind.takesChildren = false → d.children = [])

/-- What is wrong with the node itself; of several things the first, in this
order. -/
inductive Fault (d : Definition) : BuildFailure → Prop
  | unknownTag (unknown : ∀ kind : Kind, kind.tag ≠ d.tag) : Fault d (.unknownTag d.tag)
  | missingAttribute {kind : Kind} {name : String} (known : kind.tag = d.tag) (required : name ∈ kind.requiredName?)
      (missing : ¬ d.Provides name) : Fault d (.missingAttribute d.tag name)
  | unexpectedChildren {kind : Kind} (known : kind.tag = d.tag) (provided : ∀ name ∈ kind.requiredName?, d.Provides name)
      (takesNone : kind.takesChildren = false) (children : d.children ≠ []) : Fault d (.unexpectedChildren d.tag)

/-- What is wrong with the first of some nodes that is not sound. -/
inductive FirstFault : List Definition → BuildFailure → Prop
  | here {d : Definition} {ds : List Definition} {failure : BuildFailure} (fault : d.Fault failure) :
      FirstFault (d :: ds) failure
  | later {d : Definition} {ds : List Definition} {failure : BuildFailure} (sound : d.IsSound)
      (first : FirstFault ds failure) : FirstFault (d :: ds) failure

end Definition

namespace Kind

theorem ofTag?_tag (kind : Kind) : ofTag? kind.tag = some kind := by
  cases kind <;> decide

theorem tag_injective {kind other : Kind} (h : kind.tag = other.tag) : kind = other := by
  have := congrArg ofTag? h
  rw [ofTag?_tag, ofTag?_tag] at this
  exact Option.some.inj this

theorem ofTag?_eq_none {tag : String} (h : ofTag? tag = none) (kind : Kind) : kind.tag ≠ tag := by
  rintro rfl
  rw [ofTag?_tag] at h
  cases h

end Kind

namespace Definition

variable {d : Definition} {f g : BuildFailure}

theorem Fault.not_isSound (h : d.Fault f) : ¬ d.IsSound := by
  rintro ⟨kind, hk, hp, hc⟩
  cases h with
  | unknownTag unknown => exact unknown kind hk
  | missingAttribute known required missing =>
    cases Kind.tag_injective (known.trans hk.symm)
    exact missing (hp _ required)
  | unexpectedChildren known provided takesNone children =>
    cases Kind.tag_injective (known.trans hk.symm)
    exact children (hc takesNone)

theorem Fault.unique (h : d.Fault f) (h' : d.Fault g) : f = g := by
  cases h with
  | unknownTag unknown =>
    cases h' with
    | unknownTag _ => rfl
    | missingAttribute known => exact absurd known (unknown _)
    | unexpectedChildren known => exact absurd known (unknown _)
  | missingAttribute known required missing =>
    cases h' with
    | unknownTag unknown => exact absurd known (unknown _)
    | missingAttribute known' required' =>
      cases Kind.tag_injective (known.trans known'.symm)
      cases Option.mem_unique required required'
      rfl
    | unexpectedChildren known' provided =>
      cases Kind.tag_injective (known.trans known'.symm)
      exact absurd (provided _ required) missing
  | unexpectedChildren known provided =>
    cases h' with
    | unknownTag unknown => exact absurd known (unknown _)
    | missingAttribute known' required missing =>
      cases Kind.tag_injective (known.trans known'.symm)
      exact absurd (provided _ required) missing
    | unexpectedChildren => rfl

namespace FirstFault

variable {ds es : List Definition}

theorem append (h : FirstFault ds f) (es : List Definition) : FirstFault (ds ++ es) f := by
  induction h with
  | here fault => exact .here fault
  | later sound _ ih => exact .later sound ih

theorem after (hs : ∀ d ∈ ds, d.IsSound) (h : FirstFault es f) : FirstFault (ds ++ es) f := by
  induction ds with
  | nil => exact h
  | cons d ds ih => exact .later (hs d List.mem_cons_self) (ih fun e he => hs e (List.mem_cons_of_mem _ he))

theorem not_all_isSound (h : FirstFault ds f) : ¬ ∀ d ∈ ds, d.IsSound := by
  intro hs
  induction h with
  | here fault => exact fault.not_isSound (hs _ List.mem_cons_self)
  | later _ _ ih => exact ih fun e he => hs e (List.mem_cons_of_mem _ he)

theorem unique (h : FirstFault ds f) (h' : FirstFault ds g) : f = g := by
  induction h with
  | here fault =>
    cases h' with
    | here fault' => exact fault.unique fault'
    | later sound _ => exact absurd sound fault.not_isSound
  | later sound _ ih =>
    cases h' with
    | here fault => exact absurd sound fault.not_isSound
    | later _ first => exact ih first

end FirstFault

end Definition

/-! ## Attributes as properties -/

namespace Properties

/-- The properties of a node are its attributes. -/
theorem get?_ofObject (d : Definition) : (ofObject d.props).get? = d.attribute? := by
  funext name
  rw [ofObject, get?_setMembers, Definition.attribute?]
  exact Option.or_none

/-- What is required comes out empty exactly when it is not provided. -/
theorem getString_ne_empty (d : Definition) (name : String) :
    (ofObject d.props).getString name "" ≠ "" ↔ d.Provides name := by
  rw [getString, Definition.Provides, get?_ofObject]
  cases d.attribute? name with
  | none => simp
  | some text => simp [interpolate, get?_ofObject]

end Properties

/-! ## Kinds of built nodes -/

/-- The kind of a step. -/
def Step.kind : Step → Kind
  | cacheGet _ _ _ _ => .cacheGet
  | set _ _ => .set
  | output _ _ _ => .output
  | log _ _ => .log
  | throw _ _ => .throw

/-- The kind of a scope. -/
def Scope.kind : Scope → Kind
  | segment => .segment
  | cache _ _ => .cache
  | locate _ _ _ => .cacheLocate
  | object _ => .obj

/-- The kind of a role. -/
def Role.kind : Role → Kind
  | step action => action.kind
  | scope around => around.kind

/-- The kind of a node, which its tag names as well. -/
def Node.kind : Node Empty → Kind
  | step _ action => action.kind
  | scope _ around _ => around.kind
  | custom _ kind _ => kind.elim

theorem Step.takesChildren_kind (action : Step) : action.kind.takesChildren = false := by
  cases action <;> rfl

theorem Scope.takesChildren_kind (around : Scope) : around.kind.takesChildren = true := by
  cases around <;> rfl

namespace Kind

/-- A kind that requires nothing can always be configured. -/
theorem configure_of_requires_none {kind : Kind} (h : kind.requiredName? = none) (tag : String) (p : Properties) :
    ∃ role, kind.configure tag p = .ok role ∧ role.kind = kind := by
  cases kind with
  | segment | cacheLocate | log | throw => exact ⟨_, rfl, rfl⟩
  | _ => cases h

/-- A kind that requires something is configured from it. -/
theorem configure_of_requires {kind : Kind} {name : String} (h : kind.requiredName? = some name) (tag : String)
    (p : Properties) : ∃ role : String → Role, kind.configure tag p = (p.required tag name >>= fun value => .ok (role value)) ∧
      ∀ value, (role value).kind = kind := by
  cases kind with
  | segment | cacheLocate | log | throw => cases h
  | _ =>
    cases h
    exact ⟨_, rfl, fun _ => rfl⟩

/-- Nothing but what is required can be missing. -/
theorem configure_cases (kind : Kind) (tag : String) (p : Properties) :
    (∃ role, kind.configure tag p = .ok role ∧ role.kind = kind ∧
        ∀ name ∈ kind.requiredName?, p.getString name "" ≠ "") ∨
      ∃ name ∈ kind.requiredName?, p.getString name "" = "" ∧
        kind.configure tag p = .error (.missingAttribute tag name) := by
  cases hn : kind.requiredName? with
  | none =>
    obtain ⟨role, hr, hk⟩ := configure_of_requires_none hn tag p
    exact .inl ⟨role, hr, hk, nofun⟩
  | some name =>
    obtain ⟨role, hr, hk⟩ := configure_of_requires hn tag p
    rw [hr, Properties.required]
    by_cases he : p.getString name "" = ""
    · exact .inr ⟨name, rfl, he, by rw [if_pos he]; rfl⟩
    · refine .inl ⟨role (p.getString name ""), by rw [if_neg he]; rfl, hk _, fun other ho => ?_⟩
      cases ho
      exact he

end Kind

namespace Definition

/-- The node is what the definition says, with the same children in the same
order, and is the parent of each of them. -/
inductive Builds : Definition → Node Empty → Prop
  | mk {d : Definition} {node : Node Empty} (tag_eq : node.label.tag = d.tag) (kind_eq : node.kind.tag = d.tag)
      (children : List.Forall₂ Builds d.children node.children)
      (parents : ∀ child ∈ node.children, child.label.parent = some node.label.id) : Builds d node

/-- What building comes to: something built, or what is wrong with the first
node that is not sound. -/
inductive Checked {β : Type} (nodes : List Definition) (Built : β → Prop) : Except BuildFailure β → Prop
  | ok {b : β} (sound : ∀ d ∈ nodes, d.IsSound) (built : Built b) : Checked nodes Built (.ok b)
  | error {failure : BuildFailure} (first : FirstFault nodes failure) : Checked nodes Built (.error failure)

/-- What is wrong with a tag and its properties is settled before anything else. -/
theorem configure_standard (d : Definition) :
    (∃ (kind : Kind) (shape : Shape Empty), kind.tag = d.tag ∧ (∀ name ∈ kind.requiredName?, d.Provides name) ∧
        Catalog.standard.configure d.tag (.ofObject d.props) = .ok shape ∧ shape.takesChildren = kind.takesChildren ∧
        ∀ label children, (shape.node label children).kind = kind) ∨
      ∃ failure, Catalog.standard.configure d.tag (.ofObject d.props) = .error failure ∧ d.Fault failure := by
  unfold Catalog.configure
  simp only [Catalog.standard, Dict.value?_nil]
  cases hk : Kind.ofTag? d.tag with
  | none => exact .inr ⟨_, rfl, .unknownTag (Kind.ofTag?_eq_none hk)⟩
  | some kind =>
    have htag := Catalog.tag_of_ofTag? hk
    rcases kind.configure_cases d.tag (.ofObject d.props) with ⟨role, hr, rfl, hp⟩ | ⟨name, hn, he, hr⟩
    · have hp : ∀ name ∈ role.kind.requiredName?, d.Provides name := fun name hn =>
        (Properties.getString_ne_empty d name).1 (hp name hn)
      cases role with
      | step action =>
        exact .inl ⟨_, .step action, htag, hp, by simp only [hr]; rfl, action.takesChildren_kind.symm, fun _ _ => rfl⟩
      | scope around =>
        exact .inl ⟨_, .scope around, htag, hp, by simp only [hr]; rfl, around.takesChildren_kind.symm, fun _ _ => rfl⟩
    · refine .inr ⟨_, by simp only [hr]; rfl, .missingAttribute htag hn fun hp => ?_⟩
      exact (Properties.getString_ne_empty d name).2 hp he

end Definition

/-! ## Building -/

@[simp] theorem Shape.label_node {κ : Type} (shape : Shape κ) (label : Label) (children : List (Node κ)) :
    (shape.node label children).label = label := by
  cases shape <;> rfl

theorem Shape.children_node {κ : Type} {shape : Shape κ} {children : List (Node κ)}
    (h : shape.takesChildren = false → children = []) (label : Label) : (shape.node label children).children = children := by
  cases shape with
  | step action => exact (h rfl).symm
  | scope around => rfl
  | custom kind takes => rfl

namespace Catalog

open Definition

mutual
/-- A node is built when everything in it is sound. -/
theorem buildAt_checked : ∀ (d : Definition) (id : NodeId) (parent : Option NodeId),
    Checked d.nodes (fun node => d.Builds node ∧ node.label.parent = parent) (standard.buildAt id parent d)
  | ⟨tag, props, children⟩, id, parent => by
    rw [buildAt, nodes]
    rcases configure_standard ⟨tag, props, children⟩ with ⟨kind, shape, htag, hp, hs, ht, hk⟩ | ⟨failure, hf, fault⟩
    · simp only [hs]
      show Checked _ _ (if _ then _ else _)
      split
      · rename_i h
        refine .error (.here (.unexpectedChildren htag hp (ht ▸ h.2) ?_))
        simpa using h.1
      · rename_i h
        have hnone : shape.takesChildren = false → children = [] := fun hn => by
          simpa [hn] using h
        have hsound : IsSound ⟨tag, props, children⟩ := ⟨kind, htag, hp, fun hn => hnone (ht.trans hn)⟩
        have hc := buildAll_checked children id 0
        generalize standard.buildAll id 0 children = built at hc ⊢
        cases hc with
        | error first => exact .error (.later hsound first)
        | @ok nodes sound hb =>
          obtain ⟨hb, hparent⟩ := hb
          have hnodes : (shape.node ⟨id, tag, parent⟩ nodes).children = nodes := by
            refine Shape.children_node (fun hn => ?_) _
            rw [hnone hn] at hb
            exact List.forall₂_nil_left_iff.1 hb
          refine .ok (List.forall_mem_cons.2 ⟨hsound, sound⟩) ⟨.mk (by simp) ?_ ?_ ?_, by simp⟩
          · rw [hk, htag]
          · rwa [hnodes]
          · simpa [hnodes] using hparent
    · simp only [hf]
      exact .error (.here fault)

theorem buildAll_checked : ∀ (ds : List Definition) (parent : NodeId) (position : Nat),
    Checked (nodesAll ds) (fun nodes => List.Forall₂ Builds ds nodes ∧ ∀ node ∈ nodes, node.label.parent = some parent)
      (standard.buildAll parent position ds)
  | [], parent, position => by
    rw [buildAll, nodesAll]
    exact .ok nofun ⟨.nil, nofun⟩
  | d :: ds, parent, position => by
    rw [buildAll, nodesAll]
    have hd := buildAt_checked d (position :: parent) (some parent)
    generalize standard.buildAt (position :: parent) (some parent) d = built at hd ⊢
    cases hd with
    | error first => exact .error (first.append _)
    | ok sound hb =>
      have hds := buildAll_checked ds parent (position + 1)
      generalize standard.buildAll parent (position + 1) ds = others at hds ⊢
      cases hds with
      | error first => exact .error (first.after sound)
      | ok sounds hbs =>
        exact .ok (List.forall_mem_append.2 ⟨sound, sounds⟩)
          ⟨.cons hb.1 hbs.1, List.forall_mem_cons.2 ⟨hb.2, hbs.2⟩⟩
end

/-- What is wrong with a node is told before what is wrong inside it and after it. -/
example : standard.build ⟨"segment", [],
    [⟨"set", [("id", .str "${name}"), ("name", .null)], [⟨"unheard-of", [], []⟩]⟩, ⟨"unheard-of", [], []⟩]⟩ =
      .error (.missingAttribute "set" "id") := by cbv

end Catalog

end CacheScript
