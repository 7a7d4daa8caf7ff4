/-
Which child object an `obj` enters. Its tag is filled twice: from the node's
own attributes when the node is built, and from the bindings each time it runs.
A reference that is meant for the bindings does not live to see them: a name
that is no attribute stands for nothing, so what the runs fill is only what
stands around the references of the tag.

So the tag is resolved against the running context exactly when it has no
references at all, and a tag that is nothing but references cannot be built
(`buildAt_entersBare`).
-/
import CacheScript.Proofs.Node.Faults
import CacheScript.Proofs.Node.Reads
import CacheScript.Script

namespace CacheScript

/-! ## Texts without their references -/

namespace Template

/-- A filled text is as long as its literals and the values together. -/
theorem length_fill (value? : String → Option String) (t : Template) :
    (t.fill value?).length =
      (t.fill fun _ => none).length + (t.names.flatMap fun name => ((value? name).getD "").toList).length := by
  induction t with
  | last literal tail => simp [fill, names]
  | reference literal name rest ih =>
    simp only [fill, names, List.length_append, List.flatMap_cons, ih, Option.getD_none, String.toList_empty,
      List.length_nil]
    omega

/-- Every reference takes at least its dollar sign and its braces. -/
theorem length_fill_none_le (t : Template) :
    (t.fill fun _ => none).length + 3 * t.names.length ≤ t.source.length := by
  induction t with
  | last literal tail => simp [fill, names, source]
  | reference literal name rest ih =>
    simp only [fill, names, source, List.length_append, List.length_cons, Option.getD_none,
      String.toList_empty, List.length_nil]
    omega

theorem fill_of_names_eq_nil {t : Template} (h : t.names = []) (value? : String → Option String) :
    t.fill value? = t.source := by
  cases t with
  | last literal tail => rfl
  | reference literal name rest => cases h

end Template

namespace Text

/-- A text with its references left out. -/
def bare (text : String) : String :=
  interpolate (fun _ => none) text

theorem interpolate_of_references_eq_nil {text : String} (h : references text = []) (value? : String → Option String) :
    interpolate value? text = text := by
  rw [interpolate, Template.fill_of_names_eq_nil h, Template.source_parse, String.ofList_toList]

theorem interpolate_congr {f g : String → Option String} {text : String} (h : ∀ name ∈ references text, f name = g name) :
    interpolate f text = interpolate g text := by
  rw [interpolate, interpolate, Template.fill_congr h]

/-- What a filled text has beyond the bare one are the values. -/
theorem length_interpolate (value? : String → Option String) (text : String) :
    (interpolate value? text).length =
      (bare text).length + ((references text).flatMap fun name => ((value? name).getD "").toList).length := by
  rw [bare, interpolate, interpolate, String.length_ofList, String.length_ofList, Template.length_fill]
  rfl

theorem length_bare_lt {text : String} (h : references text ≠ []) : (bare text).length < text.length := by
  have hle := Template.length_fill_none_le (Template.parse text.toList)
  have hpos : 0 < (Template.parse text.toList).names.length := List.length_pos_of_ne_nil h
  rw [Template.source_parse, String.length_toList] at hle
  rw [bare, interpolate, String.length_ofList]
  omega

end Text

namespace Context

/-- With references left in it, a text is filled differently by some context. -/
theorem exists_interpolate_ne {text : String} (h : Text.references text ≠ []) :
    ∃ c : Context, c.interpolate text ≠ "" ∧ c.interpolate (Text.bare text) ≠ c.interpolate text := by
  by_cases hbare : Text.references (Text.bare text) = []
  · -- One value that is not empty makes the text longer than what is left of it.
    obtain ⟨name, names, hnames⟩ := List.exists_cons_of_ne_nil h
    let c := (new ⟨[]⟩).bind name (.str "x")
    have hx : c.text? name = some "x" := by
      simp [c, text?, binding?, bind, Value.text]
    have hlonger : (Text.bare text).length < (c.interpolate text).length := by
      rw [interpolate, Text.length_interpolate, hnames, List.flatMap_cons, hx, List.length_append]
      have : ((some "x").getD "").toList.length = 1 := rfl
      omega
    refine ⟨c, fun he => ?_, fun he => ?_⟩
    · rw [he] at hlonger
      exact absurd hlonger (Nat.not_lt_zero _)
    · rw [← he, interpolate, Text.interpolate_of_references_eq_nil hbare] at hlonger
      exact absurd hlonger (Nat.lt_irrefl _)
  · -- Where nothing is bound, the text is filled to what is left of it, which loses its references too.
    have hnone (other : String) : (new ⟨[]⟩).interpolate other = Text.bare other := rfl
    have hshorter := Text.length_bare_lt hbare
    refine ⟨new ⟨[]⟩, fun he => ?_, fun he => ?_⟩
    · rw [hnone] at he
      rw [he] at hshorter
      exact absurd hshorter (Nat.not_lt_zero _)
    · rw [hnone, hnone] at he
      rw [he] at hshorter
      exact absurd hshorter (Nat.lt_irrefl _)

end Context

/-! ## Entering a child object -/

namespace Node

/-- Every run of the node in a context runs the children at the child object
`name` of the document, and does nothing else. -/
def EntersChild (node : Node Empty) (context : Context) (name : String) : Prop :=
  ∀ (ω : Type) (watcher : Option (Watcher ω)) (input : Json) (s : State ω), s.context = context →
    node.execute watcher input s =
      watched watcher node.label (fun s => s.within name (executeAll watcher input node.children)) s

/-- A node enters one child object. -/
theorem EntersChild.unique {node : Node Empty} {context : Context} {name other : String}
    (h : node.EntersChild context name) (h' : node.EntersChild context other) : name = other := by
  have hrun := (h Unit none .null (Script.start context ()) rfl).symm.trans (h' Unit none .null (Script.start context ()) rfl)
  -- In an empty document there is nothing after the run but the child object.
  have hdocument := congrArg (fun ended => ended.2.document.map (·.1)) hrun
  simpa [watched, State.tell, State.within, Script.start, Dict.put] using hdocument

theorem entersChild_object (label : Label) (tag : String) (children : List (Node Empty)) (context : Context) :
    (scope label (.object tag) children).EntersChild context (context.interpolate tag) := by
  rintro ω watcher input s rfl
  rw [execute]
  cases watcher <;> rfl

end Node

namespace Catalog

open Definition

variable {d : Definition} {t : String}

/-- The tag that an `obj` keeps is what its own attributes leave of it. -/
theorem configure_object (hobj : d.tag = "obj") (htag : d.attribute? "tag" = some t) :
    standard.configure d.tag (.ofObject d.props) =
      if interpolate d.attribute? t = "" then .error (.missingAttribute "obj" "tag")
      else .ok (.scope (.object (interpolate d.attribute? t))) := by
  have hkind : Kind.ofTag? "obj" = some .obj := Kind.ofTag?_tag .obj
  have hvalue : (Properties.ofObject d.props).getString "tag" "" = interpolate d.attribute? t := by
    rw [Properties.getString, Properties.get?_ofObject, htag]
    simp only [Properties.interpolate, Properties.get?_ofObject]
  rw [configure, hobj]
  simp only [standard, Dict.value?_nil, hkind, Kind.configure, Properties.required, hvalue]
  split <;> rfl

theorem buildAt_eq (d : Definition) (id : NodeId) (parent : Option NodeId) :
    standard.buildAt id parent d = standard.configure d.tag (.ofObject d.props) >>= fun shape =>
      if d.children.isEmpty = false ∧ shape.takesChildren = false then .error (.unexpectedChildren d.tag)
      else standard.buildAll id 0 d.children >>= fun nodes => .ok (shape.node ⟨id, d.tag, parent⟩ nodes) := by
  cases d
  rw [buildAt]

theorem buildAt_object_eq_error (hobj : d.tag = "obj") (htag : d.attribute? "tag" = some t)
    (hempty : interpolate d.attribute? t = "") (id : NodeId) (parent : Option NodeId) :
    standard.buildAt id parent d = .error (.missingAttribute "obj" "tag") := by
  have hconfigure := configure_object hobj htag
  rw [if_pos hempty] at hconfigure
  rw [buildAt_eq, hconfigure]
  rfl

/-- Sound definitions are built. -/
theorem exists_buildAll {ds : List Definition} (h : ∀ d ∈ nodesAll ds, d.IsSound) (parent : NodeId) (position : Nat) :
    ∃ nodes, standard.buildAll parent position ds = .ok nodes := by
  have hc := buildAll_checked ds parent position
  generalize standard.buildAll parent position ds = built at hc ⊢
  cases hc with
  | ok => exact ⟨_, rfl⟩
  | error first => exact absurd h first.not_all_isSound

theorem buildAt_object (hobj : d.tag = "obj") (htag : d.attribute? "tag" = some t)
    (hleft : interpolate d.attribute? t ≠ "") (hchildren : ∀ child ∈ nodesAll d.children, child.IsSound) (id : NodeId)
    (parent : Option NodeId) : ∃ label nodes,
      standard.buildAt id parent d = .ok (.scope label (.object (interpolate d.attribute? t)) nodes) := by
  obtain ⟨nodes, hnodes⟩ := exists_buildAll hchildren id 0
  refine ⟨⟨id, d.tag, parent⟩, nodes, ?_⟩
  have hconfigure := configure_object hobj htag
  rw [if_neg hleft] at hconfigure
  rw [buildAt_eq, hconfigure]
  show (if _ then _ else _) = _
  rw [if_neg (by simp [Shape.takesChildren]), hnodes]
  rfl

/-- **An `obj` enters the child object that is left of its tag** when the tag
refers to none of the node's own attributes: the references are gone once the
node is built. When nothing is left the node cannot be built, whatever it would
run in. Else the context fills what is left, which it leaves alone unless the
literals make a reference together; and the child is the one that the tag itself
names in every context exactly when the tag has no references. -/
theorem buildAt_entersBare (hobj : d.tag = "obj") (htag : d.attribute? "tag" = some t)
    (hundefined : ∀ name ∈ Text.references t, d.attribute? name = none)
    (hchildren : ∀ child ∈ nodesAll d.children, child.IsSound) (id : NodeId) (parent : Option NodeId) :
    (Text.bare t = "" → standard.buildAt id parent d = .error (.missingAttribute "obj" "tag")) ∧
      (Text.bare t ≠ "" → ∃ node, standard.buildAt id parent d = .ok node ∧
        (∀ context, node.EntersChild context (context.interpolate (Text.bare t))) ∧
        (Text.references (Text.bare t) = [] → ∀ context : Context, context.interpolate (Text.bare t) = Text.bare t) ∧
        ((∀ context, context.interpolate t ≠ "" → node.EntersChild context (context.interpolate t)) ↔
          Text.references t = [])) := by
  have hkept : interpolate d.attribute? t = Text.bare t := Text.interpolate_congr hundefined
  refine ⟨fun hempty => buildAt_object_eq_error hobj htag (hkept.trans hempty) id parent, fun hleft => ?_⟩
  obtain ⟨label, nodes, hbuilt⟩ := buildAt_object hobj htag (by rwa [hkept]) hchildren id parent
  rw [hkept] at hbuilt
  have henters := Node.entersChild_object label (Text.bare t) nodes
  refine ⟨_, hbuilt, henters, fun hbare context => Text.interpolate_of_references_eq_nil hbare _, fun h => ?_,
    fun hnone context _ => ?_⟩
  · by_contra hsome
    obtain ⟨context, hne, hdiffers⟩ := Context.exists_interpolate_ne hsome
    exact hdiffers ((henters context).unique (h context hne))
  · have hbare : Text.bare t = t := Text.interpolate_of_references_eq_nil hnone _
    exact congrArg context.interpolate hbare ▸ henters context

/-! ## A child object for each user -/

/-- Notes down that a user was seen, in a child object whose name is made of
the user's. -/
def forUser (tag : String) : Definition :=
  ⟨"obj", [("tag", .str tag)], [⟨"output", [("id", .str "seen"), ("value", .str "yes")], []⟩]⟩

theorem forUser_entersBare :
    ((forUser "u-${user}").tag = "obj" ∧ (forUser "u-${user}").attribute? "tag" = some "u-${user}" ∧
        (∀ name ∈ Text.references "u-${user}", (forUser "u-${user}").attribute? name = none) ∧
        ∀ child ∈ nodesAll (forUser "u-${user}").children, child.IsSound) ∧
      ∃ node, standard.build (forUser "u-${user}") = .ok node ∧ (∀ context, node.EntersChild context "u-") ∧
        ¬ ∀ context, context.interpolate "u-${user}" ≠ "" →
          node.EntersChild context (context.interpolate "u-${user}") := by
  have hbare : Text.bare "u-${user}" = "u-" := by cbv
  have hreferences : Text.references "u-${user}" = ["user"] := by cbv
  have hundefined : ∀ name ∈ Text.references "u-${user}", (forUser "u-${user}").attribute? name = none := by
    rw [hreferences]
    decide
  have hsound : ∀ child ∈ nodesAll (forUser "u-${user}").children, child.IsSound := by
    intro child hchild
    rw [List.mem_singleton.1 hchild]
    exact ⟨.output, rfl, fun name hname => by cases hname; exact ⟨"seen", rfl, by cbv⟩, fun _ => rfl⟩
  refine ⟨⟨rfl, rfl, hundefined, hsound⟩, ?_⟩
  obtain ⟨node, hbuilt, henters, hfixed, hright⟩ :=
    (buildAt_entersBare rfl rfl hundefined hsound [] none).2 (by rw [hbare]; decide)
  refine ⟨node, hbuilt, fun context => ?_, fun h => ?_⟩
  · have := henters context
    rwa [hfixed (by cbv), hbare] at this
  · rw [hreferences] at hright
    cases hright.1 h

/-- A tag that is only a reference is refused, and one with something around
it leads to the same child for all users, though in the context that they run
in both are filled with the name of the user. -/
theorem forUser_forgetsUser :
    let input := Json.obj [("user", .str "alice")]
    let context := Context.ofInput ⟨[]⟩ input
    ((∀ name ∈ Text.references "${user}", (forUser "${user}").attribute? name = none) ∧
        context.interpolate "${user}" = "alice" ∧
        standard.build (forUser "${user}") = .error (.missingAttribute "obj" "tag")) ∧
      context.interpolate "u-${user}" = "u-alice" ∧ ∃ node, standard.build (forUser "u-${user}") = .ok node ∧
        (Script.execute ⟨node⟩ (none : Option (Watcher Unit)) input context ()).result =
          .ok [("u-", .obj [("seen", .str "yes")])] := by
  have hreferences : Text.references "${user}" = ["user"] := by cbv
  refine ⟨⟨?_, by cbv, by cbv⟩, by cbv, ⟨_, by cbv, by cbv⟩⟩
  rw [hreferences]
  decide

end Catalog

end CacheScript
