/-
Definitions: the written form of a script, a tree of tags with properties.

A definition is read from an object with the members `tag`, `props` and
`children`, or from an array of these three in that order. Only the tag is
required. A member of another name is skipped without being read, so all that
is asked of it is the grammar; a member of these names may come only once.
-/
import CacheScript.Json.Read
import CacheScript.Json.Write

namespace CacheScript

/-- A node of a script as defined. -/
structure Definition where
  tag : String
  props : List (String × Json)
  children : List Definition

namespace Definition

/-- A member that a definition knows. -/
inductive Field where
  | tag (tag : String)
  | props (props : Dict Json)
  | children (children : List Definition)

/-- The tag of a field that is one. -/
def Field.tag? : Field → Option String
  | tag t => some t
  | _ => none

/-- The properties of a field that is those. -/
def Field.props? : Field → Option (Dict Json)
  | props p => some p
  | _ => none

/-- The children of a field that is those. -/
def Field.children? : Field → Option (List Definition)
  | children c => some c
  | _ => none

/-- The definition of its fields: one tag, and the others at most once. -/
def ofFields? (fields : List Field) : Option Definition :=
  match fields.filterMap Field.tag?, fields.filterMap Field.props?, fields.filterMap Field.children? with
  | [tag], [], [] => some ⟨tag, [], []⟩
  | [tag], [props], [] => some ⟨tag, props, []⟩
  | [tag], [], [children] => some ⟨tag, [], children⟩
  | [tag], [props], [children] => some ⟨tag, props, children⟩
  | _, _, _ => none

/-- The tag that a raw document writes. -/
def tagOfRaw? : Raw → Option String
  | .text s => s
  | _ => none

/-- The properties that a raw document writes. -/
def propsOfRaw? (depth : Nat) (raw : Raw) : Option (Dict Json) :=
  (Json.ofRaw? depth raw).bind Json.members?

mutual
/-- The definition that a raw document writes, when what is read of it nests
at most `depth` deep. -/
def ofRaw? (depth : Nat) : Raw → Option Definition
  | .object members =>
    match depth with
    | 0 => none
    | depth + 1 => (fieldsOfRaw? depth members).bind ofFields?
  | .array items =>
    match depth with
    | 0 => none
    | depth + 1 =>
      match items with
      | [tag] => do
        let tag ← tagOfRaw? tag
        some ⟨tag, [], []⟩
      | [tag, props] => do
        let tag ← tagOfRaw? tag
        let props ← propsOfRaw? depth props
        some ⟨tag, props, []⟩
      | [tag, props, .array children] => do
        let tag ← tagOfRaw? tag
        let props ← propsOfRaw? depth props
        if depth = 0 then none
        else
          let children ← ofRaws? (depth - 1) children
          some ⟨tag, props, children⟩
      | _ => none
  | _ => none

/-- The fields that the members of an object write. -/
def fieldsOfRaw? (depth : Nat) : List (Option String × Raw) → Option (List Field)
  | [] => some []
  | (name, raw) :: members => do
    let name ← name
    let fields ← fieldsOfRaw? depth members
    if name = "tag" then
      let tag ← tagOfRaw? raw
      some (.tag tag :: fields)
    else if name = "props" then
      let props ← propsOfRaw? depth raw
      some (.props props :: fields)
    else if name = "children" then
      match raw with
      | .array children =>
        if depth = 0 then none
        else
          let children ← ofRaws? (depth - 1) children
          some (.children children :: fields)
      | _ => none
    else some fields

/-- The definitions that the items of an array write. -/
def ofRaws? (depth : Nat) : List Raw → Option (List Definition)
  | [] => some []
  | raw :: raws => do
    let child ← ofRaw? depth raw
    let children ← ofRaws? depth raws
    some (child :: children)
end

/-- The definition that a text writes. -/
def parse? (s : String) : Option Definition :=
  (Raw.parse? s).bind (ofRaw? maxDepth)

mutual
/-- A definition as a document, with all three members. -/
def toJson : Definition → Json
  | ⟨tag, props, children⟩ =>
    .obj [("children", .arr (toJsons children)), ("props", .obj props), ("tag", .str tag)]

/-- Definitions as documents. -/
def toJsons : List Definition → List Json
  | [] => []
  | child :: children => child.toJson :: toJsons children
end

/-- The compact text of a definition. -/
def compact (d : Definition) : String := d.toJson.compact

mutual
/-- Equality of definitions, where numbers are compared as numbers. -/
def equal : Definition → Definition → Bool
  | ⟨tag, props, children⟩, ⟨tag', props', children'⟩ =>
    tag == tag' && Json.equalMembers props props' && equals children children'

/-- Equality of lists of definitions. -/
def equals : List Definition → List Definition → Bool
  | [], [] => true
  | a :: as, b :: bs => equal a b && equals as bs
  | _, _ => false
end

end Definition

end CacheScript
