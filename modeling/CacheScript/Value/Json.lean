/-
Values and documents. A document becomes a value with its objects as their
compact texts and its large integers as doubles; a value becomes a document
with its objects as objects, their id among their fields. What a document
has no word for, such as an infinite number or a store, is null there.
-/
import CacheScript.Json.Write
import CacheScript.Value

namespace CacheScript

/-- The value of a number. -/
def Number.toValue : Number → Value
  | .int n _ => if n < 0x8000000000000000 then .int (Int64.ofInt n) else .float (ExtendedDouble.ofNat n.toNat)
  | .double d => .float (.finite d)

namespace Json

mutual
/-- The value that a document is bound as. -/
def toValue : Json → Value
  | null => .none
  | bool b => .bool b
  | num n => n.toValue
  | str s => .str s
  | arr items => .array (toValues items)
  | obj members => .str (compact (obj members))

/-- The values of an array's items. -/
def toValues : List Json → List Value
  | [] => []
  | item :: items => item.toValue :: toValues items
end

end Json

theorem int64_fits (n : Int64) :
    -0x8000000000000000 ≤ n.toInt ∧ n.toInt < 0x10000000000000000 :=
  ⟨n.le_toInt, Int.lt_trans n.toInt_lt (by decide)⟩

/-- The object of a record: its fields, and its id under `id` whatever field
has that name. -/
def Record.toJson (r : Record) : Json :=
  .obj (Dict.put (r.fields.map fun (name, text) => (name, .str text)) "id" (.str r.id))

namespace Value

mutual
/-- The document that a value is written as. -/
def toJson : Value → Json
  | none => .null
  | bool b => .bool b
  | int n => .num (.int n.toInt (int64_fits n))
  | float (.finite d) => .num (.double d)
  | float _ => .null
  | str s => .str s
  | array items => .arr (toJsons items)
  | object record => record.toJson
  | store _ => .null

/-- The documents of an array's items. -/
def toJsons : List Value → List Json
  | [] => []
  | item :: items => item.toJson :: toJsons items
end

end Value

end CacheScript
