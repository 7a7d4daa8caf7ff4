/-
Values: what names are bound to while a script runs.
-/
import CacheScript.Double.Layout
import CacheScript.Record
import CacheScript.Text.Quoted

namespace CacheScript

/-- A store of the session, by its place there, and its id. -/
structure StoreRef where
  place : Nat
  id : String
deriving DecidableEq

/-- A bound value. -/
inductive Value where
  | none
  | bool (value : Bool)
  | int (value : Int64)
  | float (value : ExtendedDouble)
  | str (value : String)
  | array (items : List Value)
  | object (record : Record)
  | store (ref : StoreRef)

namespace Value

/-- A truth value, written. -/
def boolText (b : Bool) : String := if b then "true" else "false"

mutual
/-- The text that stands for a value in a filled template: an array is its
items with commas between, an object its id, a store and none nothing. -/
def text : Value → String
  | none => ""
  | bool b => boolText b
  | int n => toString n.toInt
  | float x => x.text
  | str s => s
  | array [] => ""
  | array (item :: items) => item.text ++ textItems items
  | object record => record.id
  | store _ => ""

/-- The further items, each after a comma. -/
def textItems : List Value → String
  | [] => ""
  | item :: items => "," ++ item.text ++ textItems items
end

mutual
/-- A value as it is shown to a person, with its kind. -/
def display : Value → String
  | none => "None"
  | bool b => "Boolean(" ++ boolText b ++ ")"
  | int n => "Integer(" ++ toString n.toInt ++ ")"
  | float x => "Float(" ++ x.text ++ ")"
  | str s => "String(" ++ Text.quoted s ++ ")"
  | array [] => "Array([])"
  | array (item :: items) => "Array([" ++ item.display ++ displayItems items ++ "])"
  | object record => "Object(" ++ Text.quoted record.id ++ ")"
  | store ref => "Store(" ++ Text.quoted ref.id ++ ")"

/-- The further items, each after a comma and a space. -/
def displayItems : List Value → String
  | [] => ""
  | item :: items => ", " ++ item.display ++ displayItems items
end

/-- The text of a value that is a text. -/
def str? : Value → Option String
  | str s => some s
  | _ => .none

/-- The number of a value that is an integer. -/
def int? : Value → Option Int64
  | int n => some n
  | _ => .none

/-- The truth of a value that is a truth value. -/
def bool? : Value → Option Bool
  | bool b => some b
  | _ => .none

/-- The record of a value that is an object. -/
def object? : Value → Option Record
  | object record => some record
  | _ => .none

/-- The store of a value that is a store. -/
def store? : Value → Option StoreRef
  | store ref => some ref
  | _ => .none

end Value

end CacheScript
