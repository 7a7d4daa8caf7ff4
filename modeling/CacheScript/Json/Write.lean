/-
Writing documents: compact, with no blanks at all, and indented by two spaces
a level. Strings escape the quote, the backslash and the controls below the
space, and nothing else.
-/
import CacheScript.Double.Layout
import CacheScript.Json

namespace CacheScript

/-- A hexadecimal digit, in lower case. -/
def hexDigit (n : Nat) : Char := Nat.digitChar n

/-- A character inside a written string. -/
def writeChar (c : Char) : List Char :=
  if c = '"' then ['\\', '"']
  else if c = '\\' then ['\\', '\\']
  else if c = '\x08' then ['\\', 'b']
  else if c = '\x0c' then ['\\', 'f']
  else if c = '\n' then ['\\', 'n']
  else if c = '\r' then ['\\', 'r']
  else if c = '\t' then ['\\', 't']
  else if c.toNat < 0x20 then
    ['\\', 'u', '0', '0', hexDigit (c.toNat / 16), hexDigit (c.toNat % 16)]
  else [c]

/-- A written string with its quotes. -/
def writeString (s : String) : List Char :=
  '"' :: s.toList.flatMap writeChar ++ ['"']

/-- An integer in decimal digits. -/
def writeInt (n : Int) : List Char :=
  if n < 0 then '-' :: Nat.toDigits 10 n.natAbs else Nat.toDigits 10 n.natAbs

/-- A number of a document. -/
def Number.write : Number → List Char
  | .int n _ => writeInt n
  | .double d => Layout.document.write d

namespace Json

mutual
/-- A document in its compact form. -/
def write : Json → List Char
  | null => "null".toList
  | bool true => "true".toList
  | bool false => "false".toList
  | num n => n.write
  | str s => writeString s
  | arr [] => "[]".toList
  | arr (item :: items) => '[' :: item.write ++ writeItems items
  | obj [] => ['\x7b', '\x7d']
  | obj ((name, item) :: members) =>
    '\x7b' :: writeString name ++ ':' :: item.write ++ writeMembers members

/-- The further items of an array and its closing bracket. -/
def writeItems : List Json → List Char
  | [] => [']']
  | item :: items => ',' :: item.write ++ writeItems items

/-- The further members of an object and its closing brace. -/
def writeMembers : List (String × Json) → List Char
  | [] => ['\x7d']
  | (name, item) :: members =>
    ',' :: writeString name ++ ':' :: item.write ++ writeMembers members
end

theorem write_num (n : Number) : (num n).write = n.write := rfl

theorem write_arr_cons (item : Json) (items : List Json) :
    (arr (item :: items)).write = '[' :: item.write ++ writeItems items := rfl

theorem write_obj_cons (name : String) (item : Json) (members : List (String × Json)) :
    (obj ((name, item) :: members)).write = '\x7b' :: writeString name ++ ':' :: item.write ++ writeMembers members := rfl

/-- The compact text of a document. -/
def compact (j : Json) : String := String.ofList j.write

/-- A line end and the indentation of a level. -/
def newLine (level : Nat) : List Char :=
  '\n' :: List.replicate (2 * level) ' '

mutual
/-- A document with every item and member on a line of its own. -/
def writeIndented (level : Nat) : Json → List Char
  | null => "null".toList
  | bool true => "true".toList
  | bool false => "false".toList
  | num n => n.write
  | str s => writeString s
  | arr [] => "[]".toList
  | arr (item :: items) =>
    '[' :: newLine (level + 1) ++ writeIndented (level + 1) item ++ writeItemsIndented level items
  | obj [] => ['\x7b', '\x7d']
  | obj ((name, item) :: members) =>
    '\x7b' :: newLine (level + 1) ++ writeString name ++ ": ".toList ++
      writeIndented (level + 1) item ++ writeMembersIndented level members

/-- The further items of an array and its closing bracket. -/
def writeItemsIndented (level : Nat) : List Json → List Char
  | [] => newLine level ++ [']']
  | item :: items =>
    ',' :: newLine (level + 1) ++ writeIndented (level + 1) item ++ writeItemsIndented level items

/-- The further members of an object and its closing brace. -/
def writeMembersIndented (level : Nat) : List (String × Json) → List Char
  | [] => newLine level ++ ['\x7d']
  | (name, item) :: members =>
    ',' :: newLine (level + 1) ++ writeString name ++ ": ".toList ++
      writeIndented (level + 1) item ++ writeMembersIndented level members
end

/-- The indented text of a document. -/
def indented (j : Json) : String := String.ofList (writeIndented 0 j)

end Json

end CacheScript
