/-
Sources of records: nothing at all, a fixed table, and a directory with one
JSON file a key.

A directory answers a key from the file `key.json` directly below it and from
no other: keys with a slash, a backslash or a point at the front are refused
before a path is made.
-/
import CacheScript.Files
import CacheScript.Json.Read
import CacheScript.Json.Write
import CacheScript.Record
import CacheScript.Store
import CacheScript.Text.Quoted

namespace CacheScript

namespace Loader

/-- The source that has nothing. -/
def nothing : Loader Record := fun _ _ => .absent

/-- What a table says about its keys. A record without an id of its own is
called by the key. -/
inductive Row where
  | absent
  | failed (causes : List String)
  | record (id : Option String) (fields : Dict String)

/-- The answer of a row to a key. -/
def Row.answer (key : String) : Row → Answer Record
  | .absent => .absent
  | .failed causes => .failed causes
  | .record id fields => .found ⟨id.getD key, fields⟩

/-- A table of keys, with a row for all other keys. -/
def table (rows : Dict Row) (other : Row) : Loader Record := fun _ key =>
  ((rows.value? key).getD other).answer key

/-- A source whose records tell in the field `#` which call made them. -/
def stamped (loader : Loader Record) : Loader Record := fun earlier key =>
  match loader earlier key with
  | .found record =>
    .found { record with fields := record.fields.put "#" (toString (earlier.length + 1)) }
  | answer => answer

end Loader

namespace Directory

/-- Whether a key names a file directly below a directory. -/
def acceptsKey (key : String) : Bool :=
  !key.toList.contains '/' && !key.toList.contains '\\' && key.toList.head? != some '.'

/-- The file of a key. -/
def path (dir key : String) : String :=
  joinPath dir (key ++ ".json")

/-- The text that a member of the file stores: a string itself, any other
value its compact text. -/
def fieldText : Json → String
  | .str s => s
  | j => j.compact

/-- The record of a file's text. Of a failure only the outermost cause is told,
not what the system or the reader of JSON has to say. -/
def readRecord (path key text : String) : Answer Record :=
  match Json.parse? text with
  | none => .failed ["parsing " ++ path]
  | some (.obj members) => .found ⟨key, members.map fun (name, value) => (name, fieldText value)⟩
  | some _ => .failed [path ++ " is not a JSON object"]

/-- The record of a key. -/
def load (files : FileSystem) (dir key : String) : Answer Record :=
  if acceptsKey key then
    match files (path dir key) with
    | .missing => .absent
    | .unreadable => .failed ["reading " ++ path dir key]
    | .text text => readRecord (path dir key) key text
  else .failed ["invalid cache key " ++ Text.quoted key]

/-- A directory as a source. -/
def loader (files : FileSystem) (dir : String) : Loader Record := fun _ key =>
  load files dir key

end Directory

end CacheScript
