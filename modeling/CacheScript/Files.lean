/-
Files as a program sees them: a path has a text, or something that cannot be
read as text, or nothing. What is computed from files is a function of such a
view.
-/

namespace CacheScript

/-- What is found at a path. -/
inductive Reading where
  /-- Nothing is there. -/
  | missing
  /-- Something is there that is no readable text: a directory, or bytes that
  are no UTF-8. -/
  | unreadable
  | text (content : String)
deriving DecidableEq

/-- The files that can be reached, by path. -/
abbrev FileSystem := String → Reading

/-- A file in a directory. A path that starts at the root stays what it is,
and a directory that ends with a slash gets no second one. -/
def joinPath (dir file : String) : String :=
  if file.toList.head? = some '/' ∨ dir = "" then file
  else if dir.toList.getLast? = some '/' then dir ++ file
  else dir ++ "/" ++ file

end CacheScript
