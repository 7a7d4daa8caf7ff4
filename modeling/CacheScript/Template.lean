/-
Templates: text with references `${name}` in it. A text is cut into literals
and names from the left; a reference without its closing brace ends the
template and stands for itself.

Filling puts a value in the place of each reference. A value is never looked
at again, so it may hold anything, references included.
-/
import CacheScript.Text.Blank

namespace CacheScript

/-- A text cut at its references. -/
inductive Template where
  /-- The last literal, then an opening without its closing brace, if any. -/
  | last (literal tail : List Char)
  /-- A literal and the name of the reference after it. -/
  | reference (literal name : List Char) (rest : Template)
deriving DecidableEq

namespace Template

/-- What stands before the next closing brace, and what follows it. -/
def closing : List Char → Option (List Char × List Char)
  | [] => none
  | c :: cs => if c = '\x7d' then some ([], cs) else (closing cs).map fun (name, rest) => (c :: name, rest)

theorem length_lt_of_closing {cs name rest : List Char} (h : closing cs = some (name, rest)) :
    rest.length < cs.length := by
  induction cs generalizing name with
  | nil => simp [closing] at h
  | cons c cs ih =>
    unfold closing at h
    split at h
    · simp only [Option.some.injEq, Prod.mk.injEq] at h
      simp [h.2]
    · simp only [Option.map_eq_some_iff, Prod.mk.injEq, Prod.exists] at h
      obtain ⟨name', rest', hc, -, rfl⟩ := h
      exact Nat.lt_succ_of_lt (ih hc)

/-- Put a character in front of the first literal. -/
def addChar (c : Char) : Template → Template
  | last literal tail => last (c :: literal) tail
  | reference literal name rest => reference (c :: literal) name rest

/-- The template that a text writes. -/
def parse : List Char → Template
  | [] => last [] []
  | c :: cs =>
    if c = '$' then
      match cs with
      | '\x7b' :: cs =>
        match _h : closing cs with
        | some (name, rest) => reference [] name (parse rest)
        | none => last [] ('$' :: '\x7b' :: cs)
      | cs => addChar c (parse cs)
    else addChar c (parse cs)
termination_by cs => cs.length
decreasing_by
  all_goals simp_wf
  have := length_lt_of_closing ‹_›
  omega

/-- The text of a template. -/
def source : Template → List Char
  | last literal tail => literal ++ tail
  | reference literal name rest => literal ++ '$' :: '\x7b' :: name ++ '\x7d' :: rest.source

theorem source_addChar (c : Char) (t : Template) : (t.addChar c).source = c :: t.source := by
  cases t <;> rfl

theorem eq_of_closing {cs name rest : List Char} (h : closing cs = some (name, rest)) :
    cs = name ++ '\x7d' :: rest := by
  induction cs generalizing name with
  | nil => simp [closing] at h
  | cons c cs ih =>
    unfold closing at h
    split at h
    · rename_i hc
      simp only [Option.some.injEq, Prod.mk.injEq] at h
      obtain ⟨rfl, rfl⟩ := h
      rw [hc]; rfl
    · simp only [Option.map_eq_some_iff, Prod.mk.injEq, Prod.exists] at h
      obtain ⟨name', rest', hc, rfl, rfl⟩ := h
      rw [ih hc]; rfl

/-- Cutting a text loses nothing. -/
theorem source_parse (cs : List Char) : (parse cs).source = cs := by
  fun_induction parse cs with
  | case1 => rfl
  | case2 cs name rest h ih => rw [source, ih, eq_of_closing h]; simp
  | case3 cs h => simp [source]
  | case4 cs _ ih => rw [source_addChar, ih]
  | case5 c cs _ ih => rw [source_addChar, ih]

/-- The trimmed names of the references. -/
def names : Template → List String
  | last _ _ => []
  | reference _ name rest => String.ofList (Text.trimChars name) :: rest.names

/-- The text with the value of every name in its place; a name without a
value stands for nothing. -/
def fill (value? : String → Option String) : Template → List Char
  | last literal tail => literal ++ tail
  | reference literal name rest =>
    literal ++ ((value? (String.ofList (Text.trimChars name))).getD "").toList ++ rest.fill value?

end Template

/-- A text with its references replaced by the values of their names. -/
def interpolate (value? : String → Option String) (text : String) : String :=
  String.ofList ((Template.parse text.toList).fill value?)

end CacheScript
