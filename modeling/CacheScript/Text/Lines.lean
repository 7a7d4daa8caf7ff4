/-
The lines of a text. A line ends with a line feed, which may have a carriage
return in front of it; what stands after the last line feed is a line as well,
if anything does. A carriage return anywhere else belongs to its line.

A carriage return is blank. So where lines are trimmed their endings make no
difference, and the lines are the pieces between the line feeds
(`filter_trimmed_lines`).
-/
import CacheScript.Text.Pieces

namespace CacheScript.Text

/-- What was in front of a line feed, without the carriage return of the
ending. -/
def chopReturn (line : List Char) : List Char :=
  if line.getLast? = some '\r' then line.dropLast else line

/-- The lines that have these pieces between their line feeds. -/
def endLines : List (List Char) → List (List Char)
  | [] => []
  | [last] => if last = [] then [] else [last]
  | line :: pieces => chopReturn line :: endLines pieces

def lines (cs : List Char) : List (List Char) :=
  endLines (split '\n' cs)

theorem trimChars_chopReturn (line : List Char) : trimChars (chopReturn line) = trimChars line := by
  unfold chopReturn
  split
  · rename_i h
    obtain ⟨front, rfl⟩ := List.getLast?_eq_some_iff.1 h
    have hreturn : AllBlank ['\r'] := List.forall_mem_singleton.2 rfl
    rw [List.dropLast_concat, trimChars_append_of_allBlank front hreturn]
  · rfl

variable {counts : List Char → Bool}

theorem filter_trimmed_endLines (hempty : counts [] = false) (pieces : List (List Char)) :
    ((endLines pieces).map trimChars).filter counts = (pieces.map trimChars).filter counts := by
  induction pieces with
  | nil => rfl
  | cons line pieces ih =>
    cases pieces with
    | nil =>
      by_cases hline : line = []
      · simp [hline, endLines, hempty]
      · rw [endLines, if_neg hline]
    | cons next pieces =>
      rw [endLines, List.map_cons, trimChars_chopReturn, List.filter_cons, ih, ← List.filter_cons, ← List.map_cons]
      exact List.cons_ne_nil next pieces

/-- Where empty lines do not count, the trimmed lines are the pieces between
the line feeds. -/
theorem filter_trimmed_lines (hempty : counts [] = false) (cs : List Char) :
    ((lines cs).map trimChars).filter counts = pieces '\n' counts cs :=
  filter_trimmed_endLines hempty _

end CacheScript.Text
