/-
Trimmed pieces: the pieces of a text between the occurrences of one character,
without the blanks around them and less those that do not count. Word lists
are read in this way with commas between the words, and word files with line
breaks.
-/
import CacheScript.Text.Blank
import CacheScript.Text.Split

namespace CacheScript.Text

/-- The trimmed pieces between the occurrences of `sep` that count. -/
def pieces (sep : Char) (counts : List Char → Bool) (cs : List Char) : List (List Char) :=
  ((split sep cs).map trimChars).filter counts

variable {sep : Char} {counts : List Char → Bool}

/-- Two texts with `sep` between them have the pieces of one and then those of
the other. -/
theorem pieces_append (cs others : List Char) :
    pieces sep counts (cs ++ sep :: others) = pieces sep counts cs ++ pieces sep counts others := by
  rw [pieces, split_append, List.map_append, List.filter_append, pieces, pieces]

/-- A text without `sep` is one piece, if any. -/
theorem pieces_of_not_mem {cs : List Char} (h : sep ∉ cs) :
    pieces sep counts cs = if counts (trimChars cs) then [trimChars cs] else [] := by
  rw [pieces, split_of_not_mem h, List.map_singleton, List.filter_cons, List.filter_nil]

/-- The pieces of a text that is joined are those of its parts. -/
theorem pieces_join {parts : List (List Char)} (hne : parts ≠ []) (h : ∀ part ∈ parts, sep ∉ part) :
    pieces sep counts (join sep parts) = (parts.map trimChars).filter counts := by
  rw [pieces, split_join hne h]

theorem of_mem_pieces {cs piece : List Char} (h : piece ∈ pieces sep counts cs) :
    counts piece = true ∧ sep ∉ piece ∧ IsTrimmed piece := by
  obtain ⟨hpiece, hcounts⟩ := List.mem_filter.1 h
  obtain ⟨whole, hwhole, rfl⟩ := List.mem_map.1 hpiece
  exact ⟨hcounts, fun hm => not_mem_of_mem_split hwhole (mem_of_mem_trimChars hm), isTrimmed_trimChars whole⟩

end CacheScript.Text
