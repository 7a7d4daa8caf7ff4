/-
Cutting a text at every occurrence of one character. A text with n
occurrences has n + 1 pieces, so the pieces joined by that character give
the text back (`join_split`), and pieces that do not have the character come
back from the text that they make (`split_join`).
-/

namespace CacheScript.Text

/-- Put `c` in front of the first piece. -/
def consFirst (c : Char) : List (List Char) → List (List Char)
  | [] => [[c]]
  | piece :: pieces => (c :: piece) :: pieces

/-- The pieces between the occurrences of `sep`; a piece may be empty. -/
def split (sep : Char) : List Char → List (List Char)
  | [] => [[]]
  | c :: cs => if c = sep then [] :: split sep cs else consFirst c (split sep cs)

/-- The pieces with `sep` between them. -/
def join (sep : Char) : List (List Char) → List Char
  | [] => []
  | [piece] => piece
  | piece :: pieces => piece ++ sep :: join sep pieces

theorem split_ne_nil (sep : Char) : ∀ cs, split sep cs ≠ []
  | [] => by simp [split]
  | c :: cs => by
    unfold split
    split
    · simp
    · cases split sep cs <;> simp [consFirst]

theorem join_cons_ne_nil {sep : Char} {piece : List Char} {pieces : List (List Char)} (h : pieces ≠ []) :
    join sep (piece :: pieces) = piece ++ sep :: join sep pieces := by
  cases pieces with
  | nil => exact absurd rfl h
  | cons => rfl

theorem join_consFirst {sep c : Char} {pieces : List (List Char)} (h : pieces ≠ []) :
    join sep (consFirst c pieces) = c :: join sep pieces := by
  match pieces, h with
  | [_], _ => rfl
  | _ :: _ :: _, _ => rfl

/-- Cutting loses nothing. -/
theorem join_split (sep : Char) : ∀ cs, join sep (split sep cs) = cs
  | [] => rfl
  | c :: cs => by
    unfold split
    split
    · rename_i h
      rw [join_cons_ne_nil (split_ne_nil sep cs), join_split sep cs, h]; rfl
    · rw [join_consFirst (split_ne_nil sep cs), join_split sep cs]

theorem split_of_not_mem {sep : Char} {cs : List Char} (h : sep ∉ cs) : split sep cs = [cs] := by
  induction cs with
  | nil => rfl
  | cons c cs ih =>
    rw [List.mem_cons, not_or] at h
    rw [split, if_neg (Ne.symm h.1), ih h.2]
    rfl

theorem consFirst_append (c : Char) {pieces : List (List Char)} (h : pieces ≠ []) (others : List (List Char)) :
    consFirst c (pieces ++ others) = consFirst c pieces ++ others := by
  cases pieces with
  | nil => exact absurd rfl h
  | cons piece pieces => rfl

/-- Cutting where one text ends and the next begins cuts both on their own. -/
theorem split_append (sep : Char) (cs others : List Char) :
    split sep (cs ++ sep :: others) = split sep cs ++ split sep others := by
  induction cs with
  | nil => simp [split]
  | cons c cs ih =>
    rw [List.cons_append, split, split, ih]
    split
    · rfl
    · exact consFirst_append c (split_ne_nil sep cs) _

theorem split_join {sep : Char} {pieces : List (List Char)} (hne : pieces ≠ [])
    (h : ∀ piece ∈ pieces, sep ∉ piece) : split sep (join sep pieces) = pieces := by
  induction pieces with
  | nil => exact absurd rfl hne
  | cons piece pieces ih =>
    rw [List.forall_mem_cons] at h
    cases pieces with
    | nil => exact split_of_not_mem h.1
    | cons next pieces =>
      rw [join_cons_ne_nil (by simp), split_append, split_of_not_mem h.1, ih (by simp) h.2, List.singleton_append]

/-- No piece has the character at which it was cut. -/
theorem not_mem_of_mem_split {sep : Char} {cs piece : List Char} (h : piece ∈ split sep cs) : sep ∉ piece := by
  induction cs generalizing piece with
  | nil =>
    rw [List.mem_singleton.1 h]
    exact List.not_mem_nil
  | cons c cs ih =>
    unfold split at h
    split at h
    · rcases List.mem_cons.1 h with rfl | h
      · exact List.not_mem_nil
      · exact ih h
    · rename_i hc
      cases hpieces : split sep cs with
      | nil => exact absurd hpieces (split_ne_nil sep cs)
      | cons first pieces =>
        rw [hpieces] at h
        rcases List.mem_cons.1 h with rfl | h
        · rw [List.mem_cons, not_or]
          exact ⟨Ne.symm hc, ih (hpieces ▸ List.mem_cons_self)⟩
        · exact ih (hpieces ▸ List.mem_cons_of_mem _ h)

end CacheScript.Text
