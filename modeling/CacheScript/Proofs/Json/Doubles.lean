/-
Doubles that come back. The shortest digits of a double determine it, but the
reader of numbers rounds more than once, and for some doubles it comes to a
neighbour. So that a double reads back is a property of the double, said of its
text alone; then it reads back inside a document too
(`ReadsBack.readNumeral`).
-/
import CacheScript.Proofs.Json.Spelling

namespace CacheScript

/-- The text of a double, read as a document, is that double. -/
def Double.ReadsBack (d : Double) : Prop :=
  Json.parse? (Json.compact (.num (.double d))) = some (.num (.double d))

/-! ## The characters of a written double -/

namespace Double

theorem isDigit_of_mem_decimalOf {multiple : Nat} {grid : Int} {c : Char} (h : c ∈ (decimalOf multiple grid).digits) :
    c.isDigit = true := by
  have hmem : c ∈ Nat.toDigits 10 multiple := by
    have := List.dropWhile_sublist _ |>.mem (List.mem_reverse.1 h)
    exact List.mem_reverse.1 this
  exact Raw.isDigit_of_mem_toDigits hmem

theorem isDigit_of_mem_shortest {tie : Tie} {d : Double} {c : Char} (h : c ∈ (d.shortest tie).digits) :
    c.isDigit = true := by
  unfold shortest at h
  split at h
  · rw [List.mem_singleton.1 h]
    decide
  · dsimp only at h
    generalize hfound : (List.range 17).findSome? _ = found at h
    cases found with
    | none => exact isDigit_of_mem_decimalOf h
    | some decimal =>
      obtain ⟨k, -, hk⟩ := List.exists_of_findSome?_eq_some hfound
      obtain ⟨multiple, -, rfl⟩ := Option.map_eq_some_iff.1 hk
      exact isDigit_of_mem_decimalOf h

end Double

theorem Raw.isSpace_of_isDigit {c : Char} (h : c.isDigit = true) : isSpace c = false := by
  rw [Bool.eq_false_iff]
  intro hs
  simp only [isSpace, Bool.or_eq_true, beq_iff_eq] at hs
  rcases hs with ((rfl | rfl) | rfl) | rfl <;> exact absurd h (by decide)

/-- No blank stands in these characters. -/
def Raw.Solid (cs : List Char) : Prop :=
  ∀ c ∈ cs, isSpace c = false

namespace Raw.Solid

variable {cs ds : List Char}

theorem nil : Solid [] := nofun

theorem cons {c : Char} (hc : isSpace c = false) (h : Solid cs) : Solid (c :: cs) :=
  List.forall_mem_cons.2 ⟨hc, h⟩

theorem append (h : Solid cs) (h' : Solid ds) : Solid (cs ++ ds) :=
  List.forall_mem_append.2 ⟨h, h'⟩

theorem replicate {c : Char} (hc : isSpace c = false) (n : Nat) : Solid (List.replicate n c) := by
  intro d hd
  rwa [List.eq_of_mem_replicate hd]

theorem of_digits (h : ∀ c ∈ cs, c.isDigit = true) : Solid cs :=
  fun c hc => isSpace_of_isDigit (h c hc)

theorem sublist (h : Solid cs) (hs : ds.Sublist cs) : Solid ds :=
  fun c hc => h c (hs.mem hc)

/-- Without blanks nothing is skipped. -/
theorem skipSpace_eq (h : Solid cs) : skipSpace cs = cs := by
  cases cs with
  | nil => rfl
  | cons c cs => rw [skipSpace, List.dropWhile_cons_of_neg (by simp [h c List.mem_cons_self])]

end Raw.Solid

namespace Layout

open Raw (Solid)

variable {decimal : Decimal}

theorem solid_writePositional (h : Solid decimal.digits) : Solid (document.writePositional decimal) := by
  unfold writePositional
  split
  · exact .append (.cons (by decide) (.cons (by decide) (.replicate (by decide) _))) h
  · dsimp only
    split
    · exact .append (.append h (.replicate (by decide) _)) (.cons (by decide) (.cons (by decide) .nil))
    · exact .append (h.sublist (List.take_sublist _ _)) (.cons (by decide) (h.sublist (List.drop_sublist _ _)))

theorem solid_writeScientific (h : Solid decimal.digits) : Solid (writeScientific decimal) := by
  have hsign : Raw.isSpace (if decimal.exponent < 0 then '-' else '+') = false := by
    split <;> decide
  have hpower : Solid (Nat.toDigits 10 decimal.exponent.natAbs) := .of_digits fun c => Raw.isDigit_of_mem_toDigits
  refine .append (.append (h.sublist (List.take_sublist _ _)) ?fraction) (.cons (by decide) (.cons hsign hpower))
  case fraction =>
    split
    · exact .nil
    · exact .cons (by decide) (h.sublist (List.drop_sublist _ _))

theorem solid_write (d : Double) : Solid (document.write d) := by
  have hdigits : Solid (d.shortest document.tie).digits := .of_digits fun c => Double.isDigit_of_mem_shortest
  have hmagnitude : Solid (if document.positional (d.shortest document.tie).exponent
      then document.writePositional (d.shortest document.tie) else writeScientific (d.shortest document.tie)) := by
    split
    · exact solid_writePositional hdigits
    · exact solid_writeScientific hdigits
  unfold write
  dsimp only
  split
  · exact .cons (by decide) hmagnitude
  · exact hmagnitude

end Layout

/-! ## Reading back -/

/-- What is read as a number is what the reader of numbers reads. -/
theorem Raw.readNumeral_of_readValue {fuel : Nat} {cs left : List Char} {n : Numeral}
    (h : readValue fuel cs = some (.number n, left)) : readNumeral (skipSpace cs) = some (n, left) := by
  cases fuel with
  | zero => cases h
  | succ fuel =>
    unfold readValue at h
    split at h
    · obtain ⟨⟨s, rest⟩, -, h⟩ := Option.map_eq_some_iff.1 h
      cases h
    · split at h
      · cases h
      · obtain ⟨⟨s, rest⟩, -, h⟩ := Option.map_eq_some_iff.1 h
        cases h
    · split at h
      · cases h
      · obtain ⟨⟨s, rest⟩, -, h⟩ := Option.map_eq_some_iff.1 h
        cases h
    · cases h
    · cases h
    · cases h
    · obtain ⟨⟨s, rest⟩, hn, h⟩ := Option.map_eq_some_iff.1 h
      cases h
      exact hn

/-- What is a number was written as one. -/
theorem Json.of_ofRaw?_eq_num {depth : Nat} {raw : Raw} {k : Number} (h : ofRaw? depth raw = some (.num k)) :
    ∃ n, raw = .number n ∧ Number.ofNumeral? n = some k := by
  cases raw with
  | number n =>
    obtain ⟨k', hk, h⟩ := Option.map_eq_some_iff.1 h
    cases h
    exact ⟨n, rfl, hk⟩
  | null | bool b => cases h
  | text s =>
    obtain ⟨t, -, h⟩ := Option.map_eq_some_iff.1 h
    cases h
  | array items =>
    cases depth with
    | zero => cases h
    | succ depth =>
      obtain ⟨t, -, h⟩ := Option.map_eq_some_iff.1 h
      cases h
  | object members =>
    cases depth with
    | zero => cases h
    | succ depth =>
      obtain ⟨t, -, h⟩ := Option.map_eq_some_iff.1 h
      cases h

/-- **A double that reads back is read off its text**, to the end of it. -/
theorem Double.ReadsBack.readNumeral {d : Double} (h : d.ReadsBack) :
    ∃ n, Raw.readNumeral (Layout.document.write d) = some (n, []) ∧ Number.ofNumeral? n = some (.double d) := by
  have hsolid := Layout.solid_write d
  rw [ReadsBack, Json.parse?, Json.compact, Option.bind_eq_some_iff] at h
  obtain ⟨raw, hraw, h⟩ := h
  obtain ⟨n, rfl, hn⟩ := Json.of_ofRaw?_eq_num h
  unfold Raw.parse? at hraw
  rw [String.toList_ofList] at hraw
  dsimp only at hraw
  split at hraw
  · rename_i raw left hvalue
    split at hraw
    · rename_i hleft
      cases hraw
      have hread := Raw.readNumeral_of_readValue hvalue
      rw [Json.write_num, Number.write, hsolid.skipSpace_eq] at hread
      have hend : left = [] := by
        have hskip := (hsolid.sublist (Raw.readNumeral_suffix hread).sublist).skipSpace_eq
        rwa [hskip, List.isEmpty_iff] at hleft
      subst hend
      exact ⟨n, hread, hn⟩
    · cases hraw
  · cases hraw

end CacheScript
