/-
The grammar of templates, said without the reading of them. A text is cut
properly when no literal holds an opening, no name a closing brace, and what is
left over at the end, if anything, is an opening that is never closed.

There is one proper cut of every text, and filling the text puts the values of
the names into that cut (`existsUnique_cut`). So a dollar sign alone, an opening
inside a name and references side by side need no rules of their own.
-/
import CacheScript.Template

namespace CacheScript

/-- What a reference starts with. -/
def Template.opening : List Char := ['$', '\x7b']

open Template (opening)

/-- A text in pieces: a literal, then references, each a name with the literal
after it, and a tail. -/
structure Cut where
  first : List Char
  references : List (List Char × List Char)
  tail : List Char

namespace Cut

/-- The pieces are what they should be. -/
structure IsProper (c : Cut) : Prop where
  first : ¬ opening <:+: c.first
  name : ∀ reference ∈ c.references, '\x7d' ∉ reference.1
  literal : ∀ reference ∈ c.references, ¬ opening <:+: reference.2
  tail : c.tail = [] ∨ opening <+: c.tail ∧ '\x7d' ∉ c.tail

/-- The text that is cut. -/
def source (c : Cut) : List Char :=
  c.first ++ c.references.flatMap (fun (name, literal) => opening ++ name ++ '\x7d' :: literal) ++ c.tail

/-- The text with a value in the place of each reference: that of its trimmed
name, or nothing when the name has none. -/
def filled (value? : String → Option String) (c : Cut) : List Char :=
  c.first ++ c.references.flatMap (fun (name, literal) =>
    ((value? (Text.trim (String.ofList name))).getD "").toList ++ literal) ++ c.tail

/-- A cut with more text in front. -/
def after (literal : List Char) (c : Cut) : Cut :=
  { c with first := literal ++ c.first }

theorem after_after (literal other : List Char) (c : Cut) :
    (c.after other).after literal = c.after (literal ++ other) := by
  simp [after]

end Cut

namespace Template

/-- The pieces of a template. -/
def cut : Template → Cut
  | last literal tail => ⟨literal, [], tail⟩
  | reference literal name rest => ⟨literal, (name, rest.cut.first) :: rest.cut.references, rest.cut.tail⟩

theorem source_cut (t : Template) : t.cut.source = t.source := by
  induction t with
  | last literal tail => simp [cut, Cut.source, source]
  | reference literal name rest ih => simp [cut, Cut.source, source, opening, ← ih]

theorem filled_cut (value? : String → Option String) (t : Template) : t.cut.filled value? = t.fill value? := by
  induction t with
  | last literal tail => simp [cut, Cut.filled, fill]
  | reference literal name rest ih => simp [cut, Cut.filled, fill, Text.trim, ← ih]

theorem cut_addChar (c : Char) (t : Template) : (t.addChar c).cut = t.cut.after [c] := by
  cases t <;> rfl

/-! ## Reading cuts properly -/

theorem not_mem_of_closing {cs name rest : List Char} (h : closing cs = some (name, rest)) : '\x7d' ∉ name := by
  induction cs generalizing name rest with
  | nil => simp [closing] at h
  | cons c cs ih =>
    unfold closing at h
    split at h
    · simp only [Option.some.injEq, Prod.mk.injEq] at h
      simp [← h.1]
    · rename_i hc
      simp only [Option.map_eq_some_iff, Prod.mk.injEq, Prod.exists] at h
      obtain ⟨name', rest', hn, rfl, -⟩ := h
      simp [ih hn, Ne.symm hc]

theorem not_mem_of_closing_eq_none {cs : List Char} (h : closing cs = none) : '\x7d' ∉ cs := by
  induction cs with
  | nil => simp
  | cons c cs ih =>
    unfold closing at h
    split at h
    · cases h
    · rename_i hc
      simp only [Option.map_eq_none_iff] at h
      simp [ih h, Ne.symm hc]

/-- An opening that begins with the first character of a longer literal. -/
theorem opening_infix_cons {c : Char} {cs : List Char} :
    opening <:+: c :: cs ↔ (c = '$' ∧ cs.head? = some '\x7b') ∨ opening <:+: cs := by
  rw [List.infix_cons_iff]
  refine or_congr_left ?_
  cases cs with
  | nil => simp [opening]
  | cons d cs => simp [opening, eq_comm]

theorem Cut.head?_source {c : Cut} {b : Char} (h : c.first.head? = some b) : c.source.head? = some b := by
  cases hf : c.first with
  | nil => simp [hf] at h
  | cons d ds => simpa [Cut.source, hf] using h

/-- What is read is a proper cut. -/
theorem isProper_cut_parse (cs : List Char) : (parse cs).cut.IsProper := by
  fun_induction parse cs with
  | case1 => exact ⟨by simp [cut, opening], by simp [cut], by simp [cut], .inl rfl⟩
  | case2 cs name rest h ih =>
    refine ⟨by simp [cut, opening], ?_, ?_, ih.tail⟩
    · simpa [cut, not_mem_of_closing h] using ih.name
    · simpa [cut, ih.first] using ih.literal
  | case3 cs h =>
    refine ⟨by simp [cut, opening], by simp [cut], by simp [cut], .inr ⟨by simp [cut, opening], ?_⟩⟩
    simpa [cut] using not_mem_of_closing_eq_none h
  | case4 cs hcs ih =>
    rw [cut_addChar]
    refine ⟨fun hopen => ?_, ih.name, ih.literal, ih.tail⟩
    rcases opening_infix_cons.1 hopen with ⟨-, hhead⟩ | hopen
    · have hsource := Cut.head?_source hhead
      rw [source_cut, source_parse] at hsource
      obtain ⟨tail, rfl⟩ := List.head?_eq_some_iff.1 hsource
      exact hcs tail rfl
    · exact ih.first hopen
  | case5 c cs hc ih =>
    rw [cut_addChar]
    refine ⟨fun hopen => ?_, ih.name, ih.literal, ih.tail⟩
    rcases opening_infix_cons.1 hopen with ⟨hdollar, -⟩ | hopen
    · exact hc hdollar
    · exact ih.first hopen

/-! ## A proper cut is read as it is -/

theorem closing_append {name : List Char} (h : '\x7d' ∉ name) (rest : List Char) :
    closing (name ++ '\x7d' :: rest) = some (name, rest) := by
  induction name with
  | nil => simp [closing]
  | cons c name ih =>
    simp only [List.mem_cons, not_or] at h
    simp [closing, ih h.2, Ne.symm h.1]

theorem closing_eq_none {cs : List Char} (h : '\x7d' ∉ cs) : closing cs = none := by
  induction cs with
  | nil => rfl
  | cons c cs ih =>
    simp only [List.mem_cons, not_or] at h
    simp [closing, ih h.2, Ne.symm h.1]

theorem parse_opening {name : List Char} (h : '\x7d' ∉ name) (rest : List Char) :
    parse (opening ++ name ++ '\x7d' :: rest) = reference [] name (parse rest) := by
  rw [List.append_assoc, opening, List.cons_append, List.cons_append, List.nil_append, parse, if_pos rfl]
  split
  · rename_i name' rest' hc
    rw [closing_append h] at hc
    cases hc
    rfl
  · rename_i hc
    rw [closing_append h] at hc
    cases hc

theorem parse_unclosed {tail : List Char} (ho : opening <+: tail) (h : '\x7d' ∉ tail) : parse tail = last [] tail := by
  obtain ⟨cs, rfl⟩ := ho
  have hnone : closing cs = none := closing_eq_none fun hm => h (List.mem_append_right _ hm)
  rw [opening, List.cons_append, List.cons_append, List.nil_append, parse, if_pos rfl]
  split
  · rename_i hc
    rw [hnone] at hc
    cases hc
  · rfl

/-- A character that does not begin an opening belongs to the literal. -/
theorem parse_cons {c : Char} {cs : List Char} (h : c = '$' → cs.head? ≠ some '\x7b') :
    parse (c :: cs) = (parse cs).addChar c := by
  rw [parse.eq_def]
  dsimp only
  split
  · rename_i hc
    split
    · exact absurd rfl (h hc)
    · rw [hc]
  · rfl

/-- A literal without an opening is read as a literal, unless what follows
makes one of its last character. -/
theorem cut_parse_append {literal : List Char} (h : ¬ opening <:+: literal) {rest : List Char}
    (hrest : rest.head? ≠ some '\x7b') : (parse (literal ++ rest)).cut = (parse rest).cut.after literal := by
  induction literal with
  | nil => simp [Cut.after]
  | cons c literal ih =>
    rw [opening_infix_cons, not_or] at h
    have hhead : c = '$' → (literal ++ rest).head? ≠ some '\x7b' := by
      intro hc
      cases literal with
      | nil => simpa using hrest
      | cons d literal => simpa [hc] using h.1
    rw [List.cons_append, parse_cons hhead, cut_addChar, ih h.2, Cut.after_after]
    rfl

theorem cut_parse_source (c : Cut) (h : c.IsProper) : (parse c.source).cut = c := by
  obtain ⟨first, references, tail⟩ := c
  induction references generalizing first with
  | nil =>
    have hsource : Cut.source ⟨first, [], tail⟩ = first ++ tail := by simp [Cut.source]
    rw [hsource]
    rcases h.tail with rfl | ⟨ho, hn⟩
    · rw [cut_parse_append h.first (by simp)]
      simp [parse, cut, Cut.after]
    · have hhead : tail.head? ≠ some '\x7b' := by
        obtain ⟨cs, rfl⟩ := ho
        simp [opening]
      rw [cut_parse_append h.first hhead, parse_unclosed ho hn]
      simp [cut, Cut.after]
  | cons reference references ih =>
    obtain ⟨name, literal⟩ := reference
    have hrest : (parse (Cut.source ⟨literal, references, tail⟩)).cut = ⟨literal, references, tail⟩ :=
      ih literal ⟨h.literal _ List.mem_cons_self, fun r hr => h.name r (List.mem_cons_of_mem _ hr),
        fun r hr => h.literal r (List.mem_cons_of_mem _ hr), h.tail⟩
    have hsource : Cut.source ⟨first, (name, literal) :: references, tail⟩ =
        first ++ (opening ++ name ++ '\x7d' :: Cut.source ⟨literal, references, tail⟩) := by
      simp [Cut.source]
    rw [hsource, cut_parse_append h.first (by simp [opening]), parse_opening (h.name _ List.mem_cons_self)]
    simp [cut, hrest, Cut.after]

end Template

/-- Filling a text fills any proper cut of it. -/
theorem Cut.interpolate_source {c : Cut} (h : c.IsProper) (value? : String → Option String) :
    interpolate value? (String.ofList c.source) = String.ofList (c.filled value?) := by
  rw [interpolate, String.toList_ofList, ← Template.filled_cut, Template.cut_parse_source c h]

/-- **There is one proper cut of every text**, and with the references of that
cut replaced by their values it is the filled text. The values go in as they
are, whatever they hold. -/
theorem Cut.existsUnique_cut (text : String) :
    ∃ c : Cut, (c.IsProper ∧ c.source = text.toList) ∧
      (∀ other : Cut, other.IsProper → other.source = text.toList → other = c) ∧
      ∀ value? : String → Option String, interpolate value? text = String.ofList (c.filled value?) := by
  refine ⟨(Template.parse text.toList).cut, ⟨Template.isProper_cut_parse _, ?_⟩, fun other hp hs => ?_, fun value? => ?_⟩
  · rw [Template.source_cut, Template.source_parse]
  · rw [← hs]
    exact (Template.cut_parse_source other hp).symm
  · rw [interpolate, Template.filled_cut]

/-- A dollar sign in front of an opening, a value that is itself a reference, a
name without a value, and an opening that is never closed. -/
example : interpolate (fun name => if name = "who" then some "${who}" else none) "$${ who }, ${nobody}.$\x7bwho" =
    "$${who}, .$\x7bwho" := by cbv

end CacheScript
