/-
Lists with commas. The words of a list are read back from every text that
writes them, whatever blanks stand around them and however many empty items
among them; and every text writes the words that are read from it, so reading
is the only way back (`reconfigure_lists`).

Before a list is read its references are filled. That changes nothing in a list
of words without references: a comma or a blank stands between any two words,
so no opening comes about where they meet.
-/
import CacheScript.Proofs.WordSource.Layering

namespace CacheScript

/-! ## Texts without an opening -/

namespace Template

/-- No opening begins in a text without dollar signs. -/
theorem opening_infix_append_of_not_mem {cs : List Char} (h : '$' ∉ cs) (others : List Char) :
    opening <:+: cs ++ others ↔ opening <:+: others := by
  induction cs with
  | nil => rfl
  | cons c cs ih =>
    rw [List.mem_cons, not_or] at h
    rw [List.cons_append, opening_infix_cons, ih h.2]
    simp [Ne.symm h.1]

/-- Where two texts meet, an opening needs a brace at the front of the second. -/
theorem not_opening_infix_append {cs others : List Char} (h : ¬ opening <:+: cs) (hothers : ¬ opening <:+: others)
    (hhead : others.head? ≠ some '\x7b') : ¬ opening <:+: cs ++ others := by
  induction cs with
  | nil => exact hothers
  | cons c cs ih =>
    rw [opening_infix_cons, not_or] at h
    rw [List.cons_append, opening_infix_cons, not_or]
    refine ⟨fun ⟨hc, hnext⟩ => ?_, ih h.2⟩
    cases cs with
    | nil => exact hhead hnext
    | cons d cs => exact h.1 ⟨hc, hnext⟩

theorem not_opening_infix_join {sep : Char} (hdollar : '$' ≠ sep) (hbrace : sep ≠ '\x7b') {parts : List (List Char)}
    (h : ∀ part ∈ parts, ¬ opening <:+: part) : ¬ opening <:+: Text.join sep parts := by
  induction parts with
  | nil => simp [Text.join, opening]
  | cons part parts ih =>
    rw [List.forall_mem_cons] at h
    cases parts with
    | nil => exact h.1
    | cons next parts =>
      rw [Text.join_cons_ne_nil (by simp)]
      refine not_opening_infix_append h.1 ?_ (by simpa using hbrace)
      rw [← List.singleton_append, opening_infix_append_of_not_mem (by simpa using hdollar)]
      exact ih h.2

end Template

/-- A text without an opening is left alone. -/
theorem interpolate_of_not_opening {cs : List Char} (h : ¬ Template.opening <:+: cs) (value? : String → Option String) :
    interpolate value? (String.ofList cs) = String.ofList cs := by
  have hproper : Cut.IsProper ⟨cs, [], []⟩ := ⟨h, nofun, nofun, .inl rfl⟩
  have hsource : Cut.source ⟨cs, [], []⟩ = cs := by simp [Cut.source]
  have hfilled : Cut.filled value? ⟨cs, [], []⟩ = cs := by simp [Cut.filled]
  have := Cut.interpolate_source hproper value?
  rwa [hsource, hfilled] at this

namespace WordSource

open Template (opening)
open Text (AllBlank IsTrimmed)

/-! ## What writes a list -/

/-- A word that can stand in a list. -/
structure IsItem (word : String) : Prop where
  nonempty : word ≠ ""
  noComma : ',' ∉ word.toList
  trimmed : IsTrimmed word.toList

instance (word : String) : Decidable (IsItem word) :=
  decidable_of_iff (word ≠ "" ∧ ',' ∉ word.toList ∧ IsTrimmed word.toList)
    ⟨fun h => ⟨h.1, h.2.1, h.2.2⟩, fun h => ⟨h.nonempty, h.noComma, h.trimmed⟩⟩

/-- The parts between the commas of a list: its words in order, each with any
blanks around it, and blank parts anywhere among them. -/
inductive Lists : List String → List (List Char) → Prop
  | nil : Lists [] []
  | word {word : String} {words : List String} {before after : List Char} {parts : List (List Char)}
      (hbefore : AllBlank before) (hafter : AllBlank after) (rest : Lists words parts) :
      Lists (word :: words) ((before ++ word.toList ++ after) :: parts)
  | blank {words : List String} {blanks : List Char} {parts : List (List Char)} (hblanks : AllBlank blanks)
      (rest : Lists words parts) : Lists words (blanks :: parts)

/-- The words with commas between them. -/
def listText (words : List String) : String :=
  String.ofList (Text.join ',' (words.map String.toList))

theorem not_mem_of_allBlank {cs : List Char} (h : AllBlank cs) {c : Char} (hc : Text.isBlank c = false) : c ∉ cs :=
  fun hm => by rw [h c hm] at hc; cases hc

theorem Lists.not_mem {words : List String} {parts : List (List Char)} (h : Lists words parts)
    (hwords : ∀ word ∈ words, IsItem word) : ∀ part ∈ parts, ',' ∉ part := by
  induction h with
  | nil => exact List.forall_mem_nil _
  | word hbefore hafter _ ih =>
    rw [List.forall_mem_cons] at hwords
    refine List.forall_mem_cons.2 ⟨fun hm => ?_, ih hwords.2⟩
    rcases List.mem_append.1 hm with hm | hm
    · exact (List.mem_append.1 hm).elim (not_mem_of_allBlank hbefore rfl) hwords.1.noComma
    · exact not_mem_of_allBlank hafter rfl hm
  | blank hblanks _ ih => exact List.forall_mem_cons.2 ⟨not_mem_of_allBlank hblanks rfl, ih hwords⟩

theorem Lists.not_opening {words : List String} {parts : List (List Char)} (h : Lists words parts)
    (hwords : ∀ word ∈ words, ¬ opening <:+: word.toList) : ∀ part ∈ parts, ¬ opening <:+: part := by
  have hblank {cs : List Char} (hcs : AllBlank cs) : ¬ opening <:+: cs := by
    rw [← List.append_nil cs, Template.opening_infix_append_of_not_mem (not_mem_of_allBlank hcs rfl)]
    simp [opening]
  induction h with
  | nil => exact List.forall_mem_nil _
  | @word word words before after parts hbefore hafter _ ih =>
    rw [List.forall_mem_cons] at hwords
    refine List.forall_mem_cons.2 ⟨?_, ih hwords.2⟩
    rw [List.append_assoc, Template.opening_infix_append_of_not_mem (not_mem_of_allBlank hbefore rfl)]
    refine Template.not_opening_infix_append hwords.1 (hblank hafter) fun hhead => ?_
    exact not_mem_of_allBlank hafter rfl (List.mem_of_head? hhead)
  | blank hblanks _ ih => exact List.forall_mem_cons.2 ⟨hblank hblanks, ih hwords⟩

/-! ## Reading a list -/

/-- Of the parts between the commas the words are left. -/
theorem Lists.trimmed {words : List String} {parts : List (List Char)} (h : Lists words parts)
    (hwords : ∀ word ∈ words, IsItem word) :
    ((parts.map Text.trimChars).filter fun item => item ≠ []).map String.ofList = words := by
  induction h with
  | nil => rfl
  | @word word words before after parts hbefore hafter _ ih =>
    rw [List.forall_mem_cons] at hwords
    have hne : word.toList ≠ [] := fun he => hwords.1.nonempty (String.toList_inj.1 he)
    rw [List.map_cons, hwords.1.trimmed.trimChars_surrounded hbefore hafter, List.filter_cons_of_pos (by simpa using hne),
      List.map_cons, String.ofList_toList, ih hwords.2]
  | blank hblanks _ ih =>
    rw [List.map_cons, hblanks.trimChars, List.filter_cons_of_neg (by simp), ih hwords]

theorem splitList_of_lists {words : List String} {parts : List (List Char)} (h : Lists words parts)
    (hwords : ∀ word ∈ words, IsItem word) : splitList (String.ofList (Text.join ',' parts)) = words := by
  by_cases hne : parts = []
  · subst hne
    cases h
    rfl
  · rw [splitList, String.toList_ofList, Text.pieces_join hne (h.not_mem hwords)]
    exact h.trimmed hwords

/-- Words with nothing but commas between them are a list of themselves. -/
theorem lists_toList (words : List String) : Lists words (words.map String.toList) := by
  induction words with
  | nil => exact .nil
  | cons word words ih =>
    have halone : Lists (word :: words) (([] ++ word.toList ++ []) :: words.map String.toList) := .word nofun nofun ih
    rwa [List.nil_append, List.append_nil] at halone

theorem isItem_of_mem_splitList {text word : String} (h : word ∈ splitList text) : IsItem word := by
  obtain ⟨item, hitem, rfl⟩ := List.mem_map.1 h
  obtain ⟨hcounts, hcomma, htrimmed⟩ := Text.of_mem_pieces hitem
  refine ⟨fun he => ?_, by rwa [String.toList_ofList], by rwa [String.toList_ofList]⟩
  rw [String.ofList_eq_empty_iff] at he
  simp [he] at hcounts

/-- The words that are read are those that the text writes. -/
theorem lists_splitList (text : String) :
    ∃ parts, text.toList = Text.join ',' parts ∧ Lists (splitList text) parts := by
  refine ⟨Text.split ',' text.toList, (Text.join_split _ _).symm, ?_⟩
  rw [splitList, Text.pieces]
  induction Text.split ',' text.toList with
  | nil => exact .nil
  | cons part parts ih =>
    by_cases hpart : Text.trimChars part = []
    · rw [List.map_cons, List.filter_cons_of_neg (by simpa using hpart)]
      exact .blank (Text.allBlank_of_trimChars_eq_nil hpart) ih
    · obtain ⟨before, after, hbefore, hafter, hwhole⟩ := Text.exists_trimChars part
      rw [List.map_cons, List.filter_cons_of_pos (by simpa using hpart), List.map_cons]
      have hfirst : Lists (String.ofList (Text.trimChars part) :: _)
          ((before ++ (String.ofList (Text.trimChars part)).toList ++ after) :: parts) := .word hbefore hafter ih
      rwa [String.toList_ofList, ← hwhole] at hfirst

/-! ## Words given in the configuration -/

theorem query_reconfigure {source : WordSource} (h : source.kind = .inline) (p : Properties) (files : FileSystem)
    (list : WordList) : (source.reconfigure p).query files list = (splitList (p.getString list.name ""), []) := by
  cases source with
  | inline words =>
    rw [reconfigure, query, get_overwrite, configured]
    cases list <;> rfl
  | files home names => cases h

/-- **Reading a list undoes writing it**, for each of the four lists: with any
blanks around the words and any empty items among them, the words come back in
their order, as often as they are there. From any text whatever come words that
can stand in a list, which the text lists and which come back again when they
are joined. -/
theorem reconfigure_lists {source : WordSource} (h : source.kind = .inline) (list : WordList) (files : FileSystem) :
    (∀ words parts, (∀ word ∈ words, IsItem word ∧ ¬ opening <:+: word.toList) → Lists words parts →
      ∀ p : Properties, p.get? list.name = some (String.ofList (Text.join ',' parts)) →
        (source.reconfigure p).query files list = (words, [])) ∧
      ∀ p : Properties, ∃ words, (source.reconfigure p).query files list = (words, []) ∧
        (∀ word ∈ words, IsItem word) ∧ splitList (listText words) = words ∧
          ∃ parts, (p.getString list.name "").toList = Text.join ',' parts ∧ Lists words parts := by
  refine ⟨fun words parts hwords hlists p hp => ?_, fun p => ⟨_, query_reconfigure h p files list, ?_, ?_, ?_⟩⟩
  · have hplain : ¬ opening <:+: Text.join ',' parts := Template.not_opening_infix_join (by decide) (by decide)
      (hlists.not_opening fun word hm => (hwords word hm).2)
    have hstring : p.getString list.name "" = String.ofList (Text.join ',' parts) := by
      rw [Properties.getString, hp]
      exact interpolate_of_not_opening hplain p.get?
    rw [query_reconfigure h, hstring, splitList_of_lists hlists fun word hm => (hwords word hm).1]
  · exact fun word hm => isItem_of_mem_splitList hm
  · exact splitList_of_lists (lists_toList _) fun word hm => isItem_of_mem_splitList hm
  · exact lists_splitList _

/-- Dollar signs and braces that meet only across a comma, a word that comes
twice, and noise of both sorts. -/
theorem reconfigure_lists_noisy :
    let words := ["a$", "{b}", "a$"]
    let parts := [" a$".toList, [], "{b}\u00a0".toList, "\t ".toList, "a$".toList]
    let p : Properties := ⟨[("stop", " a$,,{b}\u00a0,\t ,a$")], []⟩
    ((new .inline).kind = .inline ∧ (∀ word ∈ words, IsItem word ∧ ¬ opening <:+: word.toList) ∧ Lists words parts ∧
        p.get? WordList.stop.name = some (String.ofList (Text.join ',' parts))) ∧
      ((new .inline).reconfigure p).query (fun _ => .missing) .stop = (words, []) := by
  intro words parts p
  have hwords : ∀ word ∈ words, IsItem word ∧ ¬ opening <:+: word.toList := by decide +kernel
  have hlast : Lists ["a$"] [['\t', ' '], [] ++ "a$".toList ++ []] := .blank (by decide +kernel) (.word nofun nofun .nil)
  have hlists : Lists words (([' '] ++ "a$".toList ++ []) :: [] :: ([] ++ "{b}".toList ++ ['\u00a0']) :: _) :=
    .word (by decide +kernel) nofun (.blank nofun (.word nofun (by decide +kernel) hlast))
  have hp : p.get? WordList.stop.name = some (String.ofList (Text.join ',' parts)) := by cbv
  exact ⟨⟨rfl, hwords, hlists, hp⟩, (reconfigure_lists rfl .stop _).1 words parts hwords hlists p hp⟩

end WordSource

end CacheScript
