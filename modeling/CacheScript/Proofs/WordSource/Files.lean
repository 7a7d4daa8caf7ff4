/-
Words in files. A list of files has the words of those that can be read, one
file after the other, and a line in the log for each that cannot: what happens
to one file makes no difference to the words of another.

A text with line feeds between its lines is read line by line, so two texts
with a line feed between them have the words of both. The words that are read
are exactly those that the text has on lines of their own, among blank lines
and comments and whichever way the lines end (`files_wordsOf`).
-/
import CacheScript.WordSource

namespace CacheScript

/-- The text that was found, if any. -/
def Reading.text? : Reading → Option String
  | .text content => some content
  | .missing | .unreadable => none

namespace WordSource

open Text (AllBlank IsTrimmed)

/-! ## Several files -/

/-- The words of the files at some paths, and the lines that tell of those that
cannot be read. -/
theorem readAll_eq (fs : FileSystem) (home : String) (names : List String) :
    readAll fs home names =
      let paths := names.map (joinPath home)
      ((paths.filterMap fun path => (fs path).text?).flatMap wordsOf,
        (paths.filter fun path => (fs path).text? = none).map failureLine) := by
  induction names with
  | nil => rfl
  | cons name names ih =>
    rw [readAll, ih, List.map_cons]
    cases hread : fs (joinPath home name) with
    | text content => simp [hread, Reading.text?]
    | missing | unreadable => simp [hread, Reading.text?]

/-! ## The words of a text -/

/-- A word that can stand on a line of its own. -/
structure IsEntry (word : String) : Prop where
  nonempty : word ≠ ""
  oneLine : '\n' ∉ word.toList
  trimmed : IsTrimmed word.toList
  noComment : word.toList.head? ≠ some '#'

instance (word : String) : Decidable (IsEntry word) :=
  decidable_of_iff (word ≠ "" ∧ '\n' ∉ word.toList ∧ IsTrimmed word.toList ∧ word.toList.head? ≠ some '#')
    ⟨fun h => ⟨h.1, h.2.1, h.2.2.1, h.2.2.2⟩, fun h => ⟨h.nonempty, h.oneLine, h.trimmed, h.noComment⟩⟩

/-- A line without its ending has one word with any blanks around it, or none
if it is blank or a comment. -/
inductive Line : Option String → List Char → Prop
  | word {word : String} {before after : List Char} (hbefore : AllBlank before) (hafter : AllBlank after) :
      Line (some word) (before ++ word.toList ++ after)
  | blank {blanks : List Char} (hblanks : AllBlank blanks) : Line none blanks
  | comment {before : List Char} (hbefore : AllBlank before) (remark : List Char) : Line none (before ++ '#' :: remark)

/-- A text that has some words in order on its lines. Lines end with a line
feed, or with a carriage return and a line feed, but for the last. -/
inductive Writes : List String → List Char → Prop
  | last {word? : Option String} {line : List Char} (hline : Line word? line) (hone : '\n' ∉ line) :
      Writes word?.toList line
  | line {word? : Option String} {words : List String} {line ending cs : List Char} (hline : Line word? line)
      (hone : '\n' ∉ line) (hending : ending = ['\n'] ∨ ending = ['\r', '\n']) (rest : Writes words cs) :
      Writes (word?.toList ++ words) (line ++ ending ++ cs)

theorem wordsOf_eq (text : String) : wordsOf text = (Text.pieces '\n' isEntry text.toList).map String.ofList := by
  rw [wordsOf, Text.filter_trimmed_lines rfl]

/-- Two texts with a line feed between them have the words of both. -/
theorem wordsOf_append (text more : String) : wordsOf (text ++ "\n" ++ more) = wordsOf text ++ wordsOf more := by
  have hcs : (text ++ "\n" ++ more).toList = text.toList ++ '\n' :: more.toList := by simp
  rw [wordsOf_eq, hcs, Text.pieces_append, List.map_append, wordsOf_eq, wordsOf_eq]

theorem isEntry_iff {line : List Char} : isEntry line = true ↔ line ≠ [] ∧ line.head? ≠ some '#' := by
  rw [isEntry, decide_eq_true_iff]

theorem isEntry_of_mem_wordsOf {text word : String} (h : word ∈ wordsOf text) : IsEntry word := by
  rw [wordsOf_eq] at h
  obtain ⟨line, hline, rfl⟩ := List.mem_map.1 h
  obtain ⟨hcounts, hone, htrimmed⟩ := Text.of_mem_pieces hline
  obtain ⟨hne, hcomment⟩ := isEntry_iff.1 hcounts
  refine ⟨fun he => hne (String.ofList_eq_empty_iff.1 he), ?_, ?_, ?_⟩ <;> rwa [String.toList_ofList]

/-! ## One line -/

/-- The word that is read from a line. -/
def wordOf? (line : List Char) : Option String :=
  if isEntry (Text.trimChars line) then some (String.ofList (Text.trimChars line)) else none

theorem pieces_of_line {line : List Char} (hone : '\n' ∉ line) :
    (Text.pieces '\n' isEntry line).map String.ofList = (wordOf? line).toList := by
  rw [Text.pieces_of_not_mem hone, wordOf?]
  split <;> rfl

theorem trimChars_comment {before : List Char} (h : AllBlank before) (remark : List Char) :
    ∃ kept, Text.trimChars (before ++ '#' :: remark) = '#' :: kept := by
  obtain ⟨after, hafter, hdrop⟩ := Text.exists_dropWhile_eq (before ++ '#' :: remark)
  rw [List.dropWhile_append_of_pos h, List.dropWhile_cons_of_neg (by decide)] at hdrop
  cases hkept : Text.trimChars (before ++ '#' :: remark) with
  | nil =>
    -- The sign of the comment is not blank, so it was not taken away.
    rw [hkept, List.nil_append] at hdrop
    cases hafter '#' (hdrop ▸ List.mem_cons_self)
  | cons c kept =>
    rw [hkept] at hdrop
    cases hdrop
    exact ⟨kept, rfl⟩

/-- The word of a line is read from it. -/
theorem Line.wordOf?_eq {word? : Option String} {line : List Char} (h : Line word? line)
    (hwords : ∀ word ∈ word?.toList, IsEntry word) : wordOf? line = word? := by
  cases h with
  | @word word before after hbefore hafter =>
    have hword := hwords word (List.mem_singleton.2 rfl)
    have hne : word.toList ≠ [] := fun he => hword.nonempty (String.toList_inj.1 he)
    rw [wordOf?, hword.trimmed.trimChars_surrounded hbefore hafter, if_pos (isEntry_iff.2 ⟨hne, hword.noComment⟩),
      String.ofList_toList]
  | blank hblanks =>
    rw [wordOf?, hblanks.trimChars]
    rfl
  | comment hbefore remark =>
    obtain ⟨kept, hkept⟩ := trimChars_comment hbefore remark
    rw [wordOf?, hkept, if_neg fun hentry => (isEntry_iff.1 hentry).2 rfl]

/-- Every line has the word that is read from it. -/
theorem line_wordOf? (line : List Char) : Line (wordOf? line) line := by
  obtain ⟨before, after, hbefore, hafter, hwhole⟩ := Text.exists_trimChars line
  unfold wordOf?
  split
  · have hword : Line (some (String.ofList (Text.trimChars line)))
        (before ++ (String.ofList (Text.trimChars line)).toList ++ after) := .word hbefore hafter
    rwa [String.toList_ofList, ← hwhole] at hword
  · rename_i hentry
    cases htrimmed : Text.trimChars line with
    | nil => exact .blank (Text.allBlank_of_trimChars_eq_nil htrimmed)
    | cons c kept =>
      have hsign : c = '#' := Decidable.byContradiction fun hc =>
        hentry (isEntry_iff.2 (by simp [htrimmed, hc]))
      rw [hwhole, htrimmed, hsign, List.append_assoc]
      exact .comment hbefore _

/-- The carriage return of an ending is one more blank. -/
theorem Line.append_return {word? : Option String} {line : List Char} (h : Line word? line) :
    Line word? (line ++ ['\r']) := by
  have hmore {cs : List Char} (hcs : AllBlank cs) : AllBlank (cs ++ ['\r']) :=
    List.forall_mem_append.2 ⟨hcs, List.forall_mem_singleton.2 rfl⟩
  cases h with
  | word hbefore hafter =>
    rw [List.append_assoc]
    exact .word hbefore (hmore hafter)
  | blank hblanks => exact .blank (hmore hblanks)
  | comment hbefore remark =>
    rw [List.append_assoc, List.cons_append]
    exact .comment hbefore _

/-! ## All lines -/

/-- What is written on lines of its own is read. -/
theorem Writes.pieces_eq {words : List String} {cs : List Char} (h : Writes words cs)
    (hwords : ∀ word ∈ words, IsEntry word) : (Text.pieces '\n' isEntry cs).map String.ofList = words := by
  induction h with
  | last hline hone => rw [pieces_of_line hone, hline.wordOf?_eq hwords]
  | @line word? words line ending cs hline hone hending _ ih =>
    rw [List.forall_mem_append] at hwords
    have hread {whole : List Char} (hwhole : Line word? whole) (hwholeOne : '\n' ∉ whole) :
        (Text.pieces '\n' isEntry (whole ++ '\n' :: cs)).map String.ofList = word?.toList ++ words := by
      rw [Text.pieces_append, List.map_append, pieces_of_line hwholeOne, hwhole.wordOf?_eq hwords.1, ih hwords.2]
    rcases hending with rfl | rfl
    · rw [List.append_assoc]
      exact hread hline hone
    · have hcs : line ++ ['\r', '\n'] ++ cs = (line ++ ['\r']) ++ '\n' :: cs := by simp
      rw [hcs]
      exact hread hline.append_return (by simp [hone])

theorem writes_join {parts : List (List Char)} (hne : parts ≠ []) (h : ∀ part ∈ parts, '\n' ∉ part) :
    Writes ((Text.pieces '\n' isEntry (Text.join '\n' parts)).map String.ofList) (Text.join '\n' parts) := by
  induction parts with
  | nil => exact absurd rfl hne
  | cons part parts ih =>
    rw [List.forall_mem_cons] at h
    cases parts with
    | nil =>
      rw [Text.join, pieces_of_line h.1]
      exact .last (line_wordOf? part) h.1
    | cons next parts =>
      have hrest := Writes.line (line_wordOf? part) h.1 (.inl rfl) (ih (List.cons_ne_nil _ _) h.2)
      rw [← pieces_of_line h.1, ← List.map_append, ← Text.pieces_append, List.append_assoc] at hrest
      rwa [Text.join_cons_ne_nil (List.cons_ne_nil _ _)]

/-- What is read from a text is written in it. -/
theorem writes_wordsOf (text : String) : Writes (wordsOf text) text.toList := by
  have := writes_join (Text.split_ne_nil '\n' text.toList) fun line => Text.not_mem_of_mem_split
  rwa [Text.join_split, ← wordsOf_eq] at this

theorem wordsOf_eq_iff {text : String} {words : List String} :
    wordsOf text = words ↔ (∀ word ∈ words, IsEntry word) ∧ Writes words text.toList := by
  constructor
  · rintro rfl
    exact ⟨fun word => isEntry_of_mem_wordsOf, writes_wordsOf text⟩
  · rintro ⟨hwords, hwrites⟩
    rw [wordsOf_eq]
    exact hwrites.pieces_eq hwords

/-- **The words of files**, whatever files there are and however they are
listed: those of the readable ones in order, and a line in the log for each of
the others in order. Two texts with a line feed between them have the words of
one and then of the other. And the words of a text are those that it has on
lines of their own, each without blanks around it and not like a comment, with
any blank lines and comments among them. -/
theorem files_wordsOf :
    (∀ (fs : FileSystem) (home : String) (names : WordLists) (list : WordList),
        (files home names).query fs list =
          let paths := (names.get list).map (joinPath home)
          ((paths.filterMap fun path => (fs path).text?).flatMap wordsOf,
            (paths.filter fun path => (fs path).text? = none).map failureLine)) ∧
      (∀ text more, wordsOf (text ++ "\n" ++ more) = wordsOf text ++ wordsOf more) ∧
      ∀ text words, wordsOf text = words ↔ (∀ word ∈ words, IsEntry word) ∧ Writes words text.toList :=
  ⟨fun fs home names list => readAll_eq fs home (names.get list), wordsOf_append, fun _ _ => wordsOf_eq_iff⟩

/-- Lines of every sort: a comment after blanks, a word with the sign of a
comment and one with a carriage return, and a last line without an ending. One
of the files is a directory, another is missing, and one is listed twice. -/
theorem files_wordsOf_mixed :
    let text := "# all\r\n\u00a0x#\r\n\n \t# no\ny\rz "
    let fs : FileSystem := fun path =>
      if path = "/w/a" then .text text else if path = "/w/b" then .unreadable else if path = "/w/c" then .text "x#" else .missing
    let words := ["x#", "y\rz"]
    ((∀ word ∈ words, IsEntry word) ∧ Writes words text.toList) ∧
      (files "/w" ⟨["a", "b", "c", "d", "a"], [], [], []⟩).query fs .main =
        (words ++ ["x#"] ++ words, [failureLine "/w/b", failureLine "/w/d"]) := by
  intro text fs words
  have hfirst : Line none ([] ++ '#' :: " all".toList) := .comment (List.forall_mem_nil _) _
  have hsecond : Line (some "x#") ("\u00a0".toList ++ "x#".toList ++ []) := .word (by decide +kernel) (List.forall_mem_nil _)
  have hindented : Line none (" \t".toList ++ '#' :: " no".toList) := .comment (by decide +kernel) _
  have hlast : Line (some "y\rz") ([] ++ "y\rz".toList ++ " ".toList) := .word (List.forall_mem_nil _) (by decide +kernel)
  have hlines := Writes.line hfirst (by decide +kernel) (.inr rfl) <| .line hsecond (by decide +kernel) (.inr rfl) <|
    .line (.blank (List.forall_mem_nil _)) List.not_mem_nil (.inl rfl) <|
      .line hindented (by decide +kernel) (.inl rfl) <| .last hlast (by decide +kernel)
  have hwrites : Writes words text.toList := by simpa [words, text] using hlines
  have hwords : ∀ word ∈ words, IsEntry word := by decide +kernel
  obtain ⟨hquery, -, hread⟩ := files_wordsOf
  have htext : wordsOf text = words := (hread text words).2 ⟨hwords, hwrites⟩
  have hword : wordsOf "x#" = ["x#"] := by decide +kernel
  refine ⟨⟨hwords, hwrites⟩, ?_⟩
  rw [hquery]
  simp [WordLists.get, fs, joinPath, Reading.text?, htext, hword]

end WordSource

end CacheScript
