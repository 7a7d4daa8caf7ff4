/-
Blank characters and trimming. Names between the braces of a reference,
items of a word list and lines of a word file are all trimmed by the same
rule, which is the Unicode property White_Space: it has the no-break space
U+00A0 but not the zero-width space U+200B.

What trimming leaves has no blank at either end (`isTrimmed_trimChars`), the
text is that with blanks around it (`exists_trimChars`), and of a trimmed text
any blanks around it go away again (`IsTrimmed.trimChars_surrounded`).
-/

namespace CacheScript.Text

/-- The characters with the Unicode property White_Space. -/
def isBlank (c : Char) : Bool :=
  let n := c.toNat
  (0x09 ≤ n && n ≤ 0x0D) || n == 0x20 || n == 0x85 || n == 0xA0 || n == 0x1680 ||
    (0x2000 ≤ n && n ≤ 0x200A) || n == 0x2028 || n == 0x2029 || n == 0x202F || n == 0x205F ||
    n == 0x3000

/-- Characters without the blanks at their front and at their end. -/
def trimChars (cs : List Char) : List Char :=
  ((cs.dropWhile isBlank).reverse.dropWhile isBlank).reverse

/-- A text without the blanks at its front and at its end. -/
def trim (s : String) : String :=
  String.ofList (trimChars s.toList)

@[simp] theorem toList_trim (s : String) : (trim s).toList = trimChars s.toList := by
  simp [trim]

@[simp] theorem trimChars_nil : trimChars [] = [] := rfl

theorem dropWhile_eq_self {p : Char → Bool} {cs : List Char} (h : ∀ c, cs.head? = some c → p c = false) :
    cs.dropWhile p = cs := by
  cases cs with
  | nil => rfl
  | cons c cs => simp [h c rfl]

/-! ## What trimming takes away -/

/-- Nothing but blanks. -/
def AllBlank (cs : List Char) : Prop :=
  ∀ c ∈ cs, isBlank c = true

/-- No blank at the front and none at the end. -/
structure IsTrimmed (cs : List Char) : Prop where
  front : ∀ c, cs.head? = some c → isBlank c = false
  back : ∀ c, cs.getLast? = some c → isBlank c = false

instance (cs : List Char) : Decidable (AllBlank cs) :=
  List.decidableBAll (fun c => isBlank c = true) cs

instance (cs : List Char) : Decidable (IsTrimmed cs) :=
  decidable_of_iff (cs.head?.all (!isBlank ·) = true ∧ cs.getLast?.all (!isBlank ·) = true) <| by
    simp only [Option.all_eq_true, Bool.not_eq_true']
    exact ⟨fun h => ⟨h.1, h.2⟩, fun h => ⟨h.front, h.back⟩⟩

theorem AllBlank.trimChars {cs : List Char} (h : AllBlank cs) : trimChars cs = [] := by
  have hdrop : (cs ++ []).dropWhile isBlank = [] := List.dropWhile_append_of_pos h
  rw [List.append_nil] at hdrop
  rw [Text.trimChars, hdrop]
  rfl

/-- Blanks around a text go away. -/
theorem IsTrimmed.trimChars_surrounded {before cs after : List Char} (hbefore : AllBlank before) (hafter : AllBlank after)
    (h : IsTrimmed cs) : trimChars (before ++ cs ++ after) = cs := by
  cases cs with
  | nil =>
    rw [List.append_nil]
    exact AllBlank.trimChars fun c hc => (List.mem_append.1 hc).elim (hbefore c) (hafter c)
  | cons c cs =>
    have hfront : (c :: cs ++ after).dropWhile isBlank = c :: cs ++ after :=
      dropWhile_eq_self fun d hd => h.front d hd
    have hback : (c :: cs).reverse.dropWhile isBlank = (c :: cs).reverse :=
      dropWhile_eq_self fun d hd => h.back d (by rwa [List.head?_reverse] at hd)
    rw [trimChars, List.append_assoc, List.dropWhile_append_of_pos hbefore, hfront, List.reverse_append,
      List.dropWhile_append_of_pos fun d hd => hafter d (List.mem_reverse.1 hd), hback, List.reverse_reverse]

theorem allBlank_takeWhile (cs : List Char) : AllBlank (cs.takeWhile isBlank) :=
  List.all_eq_true.1 List.all_takeWhile

/-- What is taken away from the end is blank. -/
theorem exists_dropWhile_eq (cs : List Char) :
    ∃ after, AllBlank after ∧ cs.dropWhile isBlank = trimChars cs ++ after := by
  refine ⟨((cs.dropWhile isBlank).reverse.takeWhile isBlank).reverse,
    fun c hc => allBlank_takeWhile _ c (List.mem_reverse.1 hc), ?_⟩
  rw [trimChars, ← List.reverse_append, List.takeWhile_append_dropWhile, List.reverse_reverse]

/-- A text is what trimming leaves of it, with blanks around. -/
theorem exists_trimChars (cs : List Char) :
    ∃ before after, AllBlank before ∧ AllBlank after ∧ cs = before ++ trimChars cs ++ after := by
  obtain ⟨after, hafter, hdrop⟩ := exists_dropWhile_eq cs
  refine ⟨cs.takeWhile isBlank, after, allBlank_takeWhile cs, hafter, ?_⟩
  rw [List.append_assoc, ← hdrop, List.takeWhile_append_dropWhile]

theorem head?_dropWhile {p : Char → Bool} {cs : List Char} {c : Char} (h : (cs.dropWhile p).head? = some c) :
    p c = false := by
  have := List.head?_dropWhile_not p cs
  rwa [h] at this

theorem isTrimmed_trimChars (cs : List Char) : IsTrimmed (trimChars cs) where
  front c hc := by
    obtain ⟨after, -, hdrop⟩ := exists_dropWhile_eq cs
    obtain ⟨rest, hrest⟩ := List.head?_eq_some_iff.1 hc
    have hhead : (cs.dropWhile isBlank).head? = some c := by
      rw [hdrop, hrest]
      rfl
    exact head?_dropWhile hhead
  back c hc := by
    rw [trimChars, List.getLast?_reverse] at hc
    exact head?_dropWhile hc

theorem trimChars_append_of_allBlank (cs : List Char) {after : List Char} (h : AllBlank after) :
    trimChars (cs ++ after) = trimChars cs := by
  obtain ⟨before, tail, hbefore, htail, hcs⟩ := exists_trimChars cs
  have htails : AllBlank (tail ++ after) := fun c hc => (List.mem_append.1 hc).elim (htail c) (h c)
  calc trimChars (cs ++ after) = trimChars (before ++ trimChars cs ++ (tail ++ after)) := by
        rw [← List.append_assoc, ← hcs]
    _ = trimChars cs := (isTrimmed_trimChars cs).trimChars_surrounded hbefore htails

theorem mem_of_mem_trimChars {cs : List Char} {c : Char} (h : c ∈ trimChars cs) : c ∈ cs := by
  obtain ⟨before, after, -, -, hcs⟩ := exists_trimChars cs
  rw [hcs]
  exact List.mem_append_left _ (List.mem_append_right _ h)

theorem allBlank_of_trimChars_eq_nil {cs : List Char} (h : trimChars cs = []) : AllBlank cs := by
  obtain ⟨before, after, hbefore, hafter, hcs⟩ := exists_trimChars cs
  rw [h, List.append_nil] at hcs
  rw [hcs]
  exact fun c hc => (List.mem_append.1 hc).elim (hbefore c) (hafter c)

end CacheScript.Text
