/-
Documents, written and read again. Reading the compact text of a document gives
the document back, provided that its doubles read back, its members are in
order and it is nested no deeper than a reader goes (`parse?_compact`); and
what is read is always such a document, doubles apart (`ordered_of_parse?`).

The proof goes by way of the raw document in between. Reading it off the text is
one induction over the document, with the rest of the text and the fuel as
parameters; taking it for a document is another, with the depth that is left.
-/
import CacheScript.Proofs.Json.Doubles
import CacheScript.Dict.Sorted

namespace CacheScript

/-- What a written number is read as. -/
def Number.raw (k : Number) : Raw :=
  match Raw.readNumeral k.write with
  | some (n, _) => .number n
  | none => .null

namespace Json

mutual
/-- What a written document is read as. -/
def raw : Json → Raw
  | null => .null
  | bool b => .bool b
  | num k => k.raw
  | str s => .text (some s)
  | arr items => .array (raws items)
  | obj members => .object (rawMembers members)

/-- What the items of an array are read as. -/
def raws : List Json → List Raw
  | [] => []
  | item :: items => item.raw :: raws items

/-- What the members of an object are read as. -/
def rawMembers : List (String × Json) → List (Option String × Raw)
  | [] => []
  | (name, item) :: members => (some name, item.raw) :: rawMembers members
end

mutual
/-- The doubles in a document. -/
def doubles : Json → List Double
  | num (.double d) => [d]
  | arr items => doublesIn items
  | obj members => doublesAmong members
  | _ => []

/-- The doubles in the items of an array. -/
def doublesIn : List Json → List Double
  | [] => []
  | item :: items => item.doubles ++ doublesIn items

/-- The doubles in the members of an object. -/
def doublesAmong : List (String × Json) → List Double
  | [] => []
  | (_, item) :: members => item.doubles ++ doublesAmong members
end

end Json

/-! ## Numbers -/

theorem Number.reads {k : Number} (h : ∀ d ∈ (Json.num k).doubles, d.ReadsBack) :
    ∃ n, Raw.readNumeral k.write = some (n, []) ∧ k.raw = .number n ∧ Number.ofNumeral? n = some k := by
  have hread : ∃ n, Raw.readNumeral k.write = some (n, []) ∧ Number.ofNumeral? n = some k := by
    cases k with
    | int value fits => exact ⟨_, Raw.readNumeral_writeInt value, Number.ofNumeral?_int value fits⟩
    | double d => exact Double.ReadsBack.readNumeral (h d List.mem_cons_self)
  obtain ⟨n, hn, hk⟩ := hread
  exact ⟨n, hn, by rw [raw, hn], hk⟩

namespace Raw

/-- A number starts with its sign or a digit. -/
theorem head_of_readNumeral {cs left : List Char} {n : Numeral} (h : readNumeral cs = some (n, left)) :
    ∃ c tail, cs = c :: tail ∧ (c = '-' ∨ c.isDigit = true) := by
  cases cs with
  | nil => cases h
  | cons c tail =>
    refine ⟨c, tail, rfl, ?_⟩
    by_cases hminus : c = '-'
    · exact .inl hminus
    · by_cases hzero : c = '0'
      · exact .inr (by rw [hzero]; decide)
      · by_cases hdigit : c.isDigit = true
        · exact .inr hdigit
        · rw [readNumeral.eq_2 _ (by rintro cs ⟨⟩; exact hminus rfl), readMagnitude,
            readWhole.eq_2 _ (by rintro cs ⟨⟩; exact hzero rfl)] at h
          simp [digits, hdigit] at h

theorem readValue_number {cs left : List Char} {n : Numeral} (h : readNumeral cs = some (n, left)) (fuel : Nat) :
    readValue (fuel + 1) cs = some (.number n, left) := by
  obtain ⟨c, tail, rfl, hc⟩ := head_of_readNumeral h
  have hspace : skipSpace (c :: tail) = c :: tail := by
    have hsolid : isSpace c = false := by
      rcases hc with rfl | hc
      · decide
      · exact isSpace_of_isDigit hc
    rw [skipSpace, List.dropWhile_cons_of_neg (by simp [hsolid])]
  have hother : ∀ {d : Char} {other : List Char}, d ≠ '-' → d.isDigit = false → c :: tail ≠ d :: other := by
    rintro d other hminus hdigit ⟨⟩
    rcases hc with rfl | hc
    · exact hminus rfl
    · rw [hdigit] at hc
      cases hc
  unfold readValue
  rw [hspace]
  split
  · exact absurd ‹_› (hother (by decide) (by decide))
  · exact absurd ‹_› (hother (by decide) (by decide))
  · exact absurd ‹_› (hother (by decide) (by decide))
  · exact absurd ‹_› (hother (by decide) (by decide))
  · exact absurd ‹_› (hother (by decide) (by decide))
  · exact absurd ‹_› (hother (by decide) (by decide))
  · rw [h]
    rfl

theorem readValue_string (s : String) (fuel : Nat) (rest : List Char) :
    readValue (fuel + 1) (writeString s ++ rest) = some (.text (some s), rest) := by
  have hread := readString_writeString s rest
  simp only [writeString, List.cons_append, List.append_assoc, List.nil_append]
  show (readString (s.toList.flatMap writeChar ++ '"' :: rest)).map _ = _
  rw [hread]
  rfl

theorem readValue_array {cs : List Char} {c : Char} {tail : List Char} (hcs : cs = c :: tail) (hc : isSpace c = false)
    (hclose : c ≠ ']') (fuel : Nat) :
    readValue (fuel + 1) ('[' :: cs) = (readItems fuel cs).map fun read => (.array read.1, read.2) := by
  have hspace : skipSpace cs = cs := by
    rw [hcs, skipSpace, List.dropWhile_cons_of_neg (by simp [hc])]
  have hbracket : skipSpace ('[' :: cs) = '[' :: cs := rfl
  simp only [readValue, hbracket, hspace]
  split
  · cases hcs
    exact absurd rfl hclose
  · rfl

theorem readItems_last {fuel : Nat} {cs rest : List Char} {item : Raw} (h : readValue fuel cs = some (item, ']' :: rest)) :
    readItems (fuel + 1) cs = some ([item], rest) := by
  rw [readItems, h]
  rfl

theorem readItems_cons {fuel : Nat} {cs rest : List Char} {item : Raw} {items : List Raw} (more : List Char)
    (h : readValue fuel cs = some (item, ',' :: more)) (hmore : readItems fuel more = some (items, rest)) :
    readItems (fuel + 1) cs = some (item :: items, rest) := by
  rw [readItems, h]
  show (readItems fuel more >>= _) = _
  rw [hmore]
  rfl

theorem readValue_object (cs : List Char) (fuel : Nat) :
    readValue (fuel + 1) ('\x7b' :: '"' :: cs) =
      (readMembers fuel ('"' :: cs)).map fun read => (.object read.1, read.2) := rfl

theorem readMembers_last {fuel : Nat} {cs rest : List Char} {item : Raw} (name : String)
    (h : readValue fuel cs = some (item, '\x7d' :: rest)) :
    readMembers (fuel + 1) (writeString name ++ ':' :: cs) = some ([(some name, item)], rest) := by
  have hname := readString_writeString name (':' :: cs)
  simp only [writeString, List.cons_append, List.append_assoc, List.nil_append]
  show (readString (name.toList.flatMap writeChar ++ '"' :: ':' :: cs) >>= _) = _
  rw [hname]
  show (readValue fuel cs >>= _) = _
  rw [h]
  rfl

theorem readMembers_cons {fuel : Nat} {cs rest : List Char} {item : Raw} {members : List (Option String × Raw)}
    (name : String) (more : List Char) (h : readValue fuel cs = some (item, ',' :: more))
    (hmore : readMembers fuel more = some (members, rest)) :
    readMembers (fuel + 1) (writeString name ++ ':' :: cs) = some ((some name, item) :: members, rest) := by
  have hname := readString_writeString name (':' :: cs)
  simp only [writeString, List.cons_append, List.append_assoc, List.nil_append]
  show (readString (name.toList.flatMap writeChar ++ '"' :: ':' :: cs) >>= _) = _
  rw [hname]
  show (readValue fuel cs >>= _) = _
  rw [h]
  show (readMembers fuel more >>= _) = _
  rw [hmore]
  rfl

end Raw

namespace Json

/-- Every document starts with a character that is no blank and closes no array. -/
theorem head_write {j : Json} (h : ∀ d ∈ j.doubles, d.ReadsBack) :
    ∃ c tail, j.write = c :: tail ∧ Raw.isSpace c = false ∧ c ≠ ']' := by
  cases j with
  | num k =>
    obtain ⟨n, hn, -, -⟩ := Number.reads h
    obtain ⟨c, tail, hwrite, hc⟩ := Raw.head_of_readNumeral hn
    refine ⟨c, tail, hwrite, ?_⟩
    rcases hc with rfl | hc
    · decide
    · refine ⟨Raw.isSpace_of_isDigit hc, ?_⟩
      rintro rfl
      exact absurd hc (by decide)
  | null => exact ⟨_, _, rfl, by decide, by decide⟩
  | bool b => cases b <;> exact ⟨_, _, rfl, by decide, by decide⟩
  | str s => exact ⟨_, _, rfl, by decide, by decide⟩
  | arr items => cases items <;> exact ⟨_, _, rfl, by decide, by decide⟩
  | obj members => cases members <;> exact ⟨_, _, rfl, by decide, by decide⟩

open Raw (EndsNumber readValue readItems readMembers)

theorem endsNumber_writeItems (items : List Json) (rest : List Char) : EndsNumber (writeItems items ++ rest) := by
  cases items with
  | nil => exact Raw.endsNumber_cons (by simp) _
  | cons item items => exact Raw.endsNumber_cons (by simp) _

theorem endsNumber_writeMembers (members : List (String × Json)) (rest : List Char) :
    EndsNumber (writeMembers members ++ rest) := by
  cases members with
  | nil => exact Raw.endsNumber_cons (by simp) _
  | cons member members => exact Raw.endsNumber_cons (by simp) _

mutual
/-- The text of a document is read off the front of what it stands before. -/
theorem readValue_write : ∀ (j : Json) (fuel : Nat) (rest : List Char), (∀ d ∈ j.doubles, d.ReadsBack) →
    EndsNumber rest → 2 * j.write.length ≤ fuel → readValue fuel (j.write ++ rest) = some (j.raw, rest)
  | j, 0, rest, hd, hr, hf => by
    obtain ⟨c, tail, hwrite, -⟩ := head_write hd
    rw [hwrite] at hf
    cases hf
  | null, fuel + 1, rest, hd, hr, hf => rfl
  | bool true, fuel + 1, rest, hd, hr, hf => rfl
  | bool false, fuel + 1, rest, hd, hr, hf => rfl
  | num k, fuel + 1, rest, hd, hr, hf => by
    obtain ⟨n, hn, hraw, -⟩ := Number.reads hd
    rw [write_num, raw, hraw]
    exact Raw.readValue_number (Raw.readNumeral_append hr hn) fuel
  | str s, fuel + 1, rest, hd, hr, hf => Raw.readValue_string s fuel rest
  | arr [], fuel + 1, rest, hd, hr, hf => rfl
  | arr (item :: items), fuel + 1, rest, hd, hr, hf => by
    simp only [doubles, doublesIn, List.mem_append, or_imp, forall_and] at hd
    obtain ⟨c, tail, hwrite, hspace, hclose⟩ := head_write hd.1
    simp only [write_arr_cons, List.length_cons, List.length_append] at hf
    have hitems := readItems_write item items fuel rest hd.1 hd.2 (by omega)
    simp only [write_arr_cons, List.cons_append, List.append_assoc] at hitems ⊢
    rw [Raw.readValue_array (by rw [hwrite]; rfl) hspace hclose, hitems]
    rfl
  | obj [], fuel + 1, rest, hd, hr, hf => rfl
  | obj ((name, item) :: members), fuel + 1, rest, hd, hr, hf => by
    simp only [doubles, doublesAmong, List.mem_append, or_imp, forall_and] at hd
    simp only [write_obj_cons, List.length_cons, List.length_append] at hf
    have hmembers := readMembers_write name item members fuel rest hd.1 hd.2 (by omega)
    simp only [write_obj_cons, writeString, List.cons_append, List.append_assoc, List.nil_append] at hmembers ⊢
    rw [Raw.readValue_object, hmembers]
    rfl

/-- The items of an array are read up to its closing bracket. -/
theorem readItems_write : ∀ (item : Json) (items : List Json) (fuel : Nat) (rest : List Char),
    (∀ d ∈ item.doubles, d.ReadsBack) → (∀ d ∈ doublesIn items, d.ReadsBack) →
    2 * (item.write.length + (writeItems items).length) < fuel →
    readItems fuel (item.write ++ (writeItems items ++ rest)) = some (item.raw :: raws items, rest)
  | _, _, 0, _, _, _, hf => absurd hf (Nat.not_lt_zero _)
  | item, items, fuel + 1, rest, hd, hds, hf => by
    have hitem := readValue_write item fuel (writeItems items ++ rest) hd (endsNumber_writeItems items rest) (by omega)
    cases items with
    | nil => exact Raw.readItems_last hitem
    | cons next items =>
      simp only [doublesIn, List.mem_append, or_imp, forall_and] at hds
      simp only [writeItems, List.length_cons, List.length_append] at hf
      have hmore := readItems_write next items fuel rest hds.1 hds.2 (by omega)
      refine Raw.readItems_cons (next.write ++ (writeItems items ++ rest)) ?_ hmore
      simpa [writeItems] using hitem

/-- The members of an object are read up to its closing brace. -/
theorem readMembers_write : ∀ (name : String) (item : Json) (members : List (String × Json)) (fuel : Nat)
    (rest : List Char), (∀ d ∈ item.doubles, d.ReadsBack) → (∀ d ∈ doublesAmong members, d.ReadsBack) →
    2 * ((writeString name).length + item.write.length + (writeMembers members).length) < fuel →
    readMembers fuel (writeString name ++ ':' :: (item.write ++ (writeMembers members ++ rest))) =
      some ((some name, item.raw) :: rawMembers members, rest)
  | _, _, _, 0, _, _, _, hf => absurd hf (Nat.not_lt_zero _)
  | name, item, members, fuel + 1, rest, hd, hds, hf => by
    have hitem := readValue_write item fuel (writeMembers members ++ rest) hd (endsNumber_writeMembers members rest)
      (by omega)
    cases members with
    | nil => exact Raw.readMembers_last name hitem
    | cons member members =>
      obtain ⟨next, value⟩ := member
      simp only [doublesAmong, List.mem_append, or_imp, forall_and] at hds
      simp only [writeMembers, List.length_cons, List.length_append] at hf
      have hmore := readMembers_write next value members fuel rest hds.1 hds.2 (by omega)
      refine Raw.readMembers_cons name (writeString next ++ ':' :: (value.write ++ (writeMembers members ++ rest))) ?_ hmore
      simpa [writeMembers] using hitem
end

/-! ## Taking what was read for a document -/

theorem depthItems_le {items : List Json} {depth : Nat} :
    depthItems items ≤ depth ↔ ∀ item ∈ items, item.depth ≤ depth := by
  induction items with
  | nil => simp [depthItems]
  | cons item items ih => rw [depthItems, Nat.max_le, ih, List.forall_mem_cons]

theorem depthMembers_le {members : List (String × Json)} {depth : Nat} :
    depthMembers members ≤ depth ↔ ∀ member ∈ members, member.2.depth ≤ depth := by
  induction members with
  | nil => simp [depthMembers]
  | cons member members ih => rw [depthMembers, Nat.max_le, ih, List.forall_mem_cons]

theorem forall_doublesAmong {members : List (String × Json)} {p : Double → Prop} :
    (∀ d ∈ doublesAmong members, p d) ↔ ∀ member ∈ members, ∀ d ∈ member.2.doubles, p d := by
  induction members with
  | nil => simp [doublesAmong]
  | cons member members ih => simp [doublesAmong, or_imp, forall_and, ih]

theorem orderedItems_iff {items : List Json} : OrderedItems items ↔ ∀ item ∈ items, item.Ordered := by
  induction items with
  | nil => simp [OrderedItems]
  | cons item items ih => simp [OrderedItems, ih]

theorem orderedMembers_iff {members : List (String × Json)} :
    OrderedMembers members ↔ ∀ member ∈ members, member.2.Ordered := by
  induction members with
  | nil => simp [OrderedMembers]
  | cons member members ih => simp [OrderedMembers, ih]

mutual
/-- What a document was read as is taken for that document. -/
theorem ofRaw?_raw : ∀ (j : Json) (depth : Nat), (∀ d ∈ j.doubles, d.ReadsBack) → j.Ordered → j.depth ≤ depth →
    ofRaw? depth j.raw = some j
  | null, depth, _, _, _ => rfl
  | bool b, depth, _, _, _ => rfl
  | num k, depth, hd, _, _ => by
    obtain ⟨n, -, hraw, hk⟩ := Number.reads hd
    rw [raw, hraw, ofRaw?, hk]
    rfl
  | str s, depth, _, _, _ => rfl
  | arr items, 0, _, _, hdepth => absurd hdepth (Nat.not_succ_le_zero _)
  | arr items, depth + 1, hd, ho, hdepth => by
    have hitems := itemsOfRaw?_raws items depth hd ho (Nat.le_of_succ_le_succ hdepth)
    rw [raw, ofRaw?, hitems]
    rfl
  | obj members, 0, _, _, hdepth => absurd hdepth (Nat.not_succ_le_zero _)
  | obj members, depth + 1, hd, ho, hdepth => by
    have hmembers := membersOfRaw?_rawMembers members depth hd ho.2 (Nat.le_of_succ_le_succ hdepth)
    rw [raw, ofRaw?, hmembers, Option.map_some, ho.1.ofList_perm (.refl members)]

theorem itemsOfRaw?_raws : ∀ (items : List Json) (depth : Nat), (∀ d ∈ doublesIn items, d.ReadsBack) →
    OrderedItems items → depthItems items ≤ depth → itemsOfRaw? depth (raws items) = some items
  | [], depth, _, _, _ => rfl
  | item :: items, depth, hd, ho, hdepth => by
    simp only [doublesIn, List.mem_append, or_imp, forall_and] at hd
    rw [depthItems, Nat.max_le] at hdepth
    rw [raws, itemsOfRaw?, ofRaw?_raw item depth hd.1 ho.1 hdepth.1]
    rw [itemsOfRaw?_raws items depth hd.2 ho.2 hdepth.2]
    rfl

theorem membersOfRaw?_rawMembers : ∀ (members : List (String × Json)) (depth : Nat),
    (∀ d ∈ doublesAmong members, d.ReadsBack) → OrderedMembers members → depthMembers members ≤ depth →
    membersOfRaw? depth (rawMembers members) = some members
  | [], depth, _, _, _ => rfl
  | (name, item) :: members, depth, hd, ho, hdepth => by
    simp only [doublesAmong, List.mem_append, or_imp, forall_and] at hd
    rw [depthMembers, Nat.max_le] at hdepth
    have hmembers := membersOfRaw?_rawMembers members depth hd.2 ho.2 hdepth.2
    simp [rawMembers, membersOfRaw?, ofRaw?_raw item depth hd.1 ho.1 hdepth.1, hmembers]
end

mutual
/-- What is taken for a document is in order, and as deep as it may be. -/
theorem ordered_of_ofRaw? : ∀ {raw : Raw} {depth : Nat} {j : Json}, ofRaw? depth raw = some j →
    j.Ordered ∧ j.depth ≤ depth
  | .null, _, _, h | .bool _, _, _, h => by
    cases h
    exact ⟨trivial, Nat.zero_le _⟩
  | .number n, _, _, h => by
    obtain ⟨k, -, rfl⟩ := Option.map_eq_some_iff.1 h
    exact ⟨trivial, Nat.zero_le _⟩
  | .text s, _, _, h => by
    obtain ⟨t, -, rfl⟩ := Option.map_eq_some_iff.1 h
    exact ⟨trivial, Nat.zero_le _⟩
  | .array items, depth + 1, _, h => by
    obtain ⟨items', hitems, rfl⟩ := Option.map_eq_some_iff.1 h
    have := ordered_of_itemsOfRaw? hitems
    exact ⟨orderedItems_iff.2 fun item hi => (this item hi).1,
      Nat.succ_le_succ (depthItems_le.2 fun item hi => (this item hi).2)⟩
  | .object members, depth + 1, _, h => by
    obtain ⟨members', hmembers, rfl⟩ := Option.map_eq_some_iff.1 h
    have := ordered_of_membersOfRaw? hmembers
    refine ⟨⟨Dict.sorted_ofList members', orderedMembers_iff.2 fun member hm => ?_⟩,
      Nat.succ_le_succ (depthMembers_le.2 fun member hm => ?_)⟩
    · exact (this member (Dict.mem_ofList hm)).1
    · exact (this member (Dict.mem_ofList hm)).2
  | .array _, 0, _, h | .object _, 0, _, h => nomatch h

theorem ordered_of_itemsOfRaw? : ∀ {raws : List Raw} {depth : Nat} {items : List Json},
    itemsOfRaw? depth raws = some items → ∀ item ∈ items, item.Ordered ∧ item.depth ≤ depth
  | [], _, _, h => by
    cases h
    exact nofun
  | raw :: raws, depth, _, h => by
    simp only [itemsOfRaw?, Option.bind_eq_bind, Option.bind_eq_some_iff, Option.some.injEq] at h
    obtain ⟨item, hitem, items, hitems, rfl⟩ := h
    exact List.forall_mem_cons.2 ⟨ordered_of_ofRaw? hitem, ordered_of_itemsOfRaw? hitems⟩

theorem ordered_of_membersOfRaw? : ∀ {raws : List (Option String × Raw)} {depth : Nat} {members : List (String × Json)},
    membersOfRaw? depth raws = some members → ∀ member ∈ members, member.2.Ordered ∧ member.2.depth ≤ depth
  | [], _, _, h => by
    cases h
    exact nofun
  | (name, raw) :: raws, depth, _, h => by
    simp only [membersOfRaw?, Option.bind_eq_bind, Option.bind_eq_some_iff, Option.some.injEq] at h
    obtain ⟨name, -, item, hitem, members, hmembers, rfl⟩ := h
    exact List.forall_mem_cons.2 ⟨ordered_of_ofRaw? hitem, ordered_of_membersOfRaw? hmembers⟩
end

/-! ## Whole texts -/

/-- The raw document of a written one is read off its text. -/
theorem rawParse?_compact {j : Json} (h : ∀ d ∈ j.doubles, d.ReadsBack) : Raw.parse? j.compact = some j.raw := by
  have hread := readValue_write j (2 * j.write.length + 2) [] h Raw.endsNumber_nil (by omega)
  rw [List.append_nil] at hread
  simp only [Raw.parse?, compact, String.toList_ofList, hread]
  rfl

/-- **A written document is read as what it was.** -/
theorem parse?_compact {j : Json} (hd : ∀ d ∈ j.doubles, d.ReadsBack) (ho : j.Ordered) (hdepth : j.depth ≤ maxDepth) :
    parse? j.compact = some j := by
  rw [parse?, rawParse?_compact hd, Option.bind_some, ofRaw?_raw j maxDepth hd ho hdepth]

theorem ordered_of_parse? {text : String} {j : Json} (h : parse? text = some j) : j.Ordered ∧ j.depth ≤ maxDepth := by
  obtain ⟨raw, -, h⟩ := Option.bind_eq_some_iff.1 h
  exact ordered_of_ofRaw? h

end Json

/-! ## Single doubles -/

/-- Whether a double reads back is settled by reading its text as a number. -/
theorem Double.readsBack_iff {d : Double} :
    d.ReadsBack ↔ ((Raw.readNumeral (Layout.document.write d)).bind fun read =>
      if read.2 = [] then Number.ofNumeral? read.1 else none) = some (.double d) := by
  constructor
  · intro h
    obtain ⟨n, hn, hd⟩ := h.readNumeral
    rw [hn]
    exact hd
  · intro h
    obtain ⟨⟨n, rest⟩, hn, h⟩ := Option.bind_eq_some_iff.1 h
    split at h
    · rename_i hrest
      cases hrest
      have hread : Raw.parse? (Json.num (.double d)).compact = some (.number n) := by
        simp only [Raw.parse?, Json.compact, String.toList_ofList, Json.write_num, Number.write,
          Raw.readValue_number hn (2 * (Layout.document.write d).length + 1)]
        rfl
      rw [ReadsBack, Json.parse?, hread, Option.bind_some, Json.ofRaw?, h]
      rfl
    · cases h

instance (d : Double) : Decidable d.ReadsBack :=
  decidable_of_iff _ Double.readsBack_iff.symm

/-- One half, which is among the doubles that read back. -/
def Double.half : Double := ⟨false, 0x3FE0000000000000, by decide⟩

theorem Double.readsBack_half : half.ReadsBack := by
  decide +kernel

end CacheScript
