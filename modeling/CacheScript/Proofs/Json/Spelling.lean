/-
Strings and numbers of a document, written and read again. A string comes back
whatever its characters are (`readString_writeString`). A number is read as far
as it goes, so what a writer puts after it makes no difference as long as that
cannot belong to a number (`readNumeral_append`); integers come back, and
doubles do when their own text does.
-/
import CacheScript.Json.Read
import CacheScript.Json.Write
import Mathlib.Data.List.TakeWhile

namespace CacheScript

namespace Raw

/-! ## Strings -/

/-- The piece as which a written character is read. -/
def pieceOf (c : Char) : Piece :=
  if c = '\x08' ∨ c = '\x0c' ∨ c = '\n' ∨ c = '\r' ∨ c = '\t' ∨ 0x20 ≤ c.toNat then .char c else .unit c.toNat

theorem hexUnit?_control : ∀ n < 0x20, hexUnit? '0' '0' (hexDigit (n / 16)) (hexDigit (n % 16)) = some n := by
  decide

theorem readPieces_plain {c : Char} (hquote : c ≠ '"') (hslash : c ≠ '\\') (hcontrol : ¬ c.toNat < 0x20)
    (rest : List Char) :
    readPieces (c :: rest) = (readPieces rest).map fun (pieces, rest) => (.char c :: pieces, rest) := by
  rw [readPieces.eq_5 c rest hquote (fun _ _ _ _ _ h => absurd h hslash) fun _ _ h => absurd h hslash]
  rw [if_neg (by simp [hcontrol, hslash])]
  cases readPieces rest <;> rfl

theorem readPieces_escaped {letter c : Char} (h : escaped? letter = some c) (hu : letter ≠ 'u') (rest : List Char) :
    readPieces ('\\' :: letter :: rest) = (readPieces rest).map fun (pieces, rest) => (.char c :: pieces, rest) := by
  rw [readPieces.eq_4 letter rest fun _ _ _ _ _ h => absurd h hu, h]
  cases readPieces rest <;> rfl

theorem readPieces_unit {n : Nat} (h : n < 0x20) (rest : List Char) :
    readPieces ('\\' :: 'u' :: '0' :: '0' :: hexDigit (n / 16) :: hexDigit (n % 16) :: rest) =
      (readPieces rest).map fun (pieces, rest) => (.unit n :: pieces, rest) := by
  rw [readPieces, hexUnit?_control n h]
  cases readPieces rest <;> rfl

theorem readPieces_writeChar (c : Char) (rest : List Char) :
    readPieces (writeChar c ++ rest) = (readPieces rest).map fun (pieces, rest) => (pieceOf c :: pieces, rest) := by
  by_cases hletter : c = '"' ∨ c = '\\' ∨ c = '\x08' ∨ c = '\x0c' ∨ c = '\n' ∨ c = '\r' ∨ c = '\t'
  · rcases hletter with rfl | rfl | rfl | rfl | rfl | rfl | rfl <;> exact readPieces_escaped rfl (by decide) rest
  · simp only [not_or] at hletter
    obtain ⟨hquote, hslash, hb, hf, hn, hr, ht⟩ := hletter
    by_cases hcontrol : c.toNat < 0x20
    · have hwrite : writeChar c = ['\\', 'u', '0', '0', hexDigit (c.toNat / 16), hexDigit (c.toNat % 16)] := by
        simp only [writeChar, hquote, hslash, hb, hf, hn, hr, ht, hcontrol, if_false, if_true]
      have hpiece : pieceOf c = .unit c.toNat := by
        rw [pieceOf, if_neg]
        simp only [hb, hf, hn, hr, ht, false_or]
        omega
      rw [hwrite, hpiece]
      exact readPieces_unit hcontrol rest
    · have hwrite : writeChar c = [c] := by
        simp only [writeChar, hquote, hslash, hb, hf, hn, hr, ht, hcontrol, if_false]
      have hpiece : pieceOf c = .char c := if_pos (by simp only [hb, hf, hn, hr, ht, false_or]; omega)
      rw [hwrite, hpiece]
      exact readPieces_plain hquote hslash hcontrol rest

theorem readPieces_flatMap (cs rest : List Char) :
    readPieces (cs.flatMap writeChar ++ '"' :: rest) = some (cs.map pieceOf, rest) := by
  induction cs with
  | nil => rfl
  | cons c cs ih => rw [List.flatMap_cons, List.append_assoc, readPieces_writeChar, ih]; rfl

/-- A unit that is no surrogate is a character of its own. -/
theorem characters?_unit {u : Nat} (h : u < 0xD800) (pieces : List Piece) :
    characters? (.unit u :: pieces) = (characters? pieces).map (Char.ofNat u :: ·) := by
  have hhigh : isHigh u = false := by
    simp only [isHigh, Bool.and_eq_false_iff, decide_eq_false_iff_not]
    omega
  have hlow : isLow u = false := by
    simp only [isLow, Bool.and_eq_false_iff, decide_eq_false_iff_not]
    omega
  rw [characters?.eq_def]
  split <;> simp_all

theorem characters?_pieceOf (c : Char) (pieces : List Piece) :
    characters? (pieceOf c :: pieces) = (characters? pieces).map (c :: ·) := by
  unfold pieceOf
  split
  · rfl
  · rename_i h
    simp only [not_or] at h
    rw [characters?_unit (by omega), Char.ofNat_toNat]

theorem characters?_map (cs : List Char) : characters? (cs.map pieceOf) = some cs := by
  induction cs with
  | nil => rfl
  | cons c cs ih => rw [List.map_cons, characters?_pieceOf, ih]; rfl

/-- **A string that was written is read again**, whatever follows it. -/
theorem readString_writeString (s : String) (rest : List Char) :
    readString (s.toList.flatMap writeChar ++ '"' :: rest) = some (some s, rest) := by
  rw [readString, readPieces_flatMap]
  simp [characters?_map]

/-! ## Numbers -/

/-- What may follow a number: nothing that could belong to it. -/
def EndsNumber (rest : List Char) : Prop :=
  ∀ c, rest.head? = some c → c.isDigit = false ∧ c ≠ '.' ∧ c ≠ 'e' ∧ c ≠ 'E'

theorem endsNumber_nil : EndsNumber [] := nofun

theorem endsNumber_cons {c : Char} (h : c = ',' ∨ c = ']' ∨ c = '\x7d') (rest : List Char) : EndsNumber (c :: rest) := by
  intro d hd
  cases hd
  rcases h with rfl | rfl | rfl <;> decide

variable {cs left rest : List Char}

theorem digits_append (h : EndsNumber rest) (cs : List Char) : digits (cs ++ rest) = digits cs := by
  have hrest : rest.takeWhile Char.isDigit = [] := by
    cases rest with
    | nil => rfl
    | cons c rest => simp [(h c rfl).1]
  rw [digits, digits, List.takeWhile_append, hrest, List.append_nil]
  split
  · rename_i hall
    exact ((List.takeWhile_prefix _).eq_of_length hall).symm
  · rfl

theorem afterDigits_append (h : EndsNumber rest) (cs : List Char) : afterDigits (cs ++ rest) = afterDigits cs ++ rest := by
  have hsplit : digits (cs ++ rest) ++ afterDigits (cs ++ rest) = digits cs ++ (afterDigits cs ++ rest) := by
    rw [digits, afterDigits, List.takeWhile_append_dropWhile, ← List.append_assoc, digits, afterDigits,
      List.takeWhile_append_dropWhile]
  rw [digits_append h] at hsplit
  exact List.append_cancel_left hsplit

/-- What a text starts with is not changed by what comes after it, -/
theorem ne_cons_append_of_ne_nil {c : Char} (hne : cs ≠ []) (hcs : ∀ tail, cs = c :: tail → False) (tail : List Char) :
    cs ++ rest = c :: tail → False := by
  intro h
  cases cs with
  | nil => exact hne rfl
  | cons d cs =>
    cases h
    exact hcs cs rfl

/-- nor is it when there is no text, unless what comes after starts with that. -/
theorem ne_cons_append {c : Char} (hrest : ∀ d, rest.head? = some d → d ≠ c) (hcs : ∀ tail, cs = c :: tail → False)
    (tail : List Char) : cs ++ rest = c :: tail → False := by
  cases cs with
  | nil =>
    rintro rfl
    exact hrest c rfl rfl
  | cons d cs => exact ne_cons_append_of_ne_nil (List.cons_ne_nil d cs) hcs tail

theorem readWhole_append (h : EndsNumber rest) {w : List Char} (hw : readWhole cs = some (w, left)) :
    readWhole (cs ++ rest) = some (w, left ++ rest) := by
  unfold readWhole at hw
  split at hw
  · cases hw
    rfl
  · rename_i hzero
    split at hw
    · cases hw
    · rename_i hdigits
      cases hw
      have hne : cs ≠ [] := by
        rintro rfl
        exact hdigits rfl
      rw [readWhole.eq_2 _ (ne_cons_append_of_ne_nil hne hzero), digits_append h, if_neg hdigits, afterDigits_append h]

theorem readFraction_append (h : EndsNumber rest) {fraction : Option (List Char)}
    (hf : readFraction cs = some (fraction, left)) : readFraction (cs ++ rest) = some (fraction, left ++ rest) := by
  unfold readFraction at hf
  split at hf
  · rename_i cs
    split at hf
    · cases hf
    · rename_i hdigits
      cases hf
      rw [List.cons_append, readFraction, digits_append h, if_neg hdigits, afterDigits_append h]
  · rename_i hpoint
    cases hf
    exact readFraction.eq_2 _ (ne_cons_append (fun c hc => (h c hc).2.1) hpoint)

theorem readPower_append (h : EndsNumber rest) {negative : Bool} {power : Option Int}
    (hp : readPower negative cs = some (power, left)) : readPower negative (cs ++ rest) = some (power, left ++ rest) := by
  unfold readPower at hp ⊢
  split at hp
  · cases hp
  · rename_i hdigits
    cases hp
    rw [digits_append h, if_neg hdigits, afterDigits_append h]

theorem readExponent_append (h : EndsNumber rest) {power : Option Int}
    (hp : readExponent cs = some (power, left)) : readExponent (cs ++ rest) = some (power, left ++ rest) := by
  -- an exponent has a digit, so its sign is decided before the end of the number
  have unsigned : ∀ {cs : List Char} {sign : Char}, readPower false cs = some (power, left) →
      (∀ tail, cs = sign :: tail → False) → ∀ tail, cs ++ rest = sign :: tail → False := by
    intro cs sign hp
    refine ne_cons_append_of_ne_nil ?_
    rintro rfl
    cases hp
  unfold readExponent at hp
  split at hp
  · exact readPower_append h hp
  · exact readPower_append h hp
  · exact readPower_append h hp
  · exact readPower_append h hp
  · rename_i cs hminus hplus
    rw [List.cons_append, readExponent.eq_5 _ (unsigned hp hminus) (unsigned hp hplus)]
    exact readPower_append h hp
  · rename_i cs hminus hplus
    rw [List.cons_append, readExponent.eq_6 _ (unsigned hp hminus) (unsigned hp hplus)]
    exact readPower_append h hp
  · rename_i he hE
    cases hp
    have hlower := ne_cons_append (fun c hc => (h c hc).2.2.1) he
    have hupper := ne_cons_append (fun c hc => (h c hc).2.2.2) hE
    exact readExponent.eq_7 _ (fun tail => hlower _) (fun tail => hupper _) (fun tail => hlower _)
      (fun tail => hupper _) hlower hupper

theorem readMagnitude_append (h : EndsNumber rest) {negative : Bool} {n : Numeral}
    (hn : readMagnitude negative cs = some (n, left)) : readMagnitude negative (cs ++ rest) = some (n, left ++ rest) := by
  simp only [readMagnitude, Option.bind_eq_bind, Option.bind_eq_some_iff, Prod.exists] at hn ⊢
  obtain ⟨whole, cs₁, hwhole, fraction, cs₂, hfraction, power, cs₃, hpower, hn⟩ := hn
  cases hn
  exact ⟨whole, _, readWhole_append h hwhole, fraction, _, readFraction_append h hfraction, power, _,
    readExponent_append h hpower, rfl⟩

/-- **A number is read as far as it goes**, whatever comes after its end. -/
theorem readNumeral_append (h : EndsNumber rest) {n : Numeral} (hn : readNumeral cs = some (n, left)) :
    readNumeral (cs ++ rest) = some (n, left ++ rest) := by
  unfold readNumeral at hn
  split at hn
  · exact readMagnitude_append h hn
  · rename_i hminus
    have hne : cs ≠ [] := by
      rintro rfl
      cases hn
    rw [readNumeral.eq_2 _ (ne_cons_append_of_ne_nil hne hminus)]
    exact readMagnitude_append h hn

/-! What a reader of numbers leaves is the end of what it was given. -/

theorem readWhole_suffix {w : List Char} (h : readWhole cs = some (w, left)) : left <:+ cs := by
  unfold readWhole at h
  split at h
  · cases h
    exact List.suffix_cons _ _
  · split at h
    · cases h
    · cases h
      exact List.dropWhile_suffix _

theorem readFraction_suffix {fraction : Option (List Char)} (h : readFraction cs = some (fraction, left)) :
    left <:+ cs := by
  unfold readFraction at h
  split at h
  · split at h
    · cases h
    · cases h
      exact (List.dropWhile_suffix _).trans (List.suffix_cons _ _)
  · cases h
    exact List.suffix_rfl

theorem readPower_suffix {negative : Bool} {power : Option Int} (h : readPower negative cs = some (power, left)) :
    left <:+ cs := by
  unfold readPower at h
  split at h
  · cases h
  · cases h
    exact List.dropWhile_suffix _

theorem readExponent_suffix {power : Option Int} (h : readExponent cs = some (power, left)) : left <:+ cs := by
  unfold readExponent at h
  split at h
  all_goals
    first
    | cases h; exact List.suffix_rfl
    | exact (readPower_suffix h).trans (List.suffix_cons _ _)
    | exact (readPower_suffix h).trans ((List.suffix_cons _ _).trans (List.suffix_cons _ _))

theorem readNumeral_suffix {n : Numeral} (h : readNumeral cs = some (n, left)) : left <:+ cs := by
  have magnitude : ∀ {negative : Bool} {cs : List Char}, readMagnitude negative cs = some (n, left) → left <:+ cs := by
    intro negative cs h
    simp only [readMagnitude, Option.bind_eq_bind, Option.bind_eq_some_iff, Prod.exists] at h
    obtain ⟨whole, cs₁, hwhole, fraction, cs₂, hfraction, power, cs₃, hpower, hn⟩ := h
    cases hn
    exact (readExponent_suffix hpower).trans ((readFraction_suffix hfraction).trans (readWhole_suffix hwhole))
  unfold readNumeral at h
  split at h
  · exact (magnitude h).trans (List.suffix_cons _ _)
  · exact magnitude h

/-! ### Integers -/

theorem toDigits_ne_zero_cons {n : Nat} (h : 0 < n) (tail : List Char) : Nat.toDigits 10 n = '0' :: tail → False := by
  induction n using Nat.strongRecOn generalizing tail with
  | _ n ih =>
    intro he
    rcases Nat.lt_or_ge n 10 with hlt | hge
    · rw [Nat.toDigits_of_lt_base hlt] at he
      have hdigit : ∀ m < 10, 0 < m → Nat.digitChar m ≠ '0' := by decide
      exact hdigit n hlt h (List.head_eq_of_cons_eq he)
    · rw [Nat.toDigits_of_base_le (by decide) hge] at he
      exact ne_cons_append_of_ne_nil Nat.toDigits_ne_nil (ih (n / 10) (by omega) (by omega)) tail he

theorem isDigit_of_mem_toDigits {n : Nat} {c : Char} (h : c ∈ Nat.toDigits 10 n) : c.isDigit = true :=
  Nat.isDigit_of_mem_toDigits (by decide) (by decide) h

theorem readWhole_toDigits (n : Nat) : readWhole (Nat.toDigits 10 n) = some (Nat.toDigits 10 n, []) := by
  rcases Nat.eq_zero_or_pos n with rfl | hn
  · rfl
  · have hall : ∀ c ∈ Nat.toDigits 10 n, c.isDigit = true := fun c => isDigit_of_mem_toDigits
    rw [readWhole.eq_2 _ (toDigits_ne_zero_cons hn), digits, afterDigits, List.takeWhile_eq_self_iff.2 hall,
      List.dropWhile_eq_nil_iff.2 hall, if_neg (by simp)]

theorem readNumeral_writeInt (value : Int) :
    readNumeral (writeInt value) = some (⟨decide (value < 0), Nat.toDigits 10 value.natAbs, none, none⟩, []) := by
  have magnitude : ∀ negative, readMagnitude negative (Nat.toDigits 10 value.natAbs) =
      some (⟨negative, Nat.toDigits 10 value.natAbs, none, none⟩, []) := by
    intro negative
    rw [readMagnitude, readWhole_toDigits]
    rfl
  unfold writeInt
  split
  · rename_i h
    rw [readNumeral, magnitude, decide_eq_true h]
  · rename_i h
    rw [readNumeral.eq_2, magnitude, decide_eq_false h]
    intro tail he
    have := isDigit_of_mem_toDigits (he ▸ List.mem_cons_self)
    cases this

end Raw

theorem Number.ofNumeral?_int (value : Int) (fits : -0x8000000000000000 ≤ value ∧ value < 0x10000000000000000) :
    Number.ofNumeral? ⟨decide (value < 0), Nat.toDigits 10 value.natAbs, none, none⟩ = some (.int value fits) := by
  have hmagnitude : Nat.ofDigitChars 10 (Nat.toDigits 10 value.natAbs) 0 = value.natAbs :=
    Nat.ofDigitChars_toDigits (by decide) (by decide)
  unfold Number.ofNumeral?
  simp only [hmagnitude]
  rcases Int.lt_or_le value 0 with h | h
  · rw [dif_neg (by simp [h]), dif_pos ⟨rfl, decide_eq_true h, by omega⟩]
    simp only [Option.some.injEq, Number.int.injEq]
    omega
  · rw [dif_pos ⟨rfl, decide_eq_false (by omega), by omega⟩]
    simp only [Option.some.injEq, Number.int.injEq]
    omega

end CacheScript
