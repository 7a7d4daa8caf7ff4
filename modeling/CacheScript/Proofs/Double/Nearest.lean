/-
What rounding gives is nearest. Every double is a multiple of the smallest
positive one, and those at least as large as some power of two are multiples of
a common step; `nearestCode` takes the nearest multiple of the step of the
binade that the quotient is in, and a double of a lower binade is no nearer than
the power of two in between (`nearest_of_nearestCode`). A half goes to the even
code, so no other double can be taken for the nearest one.
-/
import CacheScript.Double
import Mathlib.Tactic.Ring

namespace CacheScript.Double

/-- A double in units of the smallest positive one. -/
def signedUnits (d : Double) : Int :=
  if d.negative then -d.units else d.units

/-- How far a double is from a natural number, which is `n * 2 ^ 1074` units. -/
def distance (n : Nat) (d : Double) : Nat :=
  (d.signedUnits - (n <<< 1074 : Nat)).natAbs

/-- No double is nearer to a natural number, and only one with an even code is as
near as another number is. -/
structure IsNearest (n : Nat) (d : Double) : Prop where
  le : ∀ e : Double, d.distance n ≤ e.distance n
  even : ∀ e : Double, e.distance n = d.distance n → e.signedUnits = d.signedUnits ∨ d.code % 2 = 0

/-! ## Rounding to a multiple -/

theorem roundDiv_cases (num den : Nat) :
    roundDiv num den = num / den ∧ 2 * (num % den) < den ∨
      roundDiv num den = num / den + 1 ∧ den < 2 * (num % den) ∨
      (roundDiv num den = num / den ∨ roundDiv num den = num / den + 1) ∧ 2 * (num % den) = den ∧
        roundDiv num den % 2 = 0 := by
  unfold roundDiv
  dsimp only
  split
  · omega
  · split <;> omega

/-- A multiple is no further up than the whole quotient, or no further down than
what comes next. -/
theorem multiple_le_or_le (num den k : Nat) : k * den ≤ num / den * den ∨ num / den * den + den ≤ k * den := by
  rcases Nat.lt_or_ge (num / den) k with h | h
  · rw [← Nat.succ_mul]
    exact .inr (Nat.mul_le_mul_right den h)
  · exact .inl (Nat.mul_le_mul_right den h)

/-- No multiple is nearer than that of the rounded quotient, and when another one
is as near, the rounded quotient is even. -/
theorem roundDiv_nearest (num den k : Nat) :
    ((roundDiv num den * den : Nat) - num : Int).natAbs ≤ ((k * den : Nat) - num : Int).natAbs ∧
      (((k * den : Nat) - num : Int).natAbs = ((roundDiv num den * den : Nat) - num : Int).natAbs →
        k * den = roundDiv num den * den ∨ roundDiv num den % 2 = 0) := by
  have hnum : num / den * den + num % den = num := Nat.div_add_mod' num den
  have hnext : (num / den + 1) * den = num / den * den + den := Nat.succ_mul _ _
  have hk := multiple_le_or_le num den k
  rcases Nat.eq_zero_or_pos den with rfl | hden
  · simp
  · have hmod := Nat.mod_lt num hden
    rcases roundDiv_cases num den with ⟨hr, hhalf⟩ | ⟨hr, hhalf⟩ | ⟨hr | hr, hhalf, heven⟩
    · rw [hr]; omega
    · rw [hr]; omega
    · exact ⟨by rw [hr]; omega, fun _ => .inr heven⟩
    · exact ⟨by rw [hr]; omega, fun _ => .inr heven⟩

theorem le_roundDiv (num den : Nat) : num / den ≤ roundDiv num den := by
  rcases roundDiv_cases num den with ⟨h, -⟩ | ⟨h, -⟩ | ⟨h, -⟩ <;> omega

theorem roundDiv_le (num den : Nat) : roundDiv num den ≤ num / den + 1 := by
  rcases roundDiv_cases num den with ⟨h, -⟩ | ⟨h, -⟩ | ⟨h, -⟩ <;> omega

/-! ## Codes -/

theorem hiddenBit_eq : hiddenBit = 2 ^ 52 := rfl

theorem significand_lt (d : Double) : d.significand < 2 ^ 53 := by
  have := Nat.mod_lt d.code (show 0 < hiddenBit by decide)
  unfold significand
  rw [hiddenBit_eq] at *
  split <;> omega

theorem units_eq (d : Double) : d.units = d.significand * 2 ^ d.shift :=
  Nat.shiftLeft_eq _ _

/-- What a code is made of, whatever the hidden bit is. -/
theorem code_parts {bit code shift m : Nat} (hcode : code = shift * bit + m) (hle : bit ≤ m) (hlt : m < 2 * bit) :
    code / bit = shift + 1 ∧ code % bit = m - bit := by
  have hbit : 0 < bit := by omega
  have hsplit : code = (m - bit) + (shift + 1) * bit := by
    rw [hcode, Nat.succ_mul]
    omega
  rw [hsplit, Nat.add_mul_div_right _ _ hbit, Nat.add_mul_mod_self_right]
  rw [Nat.div_eq_of_lt (by omega), Nat.mod_eq_of_lt (by omega)]
  exact ⟨by omega, rfl⟩

theorem units_of_parts {d : Double} {shift m : Nat} (hdiv : d.code / hiddenBit = shift + 1)
    (hmod : d.code % hiddenBit = m - hiddenBit) (hm : hiddenBit ≤ m) : d.units = m * 2 ^ shift := by
  have hge : ¬ d.code < hiddenBit := fun hlt => by
    rw [Nat.div_eq_of_lt hlt] at hdiv
    omega
  rw [units_eq, significand, Double.shift, if_neg hge, hdiv, hmod, Nat.add_sub_cancel, Nat.add_sub_cancel' hm]

/-- The double of a significand at a shift. The power of two after the largest
significand is the hidden bit at the next shift. -/
theorem units_of_code {d : Double} {shift m : Nat} (hcode : d.code = shift * hiddenBit + m) (hm : m ≤ 2 * hiddenBit)
    (hshift : 0 < shift → hiddenBit ≤ m) : d.units = m * 2 ^ shift := by
  rcases Nat.lt_or_ge m hiddenBit with hlt | hge
  · have hzero : shift = 0 := by omega
    subst hzero
    have hm : d.code = m := by omega
    rw [units_eq, significand, Double.shift, hm, if_pos hlt, Nat.div_eq_of_lt hlt]
  · rcases Nat.lt_or_ge m (2 * hiddenBit) with hlt | hge'
    · obtain ⟨hdiv, hmod⟩ := code_parts hcode hge hlt
      exact units_of_parts hdiv hmod hge
    · have hcode : d.code = (shift + 1) * hiddenBit + hiddenBit := by
        rw [hcode, Nat.succ_mul]
        omega
      obtain ⟨hdiv, hmod⟩ := code_parts hcode le_rfl (by rw [hiddenBit_eq]; decide)
      rw [units_of_parts hdiv hmod le_rfl, show m = hiddenBit * 2 by omega, Nat.pow_succ', Nat.mul_assoc]

/-! ## Rounding to a double -/

/-- The shift of the binade that a quotient is in. -/
def binade (num den : Nat) : Nat := ((num <<< 1074) / den).log2 + 1 - 53

/-- The rounded significand. -/
def rounded (num den : Nat) : Nat := roundDiv (num <<< 1074) (den <<< binade num den)

theorem nearestCode_eq (num den : Nat) : nearestCode num den = binade num den * hiddenBit + rounded num den := rfl

variable {num den : Nat}

theorem rounded_le (num den : Nat) : rounded num den ≤ 2 * hiddenBit := by
  have hlt : num <<< 1074 / den < 2 ^ (53 + binade num den) :=
    Nat.lt_log2_self.trans_le (Nat.pow_le_pow_right (by decide) (by unfold binade; omega))
  have hdiv : num <<< 1074 / (den <<< binade num den) < 2 ^ 53 := by
    rw [Nat.shiftLeft_eq den, ← Nat.div_div_eq_div_mul, Nat.div_lt_iff_lt_mul (Nat.two_pow_pos _), ← Nat.pow_add]
    exact hlt
  have := roundDiv_le (num <<< 1074) (den <<< binade num den)
  rw [rounded, hiddenBit_eq]
  omega

/-- Above the lowest binade the quotient reaches the hidden bit. -/
theorem le_scaled (h : 0 < den) (hb : 0 < binade num den) :
    hiddenBit * (den <<< binade num den) ≤ num <<< 1074 := by
  have hne : num <<< 1074 / den ≠ 0 := by
    intro hz
    simp [binade, hz] at hb
  have hlog := Nat.log2_self_le hne
  have hpow : 2 ^ (num <<< 1074 / den).log2 = hiddenBit * 2 ^ binade num den := by
    rw [hiddenBit_eq, ← Nat.pow_add]
    congr 1
    unfold binade at hb ⊢
    omega
  rw [hpow, Nat.le_div_iff_mul_le h] at hlog
  rwa [Nat.shiftLeft_eq, Nat.mul_comm den, ← Nat.mul_assoc]

theorem le_rounded (h : 0 < den) (hb : 0 < binade num den) : hiddenBit ≤ rounded num den := by
  have hpos : 0 < den <<< binade num den := by
    rw [Nat.shiftLeft_eq]
    exact Nat.mul_pos h (Nat.two_pow_pos _)
  exact ((Nat.le_div_iff_mul_le hpos).2 (le_scaled h hb)).trans (le_roundDiv _ _)

theorem nearestCode_le (num den : Nat) : nearestCode num den ≤ (binade num den + 2) * hiddenBit := by
  have := rounded_le num den
  rw [nearestCode_eq, Nat.add_mul]
  omega

theorem units_of_nearestCode (h : 0 < den) {d : Double} (hd : d.code = nearestCode num den) :
    d.units * den = rounded num den * (den <<< binade num den) := by
  rw [units_of_code (hd.trans (nearestCode_eq num den)) (rounded_le num den) (le_rounded h), Nat.shiftLeft_eq,
    Nat.mul_assoc, Nat.mul_comm den]

/-- A double of a lower binade is at most the power of two in between. -/
theorem units_le_of_shift_lt {e : Double} (hlt : e.shift < binade num den) :
    e.units * den ≤ hiddenBit * (den <<< binade num den) := by
  have hunits : e.units ≤ hiddenBit * 2 ^ binade num den := by
    calc e.units = e.significand * 2 ^ e.shift := e.units_eq
      _ ≤ 2 ^ 53 * 2 ^ e.shift := Nat.mul_le_mul_right _ e.significand_lt.le
      _ = hiddenBit * 2 ^ (e.shift + 1) := by rw [hiddenBit_eq]; ring
      _ ≤ hiddenBit * 2 ^ binade num den := Nat.mul_le_mul_left _ (Nat.pow_le_pow_right (by decide) hlt)
  calc e.units * den ≤ hiddenBit * 2 ^ binade num den * den := Nat.mul_le_mul_right den hunits
    _ = hiddenBit * (den <<< binade num den) := by rw [Nat.shiftLeft_eq]; ring

/-- A double is a multiple of the step of the binade, or below a multiple that is
not above the quotient. -/
theorem exists_multiple (num : Nat) (h : 0 < den) (e : Double) :
    ∃ k, e.units * den = k * (den <<< binade num den) ∨
      e.units * den ≤ k * (den <<< binade num den) ∧ k * (den <<< binade num den) ≤ num <<< 1074 := by
  rcases Nat.lt_or_ge e.shift (binade num den) with hlt | hge
  · exact ⟨hiddenBit, .inr ⟨units_le_of_shift_lt hlt, le_scaled h (Nat.zero_lt_of_lt hlt)⟩⟩
  · obtain ⟨more, hmore⟩ := Nat.exists_eq_add_of_le hge
    refine ⟨e.significand * 2 ^ more, .inl ?_⟩
    rw [e.units_eq, hmore, Nat.shiftLeft_eq]
    ring

/-- A code is even when its significand is. -/
theorem nearestCode_mod (h : rounded num den % 2 = 0) : nearestCode num den % 2 = 0 := by
  rw [nearestCode_eq, hiddenBit_eq]
  omega

/-- **No double is nearer to a quotient** than that of `nearestCode`, and when
another one is as near, its code is even. -/
theorem nearest_of_nearestCode (h : 0 < den) {d : Double} (hd : d.code = nearestCode num den) (e : Double) :
    ((d.units * den : Nat) - (num <<< 1074 : Nat) : Int).natAbs ≤
        ((e.units * den : Nat) - (num <<< 1074 : Nat) : Int).natAbs ∧
      (((e.units * den : Nat) - (num <<< 1074 : Nat) : Int).natAbs =
          ((d.units * den : Nat) - (num <<< 1074 : Nat) : Int).natAbs →
        e.units = d.units ∨ d.code % 2 = 0) := by
  obtain ⟨k, hk⟩ := exists_multiple num h e
  obtain ⟨hnear, htie⟩ := roundDiv_nearest (num <<< 1074) (den <<< binade num den) k
  rw [show roundDiv _ _ = rounded num den from rfl, ← units_of_nearestCode h hd] at hnear htie
  refine ⟨by omega, fun heq => ?_⟩
  rcases htie (by omega) with hsame | heven
  · -- nothing is between the double and the multiple
    have hsame : e.units * den = d.units * den := by omega
    exact .inl (Nat.eq_of_mul_eq_mul_right h hsame)
  · rw [hd]
    exact .inr (nearestCode_mod heven)

/-! ## Natural numbers -/

theorem signedUnits_cases (d : Double) : d.signedUnits = d.units ∨ d.signedUnits = -d.units := by
  unfold signedUnits
  split <;> simp

theorem isNearest_of_code {n : Nat} {d : Double} (hsign : d.negative = false) (hd : d.code = nearestCode n 1) :
    d.IsNearest n := by
  have hnear := nearest_of_nearestCode (by decide) hd
  have hpositive : d.signedUnits = d.units := if_neg (by simp [hsign])
  -- a negative double is no nearer than zero is
  have hzero := hnear (zero false)
  have hunits : (zero false).units = 0 := by decide
  rw [hunits] at hzero
  constructor
  · intro e
    have hother := (hnear e).1
    unfold distance
    rw [hpositive]
    generalize n <<< 1074 = scaled at hzero hother ⊢
    rcases e.signedUnits_cases with he | he <;> rw [he] <;> omega
  · intro e heq
    have hother := (hnear e).2
    unfold distance at heq
    rw [hpositive] at heq ⊢
    generalize n <<< 1074 = scaled at hzero heq hother
    rcases e.signedUnits_cases with he | he <;> rw [he] at heq ⊢ <;> omega

theorem log2_shiftLeft_lt {n k : Nat} (j : Nat) (hk : 0 < k) (h : n < 2 ^ k) : (n <<< j).log2 < k + j := by
  rcases Nat.eq_zero_or_pos n with rfl | hn
  · rw [Nat.zero_shiftLeft, Nat.log2_zero]
    omega
  · rw [Nat.shiftLeft_eq, Nat.log2_lt (Nat.mul_pos hn (Nat.two_pow_pos j)).ne', Nat.pow_add]
    exact Nat.mul_lt_mul_of_pos_right h (Nat.two_pow_pos j)

/-- Natural numbers of 64 bits are in the range of doubles. -/
theorem nearestCode_lt {n : Nat} (h : n < 2 ^ 64) : nearestCode n 1 < infinityCode := by
  have hbinade : binade n 1 ≤ 1085 := by
    have hlog := log2_shiftLeft_lt 1074 (by decide) h
    rw [binade, Nat.div_one]
    generalize (n <<< 1074).log2 = l at hlog ⊢
    omega
  calc nearestCode n 1 ≤ (binade n 1 + 2) * hiddenBit := nearestCode_le n 1
    _ ≤ 1087 * hiddenBit := Nat.mul_le_mul_right _ (by omega)
    _ < infinityCode := by decide

/-- Natural numbers of 64 bits have a nearest double. -/
theorem exists_ofNat? {n : Nat} (h : n < 2 ^ 64) : ∃ d, ofNat? n = some d ∧ d.IsNearest n :=
  ⟨⟨false, nearestCode n 1, nearestCode_lt h⟩, dif_pos (nearestCode_lt h), isNearest_of_code rfl rfl⟩

end CacheScript.Double
