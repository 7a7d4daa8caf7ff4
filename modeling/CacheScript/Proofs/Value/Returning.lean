/-
Documents that are bound to a name and written again. What comes back is the
document itself, except that a value has no objects and no integers of 64 bits:
an object comes back as its compact text, whatever is inside it, and an integer
above the largest of 63 bits as the nearest double (`returns_toJson`).

Nothing changes when that is bound and written once more, so a value loses only
what it loses the first time.
-/
import CacheScript.Proofs.Double.Nearest
import CacheScript.Proofs.Json.Rereading
import CacheScript.Value.Json

namespace CacheScript

namespace Json

mutual
/-- There is no object in the document, and no integer above `2 ^ 63 - 1`. -/
def Plain : Json → Prop
  | num (.int n _) => n < 0x8000000000000000
  | arr items => PlainItems items
  | obj _ => False
  | _ => True

/-- The same of all items of an array. -/
def PlainItems : List Json → Prop
  | [] => True
  | item :: items => item.Plain ∧ PlainItems items
end

mutual
/-- A document comes back as another: the same, with the compact text in the
place of each object that is in no other, and the nearest double in the place of
each integer above `2 ^ 63 - 1` that is in no object. -/
def ReturnsAs : Json → Json → Prop
  | num (.int n fits), k =>
    if n < 0x8000000000000000 then k = num (.int n fits)
    else ∃ d : Double, d.IsNearest n.toNat ∧ k = num (.double d)
  | arr items, k => ∃ others, k = arr others ∧ ReturnAs items others
  | obj members, k => k = str (obj members).compact
  | j, k => k = j

/-- Items come back as others, one by one. -/
def ReturnAs : List Json → List Json → Prop
  | [], others => others = []
  | item :: items, others => ∃ other rest, others = other :: rest ∧ item.ReturnsAs other ∧ ReturnAs items rest
end

mutual
/-- The objects of a document that are in no other object. -/
def outermost : Json → List Json
  | arr items => outermostIn items
  | obj members => [obj members]
  | _ => []

/-- The outermost objects in the items of an array. -/
def outermostIn : List Json → List Json
  | [] => []
  | item :: items => item.outermost ++ outermostIn items
end

end Json

/-! ## Numbers -/

theorem ExtendedDouble.ofNat_eq {n : Nat} {d : Double} (h : Double.ofNat? n = some d) : ofNat n = .finite d :=
  congrArg (ofNearest false) h

namespace Number

variable {n : Int} (fits : -0x8000000000000000 ≤ n ∧ n < 0x10000000000000000)

theorem toJson_toValue_of_lt (h : n < 0x8000000000000000) : (int n fits).toValue.toJson = .num (.int n fits) := by
  have hlow : -2 ^ 63 ≤ n := fits.1
  have hn : (Int64.ofInt n).toInt = n := Int64.toInt_ofInt_of_le hlow h
  have hvalue : (int n fits).toValue = .int (Int64.ofInt n) := if_pos h
  simp only [hvalue, Value.toJson, hn]

theorem exists_toValue_of_le (h : ¬ n < 0x8000000000000000) :
    ∃ d : Double, (int n fits).toValue = .float (.finite d) ∧ d.IsNearest n.toNat := by
  obtain ⟨d, hd, hnear⟩ := Double.exists_ofNat? (n := n.toNat) (by omega)
  have hvalue : (int n fits).toValue = .float (.ofNat n.toNat) := if_neg h
  exact ⟨d, by rw [hvalue, ExtendedDouble.ofNat_eq hd], hnear⟩

theorem equal_self (k : Number) : k.equal k = true := by
  cases k with
  | int n fits => simp [equal]
  | double d => exact d.equal_self

end Number

namespace Json

/-! ## What comes back -/

mutual
theorem returnsAs_toJson : ∀ j : Json, j.ReturnsAs j.toValue.toJson
  | null | bool _ | str _ | num (.double _) => rfl
  | num (.int n fits) => by
    rw [ReturnsAs, toValue]
    split
    · rename_i h
      exact Number.toJson_toValue_of_lt fits h
    · rename_i h
      obtain ⟨d, hd, hnear⟩ := Number.exists_toValue_of_le fits h
      exact ⟨d, hnear, by rw [hd, Value.toJson]⟩
  | arr items => ⟨_, rfl, returnAs_toJsons items⟩
  | obj members => rfl

theorem returnAs_toJsons : ∀ items : List Json, ReturnAs items (Value.toJsons (toValues items))
  | [] => rfl
  | item :: items => ⟨_, _, rfl, returnsAs_toJson item, returnAs_toJsons items⟩
end

mutual
/-- What comes back is bound as what was bound before. -/
theorem toValue_toJson : ∀ j : Json, j.toValue.toJson.toValue = j.toValue
  | null | bool _ | str _ | num (.double _) | obj _ => rfl
  | num (.int n fits) => by
    by_cases h : n < 0x8000000000000000
    · rw [toValue, Number.toJson_toValue_of_lt fits h, toValue]
    · obtain ⟨d, hd, -⟩ := Number.exists_toValue_of_le fits h
      rw [toValue, hd]
      rfl
  | arr items => by
    rw [toValue, Value.toJson, toValue, toValues_toJsons items]

theorem toValues_toJsons : ∀ items : List Json, toValues (Value.toJsons (toValues items)) = toValues items
  | [] => rfl
  | item :: items => by
    rw [toValues, Value.toJsons, toValues, toValue_toJson item, toValues_toJsons items]
end

mutual
theorem equal_self : ∀ j : Json, j.equal j = true
  | null => rfl
  | bool b => by simp [equal]
  | num k => k.equal_self
  | str s => by simp [equal]
  | arr items => equalItems_self items
  | obj members => equalMembers_self members

theorem equalItems_self : ∀ items : List Json, equalItems items items = true
  | [] => rfl
  | item :: items => by rw [equalItems, equal_self item, equalItems_self items]; rfl

theorem equalMembers_self : ∀ members : List (String × Json), equalMembers members members = true
  | [] => rfl
  | (name, item) :: members => by
    rw [equalMembers, equal_self item, equalMembers_self members]
    simp
end

mutual
/-- A plain document comes back as it is, -/
theorem Plain.eq_of_returnsAs : ∀ {j k : Json}, j.Plain → j.ReturnsAs k → k = j
  | null, _, _, h | bool _, _, _, h | str _, _, _, h | num (.double _), _, _, h => h
  | num (.int n fits), k, hp, h => by
    rw [Plain] at hp
    rwa [ReturnsAs, if_pos hp] at h
  | arr items, _, hp, ⟨others, h, hitems⟩ => by
    rw [h, PlainItems.eq_of_returnAs hp hitems]

theorem PlainItems.eq_of_returnAs : ∀ {items others : List Json}, PlainItems items → ReturnAs items others → others = items
  | [], _, _, h => h
  | item :: items, _, hp, ⟨other, rest, h, hitem, hitems⟩ => by
    rw [h, Plain.eq_of_returnsAs hp.1 hitem, PlainItems.eq_of_returnAs hp.2 hitems]
end

mutual
/-- and what comes back equal was plain. -/
theorem plain_of_equal : ∀ {j k : Json}, j.ReturnsAs k → k.equal j = true → j.Plain
  | null, _, _, _ | bool _, _, _, _ | str _, _, _, _ | num (.double _), _, _, _ => trivial
  | num (.int n fits), k, h, he => by
    rw [ReturnsAs] at h
    split at h
    · assumption
    · obtain ⟨d, -, rfl⟩ := h
      cases he
  | arr items, _, ⟨others, h, hitems⟩, he => by
    subst h
    exact plainItems_of_equal hitems he
  | obj members, _, h, he => by
    rw [ReturnsAs] at h
    subst h
    cases he

theorem plainItems_of_equal : ∀ {items others : List Json}, ReturnAs items others → equalItems others items = true →
    PlainItems items
  | [], _, _, _ => trivial
  | item :: items, _, ⟨other, rest, h, hitem, hitems⟩, he => by
    subst h
    rw [equalItems, Bool.and_eq_true] at he
    exact ⟨plain_of_equal hitem he.1, plainItems_of_equal hitems he.2⟩
end

mutual
theorem ordered_outermost : ∀ {j o : Json}, j.Ordered → o ∈ j.outermost → o.Ordered ∧ o.depth ≤ j.depth
  | arr items, o, h, ho => (ordered_outermostIn h ho).imp id Nat.le_succ_of_le
  | obj members, o, h, ho => by
    rw [List.mem_singleton.1 ho]
    exact ⟨h, Nat.le_refl _⟩
  | null, _, _, ho | bool _, _, _, ho | num _, _, _, ho | str _, _, _, ho => nomatch ho

theorem ordered_outermostIn : ∀ {items : List Json} {o : Json}, OrderedItems items → o ∈ outermostIn items →
    o.Ordered ∧ o.depth ≤ depthItems items
  | [], _, _, ho => nomatch ho
  | item :: items, o, h, ho => by
    rw [depthItems]
    rcases List.mem_append.1 ho with ho | ho
    · exact (ordered_outermost h.1 ho).imp id fun hle => Nat.le_trans hle (Nat.le_max_left _ _)
    · exact (ordered_outermostIn h.2 ho).imp id fun hle => Nat.le_trans hle (Nat.le_max_right _ _)
end

/-- **What comes back of a document** that was read, bound and written again. It
is equal to the document exactly when that was plain, it is bound as the
document was, and each text in it that stands for an object is read as that
object, as far as the doubles inside read back. -/
theorem returns_toJson {text : String} {j : Json} (h : parse? text = some j) :
    j.ReturnsAs j.toValue.toJson ∧
      (j.toValue.toJson = j ↔ j.Plain) ∧ (j.toValue.toJson.equal j = true ↔ j.Plain) ∧
      j.toValue.toJson.toValue = j.toValue ∧
      ∀ o ∈ j.outermost, (∀ d ∈ o.doubles, d.ReadsBack) → parse? o.compact = some o := by
  have hreturns := returnsAs_toJson j
  have hsame : j.Plain → j.toValue.toJson = j := fun hp => hp.eq_of_returnsAs hreturns
  refine ⟨hreturns, ⟨fun heq => ?_, hsame⟩, ⟨plain_of_equal hreturns, fun hp => ?_⟩, toValue_toJson j, fun o ho hd => ?_⟩
  · exact plain_of_equal hreturns (by rw [heq]; exact equal_self j)
  · rw [hsame hp]
    exact equal_self j
  · obtain ⟨hordered, hdepth⟩ := ordered_of_parse? h
    obtain ⟨hordered', hdepth'⟩ := ordered_outermost hordered ho
    exact parse?_compact hd hordered' (hdepth'.trans hdepth)

/-- An object with a double in it, and a quote in a name. -/
def priced : Json :=
  .obj [("a\"b", .arr [.bool true]), ("price", .num (.double .half))]

/-- An integer of 63 bits, one of 64 bits, and an object in an array. -/
def mixed : Json :=
  .arr [.num (.int (-7) (by decide)), .num (.int 0xFFFFFFFFFFFFFFFF (by decide)), .arr [priced, .null]]

theorem returns_toJson_mixed :
    parse? mixed.compact = some mixed ∧ ¬ mixed.toValue.toJson = mixed ∧
      mixed.toValue.toJson.compact =
        "[-7,1.8446744073709552e+19,[\"\x7b\\\"a\\\\\\\"b\\\":[true],\\\"price\\\":0.5\x7d\",null]]" ∧
      parse? priced.compact = some priced := by
  have hdoubles : ∀ d ∈ mixed.doubles, d.ReadsBack := by
    intro d hd
    rw [List.mem_singleton.1 hd]
    exact Double.readsBack_half
  have hordered : mixed.Ordered := by
    refine ⟨trivial, trivial, ⟨⟨List.pairwise_pair.2 ?_, ⟨trivial, trivial⟩, trivial, trivial⟩, trivial, trivial⟩, trivial⟩
    decide
  have h : parse? mixed.compact = some mixed := parse?_compact hdoubles hordered (by decide)
  obtain ⟨-, hsame, -, -, hback⟩ := returns_toJson h
  exact ⟨h, fun heq => (hsame.1 heq).2.2.1.1, by decide +kernel, hback priced (.head _) hdoubles⟩

end Json

end CacheScript
