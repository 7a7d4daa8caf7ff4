/-
Sorted dictionaries: every operation keeps them sorted, and a sorted
dictionary is settled by its look-ups (`Sorted.ext`).
-/
import CacheScript.Dict

namespace CacheScript.Dict
variable {α : Type}

theorem lt_of_not_le {a b : String} (hne : a ≠ b) (hlt : ¬ a < b) : b < a := by
  rcases Decidable.em (b < a) with h | h
  · exact h
  · exact absurd (String.le_antisymm (String.not_lt.1 h) (String.not_lt.1 hlt)) hne

theorem mem_put {d : Dict α} {name : String} {v : α} {entry : String × α} (h : entry ∈ d.put name v) :
    entry = (name, v) ∨ entry ∈ d := by
  induction d with
  | nil => simpa [put] using h
  | cons first d ih =>
    obtain ⟨k, w⟩ := first
    unfold put at h
    split at h
    · rcases List.mem_cons.1 h with h | h
      · exact .inl h
      · exact .inr (List.mem_cons_of_mem _ h)
    · split at h
      · rcases List.mem_cons.1 h with h | h
        · exact .inl h
        · exact .inr h
      · rcases List.mem_cons.1 h with h | h
        · exact .inr (h ▸ List.mem_cons_self)
        · exact (ih h).imp id (List.mem_cons_of_mem _)

theorem Sorted.nil : Sorted ([] : Dict α) := List.Pairwise.nil

theorem Sorted.put {d : Dict α} (h : Sorted d) (name : String) (v : α) : Sorted (d.put name v) := by
  induction d with
  | nil => simp [Sorted, Dict.put]
  | cons first d ih =>
    obtain ⟨k, w⟩ := first
    obtain ⟨hk, hd⟩ := List.pairwise_cons.1 h
    unfold Dict.put
    split
    · rename_i he
      subst he
      exact List.pairwise_cons.2 ⟨hk, hd⟩
    · rename_i hne
      split
      · rename_i hlt
        refine List.pairwise_cons.2 ⟨fun entry he => ?_, h⟩
        rcases List.mem_cons.1 he with rfl | he
        · exact hlt
        · exact String.lt_trans hlt (hk entry he)
      · rename_i hlt
        refine List.pairwise_cons.2 ⟨fun entry he => ?_, ih hd⟩
        rcases mem_put he with rfl | he
        · exact lt_of_not_le hne hlt
        · exact hk entry he

/-- No name occurs twice. -/
theorem Sorted.nodup {d : Dict α} (h : Sorted d) : (d.map (·.1)).Nodup := by
  refine List.pairwise_map.2 (h.imp fun {a b} hlt he => ?_)
  rw [he] at hlt
  exact String.lt_irrefl _ hlt

theorem Sorted.remove {d : Dict α} (h : Sorted d) (name : String) : Sorted (d.remove name) :=
  List.Pairwise.filter _ h

theorem sorted_foldl_put (entries : List (String × α)) {d : Dict α} (h : Sorted d) :
    Sorted (entries.foldl (fun d entry => d.put entry.1 entry.2) d) := by
  induction entries generalizing d with
  | nil => exact h
  | cons entry entries ih => exact ih (h.put entry.1 entry.2)

theorem sorted_ofList (entries : List (String × α)) : Sorted (ofList entries) :=
  sorted_foldl_put entries .nil

/-- A name below all names of a dictionary has no value there. -/
theorem value?_eq_none_of_lt {d : Dict α} {name : String} (h : ∀ entry ∈ d, name < entry.1) :
    d.value? name = none := by
  induction d with
  | nil => rfl
  | cons first d ih =>
    obtain ⟨k, w⟩ := first
    have hk : name ≠ k := fun he => String.lt_irrefl k (he ▸ h (k, w) List.mem_cons_self)
    rw [value?_cons, if_neg hk]
    exact ih fun entry he => h entry (List.mem_cons_of_mem _ he)

/-- Of a sorted dictionary every value is found under its name. -/
theorem Sorted.value?_of_mem {d : Dict α} (h : Sorted d) {entry : String × α} (he : entry ∈ d) :
    d.value? entry.1 = some entry.2 := by
  induction d with
  | nil => cases he
  | cons first d ih =>
    obtain ⟨k, v⟩ := first
    obtain ⟨hk, hd⟩ := List.pairwise_cons.1 h
    rw [value?_cons]
    rcases List.mem_cons.1 he with rfl | he
    · rw [if_pos rfl]
    · have hne : entry.1 ≠ k := fun heq => String.lt_irrefl k (heq ▸ hk entry he)
      rw [if_neg hne]
      exact ih hd he

theorem Sorted.filterMap {β : Type} {d : Dict α} (h : Sorted d) (f : α → Option β) :
    Sorted (d.filterMap fun entry => (f entry.2).map (entry.1, ·)) := by
  refine List.Pairwise.filterMap _ (fun a b hab c hc e he => ?_) h
  simp only [Option.map_eq_some_iff] at hc he
  obtain ⟨v, -, rfl⟩ := hc
  obtain ⟨w, -, rfl⟩ := he
  exact hab

/-- What a sorted dictionary answers when some of its values are left out. -/
theorem Sorted.value?_filterMap {β : Type} {d : Dict α} (h : Sorted d) (f : α → Option β) (name : String) :
    Dict.value? (d.filterMap fun entry => (f entry.2).map (entry.1, ·)) name = (d.value? name).bind f := by
  induction d with
  | nil => rfl
  | cons first d ih =>
    obtain ⟨k, v⟩ := first
    obtain ⟨hk, hd⟩ := List.pairwise_cons.1 h
    rw [value?_cons]
    cases hv : f v with
    | some w =>
      rw [List.filterMap_cons_some (by simp only [hv]; rfl), value?_cons]
      split
      · exact hv.symm
      · exact ih hd
    | none =>
      rw [List.filterMap_cons_none (by simp only [hv]; rfl), ih hd]
      split
      · rename_i he
        subst he
        rw [value?_eq_none_of_lt hk, Option.bind_some, hv]
        rfl
      · rfl

/-! ## Values changed one by one -/

theorem value?_map {β : Type} (d : Dict α) (f : α → β) (name : String) :
    value? (d.map fun (k, v) => (k, f v)) name = (d.value? name).map f := by
  induction d with
  | nil => rfl
  | cons first d ih =>
    obtain ⟨k, v⟩ := first
    rw [List.map_cons, value?_cons, value?_cons, ih]
    split <;> rfl

theorem map_put {β : Type} (d : Dict α) (f : α → β) (name : String) (v : α) :
    (d.put name v).map (fun (k, w) => (k, f w)) = put (d.map fun (k, w) => (k, f w)) name (f v) := by
  induction d with
  | nil => rfl
  | cons first d ih =>
    obtain ⟨k, w⟩ := first
    simp only [List.map_cons, put]
    split
    · rfl
    · split
      · rfl
      · rw [List.map_cons, ih]

theorem Sorted.map {β : Type} {d : Dict α} (h : Sorted d) (f : α → β) : Sorted (d.map fun (k, v) => (k, f v)) :=
  List.Pairwise.map _ (fun _ _ hlt => hlt) h

/-- Sorted dictionaries with the same look-ups are the same. -/
theorem Sorted.ext {d e : Dict α} (hd : Sorted d) (he : Sorted e)
    (h : ∀ name, d.value? name = e.value? name) : d = e := by
  induction d generalizing e with
  | nil =>
    cases e with
    | nil => rfl
    | cons first e =>
      obtain ⟨k, w⟩ := first
      simpa [value?_cons] using h k
  | cons first d ih =>
    obtain ⟨k, w⟩ := first
    obtain ⟨hk, hd'⟩ := List.pairwise_cons.1 hd
    cases e with
    | nil => simpa [value?_cons] using h k
    | cons second e =>
      obtain ⟨l, u⟩ := second
      obtain ⟨hl, he'⟩ := List.pairwise_cons.1 he
      have hkl : k = l := by
        rcases Decidable.em (k = l) with hkl | hne
        · exact hkl
        · exfalso
          rcases Decidable.em (k < l) with hlt | hlt
          · have hnone : Dict.value? ((l, u) :: e) k = none := value?_eq_none_of_lt fun entry hm => by
              rcases List.mem_cons.1 hm with rfl | hm
              · exact hlt
              · exact String.lt_trans hlt (hl entry hm)
            have := h k
            rw [hnone, value?_cons, if_pos rfl] at this
            cases this
          · have hgt := lt_of_not_le hne hlt
            have hnone : Dict.value? ((k, w) :: d) l = none := value?_eq_none_of_lt fun entry hm => by
              rcases List.mem_cons.1 hm with rfl | hm
              · exact hgt
              · exact String.lt_trans hgt (hk entry hm)
            have := h l
            rw [hnone, value?_cons, if_pos rfl] at this
            cases this
      subst hkl
      have hwu : w = u := by simpa [value?_cons] using h k
      subst hwu
      rw [ih hd' he' fun name => ?_]
      rcases Decidable.em (name = k) with hn | hn
      · subst hn
        rw [value?_eq_none_of_lt hk, value?_eq_none_of_lt hl]
      · have := h name
        rwa [value?_cons, value?_cons, if_neg hn, if_neg hn] at this

/-- When no name occurs twice, every entry is found under its name. -/
theorem value?_eq_some_iff {d : Dict α} (h : (d.map (·.1)).Nodup) {name : String} {v : α} :
    d.value? name = some v ↔ (name, v) ∈ d := by
  refine ⟨mem_of_value?, fun hm => ?_⟩
  induction d with
  | nil => cases hm
  | cons first d ih =>
    obtain ⟨k, w⟩ := first
    rw [List.map_cons, List.nodup_cons] at h
    rw [value?_cons]
    rcases List.mem_cons.1 hm with heq | hlater
    · cases heq
      rw [if_pos rfl]
    · have hne : name ≠ k := by
        rintro rfl
        exact h.1 (List.mem_map.2 ⟨_, hlater, rfl⟩)
      rw [if_neg hne, ih h.2 hlater]

theorem mem_ofList {entries : List (String × α)} {entry : String × α} (h : entry ∈ ofList entries) : entry ∈ entries := by
  have hvalue := (sorted_ofList entries).value?_of_mem h
  rw [value?_ofList] at hvalue
  exact List.mem_reverse.1 (mem_of_value? hvalue)

/-- The entries of a sorted dictionary make it up in any order. -/
theorem Sorted.ofList_perm {d : Dict α} (hd : Sorted d) {entries : List (String × α)} (h : entries.Perm d) :
    ofList entries = d := by
  have hreverse : entries.reverse.Perm d := entries.reverse_perm.trans h
  refine (sorted_ofList entries).ext hd fun name => Option.ext fun v => ?_
  rw [value?_ofList, value?_eq_some_iff ((hreverse.map _).nodup_iff.2 hd.nodup), value?_eq_some_iff hd.nodup,
    hreverse.mem_iff]

end CacheScript.Dict
