/-
Dictionaries: lists of named values kept in increasing order of their names
(by code point). Objects of a document are printed in that order, so it is
part of what a dictionary is.

The look-up laws hold of every list, whatever its order. `Sorted` says that
the order is kept and no name occurs twice.
-/

namespace CacheScript

/-- Named values, in increasing order of the names. -/
abbrev Dict (α : Type) := List (String × α)

namespace Dict

variable {α β : Type}

/-- The value under a name. -/
def value? : Dict α → String → Option α
  | [], _ => none
  | (k, v) :: d, name => if name = k then some v else value? d name

/-- Whether there is a value under a name. -/
def has (d : Dict α) (name : String) : Bool :=
  (d.value? name).isSome

/-- Set the value under a name, replacing any there was. -/
def put : Dict α → String → α → Dict α
  | [], name, v => [(name, v)]
  | (k, w) :: d, name, v =>
    if name = k then (name, v) :: d
    else if name < k then (name, v) :: (k, w) :: d
    else (k, w) :: put d name v

/-- Drop the value under a name. -/
def remove (d : Dict α) (name : String) : Dict α :=
  d.filter fun entry => entry.1 ≠ name

/-- The dictionary of a list of named values; of several with one name the
last counts. -/
def ofList (entries : List (String × α)) : Dict α :=
  entries.foldl (fun d entry => put d entry.1 entry.2) []

/-- The names come in strictly increasing order. -/
def Sorted (d : Dict α) : Prop :=
  d.Pairwise fun a b => a.1 < b.1

@[simp] theorem value?_nil (name : String) : value? ([] : Dict α) name = none := rfl

theorem value?_cons (k : String) (v : α) (d : Dict α) (name : String) :
    value? ((k, v) :: d) name = if name = k then some v else value? d name := rfl

@[simp] theorem value?_put_self (d : Dict α) (name : String) (v : α) :
    (d.put name v).value? name = some v := by
  induction d with
  | nil => simp [put, value?_cons]
  | cons entry d ih =>
    obtain ⟨k, w⟩ := entry
    unfold put
    split
    · simp [value?_cons]
    · split
      · simp [value?_cons]
      · rename_i hne _
        simp [value?_cons, hne, ih]

theorem value?_put_other (d : Dict α) {name other : String} (v : α) (h : other ≠ name) :
    (d.put name v).value? other = d.value? other := by
  induction d with
  | nil => simp [put, value?_cons, h]
  | cons entry d ih =>
    obtain ⟨k, w⟩ := entry
    unfold put
    split
    · rename_i he
      subst he
      simp [value?_cons, h]
    · split
      · simp [value?_cons, h]
      · simp [value?_cons, ih]

/-- What a dictionary answers after a `put`. -/
theorem value?_put (d : Dict α) (name other : String) (v : α) :
    (d.put name v).value? other = if other = name then some v else d.value? other := by
  split
  · rename_i h; subst h; exact value?_put_self d other v
  · rename_i h; exact value?_put_other d v h

/-- Entries put in from the back: the first of one name is put in last, and stays. -/
theorem value?_foldr_put (entries : Dict α) (name : String) :
    value? (entries.foldr (fun entry d => put d entry.1 entry.2) []) name = entries.value? name := by
  induction entries with
  | nil => rfl
  | cons entry entries ih =>
    obtain ⟨k, v⟩ := entry
    rw [List.foldr_cons, value?_put, value?_cons, ih]

theorem value?_ofList (entries : List (String × α)) (name : String) :
    (ofList entries).value? name = value? entries.reverse name := by
  rw [← value?_foldr_put entries.reverse, List.foldr_reverse]
  rfl

/-- Of two values put under one name the second stays. -/
theorem put_put (d : Dict α) (name : String) (v w : α) : (d.put name v).put name w = d.put name w := by
  induction d with
  | nil => simp [put]
  | cons entry d ih =>
    obtain ⟨k, u⟩ := entry
    by_cases hk : name = k
    · simp [put, hk]
    · by_cases hlt : name < k
      · simp [put, hk, hlt]
      · simp [put, hk, hlt, ih]

@[simp] theorem value?_remove_self (d : Dict α) (name : String) : (d.remove name).value? name = none := by
  induction d with
  | nil => rfl
  | cons entry d ih =>
    obtain ⟨k, w⟩ := entry
    unfold remove at ih ⊢
    rw [List.filter_cons]
    split
    · rename_i hk
      simp only [decide_eq_true_eq] at hk
      rw [value?_cons, if_neg (fun h => hk h.symm)]
      exact ih
    · exact ih

theorem value?_remove_other (d : Dict α) {name other : String} (h : other ≠ name) :
    (d.remove name).value? other = d.value? other := by
  induction d with
  | nil => rfl
  | cons entry d ih =>
    obtain ⟨k, w⟩ := entry
    unfold remove at ih ⊢
    rw [List.filter_cons]
    split
    · rw [value?_cons, value?_cons, ih]
    · rename_i hk
      simp only [decide_eq_true_eq, Decidable.not_not] at hk
      subst hk
      rw [ih, value?_cons, if_neg h]

/-- What a dictionary answers after a `remove`. -/
theorem value?_remove (d : Dict α) (name other : String) :
    (d.remove name).value? other = if other = name then none else d.value? other := by
  split
  · rename_i h; subst h; exact value?_remove_self d other
  · rename_i h; exact value?_remove_other d h

theorem mem_of_value? {d : Dict α} {name : String} {v : α} (h : d.value? name = some v) :
    (name, v) ∈ d := by
  induction d with
  | nil => simp at h
  | cons entry d ih =>
    obtain ⟨k, w⟩ := entry
    rw [value?_cons] at h
    split at h
    · rename_i he
      cases h
      subst he
      exact List.mem_cons_self
    · exact List.mem_cons_of_mem _ (ih h)

theorem exists_value?_of_mem {d : Dict α} {name : String} {v : α} (h : (name, v) ∈ d) :
    ∃ w, d.value? name = some w := by
  induction d with
  | nil => cases h
  | cons entry d ih =>
    obtain ⟨k, w⟩ := entry
    rw [value?_cons]
    split
    · exact ⟨w, rfl⟩
    · rename_i hne
      rcases List.mem_cons.1 h with h | h
      · cases h
        exact absurd rfl hne
      · exact ih h

end Dict

end CacheScript
