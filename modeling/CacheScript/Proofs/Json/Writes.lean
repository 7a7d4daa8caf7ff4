/-
Writes to a document, each to one member of an object inside it, and what a
list of them makes of the document. A write changes what stands at its place
and nothing beside it; writes below one member make up that member alone
(`replay_under`).
-/
import CacheScript.Json

namespace CacheScript

namespace Json

/-- What stands at the end of a way through nested objects. -/
def at? : List String → Json → Option Json
  | [], j => some j
  | key :: keys, j => (j.members?.bind (·.value? key)).bind (at? keys)

/-- The document after a change of the object at the end of a way. A way that
leads to no object changes nothing. -/
def changeAt (change : Dict Json → Dict Json) : List String → Dict Json → Dict Json
  | [], d => change d
  | key :: keys, d =>
    match (d.value? key).bind members? with
    | some object => d.put key (.obj (changeAt change keys object))
    | none => d

end Json

/-- What a write puts in its place. -/
inductive Written where
  /-- An object: the one that is there, or else an empty one. -/
  | object
  | value (json : Json)

/-- What is there after a write, given what was there before. -/
def Written.over (before : Option Json) : Written → Json
  | object => .obj ((before.bind Json.members?).getD [])
  | value json => json

/-- A write to a document. -/
structure Write where
  /-- The way to the object whose member is written. -/
  place : List String
  name : String
  written : Written

namespace Write

/-- The way to what is written. -/
def path (w : Write) : List String :=
  w.place ++ [w.name]

/-- A write below a place. -/
def under (keys : List String) (w : Write) : Write :=
  { w with place := keys ++ w.place }

/-- Make a write. -/
def apply (w : Write) (d : Dict Json) : Dict Json :=
  Json.changeAt (fun object => object.put w.name (w.written.over (object.value? w.name))) w.place d

/-- Whether a write may change what stands at the end of a way: it writes that
or something inside it, or it puts a value around it. -/
def Touches (w : Write) (path : List String) : Prop :=
  path <+: w.path ∨ w.path <+: path ∧ ∃ json, w.written = .value json

end Write

/-- Make writes one after another. -/
def replay (writes : List Write) (d : Dict Json) : Dict Json :=
  writes.foldl (fun d w => w.apply d) d

/-! ## One write -/

namespace Json

theorem at?_obj_cons (key : String) (keys : List String) (d : Dict Json) :
    at? (key :: keys) (.obj d) = (d.value? key).bind (at? keys) := rfl

/-- A way that is parted from the place of a change sees nothing of it. -/
theorem at?_changeAt_apart (change : Dict Json → Dict Json) {place path : List String} (h : ¬ place <+: path)
    (h' : ¬ path <+: place) (d : Dict Json) : at? path (.obj (changeAt change place d)) = at? path (.obj d) := by
  induction place generalizing path d with
  | nil => exact absurd (List.nil_prefix) h
  | cons key place ih =>
    cases path with
    | nil => exact absurd (List.nil_prefix) h'
    | cons other path =>
      unfold changeAt
      split
      · rename_i object ho
        rw [at?_obj_cons, at?_obj_cons]
        by_cases hk : other = key
        · subst hk
          rw [List.prefix_cons_inj] at h h'
          obtain ⟨j, hj, hm⟩ := Option.bind_eq_some_iff.1 ho
          cases j <;> cases hm
          rw [Dict.value?_put_self, hj]
          exact ih h h' object
        · rw [Dict.value?_put_other d _ hk]
      · rfl

/-- A way that goes on from the place of a change sees what the change does to
the object there. -/
theorem at?_changeAt_append {change : Dict Json → Dict Json} {path : List String}
    (h : ∀ object : Dict Json, at? path (.obj (change object)) = at? path (.obj object)) (place : List String)
    (d : Dict Json) : at? (place ++ path) (.obj (changeAt change place d)) = at? (place ++ path) (.obj d) := by
  induction place generalizing d with
  | nil => exact h d
  | cons key place ih =>
    unfold changeAt
    split
    · rename_i object ho
      obtain ⟨j, hj, hm⟩ := Option.bind_eq_some_iff.1 ho
      cases j <;> cases hm
      rw [List.cons_append, at?_obj_cons, at?_obj_cons, Dict.value?_put_self, hj]
      exact ih object
    · rfl

/-- An object that is made sure of is the one that was there, or empty: below
it nothing is changed. -/
theorem at?_object (before : Option Json) (key : String) (keys : List String) :
    at? (key :: keys) (Written.object.over before) = before.bind (at? (key :: keys)) := by
  cases before with
  | none => rfl
  | some j => cases j <;> rfl

end Json

/-- A write changes only what it touches. -/
theorem Write.at?_apply {w : Write} {path : List String} (h : ¬ w.Touches path) (d : Dict Json) :
    Json.at? path (.obj (w.apply d)) = Json.at? path (.obj d) := by
  obtain ⟨place, name, written⟩ := w
  have hout : ¬ path <+: place ++ [name] := fun hp => h (.inl hp)
  by_cases hp : place <+: path
  · obtain ⟨rest, rfl⟩ := hp
    refine Json.at?_changeAt_append (fun object => ?_) place d
    cases rest with
    | nil => exact absurd (by simp) hout
    | cons key keys =>
      rw [Json.at?_obj_cons, Json.at?_obj_cons]
      by_cases hk : key = name
      · subst hk
        rw [Dict.value?_put_self, Option.bind_some]
        cases written with
        | object =>
          cases keys with
          | nil => exact absurd (by simp) hout
          | cons key' keys => exact Json.at?_object _ key' keys
        | value json =>
          refine absurd (.inr ⟨?_, json, rfl⟩) h
          exact (List.prefix_append_right_inj place).2 (by simp)
      · rw [Dict.value?_put_other object _ hk]
  · exact Json.at?_changeAt_apart _ hp (fun hp' => hout (hp'.trans (List.prefix_append place [name]))) d

/-! ## Many writes -/

theorem replay_append (writes others : List Write) (d : Dict Json) :
    replay (writes ++ others) d = replay others (replay writes d) :=
  List.foldl_append

/-- What no write touches stays as it is. -/
theorem at?_replay {writes : List Write} {path : List String} (h : ∀ w ∈ writes, ¬ w.Touches path) (d : Dict Json) :
    Json.at? path (.obj (replay writes d)) = Json.at? path (.obj d) := by
  induction writes generalizing d with
  | nil => rfl
  | cons w writes ih =>
    have hw := w.at?_apply (h w (by simp)) d
    rw [← hw]
    exact ih (fun v hv => h v (by simp [hv])) (w.apply d)

/-- Writes below a member that is an object are made inside it. -/
theorem replay_under (writes : List Write) (key : String) (object d : Dict Json) :
    replay (writes.map (Write.under [key])) (d.put key (.obj object)) = d.put key (.obj (replay writes object)) := by
  induction writes generalizing object with
  | nil => rfl
  | cons w writes ih =>
    have hw : (w.under [key]).apply (d.put key (.obj object)) = d.put key (.obj (w.apply object)) := by
      simp only [Write.apply, Write.under, List.cons_append, List.nil_append, Json.changeAt, Dict.value?_put_self,
        Option.bind_some, Json.members?, Dict.put_put]
    simp only [replay, List.map_cons, List.foldl_cons] at ih ⊢
    rw [hw]
    exact ih (w.apply object)

end CacheScript
