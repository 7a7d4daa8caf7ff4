/-
A key reaches one file only. A key that could lead anywhere else is refused
before a path is made of it; any other is the name of a file directly below the
directory, and no two of them name the same one. What is answered hangs on that
file alone, and is the last member of each name that its object has
(`load_confined`).
-/
import CacheScript.Dict.Sorted
import CacheScript.Files.Snapshot
import CacheScript.Store.Sources

namespace CacheScript

/-! ## Steps of a path -/

namespace Snapshot

theorem steps_of_not_mem {name : String} (h : '/' ∉ name.toList) : steps name = [name] := by
  rw [steps, Text.split_of_not_mem h, List.map_singleton, String.ofList_toList]

/-- A name after a slash is one more step. -/
theorem steps_below (dir : String) {name : String} (h : '/' ∉ name.toList) :
    steps (dir ++ "/" ++ name) = steps dir ++ [name] := by
  have hcut : (dir ++ "/" ++ name).toList = dir.toList ++ '/' :: name.toList := by
    rw [String.toList_append, String.toList_append, List.append_assoc]
    rfl
  have hname := steps_of_not_mem h
  rw [steps] at hname
  rw [steps, hcut, Text.split_append, List.map_append, hname, steps]

theorem walk_append (s : Snapshot) (place : List String) (before after : List String) :
    s.walk place (before ++ after) = (s.walk place before).bind (s.walk · after) := by
  induction before generalizing place with
  | nil => rfl
  | cons step before ih =>
    simp only [List.cons_append, walk, ih]
    repeat' split
    all_goals rfl

/-- A step that neither stays nor goes up leads one further down. -/
theorem walk_name (s : Snapshot) (place : List String) {name : String} (hempty : name ≠ "") (hstay : name ≠ ".")
    (hup : name ≠ "..") : s.walk place [name] = if s.isDirectory place then some (place ++ [name]) else none := by
  cases h : s.isDirectory place <;> simp [walk, h, hempty, hstay, hup]

end Snapshot

/-! ## Members of an object as written -/

/-- The entry that a name has in a list of them is the first one of that name. -/
theorem Dict.value?_eq_some_iff_first {α : Type} {d : Dict α} {name : String} {v : α} :
    d.value? name = some v ↔ ∃ before after, d = before ++ (name, v) :: after ∧ ∀ entry ∈ before, entry.1 ≠ name := by
  induction d with
  | nil => simp
  | cons entry d ih =>
    obtain ⟨k, w⟩ := entry
    rw [value?_cons]
    by_cases hk : name = k
    · subst hk
      rw [if_pos rfl]
      refine ⟨fun h => ⟨[], d, by rw [Option.some.inj h]; rfl, nofun⟩, ?_⟩
      rintro ⟨before, after, hd, hfirst⟩
      cases before with
      | nil => cases hd; rfl
      | cons entry before =>
        cases hd
        exact absurd rfl (hfirst _ List.mem_cons_self)
    · rw [if_neg hk, ih]
      constructor
      · rintro ⟨before, after, rfl, hfirst⟩
        exact ⟨(k, w) :: before, after, rfl, List.forall_mem_cons.2 ⟨Ne.symm hk, hfirst⟩⟩
      · rintro ⟨before, after, hd, hfirst⟩
        cases before with
        | nil => cases hd; exact absurd rfl hk
        | cons entry before =>
          cases hd
          exact ⟨before, after, rfl, (List.forall_mem_cons.1 hfirst).2⟩

namespace Json

/-- The members of the object that a text writes, as they are written there, with
names that occur twice. -/
def writtenMembers? (text : String) : Option (List (String × Json)) :=
  match Raw.parse? text with
  | some (.object members) => membersOfRaw? (maxDepth - 1) members
  | _ => none

/-- The last of the members with a name. -/
def IsLast (written : List (String × Json)) (name : String) (j : Json) : Prop :=
  ∃ before after, written = before ++ (name, j) :: after ∧ ∀ member ∈ after, member.1 ≠ name

/-- A string is stored as it is, any other document as its compact text. -/
def StoredAs (j : Json) (text : String) : Prop :=
  j = .str text ∨ (∀ s, j ≠ .str s) ∧ text = j.compact

theorem ofList_value?_eq_some_iff {written : List (String × Json)} {name : String} {j : Json} :
    (Dict.ofList written).value? name = some j ↔ IsLast written name j := by
  rw [Dict.value?_ofList, Dict.value?_eq_some_iff_first]
  constructor
  · rintro ⟨before, after, h, hfirst⟩
    refine ⟨after.reverse, before.reverse, ?_, fun member hm => hfirst member (List.mem_reverse.1 hm)⟩
    rw [← List.reverse_reverse written, h]
    simp
  · rintro ⟨before, after, rfl, hlast⟩
    exact ⟨after.reverse, before.reverse, by simp, fun member hm => hlast member (List.mem_reverse.1 hm)⟩

theorem parse?_eq_obj_iff {text : String} {members : List (String × Json)} :
    parse? text = some (.obj members) ↔
      ∃ written, writtenMembers? text = some written ∧ members = Dict.ofList written := by
  have hdepth : maxDepth = maxDepth - 1 + 1 := rfl
  rw [parse?, writtenMembers?]
  cases Raw.parse? text with
  | none => simp
  | some raw =>
    cases raw with
    | object raws =>
      rw [Option.bind_some, hdepth, ofRaw?]
      simp only [Option.map_eq_some_iff, obj.injEq, eq_comm (a := members)]
      rfl
    | array raws =>
      rw [Option.bind_some, hdepth, ofRaw?]
      simp
    | null => simp [ofRaw?]
    | bool b => simp [ofRaw?]
    | number n => simp [ofRaw?]
    | text s => simp [ofRaw?]

end Json

namespace Directory

/-- The key could name something that lies in another directory, or is hidden. -/
def NamesPath (key : String) : Prop :=
  '/' ∈ key.toList ∨ '\\' ∈ key.toList ∨ key.toList.head? = some '.'

/-- What a key can reach through a directory. -/
structure Confined (dir key : String) : Prop where
  /-- Of all files only the one of the key matters. -/
  ownFile : ∀ files files' : FileSystem, files (path dir key) = files' (path dir key) →
    load files dir key = load files' dir key
  refused : NamesPath key → ∀ files, load files dir key = .failed ["invalid cache key " ++ Text.quoted key]
  /-- The file of any other key lies directly in the directory, wherever that is. -/
  below : ¬ NamesPath key → ∀ s : Snapshot, s.walk [] (Snapshot.steps (path dir key)) =
    (s.walk [] (Snapshot.steps dir)).bind fun place =>
      if s.isDirectory place then some (place ++ [key ++ ".json"]) else none
  apart : ¬ NamesPath key → ∀ other, ¬ NamesPath other → other ≠ key → path dir other ≠ path dir key ∧
    ∀ (s : Snapshot) (place place' : List String), s.walk [] (Snapshot.steps (path dir key)) = some place →
      s.walk [] (Snapshot.steps (path dir other)) = some place' → place ≠ place'
  /-- What is found has the key as its id, and for each name in the object of the
  file one field, which stores the last member of that name. -/
  found : ∀ files record, load files dir key = .found record ↔ ¬ NamesPath key ∧ ∃ text written,
    files (path dir key) = .text text ∧ Json.writtenMembers? text = some written ∧ record.id = key ∧
      record.fields.Sorted ∧ ∀ name value, record.field? name = some value ↔
        ∃ j, Json.IsLast written name j ∧ j.StoredAs value

theorem acceptsKey_iff {key : String} : acceptsKey key = true ↔ ¬ NamesPath key := by
  simp [acceptsKey, NamesPath, and_assoc]

/-! ## The file of a key -/

/-- The name of a file is no step that stays or goes up. -/
theorem walk_fileName (s : Snapshot) (place : List String) (key : String) :
    s.walk place [key ++ ".json"] = if s.isDirectory place then some (place ++ [key ++ ".json"]) else none := by
  have hlong {name : String} (hname : name.length < 5) : key ++ ".json" ≠ name := by
    rintro rfl
    rw [String.length_append] at hname
    have : ".json".length = 5 := rfl
    omega
  exact s.walk_name place (hlong (by decide)) (hlong (by decide)) (hlong (by decide))

section

variable {key : String} (h : ¬ NamesPath key)
include h

theorem not_slash_mem_name : '/' ∉ (key ++ ".json").toList := by
  rw [String.toList_append, List.mem_append, not_or]
  exact ⟨fun hm => h (.inl hm), by decide⟩

theorem head?_name_ne_slash : (key ++ ".json").toList.head? ≠ some '/' := fun hhead =>
  not_slash_mem_name h (List.mem_of_head? hhead)

/-- The path of a key is what stands before all files of the directory, and then
the name of its own. -/
theorem path_eq (dir : String) : path dir key =
    (if dir = "" then "" else if dir.toList.getLast? = some '/' then dir else dir ++ "/") ++ (key ++ ".json") := by
  have hhead := head?_name_ne_slash h
  rw [path, joinPath]
  by_cases hdir : dir = ""
  · simp [hdir]
  · simp only [hhead, hdir, false_or, if_false]
    split <;> rfl

theorem walk_path (s : Snapshot) (dir : String) : s.walk [] (Snapshot.steps (path dir key)) =
    (s.walk [] (Snapshot.steps dir)).bind fun place =>
      if s.isDirectory place then some (place ++ [key ++ ".json"]) else none := by
  have hroot : s.isDirectory [] = true := by simp [Snapshot.isDirectory, Snapshot.content?]
  rw [path_eq h]
  by_cases hdir : dir = ""
  · subst hdir
    have hhere : s.walk [] (Snapshot.steps "") = some [] := by
      have : Snapshot.steps "" = [""] := by decide
      simp [this, Snapshot.walk, hroot]
    rw [if_pos rfl, String.empty_append, Snapshot.steps_of_not_mem (not_slash_mem_name h), hhere, walk_fileName]
    rfl
  rw [if_neg hdir]
  by_cases hslash : dir.toList.getLast? = some '/'
  · obtain ⟨before, rfl⟩ : ∃ before : String, dir = before ++ "/" := by
      obtain ⟨before, hbefore⟩ := List.getLast?_eq_some_iff.1 hslash
      exact ⟨String.ofList before, String.toList_inj.1 (by rw [hbefore, String.toList_append, String.toList_ofList]; rfl)⟩
    -- The slash at the end of the directory is a step that stays.
    have hclosed : Snapshot.steps (before ++ "/") = Snapshot.steps before ++ [""] := by
      rw [← Snapshot.steps_below before (by decide), String.append_empty]
    rw [if_pos hslash, Snapshot.steps_below before (not_slash_mem_name h), hclosed, Snapshot.walk_append,
      Snapshot.walk_append, Option.bind_assoc]
    congr 1
    funext place
    rw [walk_fileName]
    cases hd : s.isDirectory place <;> simp [Snapshot.walk, hd]
  · rw [if_neg hslash, Snapshot.steps_below dir (not_slash_mem_name h), Snapshot.walk_append]
    congr 1
    funext place
    exact walk_fileName s place key

end

/-- Files of different keys have different names. -/
theorem name_inj {key other : String} (h : other ++ ".json" = key ++ ".json") : other = key := by
  have h := congrArg String.toList h
  rw [String.toList_append, String.toList_append] at h
  exact String.toList_inj.1 (List.append_cancel_right h)

theorem path_inj {dir key other : String} (h : ¬ NamesPath key) (ho : ¬ NamesPath other)
    (heq : path dir other = path dir key) : other = key := by
  rw [path_eq h, path_eq ho] at heq
  have heq := congrArg String.toList heq
  rw [String.toList_append, String.toList_append (t := key ++ ".json")] at heq
  exact name_inj (String.toList_inj.1 (List.append_cancel_left heq))

/-! ## The record of a file -/

theorem fieldText_eq_iff {j : Json} {text : String} : fieldText j = text ↔ j.StoredAs text := by
  cases j <;> simp [fieldText, Json.StoredAs, eq_comm]

theorem load_eq_found_iff {files : FileSystem} {dir key : String} {record : Record} :
    load files dir key = .found record ↔ acceptsKey key = true ∧ ∃ text members,
      files (path dir key) = .text text ∧ Json.parse? text = some (.obj members) ∧
        record = ⟨key, members.map fun (name, value) => (name, fieldText value)⟩ := by
  have hread (text : String) : readRecord (path dir key) key text = .found record ↔ ∃ members,
      Json.parse? text = some (.obj members) ∧
        record = ⟨key, members.map fun (name, value) => (name, fieldText value)⟩ := by
    rw [readRecord]
    cases Json.parse? text with
    | none => simp
    | some j => cases j <;> simp [eq_comm]
  rw [load]
  split
  · cases hfile : files (path dir key) with
    | text text => simp [*]
    | _ => simp [*]
  · simp [*]

/-- The fields of what is found are known by looking them up. -/
theorem record_eq_iff {record : Record} {key : String} {written : List (String × Json)} :
    record = ⟨key, (Dict.ofList written).map fun (name, value) => (name, fieldText value)⟩ ↔
      record.id = key ∧ record.fields.Sorted ∧ ∀ name value, record.field? name = some value ↔
        ∃ j, Json.IsLast written name j ∧ j.StoredAs value := by
  have hlook (name value : String) :
      Dict.value? ((Dict.ofList written).map fun (name, value) => (name, fieldText value)) name = some value ↔
        ∃ j, Json.IsLast written name j ∧ j.StoredAs value := by
    simp only [Dict.value?_map, Option.map_eq_some_iff, Json.ofList_value?_eq_some_iff, fieldText_eq_iff]
  have hsorted := (Dict.sorted_ofList written).map fieldText
  constructor
  · rintro rfl
    exact ⟨rfl, hsorted, hlook⟩
  · obtain ⟨id, fields⟩ := record
    rintro ⟨rfl, hfields, hsame⟩
    refine congrArg (Record.mk id) (hfields.ext hsorted fun name => ?_)
    exact Option.ext fun value => (hsame name value).trans (hlook name value).symm

/-- **A key reaches its own file and no other**, in every directory. -/
theorem load_confined (dir key : String) : Confined dir key where
  ownFile files files' h := by rw [load, load, h]
  refused h files := by
    rw [load, if_neg fun ha => acceptsKey_iff.1 ha h]
  below h s := walk_path h s dir
  apart h other ho hne := by
    refine ⟨fun heq => hne (path_inj h ho heq), fun s place place' hplace hplace' heq => ?_⟩
    rw [walk_path h, Option.bind_eq_some_iff] at hplace
    rw [walk_path ho, Option.bind_eq_some_iff] at hplace'
    obtain ⟨parent, -, hplace⟩ := hplace
    obtain ⟨parent', -, hplace'⟩ := hplace'
    split at hplace <;> cases hplace
    split at hplace' <;> cases hplace'
    exact hne (name_inj (List.singleton_inj.1 (List.append_inj_right' heq rfl)).symm)
  found files record := by
    rw [load_eq_found_iff, acceptsKey_iff]
    refine and_congr_right fun _ => ?_
    simp only [Json.parse?_eq_obj_iff, ← record_eq_iff]
    constructor
    · rintro ⟨text, members, hfile, ⟨written, hwritten, rfl⟩, hrecord⟩
      exact ⟨text, written, hfile, hwritten, hrecord⟩
    · rintro ⟨text, written, hfile, hwritten, hrecord⟩
      exact ⟨text, _, hfile, ⟨written, hwritten, rfl⟩, hrecord⟩

end Directory

end CacheScript
