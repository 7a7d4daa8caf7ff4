/-
Records that were written to a file come back. A record is written as an object
of its fields with its id among them, and a directory reads the object of a
key's file as a record with the key as its id; so a file that is named by the id
of the record in it gives that record, with the id as one more field
(`load_exported`). Written and read once more, nothing changes.
-/
import CacheScript.Proofs.Directory.Confinement
import CacheScript.Proofs.Json.Rereading
import CacheScript.Value.Json

namespace CacheScript

/-- The record with its id as a field, in the place of any field of that name. -/
def Record.withIdField (r : Record) : Record :=
  { r with fields := r.fields.put "id" r.id }

namespace Record

/-- The members of the object of a record. -/
theorem toJson_eq (r : Record) :
    r.toJson = .obj ((r.fields.put "id" r.id).map fun (name, text) => (name, .str text)) :=
  congrArg Json.obj (Dict.map_put r.fields Json.str "id" r.id).symm

theorem toJson_withIdField (r : Record) : r.withIdField.toJson = r.toJson := by
  rw [toJson_eq, toJson_eq, withIdField, Dict.put_put]

theorem field?_withIdField (r : Record) (name : String) :
    r.withIdField.field? name = if name = "id" then some r.id else r.field? name :=
  Dict.value?_put r.fields "id" name r.id

theorem exists_str_of_mem_toJson {r : Record} {member : String × Json}
    (h : member ∈ (r.fields.put "id" r.id).map fun (name, text) => (name, Json.str text)) :
    ∃ text, member.2 = .str text := by
  obtain ⟨⟨name, text⟩, -, rfl⟩ := List.mem_map.1 h
  exact ⟨text, rfl⟩

/-- The object of a record holds strings only, so it is read as it was written. -/
theorem parse?_compact_toJson {r : Record} (h : r.fields.Sorted) : Json.parse? r.toJson.compact = some r.toJson := by
  rw [toJson_eq]
  refine Json.parse?_compact (Json.forall_doublesAmong.2 fun member hm d hd => ?_)
    ⟨(h.put "id" r.id).map Json.str, Json.orderedMembers_iff.2 fun member hm => ?_⟩ ?_
  · obtain ⟨text, ht⟩ := exists_str_of_mem_toJson hm
    rw [ht] at hd
    cases hd
  · obtain ⟨text, ht⟩ := exists_str_of_mem_toJson hm
    rw [ht]
    trivial
  · have hflat : Json.depthMembers ((r.fields.put "id" r.id).map fun (name, text) => (name, Json.str text)) ≤ 0 := by
      refine Json.depthMembers_le.2 fun member hm => ?_
      obtain ⟨text, ht⟩ := exists_str_of_mem_toJson hm
      rw [ht]
      exact Nat.le_refl 0
    exact Nat.le_trans (Nat.succ_le_succ hflat) (by decide)

end Record

namespace Directory

theorem map_fieldText_str (fields : Dict String) :
    ((fields.map fun (name, text) => (name, Json.str text)).map fun (name, value) => (name, fieldText value)) =
      fields := by
  rw [List.map_map]
  exact List.map_id' fields

/-- The file of a record's id, with the record written into it, gives the record
with its id as a field. -/
theorem load_of_text {files : FileSystem} {dir : String} {r : Record} (h : r.fields.Sorted) (hid : ¬ NamesPath r.id)
    (hfile : files (path dir r.id) = .text r.toJson.compact) : load files dir r.id = .found r.withIdField := by
  have hread := (Record.parse?_compact_toJson h).trans (congrArg some r.toJson_eq)
  refine load_eq_found_iff.2 ⟨acceptsKey_iff.2 hid, _, _, hfile, hread, ?_⟩
  rw [map_fieldText_str]
  rfl

/-- What a record gives that was written to a file: itself but for the field of
its id, which comes back whenever it is written again, anywhere. -/
structure ComesBack (files : FileSystem) (dir : String) (r back : Record) : Prop where
  loaded : ∀ earlier, loader files dir earlier r.id = .found back
  id : back.id = r.id
  sorted : back.fields.Sorted
  field? : ∀ name, back.field? name = if name = "id" then some r.id else r.field? name
  /-- It is written as the record was. -/
  text : (Value.object back).toJson.compact = (Value.object r).toJson.compact
  again : ∀ (files' : FileSystem) (dir' : String),
    files' (path dir' back.id) = .text (Value.object back).toJson.compact →
      ∀ earlier, loader files' dir' earlier back.id = .found back

/-- **A record that was written to the file of its id comes back** from there. -/
theorem load_exported {files : FileSystem} {dir : String} {r : Record} (h : r.fields.Sorted) (hid : ¬ NamesPath r.id)
    (hfile : files (path dir r.id) = .text (Value.object r).toJson.compact) : ∃ back, ComesBack files dir r back := by
  have hsorted : r.withIdField.fields.Sorted := h.put "id" r.id
  refine ⟨r.withIdField, fun _ => load_of_text h hid hfile, rfl, hsorted, r.field?_withIdField,
    congrArg Json.compact r.toJson_withIdField, fun files' dir' hfile' _ => ?_⟩
  have hsame : r.withIdField.withIdField = r.withIdField :=
    congrArg (Record.mk r.id) (Dict.put_put r.fields "id" r.id r.id)
  exact (load_of_text (r := r.withIdField) hsorted hid hfile').trans (congrArg Answer.found hsame)

/-- A record with a quote in its id, and a field that is itself called `id`. -/
def quoted : Record := ⟨"a \"b\"", [("id", "other"), ("name", "\n\\")]⟩

theorem load_exported_quoted :
    let files : FileSystem := fun p =>
      if p = "users/a \"b\".json" then .text (Value.object quoted).toJson.compact else .missing
    (Value.object quoted).toJson.compact = "\x7b\"id\":\"a \\\"b\\\"\",\"name\":\"\\n\\\\\"\x7d" ∧
      ∃ back, ComesBack files "users" quoted back := by
  intro files
  refine ⟨by decide +kernel, load_exported ?_ ?_ (if_pos (by decide))⟩
  · exact List.pairwise_pair.2 (by decide)
  · exact acceptsKey_iff.1 (by decide)

end Directory

end CacheScript
