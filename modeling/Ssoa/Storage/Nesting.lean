import Ssoa.Storage.StorageProvider

/-!
# Storing under a name in folders

`getList` and the client walk through folders recursively, so the names they produce have any number
of components. `saveFile` makes the folder an image goes into with `create_directory`, which makes
the last folder of a path only. An image can therefore be stored one level below the folders that
exist, and no deeper.

## Main results

* `StorageProvider.stores_iff_grandparent` — when a name that is free can be stored under
* `StorageProvider.not_stores_nested` — a free name under which nothing can be stored
-/

namespace Ssoa

namespace StorageProvider

open StorageService StorageRequest

variable {sys : System} {t : FileSystem} {name : ImageName}

/-- The image can be stored under the name, and is retrieved then. -/
def Stores (sys : System) (t : FileSystem) (name : ImageName) (content : List Byte) : Prop :=
  ((storeImage name content).answer sys t).1.successful = true ∧
    ((getImage name).answer sys ((storeImage name content).answer sys t).2).1.successful = true ∧
    ((getImage name).answer sys ((storeImage name content).answer sys t).2).1.arguments =
      [.ofBuffer content]

/-- Nothing stands in the way of the name: no image is where a folder is needed, and no folder where
the image is to be. -/
structure Free (t : FileSystem) (name : ImageName) : Prop where
  no_file : ∀ folders, folders ≠ [] → folders <+: name.components → folders ≠ name.components →
    t.readFile (txt "database" :: folders) = none
  no_folder : t.lookup (place name) ≠ some .folder

/-- Storing an image succeeds, and the image is retrieved then, if the name is storable. -/
theorem stores_iff_storable (sys : System) (t : FileSystem) (name : ImageName)
    (content : List Byte) : Stores sys t name content ↔ Storable t name := by
  obtain ⟨hr, hno, -⟩ | ⟨hr, hstorable, hwrite⟩ := answer_storeImage sys name content t
  · refine iff_of_false (fun h => ?_) hno
    rw [h.1] at hr
    cases hr
  · refine iff_of_true ⟨hr, ?_⟩ hstorable
    have hcontents : contents ((storeImage name content).answer sys t).2 name = some content := by
      rw [contents, hwrite, if_pos rfl]
    obtain ⟨hnone, -⟩ | ⟨content', hsome, heq⟩ :=
      answer_getImage sys name ((storeImage name content).answer sys t).2
    · rw [hcontents] at hnone
      cases hnone
    · obtain rfl := Option.some.inj (hcontents.symm.trans hsome)
      rw [heq]
      exact ⟨rfl, rfl⟩

/-- There is a folder where the image goes, or nothing. -/
theorem Free.parent_not_file (h : Free t name) (honly : OnlyImages t) (content : List Byte) :
    t.lookup (place name).dropLast ≠ some (.file content) := by
  intro hfile
  have hread := FileTree.readFile_eq_some.mpr hfile
  rw [place, List.dropLast_cons_of_ne_nil name.ne_nil] at hread
  by_cases hnil : name.components.dropLast = []
  · obtain ⟨other, hother⟩ := honly _ _ hread
    exact other.ne_nil (hother.symm.trans hnil)
  · have hshort : name.components.dropLast ≠ name.components := fun heq => by
      have hlen := congrArg List.length heq
      rw [List.length_dropLast] at hlen
      have := List.length_pos_iff.mpr name.ne_nil
      omega
    rw [h.no_file _ hnil (List.dropLast_prefix _) hshort] at hread
    cases hread

theorem Free.storable_iff (h : Free t name) (honly : OnlyImages t) :
    Storable t name ↔ t.lookup (place name).dropLast.dropLast = some .folder := by
  constructor
  · rintro ⟨hthere | ⟨-, habove⟩, -⟩
    · exact FileTree.lookup_dropLast hthere
    · exact habove
  · intro habove
    refine ⟨?_, h.no_folder⟩
    cases hparent : t.lookup (place name).dropLast with
    | none => exact .inr ⟨rfl, habove⟩
    | some e =>
      cases e with
      | folder => exact .inl rfl
      | file content => exact absurd hparent (h.parent_not_file honly content)

/-- **When a free name can be stored under**: after any run that starts with an absent or empty
folder, an image can be stored under it, and is retrieved then, exactly if all folders on its path
but the last exist. -/
theorem stores_iff_grandparent (sys : System) (start : FileSystem) (hstart : EmptyFolder start)
    (requests : List StorageRequest) (name : ImageName) (content : List Byte)
    (hfree : Free ((machine sys start).runFrom start requests).2 name) :
    Stores sys ((machine sys start).runFrom start requests).2 name content ↔
      ((machine sys start).runFrom start requests).2.lookup (place name).dropLast.dropLast =
        some .folder := by
  have hrefines := refines sys hstart
  exact (stores_iff_storable ..).trans
    (hfree.storable_iff (hrefines.invariant.runFrom hrefines.invariant.init requests))

theorem free_empty (name : ImageName) : Free (FileTree.empty : FileSystem) name where
  no_file _ _ _ _ := rfl
  no_folder hfolder := by cases hfolder

/-- The first image, with a name of one component, can be stored. -/
theorem stores_sample : Stores sampleSystem .empty sampleName (txt "x") :=
  (stores_iff_grandparent sampleSystem .empty (.inl rfl) [] sampleName (txt "x")
    (free_empty sampleName)).mpr rfl

/-- **A free name under which nothing can be stored**: the first image, with a name of two
components. -/
theorem not_stores_nested : EmptyFolder (FileTree.empty : FileSystem) ∧
    Free (FileTree.empty : FileSystem) nestedName ∧
    ¬ Stores sampleSystem .empty nestedName (txt "x") := by
  refine ⟨.inl rfl, free_empty nestedName, ?_⟩
  rw [stores_iff_storable, (free_empty nestedName).storable_iff fun cs content hread => ?_]
  · intro hfolder
    cases hfolder
  · cases hread

end StorageProvider

end Ssoa
