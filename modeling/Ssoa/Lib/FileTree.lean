import Mathlib.Data.List.Basic
import Mathlib.Data.List.Induction
import Mathlib.Data.List.Nodup
import Mathlib.Tactic.Common

/-!
# Trees of files

A `FileTree` has folders and files, each at a path, which is a list of names. The root, at the empty
path, is a folder that is always there. Every other entry is in a folder: this is part of the type,
so there is nothing below a file, and nothing below a path that does not exist.

Creating a folder makes only the last name of its path. A file is written where there is no folder,
if the folder it is in exists.

## Main results

* `FileTree.lookup_createFolder`, `FileTree.lookup_writeFile` — one path changes, and no other
* `FileTree.exists_createFolder_iff`, `FileTree.exists_writeFile_iff` — when that can be done
* `FileTree.lookup_of_prefix` — what is above an entry is a folder
* `FileTree.mem_below` — what a walk through a folder visits
-/

/-- What there is at a path. -/
inductive Entry (C : Type*) where
  | folder
  | file (content : C)

/-- Whether the entry is a file. -/
def Entry.isFile {C : Type*} : Entry C → Bool
  | folder => false
  | file _ => true

/-- The entries other than the root, by their paths. -/
structure FileTree (N C : Type*) where
  entries : List (List N × Entry C)
  nodup : (entries.map Prod.fst).Nodup
  ne_nil : ∀ e ∈ entries, e.1 ≠ []
  parents : ∀ e ∈ entries, e.1.dropLast ≠ [] → (e.1.dropLast, .folder) ∈ entries

namespace FileTree

variable {N C : Type*}

/-- The tree with nothing but the root. -/
def empty : FileTree N C := ⟨[], by simp, by simp, by simp⟩

variable [DecidableEq N] {t t' : FileTree N C} {path other : List N} {content : C}

/-- What there is at a path, if anything. -/
def lookup (t : FileTree N C) (path : List N) : Option (Entry C) :=
  if path = [] then some .folder else t.entries.lookup path

/-- The content of the file at a path. -/
def readFile (t : FileTree N C) (path : List N) : Option C :=
  match t.lookup path with
  | some (.file content) => some content
  | _ => none

@[simp] theorem lookup_nil (t : FileTree N C) : t.lookup [] = some .folder := if_pos rfl

theorem lookup_of_ne_nil (h : path ≠ []) : t.lookup path = t.entries.lookup path := if_neg h

/-- A list with distinct keys is looked up by membership. -/
theorem mem_iff_lookup {κ β : Type*} [BEq κ] [LawfulBEq κ] {l : List (κ × β)}
    (h : (l.map Prod.fst).Nodup) {k : κ} {b : β} : (k, b) ∈ l ↔ l.lookup k = some b := by
  induction l with
  | nil => simp
  | cons x l ih =>
    obtain ⟨k', b'⟩ := x
    obtain ⟨hnot, hnodup⟩ := List.nodup_cons.mp h
    rw [List.lookup_cons, List.mem_cons]
    by_cases hk : k = k'
    · subst hk
      have hnot : (k, b) ∉ l := fun hmem => hnot (List.mem_map.mpr ⟨(k, b), hmem, rfl⟩)
      simp [hnot, eq_comm]
    · have hne : (k == k') = false := beq_eq_false_iff_ne.mpr hk
      rw [hne, ← ih hnodup]
      simp [hk]

theorem mem_entries {e : Entry C} : (path, e) ∈ t.entries ↔ path ≠ [] ∧ t.lookup path = some e := by
  rw [mem_iff_lookup t.nodup]
  constructor
  · intro h
    have hne : path ≠ [] := t.ne_nil _ ((mem_iff_lookup t.nodup).mpr h)
    exact ⟨hne, by rw [lookup_of_ne_nil hne, h]⟩
  · rintro ⟨hne, h⟩
    rwa [lookup_of_ne_nil hne] at h

theorem readFile_eq_some : t.readFile path = some content ↔
    t.lookup path = some (.file content) := by
  unfold readFile
  split
  · next c h => simp [h]
  · next hno => exact ⟨fun h => (by cases h), fun h => absurd h (hno content)⟩

/-- What an entry is in, is a folder. -/
theorem lookup_dropLast {e : Entry C} (h : t.lookup path = some e) :
    t.lookup path.dropLast = some .folder := by
  by_cases hnil : path.dropLast = []
  · rw [hnil, lookup_nil]
  · have hne : path ≠ [] := fun heq => hnil (by rw [heq, List.dropLast_nil])
    exact (mem_entries.mp (t.parents _ (mem_entries.mpr ⟨hne, h⟩) hnil)).2

/-- What is above an entry is a folder. -/
theorem lookup_of_prefix {e : Entry C} {rest : List N} (hrest : rest ≠ [])
    (h : t.lookup (path ++ rest) = some e) : t.lookup path = some .folder := by
  induction rest using List.reverseRec generalizing e with
  | nil => exact absurd rfl hrest
  | append_singleton rest n ih =>
    have hparent := lookup_dropLast h
    rw [← List.append_assoc, List.dropLast_concat] at hparent
    by_cases hnil : rest = []
    · rwa [hnil, List.append_nil] at hparent
    · exact ih hnil hparent

/-! ### Changing the tree -/

/-- Whether there is a folder at a path. -/
def isFolder (t : FileTree N C) (path : List N) : Bool :=
  match t.lookup path with
  | some .folder => true
  | _ => false

theorem isFolder_iff : t.isFolder path = true ↔ t.lookup path = some .folder := by
  unfold isFolder
  split
  · next h => simp [h]
  · next hno => exact ⟨fun h => (by cases h), fun h => absurd h hno⟩

/-- Put an entry where nothing is, in a folder that exists. -/
def add (t : FileTree N C) (path : List N) (e : Entry C) (hnone : t.lookup path = none)
    (hparent : t.lookup path.dropLast = some .folder) : FileTree N C where
  entries := t.entries ++ [(path, e)]
  nodup := by
    rw [List.map_append, List.map_singleton, List.nodup_append]
    refine ⟨t.nodup, List.nodup_singleton _, ?_⟩
    rintro p hp q hq rfl
    obtain rfl := List.mem_singleton.mp hq
    obtain ⟨x, hx, rfl⟩ := List.mem_map.mp hp
    have hlookup := (mem_entries.mp (show (x.1, x.2) ∈ t.entries from hx)).2
    rw [hnone] at hlookup
    cases hlookup
  ne_nil := by
    intro x hx
    rcases List.mem_append.mp hx with hx | hx
    · exact t.ne_nil x hx
    · obtain rfl := List.mem_singleton.mp hx
      rintro rfl
      rw [lookup_nil] at hnone
      cases hnone
  parents := by
    intro x hx hne
    rcases List.mem_append.mp hx with hx | hx
    · exact List.mem_append_left _ (t.parents x hx hne)
    · obtain rfl := List.mem_singleton.mp hx
      exact List.mem_append_left _ (mem_entries.mpr ⟨hne, hparent⟩)

/-- The entry with another content, if it is the one at the path. -/
def overwrite (path : List N) (content : C) (x : List N × Entry C) : List N × Entry C :=
  if x.1 = path then (path, .file content) else x

@[simp] theorem overwrite_fst (path : List N) (content : C) (x : List N × Entry C) :
    (overwrite path content x).1 = x.1 := by
  unfold overwrite
  split
  · next h => exact h.symm
  · rfl

theorem overwrite_of_ne {x : List N × Entry C} (h : x.1 ≠ path) : overwrite path content x = x :=
  if_neg h

/-- Give a file another content. -/
def replace (t : FileTree N C) (path : List N) (content : C) (hfile : t.isFolder path = false) :
    FileTree N C where
  entries := t.entries.map (overwrite path content)
  nodup := by
    rw [List.map_map, show Prod.fst ∘ overwrite path content = Prod.fst from
      funext fun x => overwrite_fst path content x]
    exact t.nodup
  ne_nil := by
    intro x hx
    obtain ⟨y, hy, rfl⟩ := List.mem_map.mp hx
    rw [overwrite_fst]
    exact t.ne_nil y hy
  parents := by
    intro x hx hne
    obtain ⟨y, hy, rfl⟩ := List.mem_map.mp hx
    rw [overwrite_fst] at hne ⊢
    have hparent := t.parents y hy hne
    -- the parent is a folder, so it is not the file
    have hpath : y.1.dropLast ≠ path := by
      rintro rfl
      rw [isFolder_iff.mpr (mem_entries.mp hparent).2] at hfile
      cases hfile
    exact List.mem_map.mpr ⟨_, hparent, overwrite_of_ne hpath⟩

/-- Make a folder where nothing is, in a folder that exists. -/
def createFolder (t : FileTree N C) (path : List N) : Option (FileTree N C) :=
  if h : t.lookup path = none ∧ t.isFolder path.dropLast then
    some (t.add path .folder h.1 (isFolder_iff.mp h.2))
  else none

/-- Write a file where there is none or another one, in a folder that exists. -/
def writeFile (t : FileTree N C) (path : List N) (content : C) : Option (FileTree N C) :=
  if hnone : t.lookup path = none then
    if hparent : t.isFolder path.dropLast then
      some (t.add path (.file content) hnone (isFolder_iff.mp hparent))
    else none
  else if hfile : t.isFolder path = false then some (t.replace path content hfile)
  else none

theorem lookup_add {e : Entry C} {hnone : t.lookup path = none}
    {hparent : t.lookup path.dropLast = some .folder} (other : List N) :
    (t.add path e hnone hparent).lookup other =
      if other = path then some e else t.lookup other := by
  have hne : path ≠ [] := by
    rintro rfl
    rw [lookup_nil] at hnone
    cases hnone
  by_cases hnil : other = []
  · rw [hnil, if_neg (Ne.symm hne), lookup_nil, lookup_nil]
  refine Option.ext fun x => ?_
  have hmem : (t.add path e hnone hparent).lookup other = some x ↔
      (other, x) ∈ t.entries ∨ (other, x) = (path, e) := by
    rw [← List.mem_singleton (a := (other, x)), ← List.mem_append]
    exact ⟨fun h => mem_entries.mpr ⟨hnil, h⟩, fun h => (mem_entries.mp h).2⟩
  rw [hmem, mem_entries, Prod.mk.injEq]
  by_cases hother : other = path
  · subst hother
    simp [hnone, eq_comm]
  · simp [hother, hnil]

theorem lookup_replace {hfile : t.isFolder path = false} (hsome : t.lookup path ≠ none)
    (other : List N) : (t.replace path content hfile).lookup other =
      if other = path then some (.file content) else t.lookup other := by
  have hne : path ≠ [] := by
    rintro rfl
    rw [isFolder_iff.mpr (lookup_nil t)] at hfile
    cases hfile
  by_cases hnil : other = []
  · rw [hnil, if_neg (Ne.symm hne), lookup_nil, lookup_nil]
  obtain ⟨e, he⟩ := Option.ne_none_iff_exists'.mp hsome
  refine Option.ext fun x => ?_
  have hmem : (t.replace path content hfile).lookup other = some x ↔
      ∃ y ∈ t.entries, overwrite path content y = (other, x) := by
    rw [← List.mem_map]
    exact ⟨fun h => mem_entries.mpr ⟨hnil, h⟩, fun h => (mem_entries.mp h).2⟩
  rw [hmem]
  by_cases hother : other = path
  · subst hother
    rw [if_pos rfl]
    constructor
    · rintro ⟨y, -, hy⟩
      have hy1 : y.1 = other := by rw [← overwrite_fst other content y, hy]
      rw [overwrite, if_pos hy1] at hy
      exact congrArg some (Prod.mk.inj hy).2
    · intro hx
      refine ⟨(other, e), mem_entries.mpr ⟨hnil, he⟩, ?_⟩
      rw [overwrite, if_pos rfl, Option.some.inj hx]
  · rw [if_neg hother]
    constructor
    · rintro ⟨y, hy, heq⟩
      have hy1 : y.1 ≠ path := by
        rw [← overwrite_fst path content y, heq]
        exact hother
      rw [overwrite_of_ne hy1] at heq
      exact (mem_entries.mp (heq ▸ hy)).2
    · intro hx
      exact ⟨(other, x), mem_entries.mpr ⟨hnil, hx⟩, overwrite_of_ne hother⟩

/-- **Creating a folder** changes its path, where nothing was, and no other. -/
theorem lookup_createFolder (h : t.createFolder path = some t') (other : List N) :
    t'.lookup other = if other = path then some .folder else t.lookup other := by
  unfold createFolder at h
  split at h
  · obtain rfl := Option.some.inj h
    exact lookup_add other
  · cases h

theorem lookup_of_createFolder (h : t.createFolder path = some t') : t.lookup path = none := by
  unfold createFolder at h
  split at h
  · next hc => exact hc.1
  · cases h

/-- **Writing a file** changes its path and no other. -/
theorem lookup_writeFile (h : t.writeFile path content = some t') (other : List N) :
    t'.lookup other = if other = path then some (.file content) else t.lookup other := by
  unfold writeFile at h
  split at h
  · split at h
    · obtain rfl := Option.some.inj h
      exact lookup_add other
    · cases h
  · next hsome =>
    split at h
    · obtain rfl := Option.some.inj h
      exact lookup_replace hsome other
    · cases h

theorem exists_createFolder_iff : (∃ t', t.createFolder path = some t') ↔
    t.lookup path = none ∧ t.lookup path.dropLast = some .folder := by
  rw [← isFolder_iff, createFolder]
  split
  · next h => exact iff_of_true ⟨_, rfl⟩ h
  · next h => exact iff_of_false (by rintro ⟨_, ⟨⟩⟩) h

/-- A file can be written in a folder that exists, unless there is a folder at its path. -/
theorem exists_writeFile_iff : (∃ t', t.writeFile path content = some t') ↔
    t.lookup path.dropLast = some .folder ∧ t.lookup path ≠ some .folder := by
  rw [writeFile]
  split
  · next hnone =>
    rw [← isFolder_iff]
    split
    · next hparent => exact iff_of_true ⟨_, rfl⟩ ⟨hparent, by simp [hnone]⟩
    · next hparent => exact iff_of_false (by rintro ⟨_, ⟨⟩⟩) fun h => hparent h.1
  · next hsome =>
    obtain ⟨e, he⟩ := Option.ne_none_iff_exists'.mp hsome
    have hiff : t.lookup path ≠ some .folder ↔ t.isFolder path = false := by
      rw [ne_eq, ← isFolder_iff, Bool.not_eq_true]
    rw [hiff]
    split
    · next hfile => exact iff_of_true ⟨_, rfl⟩ ⟨lookup_dropLast he, hfile⟩
    · next hfolder => exact iff_of_false (by rintro ⟨_, ⟨⟩⟩) fun h => hfolder h.2

/-- Nothing is where there is no folder for it, and nothing can be put there. -/
theorem of_not_folder (h : t.isFolder path.dropLast = false) : t.lookup path = none ∧
    t.createFolder path = none ∧ ∀ content, t.writeFile path content = none := by
  have hno : t.lookup path.dropLast ≠ some .folder := by
    rw [ne_eq, ← isFolder_iff, h]
    exact Bool.false_ne_true
  refine ⟨?_, ?_, fun content => ?_⟩
  · exact Option.eq_none_iff_forall_ne_some.mpr fun e he => hno (lookup_dropLast he)
  · exact Option.eq_none_iff_forall_ne_some.mpr fun t' ht' =>
      hno (exists_createFolder_iff.mp ⟨t', ht'⟩).2
  · exact Option.eq_none_iff_forall_ne_some.mpr fun t' ht' =>
      hno (exists_writeFile_iff.mp ⟨t', ht'⟩).1

/-- A folder has no content, so making one leaves all contents. -/
theorem readFile_createFolder (h : t.createFolder path = some t') (other : List N) :
    t'.readFile other = t.readFile other := by
  unfold readFile
  rw [lookup_createFolder h]
  by_cases hother : other = path
  · rw [if_pos hother, hother, lookup_of_createFolder h]
  · rw [if_neg hother]

theorem readFile_writeFile (h : t.writeFile path content = some t') (other : List N) :
    t'.readFile other = if other = path then some content else t.readFile other := by
  unfold readFile
  rw [lookup_writeFile h]
  by_cases hother : other = path
  · rw [if_pos hother, if_pos hother]
  · rw [if_neg hother, if_neg hother]

omit [DecidableEq N] in
theorem entries_ext (h : t.entries = t'.entries) : t = t' := by
  obtain ⟨entries, _, _, _⟩ := t
  obtain ⟨_, _, _, _⟩ := t'
  obtain rfl : entries = _ := h
  rfl

theorem overwrite_overwrite (path : List N) (content content' : C) (x : List N × Entry C) :
    overwrite path content' (overwrite path content x) = overwrite path content' x := by
  unfold overwrite
  by_cases hx : x.1 = path <;> simp [hx]

/-- Writing a file twice is writing it once, with the second content. -/
theorem writeFile_writeFile (h : t.writeFile path content = some t') (content' : C) :
    t'.writeFile path content' = t.writeFile path content' := by
  have hlookup : t'.lookup path = some (.file content) := by rw [lookup_writeFile h, if_pos rfl]
  have hfile : t'.isFolder path = false := by
    rw [← Bool.not_eq_true, isFolder_iff, hlookup]
    simp
  have hsome : t'.lookup path ≠ none := by simp [hlookup]
  rw [writeFile, dif_neg hsome, dif_pos hfile]
  unfold writeFile at h ⊢
  split at h
  · next hnone =>
    split at h
    · next hparent =>
      obtain rfl := Option.some.inj h
      rw [dif_pos hnone, dif_pos hparent]
      refine congrArg some (entries_ext ?_)
      -- nothing else is at the path
      have hne : ∀ x ∈ t.entries, overwrite path content' x = x := by
        intro x hx
        refine overwrite_of_ne fun heq => ?_
        have hx' := (mem_entries.mp (show (x.1, x.2) ∈ t.entries from hx)).2
        rw [heq, hnone] at hx'
        cases hx'
      show (t.entries ++ [(path, Entry.file content)]).map (overwrite path content') =
        t.entries ++ [(path, .file content')]
      rw [List.map_append, List.map_congr_left hne, List.map_id', List.map_singleton, overwrite,
        if_pos rfl]
    · cases h
  · next hsome' =>
    split at h
    · next hfile' =>
      obtain rfl := Option.some.inj h
      rw [dif_neg hsome', dif_pos hfile']
      refine congrArg some (entries_ext ?_)
      show (t.entries.map (overwrite path content)).map (overwrite path content') =
        t.entries.map (overwrite path content')
      rw [List.map_map]
      exact List.map_congr_left fun x _ => overwrite_overwrite path content content' x
    · cases h

/-! ### Walking through a folder -/

/-- What a walk through the folder at a path visits: everything below it. -/
def below (t : FileTree N C) (path : List N) : List (List N × Entry C) :=
  t.entries.filter fun x => path <+: x.1 ∧ x.1 ≠ path

/-- **A walk visits** the entries below the folder. -/
theorem mem_below {e : Entry C} : (other, e) ∈ t.below path ↔
    ∃ rest, rest ≠ [] ∧ other = path ++ rest ∧ t.lookup other = some e := by
  rw [below, List.mem_filter, mem_entries, decide_eq_true_iff]
  constructor
  · rintro ⟨⟨-, hlookup⟩, ⟨rest, rfl⟩, hne⟩
    exact ⟨rest, fun hnil => hne (by rw [hnil, List.append_nil]), rfl, hlookup⟩
  · rintro ⟨rest, hrest, rfl, hlookup⟩
    exact ⟨⟨List.append_ne_nil_of_right_ne_nil _ hrest, hlookup⟩, List.prefix_append _ _,
      fun heq => hrest (List.append_cancel_left (heq.trans (List.append_nil path).symm))⟩

/-- It visits each once. -/
theorem nodup_below (t : FileTree N C) (path : List N) : ((t.below path).map Prod.fst).Nodup :=
  t.nodup.sublist (List.filter_sublist.map _)

end FileTree
