import Ssoa.Lib.FileTree

/-!
# Walking along a path

A path is walked step by step: a step stays in a folder, goes to the one above or to an entry of it.
A step can only be taken in a folder, so where a walk leads, and whether it gets there, depends on
what is on its way.

The places *around* a folder are the ones in it and the folders it is in. Two trees that agree
around a folder cannot be told apart by walks that stay there, and go on agreeing when the same is
changed in both.

## Main results

* `FileTree.walk_mono` — more folders never stop a walk
* `FileTree.walk_map_down` — a walk that goes down only
* `FileTree.eq_foldl_of_walk` — where a walk leads, if it gets there
* `FileTree.Agree.walk`, `FileTree.Agree.createFolder`, `FileTree.Agree.writeFile` — trees that
  agree around a folder
* `FileTree.Inside.createFolder`, `FileTree.Inside.writeFile` — what is changed from there is in the
  folder
-/

/-- One step of a path. -/
inductive Step (N : Type*) where
  | here
  | up
  | down (name : N)

namespace Step

variable {N : Type*}

/-- Where a step leads. The root is above itself. -/
def apply (location : List N) : Step N → List N
  | here => location
  | up => location.dropLast
  | down name => location ++ [name]

/-- The places the steps lead to, one after the other. -/
def visits : List N → List (Step N) → List (List N)
  | _, [] => []
  | location, step :: steps => step.apply location :: visits (step.apply location) steps

theorem visits_append (location : List N) (steps steps' : List (Step N)) :
    visits location (steps ++ steps') =
      visits location steps ++ visits (steps.foldl apply location) steps' := by
  induction steps generalizing location with
  | nil => rfl
  | cons step steps ih => rw [List.cons_append, visits, visits, ih, List.cons_append]; rfl

theorem mem_visits_of_prefix {location p : List N} {steps steps' : List (Step N)}
    (h : steps' <+: steps) (hp : p ∈ visits location steps') : p ∈ visits location steps := by
  obtain ⟨rest, rfl⟩ := h
  rw [visits_append]
  exact List.mem_append_left _ hp

/-- What goes nowhere up stays below. -/
theorem prefix_of_mem_visits {location p : List N} {steps : List (Step N)} (h : up ∉ steps)
    (hp : p ∈ visits location steps) : location <+: p := by
  induction steps generalizing location with
  | nil => cases hp
  | cons step steps ih =>
    obtain ⟨hstep, hsteps⟩ := not_or.mp (mt List.mem_cons.mpr h)
    have hnext : location <+: step.apply location := by
      cases step with
      | here => exact List.prefix_rfl
      | up => exact absurd rfl hstep
      | down name => exact List.prefix_append _ _
    rcases List.mem_cons.mp hp with rfl | hp
    · exact hnext
    · exact hnext.trans (ih hsteps hp)

end Step

namespace FileTree

variable {N C : Type*} {cwd root p : List N} {name : N}

/-- The place is in the folder, or is a folder it is in. -/
def Around (root p : List N) : Prop := p <+: root ∨ root <+: p

theorem Around.dropLast (h : Around root p) : Around root p.dropLast := by
  rcases h with h | h
  · exact .inl ((List.dropLast_prefix p).trans h)
  · rcases List.prefix_or_prefix_of_prefix (List.dropLast_prefix p) h with h' | h'
    · exact .inl h'
    · exact .inr h'

theorem ne_of_below (h : cwd ++ [name] <+: p) : cwd ≠ p := by
  rintro rfl
  have hlen := h.length_le
  rw [List.length_append, List.length_singleton] at hlen
  omega

variable [DecidableEq N] {t t' u u' : FileTree N C} {location : List N} {steps : List (Step N)}
  {content : C}

instance : Decidable (Around root p) := inferInstanceAs (Decidable (_ ∨ _))

/-- Walk along a path: the place it leads to, if there is a folder wherever a step is taken. -/
def walk (t : FileTree N C) : List N → List (Step N) → Option (List N)
  | location, [] => some location
  | location, step :: steps =>
    if t.isFolder location then t.walk (step.apply location) steps else none

theorem eq_foldl_of_walk (h : t.walk location steps = some p) :
    p = steps.foldl Step.apply location := by
  induction steps generalizing location with
  | nil => exact (Option.some.inj h).symm
  | cons step steps ih =>
    rw [walk] at h
    split at h
    · exact ih h
    · cases h

/-- A walk leads to one of the places on its way. -/
theorem mem_visits_of_walk (h : t.walk location steps = some p) :
    p = location ∨ p ∈ Step.visits location steps := by
  induction steps generalizing location with
  | nil => exact .inl (Option.some.inj h).symm
  | cons step steps ih =>
    rw [walk] at h
    split at h
    · rcases ih h with rfl | hmem
      · exact .inr List.mem_cons_self
      · exact .inr (List.mem_cons_of_mem _ hmem)
    · cases h

/-- **More folders never stop a walk.** -/
theorem walk_mono (hmore : ∀ q, t.lookup q = some .folder → t'.lookup q = some .folder)
    (h : t.walk location steps = some p) : t'.walk location steps = some p := by
  induction steps generalizing location with
  | nil => exact h
  | cons step steps ih =>
    rw [walk] at h ⊢
    split at h
    · next hfolder => rw [if_pos (isFolder_iff.mpr (hmore _ (isFolder_iff.mp hfolder))), ih h]
    · cases h

/-- **A walk that goes down only** needs the folder that its last step is taken in. -/
theorem walk_map_down (t : FileTree N C) (location : List N) {names : List N} (h : names ≠ []) :
    t.walk location (names.map .down) =
      if t.isFolder (location ++ names).dropLast then some (location ++ names) else none := by
  induction names generalizing location with
  | nil => exact absurd rfl h
  | cons name names ih =>
    rw [List.map_cons, walk]
    by_cases hnames : names = []
    · subst hnames
      rw [List.dropLast_concat]
      rfl
    · have hstep := ih (Step.apply location (.down name)) hnames
      have happend : location ++ name :: names = location ++ [name] ++ names := by simp
      rw [hstep, Step.apply, ← happend]
      by_cases hlast : t.isFolder (location ++ name :: names).dropLast = true
      · have hrest : (name :: names).dropLast ≠ [] := by
          rw [List.dropLast_cons_of_ne_nil hnames]
          exact List.cons_ne_nil _ _
        have habove : t.lookup location = some .folder := by
          rw [isFolder_iff, List.dropLast_append_of_ne_nil (List.cons_ne_nil _ _)] at hlast
          exact lookup_of_prefix hrest hlast
        rw [if_pos (isFolder_iff.mpr habove)]
      · rw [if_neg hlast, ite_self]

/-! ### Around a folder -/

/-- The trees agree around the folder. -/
def Agree (root : List N) (t u : FileTree N C) : Prop :=
  ∀ p, Around root p → t.lookup p = u.lookup p

theorem Agree.isFolder (h : Agree root t u) (hp : Around root p) :
    t.isFolder p = u.isFolder p := by
  rw [FileTree.isFolder, FileTree.isFolder, h p hp]

theorem Agree.readFile (h : Agree root t u) (hp : Around root p) :
    t.readFile p = u.readFile p := by
  rw [FileTree.readFile, FileTree.readFile, h p hp]

/-- **Walks around the folder** are the same in trees that agree there. -/
theorem Agree.walk (h : Agree root t u) (hlocation : Around root location)
    (hvisits : ∀ q ∈ Step.visits location steps, Around root q) :
    t.walk location steps = u.walk location steps := by
  induction steps generalizing location with
  | nil => rfl
  | cons step steps ih =>
    obtain ⟨hnext, hrest⟩ := List.forall_mem_cons.mp hvisits
    rw [FileTree.walk, FileTree.walk, h.isFolder hlocation, ih hnext hrest]

theorem Around.of_walk (hlocation : Around root location)
    (hvisits : ∀ q ∈ Step.visits location steps, Around root q)
    (h : t.walk location steps = some p) : Around root p := by
  rcases mem_visits_of_walk h with rfl | hmem
  · exact hlocation
  · exact hvisits p hmem

/-- The same change, which can be made in one tree if it can in the other. -/
theorem Agree.of_change {e : Entry C} {r s : Option (FileTree N C)} (h : Agree root t u)
    (hiff : (∃ t', r = some t') ↔ ∃ u', s = some u')
    (ht : ∀ t', r = some t' → ∀ q, t'.lookup q = if q = p then some e else t.lookup q)
    (hu : ∀ u', s = some u' → ∀ q, u'.lookup q = if q = p then some e else u.lookup q) :
    (r = none ∧ s = none) ∨ ∃ t' u', r = some t' ∧ s = some u' ∧ Agree root t' u' := by
  rcases r with _ | t'
  · refine .inl ⟨rfl, Option.eq_none_iff_forall_ne_some.mpr fun u' hu' => ?_⟩
    obtain ⟨t', ht'⟩ := hiff.mpr ⟨u', hu'⟩
    cases ht'
  · obtain ⟨u', rfl⟩ := hiff.mp ⟨t', rfl⟩
    refine .inr ⟨t', u', rfl, rfl, fun q hq => ?_⟩
    rw [ht t' rfl q, hu u' rfl q, h q hq]

/-- Making the same folder in both trees. -/
theorem Agree.createFolder (h : Agree root t u) (hp : Around root p) :
    (t.createFolder p = none ∧ u.createFolder p = none) ∨
    ∃ t' u', t.createFolder p = some t' ∧ u.createFolder p = some u' ∧ Agree root t' u' := by
  refine h.of_change ?_ (fun _ ht => lookup_createFolder ht) fun _ hu => lookup_createFolder hu
  rw [exists_createFolder_iff, exists_createFolder_iff, h p hp, h _ hp.dropLast]

/-- Writing the same file in both trees. -/
theorem Agree.writeFile (h : Agree root t u) (hp : Around root p) (content : C) :
    (t.writeFile p content = none ∧ u.writeFile p content = none) ∨
    ∃ t' u', t.writeFile p content = some t' ∧ u.writeFile p content = some u' ∧
      Agree root t' u' := by
  refine h.of_change ?_ (fun _ ht => lookup_writeFile ht) fun _ hu => lookup_writeFile hu
  rw [exists_writeFile_iff, exists_writeFile_iff, h p hp, h _ hp.dropLast]

/-! ### In a folder that is there, or can be made -/

/-- Between the trees nothing has changed that is not in the folder, and what the folder is in is
still there. -/
structure Inside (cwd : List N) (name : N) (t t' : FileTree N C) : Prop where
  folder : t'.lookup cwd = some .folder
  frame : ∀ q, ¬ cwd ++ [name] <+: q → t'.lookup q = t.lookup q

theorem Inside.refl (h : t.lookup cwd = some .folder) : Inside cwd name t t := ⟨h, fun _ _ => rfl⟩

theorem Inside.trans {t'' : FileTree N C} (h : Inside cwd name t t') (h' : Inside cwd name t' t'') :
    Inside cwd name t t'' :=
  ⟨h'.folder, fun q hq => (h'.frame q hq).trans (h.frame q hq)⟩

/-- What is around the folder and is no folder is in it. -/
theorem Around.prefix_of_not_folder (h : Around (cwd ++ [name]) p)
    (hcwd : t.lookup cwd = some .folder) (hp : t.lookup p ≠ some .folder) :
    cwd ++ [name] <+: p := by
  rcases h with h | h
  · rcases List.prefix_concat_iff.mp h with rfl | ⟨rest, rfl⟩
    · exact List.prefix_rfl
    · by_cases hrest : rest = []
      · rw [hrest, List.append_nil] at hcwd
        exact absurd hcwd hp
      · have habove := lookup_of_prefix hrest hcwd
        exact absurd habove hp
  · exact h

/-- One change in the folder. -/
theorem Inside.of_change {e : Entry C} (hcwd : t.lookup cwd = some .folder)
    (hin : cwd ++ [name] <+: p) (h : ∀ q, t'.lookup q = if q = p then some e else t.lookup q) :
    Inside cwd name t t' := by
  refine ⟨?_, fun q hq => ?_⟩
  · rw [h, if_neg (ne_of_below hin), hcwd]
  · rw [h, if_neg (by rintro rfl; exact hq hin)]

/-- **A folder that is made around the folder** is in it. -/
theorem Inside.createFolder (hcwd : t.lookup cwd = some .folder) (hp : Around (cwd ++ [name]) p)
    (h : t.createFolder p = some t') : Inside cwd name t t' :=
  .of_change hcwd (hp.prefix_of_not_folder hcwd (by simp [lookup_of_createFolder h]))
    (lookup_createFolder h)

/-- **A file that is written around the folder** is in it. -/
theorem Inside.writeFile (hcwd : t.lookup cwd = some .folder) (hp : Around (cwd ++ [name]) p)
    (h : t.writeFile p content = some t') : Inside cwd name t t' :=
  .of_change hcwd (hp.prefix_of_not_folder hcwd (exists_writeFile_iff.mp ⟨t', h⟩).2)
    (lookup_writeFile h)

/-- Trees that agree in the folder agree around it. -/
theorem agree_of_inside (ht : t.lookup cwd = some .folder) (hu : u.lookup cwd = some .folder)
    (h : ∀ q, cwd ++ [name] <+: q → t.lookup q = u.lookup q) : Agree (cwd ++ [name]) t u := by
  rintro q (hq | hq)
  · rcases List.prefix_concat_iff.mp hq with rfl | ⟨rest, rfl⟩
    · exact h _ List.prefix_rfl
    · by_cases hrest : rest = []
      · rw [hrest, List.append_nil] at ht hu
        rw [ht, hu]
      · have ht' := lookup_of_prefix hrest ht
        have hu' := lookup_of_prefix hrest hu
        rw [ht', hu']
  · exact h q hq

end FileTree
