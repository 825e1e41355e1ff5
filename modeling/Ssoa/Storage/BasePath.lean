import Ssoa.Lib.Cancel
import Ssoa.Storage.Host

/-!
# Skipping the base path

`getList` and the client walk through a folder and take the path of the folder from the front of the
paths of the files in it. The same loop does it in both places: it goes along the elements of the
normalised path of the folder and the elements of the path of the file, which is not normalised.

So it finds the path of the folder only if normalising has changed nothing but dots, that is, unless
there is a name right before a `..` in it.

`normalize()` is a parameter, of which the loop needs what it does with `..`.

## Main results

* `Path.place_of_resolve` — what paths lead to
* `Normalization.skips_iff` — when the name that is left leads to the file and does not go up
* `Normalization.files_eq_relativePath` — for the storage folder it is the name in the list
-/

namespace Ssoa

namespace Path

/-- A slash at the end of a path counts as `.` if there is a component before it. -/
def trailing (p : Text) (cs : List Text) : List Text :=
  if cs ≠ [] ∧ p.getLast? = some slash then [txt "."] else []

/-- The elements of a path, as its iterator yields them: the root and the components. After exactly
two slashes the first component is the name of a host. -/
def elements (p : Text) : List Text :=
  if (p.takeWhile fun b => b = slash).length = 2 then
    match components p with
    | [] => [p]
    | host :: cs => (slash :: slash :: host) ::
        if p = slash :: slash :: host then [] else [slash] :: (cs ++ trailing p cs)
  else (if p.head? = some slash then [[slash]] else []) ++ components p ++ trailing p (components p)

/-- The elements that are not `.`. -/
def withoutDots (l : List Text) : List Text := l.filter fun c => c ≠ txt "."

/-- A name that can be taken out cancels with a `..` after it. -/
def cancels (removable : Text → Bool) (c d : Text) : Bool := removable c && decide (d = txt "..")

/-- The loop that skips the base path: what it leaves of the path of the file. It must not look at
an element behind the last. -/
def skipLoop : List Text → List Text → Option (List Text)
  | [], combined => some combined
  | _ :: _, [] => none
  | s :: skip, c :: combined =>
    if s = c then skipLoop skip combined
    else if s = txt "." then skipLoop skip (c :: combined)
    else if c = txt "." then skipLoop (s :: skip) combined
    else some (c :: combined) -- something went wrong
termination_by skip combined => skip.length + combined.length

/-- Where a path leads from a folder, component by component. -/
def place (cwd : List Text) (p : Text) : List Text :=
  (route p).foldl Step.apply (if p.head? = some slash then [] else cwd)

/-- The name leads from the base path to the file, and does not go up. -/
structure Restores (base p name : Text) : Prop where
  same : ∀ cwd, place cwd (append base name) = place cwd p
  no_dotdot : txt ".." ∉ components name

end Path

/-- `normalize()`, by the elements of the path it makes: dots aside, names are taken out together
with a `..` after them. -/
structure Normalization where
  removable : Text → Bool
  ordinary : ∀ c, removable c = true → Ordinary c
  normalized : Text → List Text
  withoutDots_normalized : ∀ p, Path.withoutDots (normalized p) =
    Neighbours.cancel (Path.cancels removable) (Path.withoutDots (Path.elements p))

namespace Normalization

/-- What is left of the path of a file when the base path is skipped. -/
def relativePath (norm : Normalization) (base p : Text) : Option Text :=
  (Path.skipLoop (norm.normalized base) (Path.elements p)).map fun rest =>
    rest.foldl Path.append []

/-- What `getList` puts into `files` for a file. -/
def files (norm : Normalization) (path p : Text) : Option Text := norm.relativePath path p

/-- The `filename` that `readRandomFileFromDisk` makes of a file, whose path it has as `c_str()`. -/
def filename (norm : Normalization) (imageFolder p : Text) : Option Text :=
  norm.relativePath imageFolder (cstr p)

end Normalization

namespace Path

variable {base p q c s : Text} {l cs names skip combined rest before tail : List Text}

/-! ### Components of paths that are put together -/

theorem components_foldl_append (l : List Text) (p : Text) :
    components (l.foldl append p) = components p ++ l.flatMap components := by
  induction l generalizing p with
  | nil => simp
  | cons q l ih => rw [List.foldl_cons, ih, components_append, List.flatMap_cons, List.append_assoc]

theorem components_of_no_slash (hc : c ≠ []) (hslash : slash ∉ c) : components c = [c] := by
  rw [components, List.splitOn_eq_singleton hslash]
  simp [hc]

theorem flatMap_components (h : ∀ c ∈ cs, c ≠ [] ∧ slash ∉ c) : cs.flatMap components = cs := by
  induction cs with
  | nil => rfl
  | cons c cs ih =>
    obtain ⟨⟨hc, hslash⟩, hcs⟩ := List.forall_mem_cons.mp h
    rw [List.flatMap_cons, components_of_no_slash hc hslash, ih hcs]
    rfl

theorem eq_slash_of_components_eq_nil (h : components p = []) : ∀ b ∈ p, b = slash := by
  induction p with
  | nil => simp
  | cons b p ih =>
    by_cases hb : b = slash
    · subst hb
      rw [components_slash_cons] at h
      simpa using ih h
    · exfalso
      obtain ⟨d, ds, hsplit⟩ := List.exists_cons_of_ne_nil (List.splitOn_ne_nil slash p)
      rw [components, List.splitOn_cons_eq_if_modifyHead, if_neg (by simpa using hb), hsplit] at h
      simp at h

theorem slash_not_mem_of_mem_splitOn (h : c ∈ p.splitOn slash) : slash ∉ c := by
  induction p generalizing c with
  | nil => simp_all
  | cons b p ih =>
    rw [List.splitOn_cons_eq_if_modifyHead] at h
    split at h
    · rcases List.mem_cons.mp h with rfl | hc
      · exact List.not_mem_nil
      · exact ih hc
    · next hb =>
      obtain ⟨d, ds, hsplit⟩ := List.exists_cons_of_ne_nil (List.splitOn_ne_nil slash p)
      rw [hsplit, List.modifyHead_cons] at h
      rcases List.mem_cons.mp h with rfl | hc
      · have hd : slash ∉ d := ih (hsplit ▸ List.mem_cons_self)
        exact List.not_mem_cons_of_ne_of_not_mem (fun heq => hb (by simp [heq])) hd
      · exact ih (hsplit ▸ List.mem_cons_of_mem _ hc)

theorem of_mem_components (h : c ∈ components p) : c ≠ [] ∧ slash ∉ c := by
  obtain ⟨hsplit, hne⟩ := List.mem_filter.mp h
  exact ⟨of_decide_eq_true hne, slash_not_mem_of_mem_splitOn hsplit⟩

/-- The network name of a host has its name as the only component. -/
theorem components_host (h : c ∈ components p) : components (slash :: slash :: c) = [c] := by
  obtain ⟨hne, hslash⟩ := of_mem_components h
  rw [components_slash_cons, components_slash_cons, components_of_no_slash hne hslash]

/-! ### Paths of files -/

theorem head?_append (hbase : base ≠ []) (q : Text) : (append base q).head? = base.head? := by
  rw [append]
  split
  · rfl
  · split
    · exact List.head?_append_of_ne_nil _ hbase
    · split
      · exact List.head?_append_of_ne_nil _ hbase
      · exact List.head?_append_of_ne_nil _ hbase

theorem append_ne_nil (hbase : base ≠ []) (q : Text) : append base q ≠ [] := by
  intro h
  have hhead := head?_append hbase q
  rw [h] at hhead
  exact hbase (List.head?_eq_none_iff.mp hhead.symm)

/-- A component is put behind a slash. -/
theorem append_of_ordinary (hbase : base ≠ []) (hc : Ordinary c) :
    (base.getLast? = some slash ∧ append base c = base ++ c) ∨
    (base.getLast? ≠ some slash ∧ append base c = base ++ slash :: c) := by
  have hhead : c.head? ≠ some slash := fun heq => hc.no_slash (List.mem_of_mem_head? heq)
  rw [append, if_neg hc.ne_nil, if_neg hhead]
  by_cases hlast : base.getLast? = some slash
  · exact .inl ⟨hlast, if_pos (.inr hlast)⟩
  · exact .inr ⟨hlast, if_neg (not_or.mpr ⟨hbase, hlast⟩)⟩

theorem getLast?_append (hbase : base ≠ []) (hc : Ordinary c) :
    (append base c).getLast? ≠ some slash := by
  have hlast : c.getLast? ≠ some slash := fun heq => hc.no_slash (List.mem_of_getLast? heq)
  rcases append_of_ordinary hbase hc with ⟨-, h⟩ | ⟨-, h⟩
  · rwa [h, List.getLast?_append_of_ne_nil _ hc.ne_nil]
  · rwa [h, List.getLast?_append_of_ne_nil _ (List.cons_ne_nil _ _),
      List.getLast?_cons_of_ne_nil hc.ne_nil]

/-- The slashes at the beginning stay the same. -/
theorem takeWhile_append (hbase : base ≠ []) (hc : Ordinary c) :
    (append base c).takeWhile (fun b => b = slash) = base.takeWhile fun b => b = slash := by
  have hnone : c.takeWhile (fun b => b = slash) = [] := by
    cases c with
    | nil => rfl
    | cons b c =>
      have hb : b ≠ slash := fun heq => hc.no_slash (heq ▸ List.mem_cons_self)
      exact List.takeWhile_cons_of_neg (by simpa using hb)
  rcases append_of_ordinary hbase hc with ⟨-, h⟩ | ⟨hlast, h⟩
  · rw [h, List.takeWhile_append]
    split
    · next hlen => rw [hnone, List.append_nil, (List.takeWhile_prefix _).eq_of_length hlen]
    · rfl
  · rw [h, List.takeWhile_append, if_neg]
    intro hlen
    have hall := (List.takeWhile_prefix (fun b => decide (b = slash))).eq_of_length hlen
    obtain ⟨b, hb⟩ := Option.ne_none_iff_exists'.mp (mt List.getLast?_eq_none_iff.mp hbase)
    have hslash := List.takeWhile_eq_self_iff.mp hall b (List.mem_of_getLast? hb)
    rw [hb, of_decide_eq_true hslash] at hlast
    exact hlast rfl

/-- What the path of a file below the base path has of it. -/
structure Extends (base : Text) (names : List Text) (p : Text) : Prop where
  components : components p = components base ++ names
  slashes : p.takeWhile (fun b => b = slash) = base.takeWhile fun b => b = slash
  head : p.head? = base.head?
  last : p.getLast? ≠ some slash

theorem extends_foldl (hbase : base ≠ []) (hnames : names ≠ []) (h : ∀ c ∈ names, Ordinary c) :
    Extends base names (names.foldl append base) := by
  have hcomponents : names.flatMap components = names :=
    flatMap_components fun c hc => ⟨(h c hc).ne_nil, (h c hc).no_slash⟩
  have hrun : names.foldl append base ≠ [] ∧
      (names.foldl append base).takeWhile (fun b => b = slash) =
        (base.takeWhile fun b => b = slash) ∧
      (names.foldl append base).head? = base.head? ∧
      (names ≠ [] → (names.foldl append base).getLast? ≠ some slash) := by
    clear hnames hcomponents
    induction names using List.reverseRec with
    | nil => exact ⟨hbase, rfl, rfl, fun hne => absurd rfl hne⟩
    | append_singleton names c ih =>
      obtain ⟨hne, hslashes, hhead, -⟩ := ih fun d hd => h d (List.mem_append_left _ hd)
      have hc := h c (List.mem_append_right _ (List.mem_singleton_self c))
      rw [List.foldl_append, List.foldl_cons, List.foldl_nil]
      exact ⟨append_ne_nil hne c, (takeWhile_append hne hc).trans hslashes,
        (head?_append hne c).trans hhead, fun _ => getLast?_append hne hc⟩
  exact ⟨by rw [components_foldl_append, hcomponents], hrun.2.1, hrun.2.2.1, hrun.2.2.2 hnames⟩

/-! ### Elements -/

theorem trailing_of_last (h : p.getLast? ≠ some slash) (cs : List Text) : trailing p cs = [] :=
  if_neg fun hc => h hc.2

@[simp] theorem withoutDots_append (l l' : List Text) :
    withoutDots (l ++ l') = withoutDots l ++ withoutDots l' := List.filter_append ..

@[simp] theorem withoutDots_trailing (p : Text) (cs : List Text) :
    withoutDots (trailing p cs) = [] := by
  rw [trailing]
  split
  · decide
  · rfl

/-- **The elements of the path of a file** are those of the base path, dots aside, and the names; in
the root of a host there is a slash between. -/
theorem elements_of_extends (h : Extends base names p) (hnames : names ≠ []) :
    base = [slash, slash] ∨ ∃ before, withoutDots before = withoutDots (elements base) ∧
      (elements p = before ++ names ∨ elements p = before ++ [slash] :: names) := by
  rw [elements, elements, h.slashes, h.head, h.components]
  split
  · next htwo =>
    cases hcomponents : components base with
    | nil =>
      left
      have hall : base.takeWhile (fun b => b = slash) = base :=
        List.takeWhile_eq_self_iff.mpr fun b hb => by
          simpa using eq_slash_of_components_eq_nil hcomponents b hb
      rw [hall] at htwo
      have hreplicate := List.eq_replicate_of_mem (eq_slash_of_components_eq_nil hcomponents)
      rw [htwo] at hreplicate
      exact hreplicate
    | cons host cs =>
      right
      have hhost : components (slash :: slash :: host) = [host] :=
        components_host (p := base) (hcomponents ▸ List.mem_cons_self)
      have hp : p ≠ slash :: slash :: host := by
        rintro rfl
        have hnil := hhost.symm.trans h.components
        rw [hcomponents, List.cons_append] at hnil
        exact hnames (List.append_eq_nil_iff.mp (List.cons.inj hnil).2.symm).2
      rw [List.cons_append]
      dsimp only
      rw [if_neg hp, trailing_of_last h.last, List.append_nil]
      by_cases hbase : base = slash :: slash :: host
      · have hcs : cs = [] := by
          rw [hbase, hhost] at hcomponents
          exact (List.cons.inj hcomponents).2.symm
        exact ⟨[slash :: slash :: host], by rw [if_pos hbase], .inr (by rw [hcs]; rfl)⟩
      · refine ⟨(slash :: slash :: host) :: [slash] :: cs, ?_, .inl rfl⟩
        rw [if_neg hbase, ← List.cons_append, ← List.cons_append, withoutDots_append,
          withoutDots_trailing, List.append_nil]
  · right
    refine ⟨(if base.head? = some slash then [[slash]] else []) ++ components base, ?_, .inl ?_⟩
    · rw [withoutDots_append _ (trailing _ _), withoutDots_trailing, List.append_nil]
    · rw [trailing_of_last h.last, List.append_nil, List.append_assoc]

theorem elements_join (h : ∀ c ∈ cs, Ordinary c) : elements (join cs) = cs := by
  have hslashes : (join cs).takeWhile (fun b => b = slash) = [] := by
    have hhead := head?_join h
    cases hjoin : join cs with
    | nil => rfl
    | cons b p =>
      rw [hjoin] at hhead
      exact List.takeWhile_cons_of_neg (by simpa using hhead)
  rw [elements, hslashes, if_neg (by simp), if_neg (head?_join h),
    trailing_of_last (getLast?_join h), components_join h]
  simp

/-- The elements have the components of the path. -/
theorem flatMap_components_elements (h : p.getLast? ≠ some slash) :
    (elements p).flatMap components = components p := by
  have hcomponents : (components p).flatMap components = components p :=
    flatMap_components fun c hc => of_mem_components hc
  have hslash : components [slash] = [] := by decide
  rw [elements]
  split
  · cases hp : components p with
    | nil => simp [hp]
    | cons host cs =>
      have hhost : components (slash :: slash :: host) = [host] :=
        components_host (p := p) (hp ▸ List.mem_cons_self)
      have hcs : cs.flatMap components = cs :=
        flatMap_components fun c hc => of_mem_components (p := p) (hp ▸ List.mem_cons_of_mem _ hc)
      dsimp only
      rw [List.flatMap_cons, hhost, trailing_of_last h]
      split
      · next heq =>
        rw [heq, hhost] at hp
        rw [← (List.cons.inj hp).2]
        rfl
      · rw [List.flatMap_cons, hslash, List.append_nil, hcs]
        rfl
  · rw [trailing_of_last h, List.append_nil, List.flatMap_append, hcomponents]
    split
    · rw [List.flatMap_singleton, hslash]
      rfl
    · rfl

/-! ### The loop -/

theorem withoutDots_cons_dot (l : List Text) : withoutDots (txt "." :: l) = withoutDots l :=
  List.filter_cons_of_neg (by simp)

theorem withoutDots_cons (hc : c ≠ txt ".") (l : List Text) :
    withoutDots (c :: l) = c :: withoutDots l :=
  List.filter_cons_of_pos (by simpa using hc)

/-- **The loop skips** what is the same, dots aside: dots may be left of it. -/
theorem skipLoop_of_withoutDots (h : withoutDots skip = withoutDots before)
    (hne : tail ≠ []) (htail : tail.head? ≠ some (txt ".")) :
    ∃ dots, (∀ d ∈ dots, d = txt "." ∧ d ∈ before) ∧
      skipLoop skip (before ++ tail) = some (dots ++ tail) := by
  induction hn : skip.length + before.length using Nat.strong_induction_on generalizing skip before
  rename_i n ih
  subst hn
  cases skip with
  | nil =>
    refine ⟨before, fun d hd => ⟨?_, hd⟩, by rw [skipLoop]⟩
    by_contra hdot
    have hmem : d ∈ withoutDots before := List.mem_filter.mpr ⟨hd, by simpa using hdot⟩
    rw [← h] at hmem
    cases hmem
  | cons s skip =>
    cases before with
    | nil =>
      -- only dots are left to skip
      have hs : s = txt "." := by
        by_contra hs
        rw [withoutDots_cons hs] at h
        cases h
      subst hs
      rw [withoutDots_cons_dot] at h
      obtain ⟨c, cs, rfl⟩ := List.exists_cons_of_ne_nil hne
      have hc : txt "." ≠ c := fun heq => htail (by rw [heq]; rfl)
      obtain ⟨dots, hdots, hloop⟩ := ih _ (by simp) h rfl
      refine ⟨dots, hdots, ?_⟩
      rw [List.nil_append, skipLoop, if_neg hc, if_pos rfl]
      exact hloop
    | cons c before =>
      rw [List.cons_append, skipLoop]
      by_cases hsc : s = c
      · subst hsc
        have hrest : withoutDots skip = withoutDots before := by
          by_cases hs : s = txt "."
          · rwa [hs, withoutDots_cons_dot, withoutDots_cons_dot] at h
          · rw [withoutDots_cons hs, withoutDots_cons hs] at h
            exact (List.cons.inj h).2
        obtain ⟨dots, hdots, hloop⟩ := ih _ (by simp; omega) hrest rfl
        refine ⟨dots, fun d hd => ⟨(hdots d hd).1, List.mem_cons_of_mem _ (hdots d hd).2⟩, ?_⟩
        rw [if_pos rfl, hloop]
      · rw [if_neg hsc]
        by_cases hs : s = txt "."
        · subst hs
          rw [withoutDots_cons_dot] at h
          obtain ⟨dots, hdots, hloop⟩ := ih _ (by simp) h rfl
          exact ⟨dots, hdots, by rw [if_pos rfl]; exact hloop⟩
        · rw [if_neg hs]
          by_cases hc : c = txt "."
          · subst hc
            rw [withoutDots_cons_dot] at h
            obtain ⟨dots, hdots, hloop⟩ := ih _ (by simp) h rfl
            refine ⟨dots, fun d hd => ⟨(hdots d hd).1, List.mem_cons_of_mem _ (hdots d hd).2⟩, ?_⟩
            rw [if_pos rfl, hloop]
          · rw [withoutDots_cons hs, withoutDots_cons hc] at h
            exact absurd (List.cons.inj h).1 hsc

/-- What the loop has skipped begins, dots aside, what is to be skipped. -/
theorem exists_of_skipLoop (h : skipLoop skip combined = some rest) :
    ∃ skipped, combined = skipped ++ rest ∧ withoutDots skipped <+: withoutDots skip := by
  fun_induction skipLoop skip combined with
  | case1 combined => exact ⟨[], by rw [Option.some.inj h]; rfl, List.prefix_rfl⟩
  | case2 => cases h
  | case3 skip c combined ih =>
    obtain ⟨skipped, rfl, hprefix⟩ := ih h
    refine ⟨c :: skipped, rfl, ?_⟩
    by_cases hc : c = txt "."
    · rwa [hc, withoutDots_cons_dot, withoutDots_cons_dot]
    · rw [withoutDots_cons hc, withoutDots_cons hc]
      exact (List.prefix_cons_inj c).mpr hprefix
  | case4 skip c combined hsc ih =>
    rw [withoutDots_cons_dot]
    exact ih h
  | case5 s skip combined hsc hs ih =>
    obtain ⟨skipped, rfl, hprefix⟩ := ih h
    exact ⟨txt "." :: skipped, rfl, by rwa [withoutDots_cons_dot]⟩
  | case6 s skip c combined hsc hs hc =>
    exact ⟨[], by rw [Option.some.inj h]; rfl, List.nil_prefix⟩

/-- Where there is one element to skip and another one is found, nothing is skipped. -/
theorem skipLoop_of_ne (h : withoutDots skip = [s]) (hs : s ≠ txt ".") (hsc : s ≠ c)
    (hc : c ≠ txt ".") (l : List Text) : skipLoop skip (c :: l) = some (c :: l) := by
  induction skip with
  | nil => cases h
  | cons d skip ih =>
    rw [skipLoop]
    by_cases hd : d = txt "."
    · rw [hd, withoutDots_cons_dot] at h
      rw [if_neg (hd ▸ hc.symm), if_pos hd, ih h]
    · rw [withoutDots_cons hd] at h
      obtain rfl := (List.cons.inj h).1
      rw [if_neg hsc, if_neg hd, if_neg hc]

/-! ### Places -/

theorem foldl_route_dots {dots : List Text} (h : ∀ d ∈ dots, d = txt ".") (location : List Text) :
    (dots.map step).foldl Step.apply location = location := by
  induction dots with
  | nil => rfl
  | cons d dots ih =>
    obtain ⟨rfl, hdots⟩ := List.forall_mem_cons.mp h
    rw [List.map_cons, List.foldl_cons]
    exact ih hdots

/-- Where the system finds a path, if it does, is where its components lead. -/
theorem place_of_resolve {host : Host} {t : FileSystem} {location : List Text} (hzero : 0 ∉ p)
    (h : host.resolve t p = some location) : location = place host.cwd p := by
  -- a slash at the end leads nowhere else
  have hend (location : List Text) : (if p.getLast? = some slash then [Step.here] else []).foldl
      Step.apply location = location := by
    split
    · rfl
    · rfl
  rw [Host.resolve, Host.follow, cstr_eq_self hzero] at h
  split at h
  · cases h
  · rw [FileTree.eq_foldl_of_walk h, steps, place, List.foldl_append, hend]

/-- **A name leads to the file** if it is what the path of the file has more than the base path. -/
theorem restores_of_components {dots : List Text} (hbase : base ≠ []) (h : Extends base names p)
    (hdots : ∀ d ∈ dots, d = txt ".") (hnames : ∀ c ∈ names, Ordinary c)
    (hq : components q = dots ++ names) : Restores base p q := by
  constructor
  · intro cwd
    rw [place, place, route, route, components_append, h.components, hq, head?_append hbase,
      h.head, List.map_append, List.map_append, List.map_append, List.foldl_append,
      List.foldl_append, List.foldl_append, foldl_route_dots hdots]
  · rw [hq]
    intro hmem
    rcases List.mem_append.mp hmem with hmem | hmem
    · exact absurd (hdots _ hmem) (by decide)
    · exact (hnames _ hmem).not_dotdot rfl

end Path

namespace Normalization

open Ssoa.Path Neighbours

variable {norm : Normalization} {base p : Text} {names rest : List Text}

/-- The loop does not run past the end, and the name that is left leads to the file. -/
def Skips (base p : Text) (name : Option Text) : Prop := ∃ r, name = some r ∧ Restores base p r

/-- No name that can be taken out stands, dots aside, right before a `..`. -/
def Irredundant (norm : Normalization) (base : Text) : Prop :=
  Reduced (cancels norm.removable) (withoutDots (elements base))

instance (norm : Normalization) (base : Text) : Decidable (norm.Irredundant base) :=
  inferInstanceAs (Decidable (Reduced _ _))

/-- Nothing cancels where there is no `..`. -/
theorem reduced_of_not_mem {removable : Text → Bool} {l : List Text} (h : txt ".." ∉ l) :
    Reduced (cancels removable) l := by
  induction l with
  | nil => exact List.isChain_nil
  | cons c l ih =>
    have hl : txt ".." ∉ l := fun hmem => h (List.mem_cons_of_mem _ hmem)
    refine List.isChain_cons.mpr ⟨fun d hd => ?_, ih hl⟩
    have hne : d ≠ txt ".." := fun heq => hl (heq ▸ List.mem_of_mem_head? hd)
    simp [cancels, hne]

/-- The elements of the path of a file when the base path is two slashes: the first name is taken
for a host. -/
theorem elements_of_slashes {name : Text} (hp : Extends [slash, slash] (name :: names) p) :
    ∃ l, elements p = (slash :: slash :: name) :: l := by
  have hcomponents : components p = name :: names := hp.components
  have htwo : (p.takeWhile fun b => b = slash).length = 2 := by
    rw [hp.slashes]
    decide
  rw [elements, if_pos htwo, hcomponents]
  exact ⟨_, rfl⟩

/-- **If normalising changes nothing but dots,** the base path is skipped. -/
theorem skips_of_irredundant (hbase : base ≠ []) (hnames : names ≠ [])
    (hordinary : ∀ c ∈ names, Ordinary c) (hp : Extends base names p)
    (h : norm.Irredundant base) : Skips base p (norm.relativePath base p) := by
  have hskip : withoutDots (norm.normalized base) = withoutDots (elements base) := by
    rw [norm.withoutDots_normalized, cancel_of_reduced h]
  have hflat : names.flatMap components = names :=
    flatMap_components fun c hc => ⟨(hordinary c hc).ne_nil, (hordinary c hc).no_slash⟩
  have hnil : components [] = [] := rfl
  rcases elements_of_extends hp hnames with rfl | ⟨before, hbefore, helements⟩
  · obtain ⟨name, names, rfl⟩ := List.exists_cons_of_ne_nil hnames
    obtain ⟨l, helements⟩ := elements_of_slashes hp
    have hname := (hordinary name List.mem_cons_self).ne_nil
    have hdot : slash :: slash :: name ≠ txt "." := fun heq =>
      List.cons_ne_nil _ _ (congrArg List.tail heq)
    have hloop := skipLoop_of_ne (hskip.trans (by decide)) (s := [slash, slash]) (by decide)
      (by simpa using hname.symm) hdot l
    refine ⟨_, by rw [relativePath, helements, hloop, Option.map_some],
      restores_of_components hbase hp (fun _ hd => absurd hd List.not_mem_nil) hordinary ?_⟩
    rw [components_foldl_append, ← helements, flatMap_components_elements hp.last, hp.components]
    rfl
  · obtain ⟨tail, htail, hne, hdot, hcomponents⟩ : ∃ tail, elements p = before ++ tail ∧ tail ≠ [] ∧
        tail.head? ≠ some (txt ".") ∧ tail.flatMap components = names := by
      rcases helements with helements | helements
      · refine ⟨names, helements, hnames, fun hhead => ?_, hflat⟩
        exact (hordinary _ (List.mem_of_mem_head? hhead)).not_dot rfl
      · refine ⟨[slash] :: names, helements, List.cons_ne_nil _ _, by simp; decide, ?_⟩
        rw [List.flatMap_cons, hflat]
        rfl
    obtain ⟨dots, hdots, hloop⟩ := skipLoop_of_withoutDots (hskip.trans hbefore.symm) hne hdot
    refine ⟨_, by rw [relativePath, htail, hloop, Option.map_some],
      restores_of_components hbase hp (fun d hd => (hdots d hd).1) hordinary ?_⟩
    have hdotsflat : dots.flatMap components = dots :=
      flatMap_components fun d hd => by rw [(hdots d hd).1]; decide
    rw [components_foldl_append, List.flatMap_append, hdotsflat, hcomponents, hnil, List.nil_append]

/-- **If the base path is skipped,** what is left does not go up, so the normalised path has all
that goes up in the base path. -/
theorem irredundant_of_skips (hnames : names ≠ []) (hp : Extends base names p)
    (h : Skips base p (norm.relativePath base p)) : norm.Irredundant base := by
  obtain ⟨r, hr, hrestores⟩ := h
  obtain ⟨rest, hloop, rfl⟩ := Option.map_eq_some_iff.mp hr
  obtain ⟨skipped, hsplit, hprefix⟩ := exists_of_skipLoop hloop
  have hrest : txt ".." ∉ withoutDots rest := by
    intro hmem
    refine hrestores.no_dotdot ?_
    rw [components_foldl_append]
    refine List.mem_append_right _ (List.mem_flatMap.mpr ⟨_, (List.mem_filter.mp hmem).1, ?_⟩)
    decide
  obtain ⟨left, hleft⟩ := hprefix
  have hskipped : Reduced (cancels norm.removable) (withoutDots skipped) := by
    have hcancel := reduced_cancel (cancels norm.removable) (withoutDots (elements base))
    rw [← norm.withoutDots_normalized, ← hleft] at hcancel
    exact hcancel.left_of_append
  -- nothing cancels in what was skipped, and there is no `..` after it
  have hall : Reduced (cancels norm.removable) (withoutDots (elements p)) := by
    rw [hsplit, withoutDots_append]
    refine hskipped.append (reduced_of_not_mem hrest) fun c _ d hd => ?_
    have hne : d ≠ txt ".." := fun heq => hrest (heq ▸ List.mem_of_mem_head? hd)
    simp [cancels, hne]
  rcases elements_of_extends hp hnames with rfl | ⟨before, hbefore, helements⟩
  · exact List.isChain_singleton _
  · rw [Irredundant, ← hbefore]
    rcases helements with helements | helements <;>
      · rw [helements, withoutDots_append] at hall
        exact hall.left_of_append

theorem zero_not_mem_foldl (hbase : base ≠ []) (hzero : 0 ∉ base)
    (hordinary : ∀ c ∈ names, Ordinary c) : 0 ∉ names.foldl append base := by
  induction names generalizing base with
  | nil => exact hzero
  | cons c names ih =>
    obtain ⟨hc, hnames⟩ := List.forall_mem_cons.mp hordinary
    have hslash : (0 : Byte) ≠ slash := by decide
    refine ih (append_ne_nil hbase c) ?_ hnames
    rcases append_of_ordinary hbase hc with ⟨-, h⟩ | ⟨-, h⟩
    · simp [h, hzero, hc.no_nul]
    · simp [h, hzero, hc.no_nul, hslash]

/-- **The base path is skipped** in the list and by the client exactly if no name that normalising
takes out stands in it, dots aside, right before a `..`. -/
theorem skips_iff (norm : Normalization) (base : Text) (hbase : base ≠ []) (hzero : 0 ∉ base)
    (names : List Text) (hnames : names ≠ []) (hordinary : ∀ c ∈ names, Ordinary c) :
    let p := names.foldl append base
    (Skips base p (norm.files base p) ∧ Skips base p (norm.filename base p)) ↔
      norm.Irredundant base := by
  intro p
  have hp := extends_foldl hbase hnames hordinary
  have hcstr : cstr p = p := cstr_eq_self (zero_not_mem_foldl hbase hzero hordinary)
  rw [files, filename, hcstr, and_self]
  exact ⟨irredundant_of_skips hnames hp, skips_of_irredundant hbase hnames hordinary hp⟩

/-- For the storage folder, the name that is left is the name in the list. -/
theorem files_eq_relativePath (norm : Normalization) (name : ImageName) :
    let p := StorageService.entryPath (StorageService.place name)
    norm.files StorageService.path p = some (StorageService.relativePath p) := by
  intro p
  have hp : p = join (txt "database" :: name.components) := by
    rw [← List.singleton_append, ← foldl_append (by simpa using StorageService.ordinary_database)
      name.ordinary, ← StorageService.path_eq_join]
    show StorageService.entryPath _ = _
    rw [StorageService.entryPath, StorageService.location_path]
    rfl
  have hpath : withoutDots (elements StorageService.path) = [txt "database"] := by decide
  have hskip : withoutDots (norm.normalized StorageService.path) =
      withoutDots [txt "database"] := by
    rw [norm.withoutDots_normalized, hpath, cancel_of_reduced (List.isChain_singleton _)]
    decide
  have hdot : name.components.head? ≠ some (txt ".") := fun hhead =>
    (name.ordinary _ (List.mem_of_mem_head? hhead)).not_dot rfl
  obtain ⟨dots, hdots, hloop⟩ := skipLoop_of_withoutDots hskip name.ne_nil hdot
  obtain rfl : dots = [] := by
    refine List.eq_nil_iff_forall_not_mem.mpr fun d hd => ?_
    obtain ⟨hd, hmem⟩ := hdots d hd
    rw [hd] at hmem
    revert hmem
    decide
  have helements : elements (join (txt "database" :: name.components)) =
      [txt "database"] ++ name.components := elements_join (StorageService.ordinary_place name)
  rw [StorageService.relativePath_entryPath, files, relativePath, hp, helements, hloop]
  exact congrArg some (foldl_append (fun _ hc => absurd hc List.not_mem_nil) name.ordinary)

/-- The names that are taken out: not those of two characters of which one is a dot. -/
def sampleRemovable (c : Text) : Bool :=
  decide (Ordinary c ∧ (c.length = 2 → c.head? ≠ some (chr '.') ∧ c.getLast? ≠ some (chr '.')))

/-- The elements of a path without those that cancel. Dots stay at the beginning and at the end. -/
def sampleNormalized (p : Text) : List Text :=
  let l := elements p
  let dots (c : Option Text) := if c = some (txt ".") then [txt "."] else []
  let l' := dots l.head? ++ cancel (cancels sampleRemovable) (withoutDots l) ++
    dots l.tail.getLast?
  if l' = [] ∧ p ≠ [] then [txt "."] else l'

theorem withoutDots_cancel (removable : Text → Bool) (l : List Text) :
    withoutDots (cancel (cancels removable) (withoutDots l)) =
      cancel (cancels removable) (withoutDots l) :=
  List.filter_eq_self.mpr fun _ hc => (List.mem_filter.mp (mem_of_mem_cancel hc)).2

def sampleNormalization : Normalization where
  removable := sampleRemovable
  ordinary c h := (of_decide_eq_true h).1
  normalized := sampleNormalized
  withoutDots_normalized p := by
    have hdots (c : Option Text) :
        withoutDots (if c = some (txt ".") then [txt "."] else []) = [] := by
      split <;> decide
    rw [sampleNormalized]
    split
    · next h =>
      have hnil := (List.append_eq_nil_iff.mp (List.append_eq_nil_iff.mp h.1).1).2
      rw [hnil]
      decide
    · rw [withoutDots_append, withoutDots_append, hdots, hdots, withoutDots_cancel,
        List.nil_append, List.append_nil]

/-- A base path with a dot, a slash too many, and a `..` that nothing can be taken out with. -/
theorem skips_iff_sample : Skips (txt ".././/images/") (txt ".././/images/a/b")
    (sampleNormalization.filename (txt ".././/images/") (txt ".././/images/a/b")) :=
  ((skips_iff sampleNormalization (txt ".././/images/") (by decide) (by decide)
    [txt "a", txt "b"] (by decide) (by decide)).mpr (by decide +kernel)).2

/-- **A base path that is not skipped**: the image of a client whose folder is `a/../b`. -/
theorem not_skips : sampleNormalization.filename (txt "a/../b") (txt "a/../b/x") =
      some (txt "a/../b/x") ∧
    ¬ Skips (txt "a/../b") (txt "a/../b/x")
      (sampleNormalization.filename (txt "a/../b") (txt "a/../b/x")) ∧
    place [] (append (txt "a/../b") (txt "a/../b/x")) ≠ place [] (txt "a/../b/x") := by
  have hname : sampleNormalization.filename (txt "a/../b") (txt "a/../b/x") =
      some (txt "a/../b/x") := by decide +kernel
  refine ⟨hname, ?_, by decide +kernel⟩
  rw [hname]
  rintro ⟨r, hr, hrestores⟩
  obtain rfl := Option.some.inj hr
  exact hrestores.no_dotdot (by decide +kernel)

end Normalization

end Ssoa
