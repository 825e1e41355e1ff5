import Ssoa.Base
import Mathlib.Data.List.Basic
import Mathlib.Tactic.Common

/-!
# Paths and the names of images

A `boost::filesystem::path` is a text in which slashes separate components. An image is stored under
a name, which is appended to the path of the storage folder. The names here are `ImageName`s: one or
more components joined by slashes, where a component is not empty, has no slash and no NUL, and is
neither `.` nor `..`. The paths of this development start with a component, so they are relative.

## Main results

* `ImageName.text_injective` — a name is determined by its text
* `Path.append_join`, `Path.parentPath_join` — paths are made and taken apart by components
* `Path.stripBase_append` — the loop that removes the storage folder from a path
-/

namespace Ssoa

/-- The separator. -/
def slash : Byte := chr '/'

namespace Path

/-- `operator/=`. -/
def append (p q : Text) : Text :=
  if q = [] then p
  else if q.head? = some slash then p ++ q
  else if p = [] ∨ p.getLast? = some slash then p ++ q
  else p ++ slash :: q

/-- `parent_path()` of a relative path: what is before the last component, without the slashes
between. -/
def parentPath (p : Text) : Text :=
  ((p.reverse.dropWhile fun b => b ≠ slash).dropWhile fun b => b = slash).reverse

/-- The elements of a relative path that does not end in a slash, and the names by which the system
looks it up. -/
def components (p : Text) : List Text := (p.splitOn slash).filter fun c => c ≠ []

/-- Components joined by slashes. -/
def join (cs : List Text) : Text := [slash].intercalate cs

/-- What is left of a path after the loop that skips the base path. -/
def stripBase : List Text → List Text → List Text
  | [], combined => combined
  | _ :: _, [] => []
  | s :: skip, c :: combined =>
    if s = c then stripBase skip combined
    else if s = txt "." then stripBase skip (c :: combined)
    else if c = txt "." then stripBase (s :: skip) combined
    else c :: combined -- something went wrong
termination_by skip combined => skip.length + combined.length

end Path

/-- A component of a name. -/
structure Ordinary (c : Text) : Prop where
  ne_nil : c ≠ []
  no_slash : slash ∉ c
  no_nul : 0 ∉ c
  not_dot : c ≠ txt "."
  not_dotdot : c ≠ txt ".."

instance (c : Text) : Decidable (Ordinary c) :=
  decidable_of_iff (c ≠ [] ∧ slash ∉ c ∧ 0 ∉ c ∧ c ≠ txt "." ∧ c ≠ txt "..")
    ⟨fun ⟨h, h', h'', h''', h''''⟩ => ⟨h, h', h'', h''', h''''⟩,
      fun h => ⟨h.ne_nil, h.no_slash, h.no_nul, h.not_dot, h.not_dotdot⟩⟩

/-- A name of an image. -/
structure ImageName where
  components : List Text
  ne_nil : components ≠ []
  ordinary : ∀ c ∈ components, Ordinary c
  deriving DecidableEq

/-- The text of a name. -/
def ImageName.text (name : ImageName) : Text := Path.join name.components

section CString

variable {p : Text}

theorem cstr_append_of_mem {q : Text} (h : 0 ∈ p) : cstr (p ++ q) = cstr p := by
  have hlen : (p.takeWhile fun b => b ≠ 0).length ≠ p.length := by
    intro heq
    have hcstr : cstr p = p := (List.takeWhile_prefix _).eq_of_length heq
    rw [← hcstr] at h
    exact zero_not_mem_cstr p h
  rw [cstr, List.takeWhile_append, if_neg hlen, cstr]

theorem cstr_append {q : Text} (h : 0 ∉ p) : cstr (p ++ q) = p ++ cstr q :=
  List.takeWhile_append_of_pos fun b hb => by simpa using fun heq : b = 0 => h (heq ▸ hb)

theorem cstr_cons {b : Byte} (h : b ≠ 0) (q : Text) : cstr (b :: q) = b :: cstr q :=
  cstr_append (p := [b]) (by simpa using h.symm)

theorem cstr_eq_self (h : 0 ∉ p) : cstr p = p := by simpa [cstr] using cstr_append (q := []) h

end CString

namespace Path

variable {cs ds : List Text} {c : Text}

theorem components_join (h : ∀ c ∈ cs, Ordinary c) : components (join cs) = cs := by
  by_cases hnil : cs = []
  · subst hnil
    rfl
  · rw [components, join, List.splitOn_intercalate slash (fun c hc => (h c hc).no_slash) hnil,
      List.filter_eq_self]
    intro c hc
    simpa using (h c hc).ne_nil

/-- A slash separates components. -/
theorem components_append_slash (p q : Text) :
    components (p ++ slash :: q) = components p ++ components q := by
  rw [components, List.splitOn_append_cons_self, List.filter_append]
  rfl

theorem components_slash_cons (p : Text) : components (slash :: p) = components p :=
  components_append_slash [] p

/-- Appending a path appends its components. -/
theorem components_append (p q : Text) :
    components (append p q) = components p ++ components q := by
  have hslash (h : p.getLast? = some slash) :
      components (p ++ q) = components p ++ components q := by
    obtain ⟨p', rfl⟩ := List.getLast?_eq_some_iff.mp h
    have hp := components_append_slash p' []
    rw [List.append_assoc, List.singleton_append, components_append_slash, hp]
    simp [components]
  rw [append]
  split
  · next h => simp [h, components]
  · split
    · next h =>
      obtain ⟨q', rfl⟩ := List.head?_eq_some_iff.mp h
      rw [components_append_slash, components_slash_cons]
    · split
      · next h =>
        rcases h with rfl | h
        · simp [components]
        · exact hslash h
      · exact components_append_slash p q

theorem join_cons (h : cs ≠ []) : join (c :: cs) = c ++ slash :: join cs := by
  rw [join, List.intercalate_cons_of_ne_nil h]
  simp [join]

theorem join_append (hcs : cs ≠ []) (hds : ds ≠ []) :
    join (cs ++ ds) = join cs ++ slash :: join ds := by
  induction cs with
  | nil => exact absurd rfl hcs
  | cons c cs ih =>
    by_cases hnil : cs = []
    · subst hnil
      rw [List.singleton_append, join_cons hds]
      simp [join]
    · rw [List.cons_append, join_cons (by simp [hnil]), ih hnil, join_cons hnil]
      simp

theorem join_ne_nil (hcs : cs ≠ []) (h : ∀ c ∈ cs, Ordinary c) : join cs ≠ [] := by
  cases cs with
  | nil => exact absurd rfl hcs
  | cons c cs =>
    have hc := (h c List.mem_cons_self).ne_nil
    by_cases hnil : cs = []
    · subst hnil
      simpa [join] using hc
    · simp [join_cons hnil]

theorem head?_join (h : ∀ c ∈ cs, Ordinary c) : (join cs).head? ≠ some slash := by
  cases cs with
  | nil => simp [join]
  | cons c cs =>
    have hc := h c List.mem_cons_self
    have hhead : c.head? ≠ some slash := fun heq => hc.no_slash (List.mem_of_mem_head? heq)
    by_cases hnil : cs = []
    · subst hnil
      simpa [join] using hhead
    · rw [join_cons hnil, List.head?_append_of_ne_nil _ hc.ne_nil]
      exact hhead

theorem getLast?_join (h : ∀ c ∈ cs, Ordinary c) : (join cs).getLast? ≠ some slash := by
  induction cs using List.reverseRec with
  | nil => simp [join]
  | append_singleton cs c =>
    have hc := h c (by simp)
    have hlast : c.getLast? ≠ some slash := fun heq => hc.no_slash (List.mem_of_getLast? heq)
    by_cases hnil : cs = []
    · subst hnil
      simpa [join] using hlast
    · rw [join_append hnil (List.cons_ne_nil _ _)]
      have hjoin : join [c] = c := by simp [join]
      rw [hjoin, List.getLast?_append_of_ne_nil _ (List.cons_ne_nil _ _),
        List.getLast?_cons_of_ne_nil hc.ne_nil]
      exact hlast

theorem zero_not_mem_join (h : ∀ c ∈ cs, Ordinary c) : 0 ∉ join cs := by
  induction cs with
  | nil => simp [join]
  | cons c cs ih =>
    have hc := (h c List.mem_cons_self).no_nul
    have hcs := ih fun d hd => h d (List.mem_cons_of_mem _ hd)
    by_cases hnil : cs = []
    · subst hnil
      simpa [join] using hc
    · rw [join_cons hnil]
      simpa [hc, hcs] using (by decide : ¬ (0 : Byte) = slash)

theorem cstr_join (h : ∀ c ∈ cs, Ordinary c) : cstr (join cs) = join cs :=
  cstr_eq_self (zero_not_mem_join h)

/-- Components are appended as a path of them is. -/
theorem append_join (hcs : ∀ c ∈ cs, Ordinary c) (hds : ∀ c ∈ ds, Ordinary c) :
    append (join cs) (join ds) = join (cs ++ ds) := by
  by_cases hdnil : ds = []
  · subst hdnil
    rw [List.append_nil]
    exact if_pos rfl
  rw [append, if_neg (join_ne_nil hdnil hds), if_neg (head?_join hds)]
  by_cases hcnil : cs = []
  · subst hcnil
    rw [if_pos (.inl rfl)]
    rfl
  · rw [if_neg (not_or.mpr ⟨join_ne_nil hcnil hcs, getLast?_join hcs⟩), join_append hcnil hdnil]

theorem foldl_append (hcs : ∀ c ∈ cs, Ordinary c) (hds : ∀ c ∈ ds, Ordinary c) :
    ds.foldl append (join cs) = join (cs ++ ds) := by
  induction ds generalizing cs with
  | nil => rw [List.append_nil, List.foldl_nil]
  | cons d ds ih =>
    have hd := hds d List.mem_cons_self
    have hjoin : append (join cs) d = join (cs ++ [d]) := by
      have happend : append (join cs) (join [d]) = join (cs ++ [d]) :=
        append_join hcs (by simpa using hd)
      rwa [show join [d] = d by simp [join]] at happend
    rw [List.foldl_cons, hjoin, ih ?_ fun c hc => hds c (List.mem_cons_of_mem _ hc)]
    · simp
    · intro c hc
      rcases List.mem_append.mp hc with hc | hc
      · exact hcs c hc
      · exact List.mem_singleton.mp hc ▸ hd

/-- The parent of a path is the path without its last component. -/
theorem parentPath_join (hcs : cs ≠ []) (h : ∀ d ∈ cs ++ [c], Ordinary d) :
    parentPath (join (cs ++ [c])) = join cs := by
  have hc := h c (by simp)
  have hlast := getLast?_join fun d hd => h d (List.mem_append_left _ hd)
  have hjoin : (join (cs ++ [c])).reverse = c.reverse ++ slash :: (join cs).reverse := by
    rw [join_append hcs (List.cons_ne_nil _ _), show join [c] = c by simp [join]]
    simp
  rw [parentPath, hjoin, List.dropWhile_append_of_pos, List.dropWhile_cons_of_neg (by simp),
    List.dropWhile_cons_of_pos (by simp)]
  · cases hrev : (join cs).reverse with
    | nil => rw [List.dropWhile_nil, ← hrev, List.reverse_reverse]
    | cons b bs =>
      have hb : b ≠ slash := by
        rintro rfl
        rw [← List.head?_reverse, hrev] at hlast
        exact hlast rfl
      rw [List.dropWhile_cons_of_neg (by simpa using hb), ← hrev, List.reverse_reverse]
  · intro b hb
    simpa using fun heq : b = slash => hc.no_slash (heq ▸ List.mem_reverse.mp hb)

/-- The parent of a path is empty, or what is before one of its slashes. -/
theorem parentPath_cases (p : Text) : parentPath p = [] ∨
    (parentPath p).getLast? ≠ some slash ∧ ∃ q, p = parentPath p ++ slash :: q := by
  -- `p`, read from its end: the last component, slashes, the parent
  set before := p.reverse.dropWhile fun b => b ≠ slash with hbefore
  have hparent : parentPath p = (before.dropWhile fun b => b = slash).reverse := rfl
  have hp : p = parentPath p ++ ((before.takeWhile fun b => b = slash).reverse ++
      (p.reverse.takeWhile fun b => b ≠ slash).reverse) := by
    rw [hparent, ← List.append_assoc, ← List.reverse_append, List.takeWhile_append_dropWhile,
      ← List.reverse_append, List.takeWhile_append_dropWhile, List.reverse_reverse]
  cases hrest : before with
  | nil => exact .inl (by rw [hparent, hrest]; rfl)
  | cons b rest =>
    right
    constructor
    · have hhead := List.head?_dropWhile_not (fun b => b = slash) before
      rw [hparent, List.getLast?_reverse]
      intro heq
      rw [heq] at hhead
      simp at hhead
    · have hb : b = slash := by
        have hhead := List.head?_dropWhile_not (fun b => b ≠ slash) p.reverse
        rw [← hbefore, hrest] at hhead
        simpa using hhead
      have hne : (before.takeWhile fun b => b = slash).reverse ≠ [] := by
        rw [hrest, hb]
        simp
      obtain ⟨c, cs, hcs⟩ := List.exists_cons_of_ne_nil hne
      have hmem : c ∈ (before.takeWhile fun b => b = slash).reverse := hcs ▸ List.mem_cons_self
      have hc : c = slash := by simpa using List.mem_takeWhile_imp (List.mem_reverse.mp hmem)
      rw [hcs, hc] at hp
      exact ⟨_, hp⟩

/-- **The loop removes the base path** from a path below it. -/
theorem stripBase_append (skip rest : List Text) : stripBase skip (skip ++ rest) = rest := by
  induction skip with
  | nil => rw [List.nil_append, stripBase]
  | cons s skip ih => rw [List.cons_append, stripBase, if_pos rfl, ih]

end Path

namespace ImageName

@[simp] theorem components_text (name : ImageName) : Path.components name.text = name.components :=
  Path.components_join name.ordinary

/-- **A name is determined by its text.** -/
theorem text_injective : Function.Injective text := by
  intro name name' h
  have hcomponents : name.components = name'.components := by
    rw [← components_text name, h, components_text]
  cases name
  cases name'
  cases hcomponents
  rfl

theorem text_ne_nil (name : ImageName) : name.text ≠ [] :=
  Path.join_ne_nil name.ne_nil name.ordinary

theorem zero_not_mem_text (name : ImageName) : 0 ∉ name.text :=
  Path.zero_not_mem_join name.ordinary

end ImageName

end Ssoa
