import Ssoa.Lib.Confined
import Ssoa.Storage.Host

/-!
# What requests can reach

Images are kept in the storage folder, but the name in a request is appended to its path unchecked,
and the system follows the steps in it. Requests stay in the storage folder as long as the steps of
their names pass no place that is neither in it nor one of the folders it is in. That is so for all
names without `..`, and not for all others.

## Main results

* `StorageCall.run_contained` — requests that stay in the storage folder change nothing outside, and
  what is outside has no part in their answers
* `Host.contained_of_no_dotdot` — names without `..`
* `StorageCall.not_contained` — a file outside is made, and another is read
-/

namespace Ssoa

open FileTree Throwing

namespace Path

/-- On the way along a path the system passes its parent. -/
theorem steps_parentPath (p : Text) : cstr (parentPath p) = [] ∨
    cstr (parentPath p) <+: cstr p ∧ steps (cstr (parentPath p)) <+: steps (cstr p) := by
  rcases parentPath_cases p with hnil | ⟨hlast, q, hq⟩
  · rw [hnil]
    exact .inl rfl
  right
  by_cases hzero : 0 ∈ parentPath p
  · have hcstr : cstr p = cstr (parentPath p) := by
      nth_rewrite 1 [hq]
      exact cstr_append_of_mem hzero
    rw [hcstr]
    exact ⟨List.prefix_rfl, List.prefix_rfl⟩
  · have hcstr : cstr p = parentPath p ++ slash :: cstr q := by
      nth_rewrite 1 [hq]
      rw [cstr_append hzero, cstr_cons (by decide)]
    rw [cstr_eq_self hzero, hcstr]
    refine ⟨List.prefix_append _ _, ?_⟩
    rw [steps, steps, route, route, if_neg hlast, List.append_nil, components_append_slash,
      List.map_append, List.append_assoc]
    exact List.prefix_append _ _

end Path

namespace Host

/-- Where the images are. -/
def storageFolder (host : Host) : List Text := host.cwd ++ [txt "database"]

/-- The steps of the name stay in the storage folder and the folders it is in. -/
def Contained (host : Host) (name : Text) : Prop :=
  ∀ p ∈ Step.visits host.cwd (Path.steps (cstr (Path.append StorageService.path name))),
    Around host.storageFolder p

instance (host : Host) (name : Text) : Decidable (host.Contained name) :=
  inferInstanceAs (Decidable (∀ p ∈ _, _))

/-! ### Paths around the storage folder -/

/-- The path is relative, or there is none, and the steps stay around the storage folder. -/
structure Stays (host : Host) (p : Text) (steps : List (Step Text)) : Prop where
  relative : p.head? ≠ some slash
  around : p = [] ∨ ∀ q ∈ Step.visits host.cwd steps, Around host.storageFolder q

variable {host : Host} {t u : FileSystem} {p name : Text} {steps steps' : List (Step Text)}

theorem around_cwd (host : Host) : Around host.storageFolder host.cwd :=
  .inl (List.prefix_append _ _)

theorem Stays.of_prefix (h : host.Stays p steps) (hsteps : steps' <+: steps) :
    host.Stays p steps' :=
  ⟨h.relative, h.around.imp_right fun hvisits q hq =>
    hvisits q (Step.mem_visits_of_prefix hsteps hq)⟩

/-- Such a path leads to the same place from trees that agree there. -/
theorem Stays.follow_eq (h : host.Stays p steps) (hagree : Agree host.storageFolder t u) :
    host.follow t p steps = host.follow u p steps := by
  rw [follow, follow, if_neg h.relative]
  rcases h.around with rfl | hvisits
  · rfl
  · rw [hagree.walk host.around_cwd hvisits]

/-- That place is around the storage folder. -/
theorem Stays.around_of_follow (h : host.Stays p steps) {location : List Text}
    (hfollow : host.follow t p steps = some location) : Around host.storageFolder location := by
  rw [follow, if_neg h.relative] at hfollow
  split at hfollow
  · cases hfollow
  · next hne => exact .of_walk host.around_cwd (h.around.resolve_left hne) hfollow

/-- The path of a name, as the system follows it. -/
theorem cstr_append_path (name : Text) :
    cstr (Path.append StorageService.path name) = StorageService.path ∨
    ∃ q, cstr (Path.append StorageService.path name) = StorageService.path ++ slash :: q ∧
      Path.components q = Path.components (cstr name) := by
  have hzero : (0 : Byte) ∉ StorageService.path := by decide
  have hslash : slash ≠ 0 := by decide
  rw [Path.append]
  split
  · exact .inl (by decide)
  · right
    split
    · next h =>
      obtain ⟨q, rfl⟩ := List.head?_eq_some_iff.mp h
      refine ⟨cstr q, ?_, ?_⟩
      · rw [cstr_append hzero, cstr_cons hslash]
      · rw [cstr_cons hslash, Path.components_slash_cons]
    · rw [if_neg (by decide)]
      refine ⟨cstr name, ?_, rfl⟩
      rw [cstr_append hzero, cstr_cons hslash]

theorem head?_append_path (name : Text) :
    (cstr (Path.append StorageService.path name)).head? ≠ some slash := by
  rcases cstr_append_path name with h | ⟨q, h, -⟩ <;> rw [h]
  · decide
  · rw [List.head?_append_of_ne_nil _ (by decide)]
    decide

theorem Contained.stays (h : host.Contained name) :
    host.Stays (cstr (Path.append StorageService.path name))
      (Path.steps (cstr (Path.append StorageService.path name))) :=
  ⟨head?_append_path name, .inr h⟩

/-- The path of the folder of the file stays there, too. -/
theorem Contained.stays_parent (h : host.Contained name) :
    let parent := cstr (Path.parentPath (Path.append StorageService.path name))
    host.Stays parent (Path.steps parent) := by
  intro parent
  rcases Path.steps_parentPath (Path.append StorageService.path name) with
    hnil | ⟨⟨rest, hp⟩, hsteps⟩
  · have hparent : parent = [] := hnil
    rw [hparent]
    exact ⟨by simp, .inl rfl⟩
  · refine ⟨fun hhead => head?_append_path name ?_, .inr fun q hq =>
      h q (Step.mem_visits_of_prefix hsteps hq)⟩
    rw [← hp, List.head?_append, hhead]
    rfl

/-! ### The functions -/

theorem existsAt_eq (h : host.Stays (cstr p) (Path.steps (cstr p)))
    (hagree : Agree host.storageFolder t u) : host.existsAt t p = host.existsAt u p := by
  rw [existsAt, existsAt, resolve, resolve, h.follow_eq hagree]
  cases hfollow : host.follow u (cstr p) (Path.steps (cstr p)) with
  | none => rfl
  | some location =>
    dsimp only
    rw [hagree location (h.around_of_follow hfollow)]

theorem confined_createDirectory (h : host.Stays (cstr p) (Path.steps (cstr p))) :
    Confined host.cwd (txt "database") (host.createDirectory p) := by
  intro t u hcwd hagree
  have hroute := h.of_prefix (List.prefix_append (Path.route (cstr p)) _)
  rw [createDirectory, run_get_bind, run_get_bind, ← hroute.follow_eq hagree]
  cases hfollow : host.follow t (cstr p) (Path.route (cstr p)) with
  | none => exact Confined.of_throw _ t u hcwd hagree
  | some location =>
    have haround := hroute.around_of_follow hfollow
    dsimp only
    rcases hagree.createFolder haround with ⟨ht, hu⟩ | ⟨t', u', ht, hu, hagree'⟩
    · rw [ht, hu, hagree.isFolder haround]
      cases u.isFolder location with
      | true => exact Confined.of_pure false t u hcwd hagree
      | false => exact Confined.of_throw _ t u hcwd hagree
    · rw [ht, hu]
      exact ⟨rfl, hagree', .createFolder hcwd haround ht⟩

theorem confined_makeParent (h : host.Stays (cstr p) (Path.steps (cstr p))) :
    Confined host.cwd (txt "database") (host.makeParent p) := by
  intro t u hcwd hagree
  rw [makeParent, run_get_bind, run_get_bind, existsAt_eq h hagree]
  cases host.existsAt u p with
  | true => exact Confined.of_pure () t u hcwd hagree
  | false =>
    refine (confined_createDirectory h).bind (fun created => ?_) t u hcwd hagree
    cases created with
    | true => exact .of_pure ()
    | false => exact .of_throw _

/-- **Loading a file** reads nothing outside the storage folder. -/
theorem confined_loadFile (h : host.Contained name) :
    Confined host.cwd (txt "database") (host.loadFile name) := by
  intro t u hcwd hagree
  rw [loadFile, run_get_bind, run_get_bind, existsAt_eq h.stays hagree, run_ite, run_ite]
  split
  · exact Confined.of_throw _ t u hcwd hagree
  · rw [resolve, resolve, h.stays.follow_eq hagree]
    cases hfollow : host.follow u _ _ with
    | none => exact Confined.of_throw _ t u hcwd hagree
    | some location =>
      rw [Option.bind_some, Option.bind_some,
        hagree.readFile (h.stays.around_of_follow hfollow)]
      cases u.readFile location with
      | none => exact Confined.of_throw _ t u hcwd hagree
      | some content => exact Confined.of_pure content t u hcwd hagree

/-- The file is opened and written to in both trees or in none. -/
theorem write_cases (h : host.Stays (cstr p) (Path.steps (cstr p)))
    (hcwd : t.lookup host.cwd = some .folder) (hagree : Agree host.storageFolder t u)
    (writing : Writing) (buffer : List Byte) :
    (host.write writing t p buffer = none ∧ host.write writing u p buffer = none) ∨
    ∃ t' u', host.write writing t p buffer = some t' ∧ host.write writing u p buffer = some u' ∧
      Agree host.storageFolder t' u' ∧ FileTree.Inside host.cwd (txt "database") t t' := by
  rw [write, write, resolve, resolve, h.follow_eq hagree]
  cases hfollow : host.follow u (cstr p) (Path.steps (cstr p)) with
  | none => exact .inl ⟨rfl, rfl⟩
  | some location =>
    have haround := h.around_of_follow hfollow
    cases writing.content buffer with
    | none => exact .inl ⟨rfl, rfl⟩
    | some content =>
      refine (hagree.writeFile haround content).imp_right ?_
      rintro ⟨t', u', ht, hu, hagree'⟩
      exact ⟨t', u', ht, hu, hagree', .writeFile hcwd haround ht⟩

/-- **Saving a file** changes nothing outside the storage folder. -/
theorem confined_saveFile (h : host.Contained name) (writing : Writing) (buffer : List Byte) :
    Confined host.cwd (txt "database") (host.saveFile writing name buffer) := by
  rw [saveFile]
  refine (confined_makeParent h.stays_parent).bind fun _ t u hcwd hagree => ?_
  rw [run_get_bind, run_get_bind]
  rcases write_cases h.stays hcwd hagree writing buffer with
    ⟨ht, hu⟩ | ⟨t', u', ht, hu, hagree', hinside⟩ <;> rw [ht, hu]
  · exact Confined.of_throw _ t u hcwd hagree
  · rw [run_set_bind, run_set_bind, run_ite, run_ite]
    split
    · exact ⟨rfl, hagree', hinside⟩
    · exact ⟨rfl, hagree', hinside⟩

/-! ### Names that stay -/

theorem eq_dotdot_of_step {c : Text} (h : Path.step c = .up) : c = txt ".." := by
  unfold Path.step at h
  split at h
  · cases h
  · split at h
    · assumption
    · cases h

theorem contained_of_components (cs : List Text) (h : txt ".." ∉ cs)
    (hname : Path.components (cstr (Path.append StorageService.path name)) = txt "database" :: cs) :
    host.Contained name := by
  have hdatabase := step_of_ordinary StorageService.ordinary_database
  intro p hp
  rw [Path.steps, Path.route, hname, List.map_cons, hdatabase, List.cons_append,
    Step.visits] at hp
  rcases List.mem_cons.mp hp with rfl | hp
  · exact .inr List.prefix_rfl
  · refine .inr (Step.prefix_of_mem_visits (fun hup => ?_) hp)
    rcases List.mem_append.mp hup with hup | hup
    · obtain ⟨c, hc, hstep⟩ := List.mem_map.mp hup
      exact h (eq_dotdot_of_step hstep ▸ hc)
    · split at hup <;> simp at hup

/-- **Names without `..`** stay in the storage folder. -/
theorem contained_of_no_dotdot (h : txt ".." ∉ Path.components (cstr name)) :
    host.Contained name := by
  have hpath : Path.components StorageService.path = [txt "database"] := by decide
  rcases cstr_append_path name with hp | ⟨q, hp, hq⟩
  · exact contained_of_components [] List.not_mem_nil (by rw [hp, hpath])
  · refine contained_of_components (Path.components q) (hq ▸ h) ?_
    rw [hp, Path.components_append_slash, hpath]
    rfl

end Host

/-! ### Requests -/

namespace StorageCall

open Host

variable {host : Host}

theorem alike_answer {call : StorageCall} (h : host.Contained call.name) {t u : FileSystem}
    (hcwd : t.lookup host.cwd = some .folder) (hagree : Agree host.storageFolder t u) :
    (call.answer host t).1 = (call.answer host u).1 ∧
      Agree host.storageFolder (call.answer host t).2 (call.answer host u).2 ∧
      FileTree.Inside host.cwd (txt "database") t (call.answer host t).2 := by
  cases call with
  | storeImage writing name content =>
    have hrun := Host.confined_saveFile h writing content t u hcwd hagree
    refine ⟨?_, hrun.agree, hrun.inside⟩
    exact congrArg (fun r => respond _ (Except.map _ r)) hrun.value
  | getImage name =>
    have hrun := Host.confined_loadFile h t u hcwd hagree
    refine ⟨?_, hrun.agree, hrun.inside⟩
    exact congrArg (fun r => respond _ (Except.map _ r)) hrun.value

theorem alike_run {calls : List StorageCall} (h : ∀ call ∈ calls, host.Contained call.name)
    {t u : FileSystem} (hcwd : t.lookup host.cwd = some .folder)
    (hagree : Agree host.storageFolder t u) :
    (run host calls t).1 = (run host calls u).1 ∧
      Agree host.storageFolder (run host calls t).2 (run host calls u).2 ∧
      FileTree.Inside host.cwd (txt "database") t (run host calls t).2 := by
  induction calls generalizing t u with
  | nil => exact ⟨rfl, hagree, .refl hcwd⟩
  | cons call calls ih =>
    obtain ⟨hcall, hcalls⟩ := List.forall_mem_cons.mp h
    obtain ⟨hanswer, hagree', hinside⟩ := alike_answer hcall hcwd hagree
    obtain ⟨hanswers, hagree'', hinside'⟩ := ih hcalls hinside.folder hagree'
    exact ⟨by rw [run, run, hanswer, hanswers], hagree'', hinside.trans hinside'⟩

/-- **Requests stay in the storage folder** if the steps of their names do: they change nothing
outside it, and from files that are the same in it they get the same answers. -/
theorem run_contained (host : Host) (calls : List StorageCall)
    (h : ∀ call ∈ calls, host.Contained call.name) (t u : FileSystem)
    (ht : t.lookup host.cwd = some .folder) (hu : u.lookup host.cwd = some .folder)
    (hsame : ∀ q, host.storageFolder <+: q → t.lookup q = u.lookup q) :
    (∀ q, ¬ host.storageFolder <+: q → (run host calls t).2.lookup q = t.lookup q) ∧
      (run host calls t).1 = (run host calls u).1 ∧
      ∀ q, host.storageFolder <+: q →
        (run host calls t).2.lookup q = (run host calls u).2.lookup q := by
  obtain ⟨hanswers, hagree, hinside⟩ := alike_run h ht (agree_of_inside ht hu hsame)
  exact ⟨hinside.frame, hanswers, fun q hq => hagree q (.inr hq)⟩

/-! ### Names that do not -/

/-- The storage folder, and a file beside it. -/
def beside (content : List Byte) : FileSystem where
  entries := [([txt "srv"], .folder), ([txt "srv", txt "database"], .folder),
    ([txt "srv", txt "secret"], .file content)]
  nodup := by
    show [[txt "srv"], [txt "srv", txt "database"], [txt "srv", txt "secret"]].Nodup
    decide
  ne_nil := by simp
  parents := by simp

theorem lookup_beside (content content' : List Byte) {q : List Text}
    (h : sampleHost.storageFolder <+: q) :
    (beside content).lookup q = (beside content').lookup q := by
  have hne : q ≠ [txt "srv", txt "secret"] := by
    rintro rfl
    revert h
    decide
  by_cases hnil : q = []
  · rw [hnil, lookup_nil, lookup_nil]
  have hmem (c : List Byte) (e : Entry (List Byte)) :
      (beside c).lookup q = some e ↔ (q, e) ∈ (beside c).entries :=
    ⟨fun hlookup => mem_entries.mpr ⟨hnil, hlookup⟩, fun he => (mem_entries.mp he).2⟩
  refine Option.ext fun e => ?_
  rw [hmem, hmem]
  simp [beside, hne]

/-- **Two images** stay in the storage folder, the second though its name goes up. -/
theorem run_contained_sample :
    let calls := [storeImage .complete (txt "/x") (txt "y"), getImage (txt "x/../../database/x")]
    (run sampleHost calls (beside (txt "a"))).1 = (run sampleHost calls (beside (txt "b"))).1 :=
  (run_contained sampleHost _ (by decide) _ _ rfl rfl fun _ => lookup_beside _ _).2.1

/-- **A file beside the storage folder** is made, and another is read. -/
theorem not_contained : ∃ t u : FileSystem,
    t.lookup sampleHost.cwd = some .folder ∧ u.lookup sampleHost.cwd = some .folder ∧
    (∀ q, sampleHost.storageFolder <+: q → t.lookup q = u.lookup q) ∧
    ¬ sampleHost.storageFolder <+: [txt "srv", txt "x"] ∧
    (run sampleHost [storeImage .complete (txt "../x") (txt "y")] t).2.readFile
      [txt "srv", txt "x"] ≠ t.readFile [txt "srv", txt "x"] ∧
    (run sampleHost [getImage (txt "../secret")] t).1 ≠
      (run sampleHost [getImage (txt "../secret")] u).1 := by
  refine ⟨beside (txt "a"), beside (txt "b"), rfl, rfl, fun _ => lookup_beside _ _, by decide,
    by decide +kernel, fun heq => ?_⟩
  have harguments := congrArg (List.map fun r => r.arguments) heq
  revert harguments
  decide +kernel

end StorageCall

end Ssoa
