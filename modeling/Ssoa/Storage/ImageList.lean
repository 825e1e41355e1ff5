import Ssoa.Storage.StorageProvider

/-!
# The list of images as the client reads it

`GetListService::invoke` appends a NUL to the buffer it got and walks through it with a raw pointer:
a C string is read where the pointer stands, and the pointer advances by its length and one. Here
the pointer is a number that may stand anywhere, and what the language leaves undefined (reading
past the memory, or an `int` that overflows) ends the loop without a result, as does running out of
steps. The invariant is that the pointer stands at the beginning of what is left of the memory,
which ends with the NUL.

## Main results

* `GetListService.rounds_eq` — from any position inside the memory, the loop reads what is left
* `GetListService.items_eq` — what it reads are the segments between the NULs
* `GetListService.splitBuffer_eq` — the loop on any buffer, and on the one that
  `GetListServiceImpl::invoke` makes
-/

namespace Ssoa

theorem length_cstr_lt {s : Text} (h : 0 ∈ s) : (cstr s).length < s.length := by
  have hlen := congrArg List.length (wire_append_payloadOf h)
  rw [List.length_append, wire, List.length_append, List.length_singleton] at hlen
  omega

namespace GetListService

/-! ### The loop -/

/-- The body of the loop, with the pointer as an offset into the memory: what is appended to the
list, and where the pointer stands then. -/
def round (memory : List Byte) (ptr : ℤ) : Option (List Text × ℤ) :=
  let tail := memory.drop ptr.toNat
  if 0 ≤ ptr ∧ 0 ∈ tail then
    let item := cstr tail
    let size := (BitVec.ofNat 32 item.length).toInt
    if size + 1 < 2 ^ 31 then some (if size > 0 then [item] else [], ptr + (size + 1)) else none
  else none

/-- The loop, for a number of steps. -/
def rounds (memory : List Byte) : ℕ → ℤ → List Text → Option (List Text)
  | 0, _, _ => none
  | steps + 1, ptr, list =>
    match round memory ptr with
    | none => none
    | some (found, ptr) =>
      if ptr < memory.length then rounds memory steps ptr (list ++ found) else some (list ++ found)

/-- The loop of `invoke`, on the buffer of a response and the list of the caller. -/
def splitBuffer (steps : ℕ) (buffer : List Byte) (list : List Text) : Option (List Text) :=
  rounds (buffer ++ [0]) steps 0 list

variable {buffer memory : List Byte}

/-- One C string, if it is not empty. -/
def keep (item : Text) : List Text := if item = [] then [] else [item]

theorem items_of_mem (h : 0 ∈ memory) :
    items memory = keep (cstr memory) ++ items (memory.drop ((cstr memory).length + 1)) := by
  cases memory with
  | nil => exact absurd h List.not_mem_nil
  | cons b rest =>
    rw [items]
    rfl

/-- The body, where a NUL follows. -/
theorem round_eq {i : ℕ} (hnul : 0 ∈ memory.drop i) (hlen : memory.length < 2 ^ 31) :
    round memory i = some (keep (cstr (memory.drop i)),
      ((i + ((cstr (memory.drop i)).length + 1) : ℕ) : ℤ)) := by
  have hlt := length_cstr_lt hnul
  rw [List.length_drop] at hlt
  have hsize : (BitVec.ofNat 32 (cstr (memory.drop i)).length).toInt =
      (cstr (memory.drop i)).length := intT_of_lt (by omega)
  simp only [round, Int.toNat_natCast, hnul, and_true, hsize]
  rw [if_pos (Int.natCast_nonneg i), if_pos (by omega)]
  refine congrArg some (Prod.ext ?_ (by push_cast; rfl))
  cases hitem : cstr (memory.drop i) <;> simp [keep]

/-- **The loop reads what is left of the memory**, if that ends with a NUL. -/
theorem rounds_eq (hlen : memory.length < 2 ^ 31) (hlast : memory.getLast? = some 0) {i : ℕ}
    (hi : i < memory.length) {steps : ℕ} (hsteps : memory.length - i ≤ steps) (list : List Text) :
    rounds memory steps i list = some (list ++ items (memory.drop i)) := by
  induction steps generalizing i list with
  | zero => omega
  | succ steps ih =>
    have hnul : 0 ∈ memory.drop i := by
      refine List.mem_of_getLast? ?_
      rw [List.getLast?_drop, if_neg (by omega), hlast]
    have hlt := length_cstr_lt hnul
    rw [List.length_drop] at hlt
    rw [rounds, round_eq hnul hlen, items_of_mem hnul, List.drop_drop]
    dsimp only
    by_cases hmore : i + ((cstr (memory.drop i)).length + 1) < memory.length
    · rw [if_pos (by exact_mod_cast hmore), ih hmore (by omega), List.append_assoc]
    · have hdone : memory.drop (i + ((cstr (memory.drop i)).length + 1)) = [] :=
        List.drop_eq_nil_of_le (by omega)
      rw [if_neg (by exact_mod_cast hmore), hdone, items, List.append_nil]

/-! ### The segments -/

/-- **What the loop reads** are the segments between the NULs that are not empty. -/
theorem items_eq (buffer : List Byte) :
    items (buffer ++ [0]) = (buffer.splitOn 0).filter fun s => s ≠ [] := by
  induction hlen : buffer.length using Nat.strong_induction_on generalizing buffer with
  | _ n ih =>
    have hkeep : ∀ (s : Text) (segments : List Text), (s :: segments).filter (fun s => s ≠ []) =
        keep s ++ segments.filter fun s => s ≠ [] := by
      intro s segments
      rw [keep, List.filter_cons]
      by_cases hs : s = [] <;> simp [hs]
    have hmem : 0 ∈ buffer ++ [0] := by simp
    rw [items_of_mem hmem]
    by_cases hnul : 0 ∈ buffer
    · -- the first segment, and the rest after its NUL
      have hsplit := wire_append_payloadOf hnul
      have hzero := zero_not_mem_cstr buffer
      have hfirst : buffer = cstr buffer ++ 0 :: payloadOf buffer := by
        simpa [wire] using hsplit.symm
      have hcstr : cstr (buffer ++ [0]) = cstr buffer := by
        conv_lhs => rw [← hsplit, List.append_assoc]
        exact cstr_wire_append hzero _
      have hdrop : (buffer ++ [0]).drop ((cstr buffer).length + 1) = payloadOf buffer ++ [0] := by
        conv_lhs => rw [← hsplit, List.append_assoc]
        rw [cstr_wire_append hzero]
        exact drop_wire_append _ _
      have hshort : (payloadOf buffer).length < n := by
        rw [payloadOf, List.length_drop, ← hlen]
        have := List.length_pos_of_mem hnul
        omega
      rw [hcstr, hdrop, ih _ hshort _ rfl]
      conv_rhs => rw [hfirst, List.splitOn_append_cons_self, List.splitOn_eq_singleton hzero]
      rw [List.singleton_append, hkeep]
    · have hcstr : cstr (buffer ++ [0]) = buffer := cstr_wire hnul
      have hdrop : (buffer ++ [0]).drop (buffer.length + 1) = [] :=
        List.drop_eq_nil_of_le (by simp)
      rw [hcstr, hdrop, items, List.append_nil, List.splitOn_eq_singleton hnul, hkeep,
        List.filter_nil, List.append_nil]

/-! ### Both sides -/

/-- The response has a buffer from which the loop appends these names to a list. -/
def DecodesTo (list names : List Text) (result : Except Exn (Option Response)) : Prop :=
  ∃ buffer : List Byte, result = .ok (some (.single GetListServiceImpl.serviceSignature (txt "OK")
      (.ofBuffer buffer))) ∧
    ∀ steps, buffer.length < 2 ^ 31 - 1 → buffer.length < steps →
      splitBuffer steps buffer list = some (list ++ names)

theorem splitBuffer_eq_items (hlen : buffer.length < 2 ^ 31 - 1) (list : List Text) {steps : ℕ}
    (hsteps : buffer.length < steps) :
    splitBuffer steps buffer list = some (list ++ receive buffer) := by
  have hmemory : (buffer ++ [0]).length = buffer.length + 1 := by simp
  exact rounds_eq (i := 0) (by omega) (by simp) (by omega) (by omega) list

/-- The buffer that `GetListServiceImpl::invoke` makes of a list. -/
theorem decodesTo_of_getList {getList : Throwing FileSystem Exn (List Text)} {names : List Text}
    (j : StorageJob) (hlist : (getList.run j.files).1 = .ok names)
    (hnames : ∀ s ∈ names, s ≠ [] ∧ 0 ∉ s) (list : List Text) :
    DecodesTo list names ((GetListServiceImpl.invokeOn getList).run j).1 := by
  obtain ⟨s, t⟩ := j
  have hlist : (getList.run t).1 = .ok names := hlist
  refine ⟨names.flatMap wire, ?_, fun steps hlen hsteps => ?_⟩
  · rw [GetListServiceImpl.run_invokeOn, hlist]
    rfl
  · rw [splitBuffer_eq_items hlen list hsteps, receive_flatMap_wire hnames]

/-- **The list the client reads.** For every buffer of fewer than 2³¹ - 1 bytes the loop comes to
its end without leaving the memory, and appends the segments that are not empty, in order. Whatever
list of names `GetListServiceImpl::invoke` is given, if they are not empty and have no NUL, the loop
appends that list from the buffer of its response; and so it does for the list of
`StorageService::getList`. -/
theorem splitBuffer_eq (list : List Text) :
    (∀ (buffer : List Byte) (steps : ℕ), buffer.length < 2 ^ 31 - 1 → buffer.length < steps →
      splitBuffer steps buffer list =
        some (list ++ (buffer.splitOn 0).filter fun s => s ≠ [])) ∧
    (∀ (getList : Throwing FileSystem Exn (List Text)) (j : StorageJob) (names : List Text),
      (getList.run j.files).1 = .ok names → (∀ s ∈ names, s ≠ [] ∧ 0 ∉ s) →
        DecodesTo list names ((GetListServiceImpl.invokeOn getList).run j).1) ∧
    ∀ (sys : System) (j : StorageJob) (names : List Text),
      ((StorageService.getList sys).run j.files).1 = .ok names →
        (∀ s ∈ names, s ≠ [] ∧ 0 ∉ s) →
          DecodesTo list names ((GetListServiceImpl.invoke sys).run j).1 := by
  refine ⟨fun buffer steps hlen hsteps => ?_, fun getList j names hlist hnames => ?_,
    fun sys j names hlist hnames => ?_⟩
  · rw [splitBuffer_eq_items hlen list hsteps, receive, items_eq]
  · exact decodesTo_of_getList j hlist hnames list
  · exact decodesTo_of_getList j hlist hnames list

/-- A buffer with NULs in a row and none in the end, and the response for two names. -/
theorem splitBuffer_sample :
    splitBuffer 8 ([0] ++ txt "a" ++ [0, 0] ++ txt "bc") [txt "x"] =
        some ([txt "x"] ++ (([0] ++ txt "a" ++ [0, 0] ++ txt "bc").splitOn 0).filter
          fun s => s ≠ []) ∧
      DecodesTo [txt "x"] [txt "a", txt "bc"] ((GetListServiceImpl.invokeOn
        (pure [txt "a", txt "bc"])).run ⟨StorageRequest.getList.service, .empty⟩).1 :=
  ⟨(splitBuffer_eq [txt "x"]).1 _ 8 (by decide) (by decide),
    (splitBuffer_eq [txt "x"]).2.1 _ _ _ rfl (by decide)⟩

example : splitBuffer 8 ([0] ++ txt "a" ++ [0, 0] ++ txt "bc") [txt "x"] =
    some [txt "x", txt "a", txt "bc"] := by
  decide +kernel

end GetListService

end Ssoa
