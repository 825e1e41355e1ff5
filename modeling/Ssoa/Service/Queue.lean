import Ssoa.Lib.Machine
import Ssoa.Service.Argument

/-!
# Pushing and popping arguments

A `Service` keeps its input arguments, and a `Response` its output arguments, in a deque next to
the number of arguments pushed so far. `pushArgument` and `popArgument` are written twice in the
source, once for each class and word for word the same but for the parameter list; here they are
written once, with the list as a parameter.

The deque always holds the last of the arguments pushed, each of the type the list gives it
(`Aligned`).

## Main results

* `ArgumentQueue.invariant` — every sequence of calls keeps the deque aligned with the list
* `ArgumentQueue.forM_pushArgument`, `ArgumentQueue.mapM_popArgument` — pushing and popping a whole
  list
-/

namespace Ssoa

/-- The members `arguments` and `pushed`. -/
structure ArgumentQueue where
  arguments : List ServiceArgument := []
  pushed : ℕ := 0

/-- What is thrown for an argument of the wrong type. -/
def invalidArgument (expected : Text) : Exn :=
  .logic (txt "Invalid argument (must be '" ++ expected ++ txt "').")

namespace ArgumentQueue

/-- The index `popArgument` uses to report the type it expects. -/
def popIndex (params : List Text) (q : ArgumentQueue) : ℤ := params.length - q.arguments.length

def pushArgument (params : List Text) (arg : ServiceArgument) :
    Throwing ArgumentQueue Exn Unit := do
  let q ← get
  if q.pushed = params.length then throw (.logic (txt "All arguments already pushed."))
  else
    let expected := params.getD q.pushed []
    if expected ≠ arg.kind.type then throw (invalidArgument expected)
    else set { q with arguments := q.arguments ++ [arg], pushed := q.pushed + 1 }

def popArgument (params : List Text) (c : ArgumentClass) :
    Throwing ArgumentQueue Exn ServiceArgument := do
  let q ← get
  if q.pushed ≠ params.length then throw (.logic (txt "Not all arguments have been pushed."))
  else
    match q.arguments with
    | [] => throw (.logic (txt "All arguments already popped."))
    | a :: rest =>
      if a.kind ≠ c then throw (invalidArgument (params.getD (q.popIndex params).toNat []))
      else
        set { q with arguments := rest }
        return a

/-! ### Runs of calls -/

/-- A call on the arguments of an object. -/
inductive Call where
  | pushArgument (arg : ServiceArgument)
  | popArgument (c : ArgumentClass)

/-- The program of a call; a pop answers with an argument. -/
def call (params : List Text) : Call → Throwing ArgumentQueue Exn (Option ServiceArgument)
  | .pushArgument arg => (fun _ => none) <$> pushArgument params arg
  | .popArgument c => some <$> popArgument params c

/-- The arguments of an object with that parameter list. -/
def machine (params : List Text) :
    Machine ArgumentQueue Call (Except Exn (Option ServiceArgument)) :=
  ⟨{}, fun q c => (call params c).run q⟩

variable {params : List Text} {q : ArgumentQueue}

/-- The deque holds the last of the arguments pushed, with the types of the list, and nothing was
popped before everything was pushed. -/
structure Aligned (params : List Text) (q : ArgumentQueue) : Prop where
  pushed_le : q.pushed ≤ params.length
  types : q.arguments.map (·.kind.type) <:+ params.take q.pushed
  complete : q.arguments.length ≠ q.pushed → q.pushed = params.length

theorem pushArgument_of_getElem? {arg : ServiceArgument}
    (h : params[q.pushed]? = some arg.kind.type) :
    (pushArgument params arg).run q =
      (.ok (), { arguments := q.arguments ++ [arg], pushed := q.pushed + 1 }) := by
  obtain ⟨hlt, -⟩ := List.getElem?_eq_some_iff.mp h
  have hne : q.pushed ≠ params.length := Nat.ne_of_lt hlt
  simp [pushArgument, hne, h]

/-- What a push does. -/
theorem pushArgument_cases (params : List Text) (arg : ServiceArgument) (q : ArgumentQueue) :
    (∃ e, (pushArgument params arg).run q = (.error e, q)) ∨
    (params.getD q.pushed [] = arg.kind.type ∧ q.pushed ≠ params.length ∧
      (pushArgument params arg).run q =
      (.ok (), { arguments := q.arguments ++ [arg], pushed := q.pushed + 1 })) := by
  by_cases hall : q.pushed = params.length
  · exact .inl ⟨_, by simp only [pushArgument, Throwing.run_get_bind, hall, if_true]; rfl⟩
  · by_cases htype : params.getD q.pushed [] = arg.kind.type
    · exact .inr ⟨htype, hall, by simpa [pushArgument, hall] using htype⟩
    · refine .inl ⟨invalidArgument (params.getD q.pushed []), ?_⟩
      simp only [pushArgument, Throwing.run_get_bind, if_neg hall, ne_eq, htype, not_false_eq_true,
        if_true]
      rfl

theorem popArgument_of_cons {a : ServiceArgument} {rest : List ServiceArgument}
    (hall : q.pushed = params.length) (hq : q.arguments = a :: rest) :
    (popArgument params a.kind).run q = (.ok a, { q with arguments := rest }) := by
  simp [popArgument, hall, hq]

/-- What a pop does. -/
theorem popArgument_cases (params : List Text) (c : ArgumentClass) (q : ArgumentQueue) :
    (∃ e, (popArgument params c).run q = (.error e, q)) ∨
    (q.pushed = params.length ∧ ∃ a rest, q.arguments = a :: rest ∧ a.kind = c ∧
      (popArgument params c).run q = (.ok a, { q with arguments := rest })) := by
  by_cases hall : q.pushed = params.length
  · cases hq : q.arguments with
    | nil => exact .inl ⟨_, by simp [popArgument, hall, hq]; rfl⟩
    | cons a rest =>
      by_cases hc : a.kind = c
      · subst hc
        exact .inr ⟨hall, a, rest, rfl, rfl, popArgument_of_cons hall hq⟩
      · exact .inl ⟨_, by simp [popArgument, hall, hq, hc]; rfl⟩
  · exact .inl ⟨_, by simp [popArgument, hall]; rfl⟩

theorem aligned_new : Aligned params {} := ⟨Nat.zero_le _, List.nil_suffix, fun h => absurd rfl h⟩

theorem Aligned.pushArgument (h : Aligned params q) (arg : ServiceArgument) :
    Aligned params ((pushArgument params arg).run q).2 := by
  rcases pushArgument_cases params arg q with ⟨e, he⟩ | ⟨htype, hne, heq⟩
  · rw [he]
    exact h
  · rw [heq]
    have hlt : q.pushed < params.length := Nat.lt_of_le_of_ne h.pushed_le hne
    have hlen : q.arguments.length = q.pushed := by
      by_contra hlen
      exact hne (h.complete hlen)
    refine ⟨hlt, ?_, fun hne => absurd ?_ hne⟩
    · obtain ⟨popped, hpopped⟩ := h.types
      refine ⟨popped, ?_⟩
      show popped ++ (q.arguments ++ [arg]).map (·.kind.type) = params.take (q.pushed + 1)
      rw [List.take_add_one, ← hpopped, List.map_append, ← List.append_assoc,
        List.getElem?_eq_getElem hlt]
      rw [List.getD_eq_getElem?_getD, List.getElem?_eq_getElem hlt] at htype
      simpa using htype.symm
    · show (q.arguments ++ [arg]).length = q.pushed + 1
      simp [hlen]

theorem Aligned.popArgument (h : Aligned params q) (c : ArgumentClass) :
    Aligned params ((popArgument params c).run q).2 := by
  rcases popArgument_cases params c q with ⟨e, he⟩ | ⟨hall, a, rest, hq, -, heq⟩
  · rw [he]
    exact h
  · rw [heq]
    refine ⟨h.pushed_le, ?_, fun _ => hall⟩
    have htypes := h.types
    rw [hq, List.map_cons] at htypes
    exact (List.suffix_cons _ _).trans htypes

/-- **Every sequence of calls keeps the deque aligned with the parameter list.** -/
theorem invariant (params : List Text) : (machine params).Invariant (Aligned params) where
  init := aligned_new
  step q c h := by
    cases c with
    | pushArgument arg =>
      have hq : ((call params (.pushArgument arg)).run q).2 =
          ((pushArgument params arg).run q).2 := by
        rcases pushArgument_cases params arg q with ⟨e, he⟩ | ⟨-, -, heq⟩
        · rw [he, call, Throwing.run_map_of_error he]
        · rw [heq, call, Throwing.run_map_of_ok heq]
      exact hq ▸ h.pushArgument arg
    | popArgument c =>
      have hq : ((call params (.popArgument c)).run q).2 = ((popArgument params c).run q).2 := by
        rcases popArgument_cases params c q with ⟨e, he⟩ | ⟨-, a, rest, -, -, heq⟩
        · rw [he, call, Throwing.run_map_of_error he]
        · rw [heq, call, Throwing.run_map_of_ok heq]
      exact hq ▸ h.popArgument c

/-- With as many arguments as parameters, they are of the types of the list. -/
theorem Aligned.types_eq (h : Aligned params q) (hlen : params.length ≤ q.arguments.length) :
    q.pushed = params.length ∧ q.arguments.map (·.kind.type) = params := by
  have hle := h.types.length_le
  have hpushed := h.pushed_le
  simp only [List.length_map, List.length_take] at hle
  have heq : q.pushed = params.length := by omega
  refine ⟨heq, ?_⟩
  have htypes := h.types
  rw [heq, List.take_length] at htypes
  exact htypes.eq_of_length (by rw [List.length_map]; omega)

/-! ### Whole lists -/

/-- Arguments of the next types of the list can be pushed. -/
theorem forM_pushArgument (args : List ServiceArgument) (q : ArgumentQueue)
    (h : args.map (·.kind.type) <+: params.drop q.pushed) :
    (forM args (pushArgument params)).run q =
      (.ok (), { arguments := q.arguments ++ args, pushed := q.pushed + args.length }) := by
  induction args generalizing q with
  | nil => simp
  | cons a args ih =>
    have hlt : q.pushed < params.length := by
      have := h.length_le
      simp only [List.map_cons, List.length_cons, List.length_drop] at this
      omega
    rw [List.drop_eq_getElem_cons hlt, List.map_cons, List.cons_prefix_cons] at h
    have hget : params[q.pushed]? = some a.kind.type := by rw [List.getElem?_eq_getElem hlt, h.1]
    rw [List.forM_cons, Throwing.run_bind_of_ok (pushArgument_of_getElem? hget), ih _ h.2]
    simp [Nat.add_comm, Nat.add_left_comm]

/-- Popping the declared types in order returns the arguments in order. -/
theorem mapM_popArgument (q : ArgumentQueue) (hall : q.pushed = params.length) :
    ((q.arguments.map (·.kind)).mapM (popArgument params)).run q =
      (.ok q.arguments, { q with arguments := [] }) := by
  obtain ⟨arguments, pushed⟩ := q
  induction arguments with
  | nil => rfl
  | cons a rest ih =>
    rw [List.map_cons, List.mapM_cons, Throwing.run_bind_of_ok (popArgument_of_cons hall rfl),
      Throwing.run_bind_of_ok (ih hall)]
    rfl

end ArgumentQueue

end Ssoa
