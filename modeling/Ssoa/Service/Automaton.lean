import Ssoa.Service.Response

/-!
# What a sequence of calls may do

A `Service` and a `Response` keep a push counter and a deque that shrinks; nothing records how many
arguments have been popped. Seen from outside, both behave as an automaton over two numbers, the
pushes and the pops that have succeeded so far: the arguments are pushed in the order of the
parameter list, popped in the same order once all of them are there, and sent while none is missing.

What a run of calls has pushed and popped is read off the answers (`pushedObjects`, `popCount`), and
`Tracks` says how the members of the object follow from it.

## Main results

* `Tracks.runFrom` — every run keeps the members aligned with its history
* `push_pop_automaton` — the automaton, for both classes and every run
-/

namespace Ssoa

namespace ArgumentQueue

/-- A call on a `Service` or a `Response`. -/
inductive MemberCall where
  | pushArgument (arg : ServiceArgument)
  | popArgument (c : ArgumentClass)
  | getConstBuffers

/-- What a call returns. -/
inductive Returned where
  | nothing
  | argument (a : ServiceArgument)
  | buffers (buffers : List (List Byte))

section Object

variable {σ : Type} (part : Throwing.Part σ ArgumentQueue (List Text))
  (getConstBuffers : σ → Except Exn (List (List Byte)))

/-- The program of a call, for an object with such a part and such a member `getConstBuffers`. -/
def memberCall : MemberCall → Throwing σ Exn Returned
  | .pushArgument arg =>
    (fun _ => .nothing) <$> Throwing.within part fun params => pushArgument params arg
  | .popArgument c => .argument <$> Throwing.within part fun params => popArgument params c
  | .getConstBuffers => do return .buffers (← getConstBuffers (← get))

/-- An object, from its constructor on. -/
def object (new : σ) : Machine σ MemberCall (Except Exn Returned) :=
  ⟨new, fun s call => (memberCall part getConstBuffers call).run s⟩

end Object

/-! ### The history of a run -/

/-- The object pushed, given the call and its answer. -/
def pushedObject : MemberCall × Except Exn Returned → Option ServiceArgument
  | (.pushArgument arg, .ok _) => some arg
  | _ => none

/-- The objects pushed, given the calls and their answers. -/
def pushedObjects (calls : List MemberCall) (answers : List (Except Exn Returned)) :
    List ServiceArgument :=
  (calls.zip answers).filterMap pushedObject

/-- The answer is an argument that was popped. -/
def isPopped : Except Exn Returned → Bool
  | .ok (.argument _) => true
  | _ => false

/-- The number of arguments popped, given the answers. -/
def popCount (answers : List (Except Exn Returned)) : ℕ := answers.countP isPopped

theorem pushedObjects_cons (call : MemberCall) (calls : List MemberCall)
    (answer : Except Exn Returned) (answers : List (Except Exn Returned)) :
    pushedObjects (call :: calls) (answer :: answers) =
      pushedObjects [call] [answer] ++ pushedObjects calls answers :=
  List.filterMap_append (l := [(call, answer)])

theorem popCount_cons (answer : Except Exn Returned) (answers : List (Except Exn Returned)) :
    popCount (answer :: answers) = popCount [answer] + popCount answers := by
  show ([answer] ++ answers).countP isPopped = _
  exact List.countP_append

/-- The members follow from the objects pushed and the number of arguments popped. -/
structure Tracks (params : List Text) (pushed : List ServiceArgument) (popped : ℕ)
    (q : ArgumentQueue) : Prop where
  arguments : q.arguments = pushed.drop popped
  counter : q.pushed = pushed.length
  types : pushed.map (·.kind.type) <+: params
  popped_le : popped ≤ pushed.length
  complete : popped ≠ 0 → pushed.length = params.length

variable {params : List Text} {pushed : List ServiceArgument} {popped : ℕ} {q : ArgumentQueue}

theorem Tracks.new : Tracks params [] 0 {} :=
  ⟨rfl, rfl, List.nil_prefix, Nat.le_refl 0, fun h => absurd rfl h⟩

theorem Tracks.length_le (h : Tracks params pushed popped q) : pushed.length ≤ params.length := by
  simpa using h.types.length_le

/-- The type of a pushed object is the one of its parameter. -/
theorem Tracks.type_eq (h : Tracks params pushed popped q) {i : ℕ} {a : ServiceArgument}
    (hi : pushed[i]? = some a) : params[i]? = some a.kind.type := by
  obtain ⟨rest, hrest⟩ := h.types
  have hlt : i < (pushed.map (·.kind.type)).length := by
    rw [List.length_map]
    exact (List.getElem?_eq_some_iff.mp hi).1
  rw [← hrest, List.getElem?_append_left hlt, List.getElem?_map, hi]
  rfl

/-! ### One call -/

/-- The parameter a push checks its argument against. -/
theorem Tracks.getElem?_counter (h : Tracks params pushed popped q) {t : Text}
    (hne : q.pushed ≠ params.length) (ht : params.getD q.pushed [] = t) :
    params[q.pushed]? = some t := by
  have hlt : q.pushed < params.length := Nat.lt_of_le_of_ne (h.counter ▸ h.length_le) hne
  rw [List.getD_eq_getElem?_getD, List.getElem?_eq_getElem hlt] at ht
  rw [List.getElem?_eq_getElem hlt]
  exact congrArg some ht

/-- When a push succeeds. -/
theorem Tracks.pushArgument_iff (h : Tracks params pushed popped q) (arg : ServiceArgument) :
    (pushArgument params arg).Succeeds q ↔
      pushed.length < params.length ∧ params[pushed.length]? = some arg.kind.type := by
  rw [← h.counter]
  constructor
  · rintro ⟨_, hok⟩
    rcases pushArgument_cases params arg q with ⟨e, he⟩ | ⟨htype, hne, -⟩
    · rw [he] at hok
      cases hok
    · have hget := h.getElem?_counter hne htype
      exact ⟨(List.getElem?_eq_some_iff.mp hget).1, hget⟩
  · rintro ⟨-, htype⟩
    exact ⟨(), by rw [pushArgument_of_getElem? htype]⟩

/-- The deque is empty when everything pushed has been popped. -/
theorem Tracks.arguments_eq_nil_iff (h : Tracks params pushed popped q) :
    q.arguments = [] ↔ popped = pushed.length := by
  rw [h.arguments, List.drop_eq_nil_iff]
  exact ⟨Nat.le_antisymm h.popped_le, Nat.le_of_eq ∘ Eq.symm⟩

/-- The front of the deque is the next object to pop. -/
theorem Tracks.getElem?_popped (h : Tracks params pushed popped q) {a : ServiceArgument}
    {rest : List ServiceArgument} (hq : q.arguments = a :: rest) : pushed[popped]? = some a := by
  have hhead : (pushed.drop popped)[0]? = some a := by rw [← h.arguments, hq]; rfl
  simpa using hhead

/-- When a pop succeeds. -/
theorem Tracks.popArgument_iff (h : Tracks params pushed popped q) (c : ArgumentClass) :
    (popArgument params c).Succeeds q ↔ pushed.length = params.length ∧ popped < params.length ∧
      params[popped]? = some c.type := by
  constructor
  · rintro ⟨_, hok⟩
    rcases popArgument_cases params c q with ⟨e, he⟩ | ⟨hall, a, rest, hq, rfl, -⟩
    · rw [he] at hok
      cases hok
    · have htype := h.type_eq (h.getElem?_popped hq)
      exact ⟨h.counter ▸ hall, (List.getElem?_eq_some_iff.mp htype).1, htype⟩
  · rintro ⟨hall, hlt, htype⟩
    obtain ⟨a, ha⟩ : ∃ a, pushed[popped]? = some a :=
      ⟨_, List.getElem?_eq_getElem (hall ▸ hlt)⟩
    have hq : q.arguments = a :: pushed.drop (popped + 1) := by
      obtain ⟨hlt, rfl⟩ := List.getElem?_eq_some_iff.mp ha
      rw [h.arguments, List.drop_eq_getElem_cons hlt]
    have hkind : a.kind = c := by
      rw [h.type_eq ha] at htype
      exact ArgumentClass.type_injective (Option.some.inj htype)
    subst hkind
    exact ⟨a, by rw [popArgument_of_cons (h.counter.trans hall) hq]⟩

/-- What a pop returns. -/
theorem Tracks.popArgument_eq (h : Tracks params pushed popped q) {c : ArgumentClass}
    {a : ServiceArgument} {q' : ArgumentQueue} (hrun : (popArgument params c).run q = (.ok a, q')) :
    pushed[popped]? = some a := by
  rcases popArgument_cases params c q with ⟨e, he⟩ | ⟨-, a', rest, hq, -, heq⟩
  · rw [he] at hrun
    cases hrun
  · rw [heq] at hrun
    obtain rfl : a' = a := Except.ok.inj (congrArg Prod.fst hrun)
    exact h.getElem?_popped hq

/-- The number of arguments in the deque. -/
theorem Tracks.length_arguments (h : Tracks params pushed popped q) :
    (q.arguments.length : ℤ) = pushed.length - popped := by
  have := h.popped_le
  rw [h.arguments, List.length_drop]
  omega

/-- **The index `popArgument` reports with** is the one of the next parameter to pop. -/
theorem Tracks.popIndex_eq (h : Tracks params pushed popped q) (hall : q.pushed = params.length)
    (hne : q.arguments ≠ []) : q.popIndex params = popped ∧ popped < params.length := by
  have hpopped : popped ≠ pushed.length := fun heq => hne (h.arguments_eq_nil_iff.mpr heq)
  have hle := h.popped_le
  have hlen : pushed.length = params.length := h.counter ▸ hall
  rw [popIndex, h.length_arguments]
  omega

/-- A push keeps the members aligned. -/
theorem Tracks.push (h : Tracks params pushed popped q) {arg : ServiceArgument}
    (htype : params[pushed.length]? = some arg.kind.type) :
    Tracks params (pushed ++ [arg]) popped
      { arguments := q.arguments ++ [arg], pushed := q.pushed + 1 } where
  arguments := by
    show q.arguments ++ [arg] = _
    rw [h.arguments, List.drop_append_of_le_length h.popped_le]
  counter := by simp [h.counter]
  types := by
    obtain ⟨rest, rfl⟩ := h.types
    rw [List.getElem?_append_right (by simp)] at htype
    obtain _ | ⟨t, rest⟩ := rest
    · simp at htype
    · obtain rfl : t = arg.kind.type := by simpa using htype
      exact ⟨rest, by simp⟩
  popped_le := h.popped_le.trans (by simp)
  complete hne := by
    have hlen := h.complete hne
    exact absurd (List.getElem?_eq_some_iff.mp htype).1 (by omega)

/-- A pop keeps the members aligned. -/
theorem Tracks.pop (h : Tracks params pushed popped q) (hall : q.pushed = params.length)
    {a : ServiceArgument} {rest : List ServiceArgument} (hq : q.arguments = a :: rest) :
    Tracks params pushed (popped + 1) { q with arguments := rest } where
  arguments := by
    obtain ⟨hlt, rfl⟩ := List.getElem?_eq_some_iff.mp (h.getElem?_popped hq)
    have harguments := h.arguments
    rw [hq, List.drop_eq_getElem_cons hlt] at harguments
    exact (List.cons_eq_cons.mp harguments).2
  counter := h.counter
  types := h.types
  popped_le := (List.getElem?_eq_some_iff.mp (h.getElem?_popped hq)).1
  complete _ := h.counter ▸ hall

/-! ### Runs of calls -/

section Object

variable {σ : Type} {part : Throwing.Part σ ArgumentQueue (List Text)}
  {getConstBuffers : σ → Except Exn (List (List Byte))}

/-- **What a call does.** If it throws, the object is as before. -/
theorem memberCall_cases (part : Throwing.Part σ ArgumentQueue (List Text))
    (getConstBuffers : σ → Except Exn (List (List Byte))) (call : MemberCall) (s : σ) :
    let run := (memberCall part getConstBuffers call).run s
    (∃ e, run = (.error e, s)) ∨
    (∃ arg, call = .pushArgument arg ∧ (part.part s).pushed ≠ (part.rest s).length ∧
      (part.rest s).getD (part.part s).pushed [] = arg.kind.type ∧
      run = (.ok .nothing,
        part.put s ⟨(part.part s).arguments ++ [arg], (part.part s).pushed + 1⟩)) ∨
    (∃ c a rest, call = .popArgument c ∧ (part.part s).pushed = (part.rest s).length ∧
      (part.part s).arguments = a :: rest ∧
      run = (.ok (.argument a), part.put s { part.part s with arguments := rest })) ∨
    ∃ buffers, call = .getConstBuffers ∧ run = (.ok (.buffers buffers), s) := by
  cases call with
  | pushArgument arg =>
    rcases pushArgument_cases (part.rest s) arg (part.part s) with
      ⟨e, he⟩ | ⟨htype, hne, hok⟩
    · have hrun := Throwing.run_within_of_eq part (x := fun params => pushArgument params arg) he
      rw [part.put_part] at hrun
      exact .inl ⟨e, Throwing.run_map_of_error hrun⟩
    · have hrun := Throwing.run_within_of_eq part (x := fun params => pushArgument params arg) hok
      exact .inr (.inl ⟨arg, rfl, hne, htype, Throwing.run_map_of_ok hrun⟩)
  | popArgument c =>
    rcases popArgument_cases (part.rest s) c (part.part s) with
      ⟨e, he⟩ | ⟨hall, a, rest, hq, -, hok⟩
    · have hrun := Throwing.run_within_of_eq part (x := fun params => popArgument params c) he
      rw [part.put_part] at hrun
      exact .inl ⟨e, Throwing.run_map_of_error hrun⟩
    · have hrun := Throwing.run_within_of_eq part (x := fun params => popArgument params c) hok
      exact .inr (.inr (.inl ⟨c, a, rest, rfl, hall, hq, Throwing.run_map_of_ok hrun⟩))
  | getConstBuffers =>
    cases hbuffers : getConstBuffers s with
    | error e =>
      refine .inl ⟨e, ?_⟩
      rw [memberCall, Throwing.run_get_bind, hbuffers]
      rfl
    | ok buffers =>
      refine .inr (.inr (.inr ⟨buffers, rfl, ?_⟩))
      rw [memberCall, Throwing.run_get_bind, hbuffers]
      rfl

/-- A call keeps the members aligned with the history, and the rest of the object as it is. -/
theorem Tracks.memberCall {s t : σ} (h : Tracks (part.rest s) pushed popped (part.part s))
    {call : MemberCall} {answer : Except Exn Returned}
    (hrun : (memberCall part getConstBuffers call).run s = (answer, t)) :
    t = part.put s (part.part t) ∧ Tracks (part.rest s)
      (pushed ++ pushedObjects [call] [answer]) (popped + popCount [answer]) (part.part t) := by
  rcases memberCall_cases part getConstBuffers call s with
    ⟨e, heq⟩ | ⟨arg, rfl, hne, htype, heq⟩ | ⟨c, a, rest, rfl, hall, hq, heq⟩ |
    ⟨buffers, rfl, heq⟩ <;> obtain ⟨rfl, rfl⟩ := Prod.mk.inj (heq.symm.trans hrun)
  · have hnone : pushedObjects [call] [(.error e : Except Exn Returned)] = [] := by
      cases call <;> rfl
    rw [hnone, List.append_nil]
    exact ⟨(part.put_part s).symm, h⟩
  · have hget := h.getElem?_counter hne htype
    rw [h.counter] at hget
    rw [part.part_put]
    exact ⟨rfl, h.push hget⟩
  · have hpop := h.pop hall hq
    rw [← List.append_nil pushed] at hpop
    rw [part.part_put]
    exact ⟨rfl, hpop⟩
  · rw [← List.append_nil pushed] at h
    exact ⟨(part.put_part s).symm, h⟩

/-- **Every run keeps the members aligned with its history**, and the rest of the object as it
is. -/
theorem Tracks.runFrom {s new t : σ} {calls : List MemberCall}
    {answers : List (Except Exn Returned)}
    (h : Tracks (part.rest s) pushed popped (part.part s))
    (hrun : (object part getConstBuffers new).runFrom s calls = (answers, t)) :
    t = part.put s (part.part t) ∧ Tracks (part.rest s)
      (pushed ++ pushedObjects calls answers) (popped + popCount answers) (part.part t) := by
  induction calls generalizing s pushed popped answers with
  | nil =>
    obtain ⟨rfl, rfl⟩ := Prod.mk.inj hrun
    rw [← List.append_nil pushed] at h
    exact ⟨(part.put_part s).symm, h⟩
  | cons call calls ih =>
    rcases hcall : (ArgumentQueue.memberCall part getConstBuffers call).run s with ⟨answer, u⟩
    rcases hrest : (object part getConstBuffers new).runFrom u calls with ⟨answers', v⟩
    have hstep : (object part getConstBuffers new).step s call = (answer, u) := hcall
    rw [Machine.runFrom_cons, hstep, hrest] at hrun
    obtain ⟨rfl, rfl⟩ := Prod.mk.inj hrun
    obtain ⟨hu, htracks⟩ := h.memberCall hcall
    have hsame : part.rest u = part.rest s := by rw [hu, part.rest_put]
    rw [← hsame] at htracks ⊢
    obtain ⟨hv, htracks⟩ := ih htracks hrest
    rw [hu, part.put_put] at hv
    rw [pushedObjects_cons, popCount_cons, ← List.append_assoc, ← Nat.add_assoc]
    exact ⟨hv, htracks⟩

/-! ### The automaton -/

/-- How an object with these parameters behaves after these pushes and that many pops. The object
can always be sent if `unchecked`. -/
structure Follows (part : Throwing.Part σ ArgumentQueue (List Text))
    (getConstBuffers : σ → Except Exn (List (List Byte))) (unchecked : Prop) (params : List Text)
    (pushed : List ServiceArgument) (popped : ℕ) (s : σ) : Prop where
  push : ∀ arg, (memberCall part getConstBuffers (.pushArgument arg)).Succeeds s ↔
    pushed.length < params.length ∧ params[pushed.length]? = some arg.kind.type
  pop : ∀ c, (memberCall part getConstBuffers (.popArgument c)).Succeeds s ↔
    pushed.length = params.length ∧ popped < params.length ∧ params[popped]? = some c.type
  popped_eq : ∀ c a, ((memberCall part getConstBuffers (.popArgument c)).run s).1 =
    .ok (.argument a) → pushed[popped]? = some a
  buffers : (memberCall part getConstBuffers .getConstBuffers).Succeeds s ↔
    unchecked ∨ (pushed.length : ℤ) - popped = params.length
  throws : ∀ call e t, (memberCall part getConstBuffers call).run s = (.error e, t) → t = s
  index : (part.part s).pushed = params.length → ∀ a rest, (part.part s).arguments = a :: rest →
    ∃ i < params.length, (part.part s).popIndex params = i ∧
      ∀ c, a.kind ≠ c → ((memberCall part getConstBuffers (.popArgument c)).run s).1 =
        .error (invalidArgument (params.getD i []))

theorem succeeds_within_iff {α β : Type} {x : List Text → Throwing ArgumentQueue Exn α} {f : α → β}
    {s : σ} :
    (f <$> Throwing.within part x).Succeeds s ↔ (x (part.rest s)).Succeeds (part.part s) := by
  rcases h : (x (part.rest s)).run (part.part s) with ⟨_ | a, t⟩
  · have hrun := Throwing.run_within_of_eq part h
    simp [Throwing.Succeeds, h, Throwing.run_map_of_error hrun]
  · have hrun := Throwing.run_within_of_eq part h
    simp [Throwing.Succeeds, h, Throwing.run_map_of_ok hrun]

/-- **The members follow from the history, and the behaviour from the members.** -/
theorem Tracks.follows {s : σ} {unchecked : Prop}
    (h : Tracks (part.rest s) pushed popped (part.part s))
    (hbuffers : (∃ buffers, getConstBuffers s = .ok buffers) ↔
      unchecked ∨ ¬ (part.part s).arguments.length < (part.rest s).length) :
    Follows part getConstBuffers unchecked (part.rest s) pushed popped s where
  push arg := succeeds_within_iff.trans (h.pushArgument_iff arg)
  pop c := succeeds_within_iff.trans (h.popArgument_iff c)
  popped_eq c a hrun := by
    rcases hpop : (popArgument (part.rest s) c).run (part.part s) with ⟨_ | a', t⟩
    · have := Throwing.run_within_of_eq part (x := fun params => popArgument params c) hpop
      rw [ArgumentQueue.memberCall, Throwing.run_map_of_error this] at hrun
      cases hrun
    · have := Throwing.run_within_of_eq part (x := fun params => popArgument params c) hpop
      rw [ArgumentQueue.memberCall, Throwing.run_map_of_ok this] at hrun
      obtain rfl : a' = a := by simpa using hrun
      exact h.popArgument_eq hpop
  buffers := by
    have hsucceeds : (ArgumentQueue.memberCall part getConstBuffers .getConstBuffers).Succeeds s ↔
        ∃ buffers, getConstBuffers s = .ok buffers := by
      rw [Throwing.Succeeds, ArgumentQueue.memberCall, Throwing.run_get_bind,
        Throwing.run_lift_bind]
      cases getConstBuffers s <;> simp
    rw [hsucceeds, hbuffers]
    have hlen := h.length_arguments
    have hle := h.length_le
    have : ¬ (part.part s).arguments.length < (part.rest s).length ↔
        (pushed.length : ℤ) - popped = (part.rest s).length := by omega
    rw [this]
  throws call e t hrun := by
    rcases memberCall_cases part getConstBuffers call s with
      ⟨e, heq⟩ | ⟨arg, -, -, -, heq⟩ | ⟨c, a, rest, -, -, -, heq⟩ | ⟨buffers, -, heq⟩ <;>
      obtain ⟨hanswer, rfl⟩ := Prod.mk.inj (heq.symm.trans hrun)
    · rfl
    · cases hanswer
    · cases hanswer
    · cases hanswer
  index hall a rest hq := by
    obtain ⟨hindex, hlt⟩ := h.popIndex_eq hall (by simp [hq])
    refine ⟨popped, hlt, hindex, fun c hc => ?_⟩
    have hpop : (popArgument (part.rest s) c).run (part.part s) =
        (.error (invalidArgument ((part.rest s).getD popped [])), part.part s) := by
      rw [popArgument, Throwing.run_get_bind, if_neg (not_not.mpr hall), hq, hindex,
        Int.toNat_natCast]
      exact (congrArg (Throwing.run · _) (if_pos hc)).trans rfl
    have hrun := Throwing.run_within_of_eq part (x := fun params => popArgument params c) hpop
    rw [ArgumentQueue.memberCall, Throwing.run_map_of_error hrun]

end Object

end ArgumentQueue

open ArgumentQueue

/-- A `Service`, as an object. -/
def Service.object (y : YamlLibrary) (signature : ServiceSignature) :
    Machine Service MemberCall (Except Exn Returned) :=
  ArgumentQueue.object queue (getConstBuffers y) (new signature)

/-- A `Response`, as an object. -/
def Response.object (y : YamlLibrary) (signature : ServiceSignature) (successful : Bool)
    (status : Text) : Machine Response MemberCall (Except Exn Returned) :=
  ArgumentQueue.object queue (getConstBuffers y) (new signature successful status)

/-- The calls are the member functions. -/
example (y : YamlLibrary) (arg : ServiceArgument) (c : ArgumentClass) :
    memberCall Service.queue (Service.getConstBuffers y) (.pushArgument arg) =
      (fun _ => .nothing) <$> Service.pushArgument arg ∧
    memberCall Response.queue (Response.getConstBuffers y) (.popArgument c) =
      .argument <$> Response.popArgument c := ⟨rfl, rfl⟩

/-- When a service can be sent. -/
theorem Service.exists_getConstBuffers_iff (y : YamlLibrary) (s : Service) :
    (∃ buffers, s.getConstBuffers y = .ok buffers) ↔
      False ∨ ¬ s.arguments.length < s.signature.inputParams.length := by
  rw [getConstBuffers, false_or]
  split
  · next h => exact iff_of_false (by rintro ⟨_, ⟨⟩⟩) (not_not.mpr h)
  · next h => exact iff_of_true ⟨_, rfl⟩ h

/-- When a response can be sent. -/
theorem Response.exists_getConstBuffers_iff (y : YamlLibrary) (r : Response) :
    (∃ buffers, r.getConstBuffers y = .ok buffers) ↔
      r.successful = false ∨ ¬ r.arguments.length < r.signature.outputParams.length := by
  rw [← Bool.not_eq_true, ← not_and_or, getConstBuffers]
  split
  · next h => exact iff_of_false (by rintro ⟨_, ⟨⟩⟩) (not_not.mpr h)
  · next h => exact iff_of_true ⟨_, rfl⟩ h

/-- **The automaton of pushes and pops.** After every run of calls on a new service or a new
response, what the next call does is decided by the objects pushed and the number of arguments
popped so far. -/
theorem push_pop_automaton (y : YamlLibrary) (signature : ServiceSignature)
    (calls : List MemberCall) :
    (∀ answers s, (Service.object y signature).runFrom (.new signature) calls = (answers, s) →
      Follows Service.queue (Service.getConstBuffers y) False signature.inputParams
        (pushedObjects calls answers) (popCount answers) s) ∧
    ∀ successful status answers r, (Response.object y signature successful status).runFrom
        (.new signature successful status) calls = (answers, r) →
      Follows Response.queue (Response.getConstBuffers y) (successful = false)
        signature.outputParams (pushedObjects calls answers) (popCount answers) r := by
  constructor
  · intro answers s hrun
    obtain ⟨hs, htracks⟩ := Tracks.runFrom .new hrun
    have hsignature : s.signature = signature := by rw [hs]; rfl
    rw [← hsignature]
    rw [← hsignature, List.nil_append, Nat.zero_add] at htracks
    exact htracks.follows (s.exists_getConstBuffers_iff y)
  · intro successful status answers r hrun
    obtain ⟨hr, htracks⟩ := Tracks.runFrom .new hrun
    have hsignature : r.signature = signature := by rw [hr]; rfl
    have hsuccessful : r.successful = successful := by rw [hr]; rfl
    rw [← hsignature, ← hsuccessful]
    rw [← hsignature, List.nil_append, Nat.zero_add] at htracks
    exact htracks.follows (r.exists_getConstBuffers_iff y)

end Ssoa
