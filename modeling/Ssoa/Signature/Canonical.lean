import Ssoa.Signature.Arguments

/-!
# The canonical string

The constructor renders what it read as `name(in type, out type)`. This file says what the
constructor makes of a text in terms of `Splits` and `Reads`, and proves the two facts everything
downstream rests on: a canonical string determines the name and the parameters it was rendered
from, whether or not the text was well formed; and the canonical string of a valid signature is
read back as the same signature.

## Main results

* `parse_eq` — the constructor, evaluated
* `render_injective` — a canonical string determines the name and the parameter list
* `isValid_parse_iff`, `parse_of_isValid` — the well-formed texts
* `ServiceSignature.ofText_signature` — a valid signature survives a round trip through its string
* `ServiceSignature.canonical_form` — what equality of signatures means, for all texts
-/

namespace Ssoa

open Backtrack Span

/-- `name(in type, out type)`. -/
def render (name : Text) (ps : List Param) : Text :=
  name ++ chr '(' :: (argumentText ps ++ [chr ')'])

/-- The types of the input parameters. -/
def inputTypes (ps : List Param) : List Text := (ps.filter Param.isInput).map Param.type

/-- The types of the output parameters. -/
def outputTypes (ps : List Param) : List Text := (ps.filter fun p => !p.isInput).map Param.type

/-- The data members after reading the name `name` and the parameters `ps`. -/
def SignatureFields.of (name : Text) (ps : List Param) (valid : Bool) : SignatureFields :=
  ⟨name, render name ps, inputTypes ps, outputTypes ps, valid⟩

/-- The name text and the argument text of the constructor: the text with its call replaced by the
name, and by the inside. -/
def Splits (s n a : Text) : Prop :=
  (NoCall s ∧ n = s ∧ a = s) ∨ ∃ u w x v, FirstCall s u w x v ∧ n = u ++ w ++ v ∧ a = u ++ x ++ v

/-- Every type in the list is a word. -/
def WellTyped (ps : List Param) : Prop := ∀ p ∈ ps, IsWord p.type

theorem exists_splits (s : Text) : ∃ n a, Splits s n a := by
  rcases noCall_or_firstCall s with h | ⟨u, w, x, v, h⟩
  · exact ⟨s, s, .inl ⟨h, rfl, rfl⟩⟩
  · exact ⟨_, _, .inr ⟨u, w, x, v, h, rfl, rfl⟩⟩

/-- The parameters the constructor collects from a text, in order, each with its direction. -/
def parameters (s : Text) : List (Text × Text) :=
  collectedParams (occurrences argPattern (Backtrack.replaceAll sigPattern 2 s))

theorem Splits.replaceAll {s n a : Text} (h : Splits s n a) :
    replaceAll sigPattern 1 s = n ∧ replaceAll sigPattern 2 s = a := by
  rcases h with ⟨h, rfl, rfl⟩ | ⟨u, w, x, v, h, rfl, rfl⟩
  · exact ⟨replaceAll_sigPattern_of_noCall h 1, replaceAll_sigPattern_of_noCall h 2⟩
  · exact replaceAll_sigPattern h

theorem txt_open : txt "(" = [chr '('] := by decide
theorem txt_close : txt ")" = [chr ')'] := by decide
theorem txt_blank : txt " " = [chr ' '] := by decide
theorem txt_comma : txt ", " = chr ',' :: txt " " := by decide

theorem spaces_blank : Spaces (txt " ") := by decide +kernel

/-- **The constructor, evaluated.** -/
theorem parse_eq {s n a : Text} {ps : List Param} {ok : Bool} (hs : Splits s n a)
    (ha : Reads a ps ok) :
    SignatureFields.parse s = SignatureFields.of n ps (matchesWhole sigPattern s && ok) := by
  have hloop := collectArguments_eq ha (Nat.lt_succ_self _) none
    { isValid := matchesWhole sigPattern s }
  rw [pushAll_eq] at hloop
  simp only [SignatureFields.parse, hs.replaceAll, occurrences, Nat.succ_eq_add_one] at hloop ⊢
  rw [hloop]
  simp only [SignatureFields.of, render, inputTypes, outputTypes, txt_open, txt_close,
    List.append_assoc, List.cons_append, List.nil_append]

/-- The parameters collected are the ones that are read. -/
theorem parameters_eq {s n a : Text} {ps : List Param} {ok : Bool} (hs : Splits s n a)
    (ha : Reads a ps ok) : parameters s = ps.map fun p => (p.direction, p.type) := by
  rw [parameters, hs.replaceAll.2, occurrences]
  exact (collectedParams_eq ha (Nat.lt_succ_self _) none).1

/-! ### Parameter lists read back -/

theorem Reads.wellTyped {s : Text} {ps : List Param} {ok : Bool} (h : Reads s ps ok) :
    WellTyped ps := by
  induction h with
  | done => simp [WellTyped]
  | param hp _ ih =>
    obtain ⟨-, -, -, -, -, -, htype, -⟩ := hp
    simpa [WellTyped, htype] using ih
  | stop => simp [WellTyped]

/-- A comma goes with a parameter, and nothing else in it does. -/
theorem paramAt_comma {p : Param} (hp : IsWord p.type) {rest : Text}
    (hrest : NotHead isSpace rest) :
    ParamAt (p.text ++ (txt ", " ++ rest)) p rest := by
  refine ⟨txt " ", [], txt ", " ++ rest, by simp [Param.text], by decide, spaces_blank, hp,
    spaces_nil, ?_, ?_, .inl ⟨txt " ", by simp [txt_comma, txt_blank], spaces_blank, hrest⟩⟩
  · simp [txt_comma, isSpace_comma]
  · simp [txt_comma, isWord_comma]

theorem paramAt_last {p : Param} (hp : IsWord p.type) : ParamAt p.text p [] :=
  ⟨txt " ", [], [], by simp [Param.text], by decide, spaces_blank, hp, spaces_nil, by simp,
    by simp, .inr (.inl ⟨rfl, rfl⟩)⟩

/-- **A written parameter list reads back.** -/
theorem reads_argumentText {ps : List Param} (h : WellTyped ps) :
    Reads (argumentText ps) ps true := by
  induction ps with
  | nil => exact .done
  | cons p ps ih =>
    have hp : IsWord p.type := h p (List.mem_cons_self ..)
    have hrec := ih fun q hq => h q (List.mem_cons_of_mem _ hq)
    cases ps with
    | nil => exact .param (paramAt_last hp) .done
    | cons q ps =>
      have hhead : NotHead isSpace (argumentText (q :: ps)) := by
        cases ps <;> simp only [argumentText, Param.text, List.append_assoc] <;>
          exact q.notHead_direction _
      rw [argumentText, List.append_assoc]
      exact .param (paramAt_comma hp hhead) hrec

theorem not_mem_argumentText {ps : List Param} (h : WellTyped ps) {b : Byte}
    (hs : isSpace b = false)
    (hw : isWord b = false) (hb : b ≠ chr ',') : b ∉ argumentText ps := by
  have hblank : b ∉ txt " " := not_mem_of_spaces hs spaces_blank
  have hcomma : b ∉ txt ", " := by
    rw [txt_comma, List.mem_cons, not_or]
    exact ⟨hb, hblank⟩
  have htext : ∀ p : Param, IsWord p.type → b ∉ p.text := by
    intro p hp
    simp only [Param.text, List.mem_append, not_or]
    exact ⟨⟨not_mem_of_word hw p.isWord_direction, hblank⟩, not_mem_of_word hw hp.2⟩
  induction ps with
  | nil => simp [argumentText]
  | cons p ps ih =>
    have hp := htext p (h p (List.mem_cons_self ..))
    have hrec := ih fun q hq => h q (List.mem_cons_of_mem _ hq)
    cases ps with
    | nil => exact hp
    | cons q ps =>
      simp only [argumentText, List.mem_append, not_or]
      exact ⟨⟨hp, hcomma⟩, hrec⟩

theorem argumentText_ne_nil {ps : List Param} (h : ps ≠ []) : argumentText ps ≠ [] := by
  obtain _ | ⟨p, _ | ⟨q, ps⟩⟩ := ps
  · exact absurd rfl h
  · exact p.text_ne_nil
  · simp [argumentText, p.text_ne_nil]

theorem notHead_argumentText (ps : List Param) : NotHead isSpace (argumentText ps) := by
  obtain _ | ⟨p, _ | ⟨q, ps⟩⟩ := ps
  · simp [argumentText]
  · simpa [argumentText, Param.text] using p.notHead_direction _
  · simpa [argumentText, Param.text] using p.notHead_direction _

theorem open_not_mem_argumentText {ps : List Param} (h : WellTyped ps) :
    chr '(' ∉ argumentText ps :=
  not_mem_argumentText h isSpace_open isWord_open (by decide)

/-! ### Canonical strings -/

/-- **A canonical string determines what it was rendered from**, whatever the name. -/
theorem render_injective {n n' : Text} {ps ps' : List Param} (h : WellTyped ps) (h' : WellTyped ps')
    (heq : render n ps = render n' ps') : n = n' ∧ ps = ps' := by
  have hlast : ∀ {ps : List Param}, WellTyped ps → chr '(' ∉ argumentText ps ++ [chr ')'] := by
    intro ps h
    simp only [List.mem_append, List.mem_singleton, not_or]
    exact ⟨open_not_mem_argumentText h, by decide⟩
  obtain ⟨hn, hargs⟩ := last_unique heq (hlast h) (hlast h')
  refine ⟨hn, ?_⟩
  have hargs : argumentText ps = argumentText ps' := List.append_cancel_right hargs
  exact ((reads_argumentText h).unique (hargs ▸ reads_argumentText h')).1

/-- A canonical string is not the string of `any`. -/
theorem render_ne_any (n : Text) (ps : List Param) : render n ps ≠ txt "*" := by
  intro h
  have hlast : some (chr ')') = (txt "*").getLast? := by
    rw [← h]
    simp [render, List.getLast?_cons]
  exact absurd hlast (by decide)

/-- A canonical string with a name and parameters is a call. -/
theorem call_render {n w : Text} {ps : List Param} (hn : Bare n w) (hne : ps ≠ []) :
    Call (render n ps) w (argumentText ps) [] :=
  ⟨argumentText ps ++ [chr ')'], ⟨n, rfl, hn⟩, [], [], by simp, spaces_nil,
    argumentText_ne_nil hne, .inl (notHead_argumentText ps), spaces_nil, by simp, by simp⟩

theorem bare_self {w : Text} (h : IsWord w) : Bare w w :=
  ⟨[], [], by simp, spaces_nil, h, spaces_nil⟩

/-- The constructor on a call with nothing left over. -/
theorem parse_of_call {s w x : Text} {ps : List Param} {ok : Bool} (h : Call s w x [])
    (hx : Reads x ps ok) : SignatureFields.parse s = SignatureFields.of w ps ok := by
  have hsplits : Splits s w x := .inr ⟨[], w, x, [], h.firstCall, by simp, by simp⟩
  rw [parse_eq hsplits hx, matchesWhole_sigPattern_iff.mpr ⟨w, x, h⟩, Bool.true_and]

/-- **The canonical string of a name and parameters reads back.** -/
theorem parse_render {n w : Text} {ps : List Param} (hn : Bare n w) (hne : ps ≠ [])
    (h : WellTyped ps) : SignatureFields.parse (render n ps) = SignatureFields.of w ps true :=
  parse_of_call (call_render hn hne) (reads_argumentText h)

/-! ### Well-formed texts -/

theorem Reads.ne_nil {x : Text} {ps : List Param} (hx : x ≠ []) (h : Reads x ps true) :
    ps ≠ [] := by
  cases h with
  | done => exact absurd rfl hx
  | param => simp

/-- **What a well-formed text is**: a call with nothing left over, whose inside reads to the
end. -/
theorem isValid_parse_iff {s : Text} : (SignatureFields.parse s).isValid = true ↔
    ∃ w x ps, Call s w x [] ∧ Reads x ps true := by
  constructor
  · intro hvalid
    obtain ⟨n, a, hsplits⟩ := exists_splits s
    obtain ⟨ps, ok, hreads⟩ := exists_reads a
    rw [parse_eq hsplits hreads] at hvalid
    obtain ⟨hwhole, rfl⟩ : matchesWhole sigPattern s = true ∧ ok = true := by
      simpa [SignatureFields.of] using hvalid
    obtain ⟨w, x, hcall⟩ := matchesWhole_sigPattern_iff.mp hwhole
    obtain ⟨-, rfl⟩ : replaceAll sigPattern 1 s = w ∧ replaceAll sigPattern 2 s = x := by
      simpa using replaceAll_sigPattern hcall.firstCall
    rw [hsplits.replaceAll.2] at hcall
    exact ⟨w, a, ps, hcall, hreads⟩
  · rintro ⟨w, x, ps, hcall, hreads⟩
    simp [parse_of_call hcall hreads, SignatureFields.of]

theorem Call.word {s w x v : Text} (h : Call s w x v) : IsWord w := by
  obtain ⟨y, ⟨a, -, hbare⟩, -⟩ := h
  exact hbare.word

theorem Call.inside_ne_nil {s w x v : Text} (h : Call s w x v) : x ≠ [] := by
  obtain ⟨y, -, pad, trail, -, -, hx, -⟩ := h
  exact hx

/-- A well-formed text has a word for its name and at least one parameter. -/
theorem parse_of_isValid {s : Text} (h : (SignatureFields.parse s).isValid = true) :
    ∃ w ps, IsWord w ∧ ps ≠ [] ∧ WellTyped ps ∧
      SignatureFields.parse s = SignatureFields.of w ps true := by
  obtain ⟨w, x, ps, hcall, hreads⟩ := isValid_parse_iff.mp h
  exact ⟨w, ps, hcall.word, hreads.ne_nil hcall.inside_ne_nil, hreads.wellTyped,
    parse_of_call hcall hreads⟩

/-- What the constructor makes of any text. -/
theorem exists_parse_eq (s : Text) : ∃ n ps ok, WellTyped ps ∧
    SignatureFields.parse s = SignatureFields.of n ps ok := by
  obtain ⟨n, a, hsplits⟩ := exists_splits s
  obtain ⟨ps, ok, hreads⟩ := exists_reads a
  exact ⟨n, ps, _, hreads.wellTyped, parse_eq hsplits hreads⟩

namespace ServiceSignature

theorem ext_fields {a b : ServiceSignature} (h : a.toSignatureFields = b.toSignatureFields) :
    a = b := by
  obtain ⟨fields, _⟩ := a
  obtain ⟨_, _⟩ := b
  obtain rfl : fields = _ := h
  rfl

/-- **A valid signature survives a round trip through its string.** -/
theorem ofText_signature {a : ServiceSignature} (h : a.isValid = true) :
    ofText a.signature = a := by
  rcases a.eq_any_or_ofText with rfl | ⟨s, rfl⟩
  · exact absurd h (by decide)
  · obtain ⟨w, ps, hw, hne, hps, heq⟩ := parse_of_isValid h
    refine ext_fields ?_
    change SignatureFields.parse (SignatureFields.parse s).signature = SignatureFields.parse s
    rw [heq]
    exact parse_render (bare_self hw) hne hps

/-- A signature that is written like `any` is `any`. -/
theorem eq_any_of_signature {a : ServiceSignature} (h : a.signature = any.signature) : a = any := by
  rcases a.eq_any_or_ofText with rfl | ⟨s, rfl⟩
  · rfl
  · obtain ⟨n, ps, ok, -, heq⟩ := exists_parse_eq s
    have h : (SignatureFields.parse s).signature = txt "*" := h
    rw [heq] at h
    exact absurd h (render_ne_any n ps)

/-- **Equal canonical strings mean equal names and parameter lists**, for malformed texts too. -/
theorem eq_of_signature_eq {a b : ServiceSignature} (h : a.signature = b.signature) :
    a.name = b.name ∧ a.inputParams = b.inputParams ∧ a.outputParams = b.outputParams := by
  rcases b.eq_any_or_ofText with rfl | ⟨t, rfl⟩
  · rw [eq_any_of_signature h]
    exact ⟨rfl, rfl, rfl⟩
  rcases a.eq_any_or_ofText with rfl | ⟨s, rfl⟩
  · rw [eq_any_of_signature h.symm]
    exact ⟨rfl, rfl, rfl⟩
  obtain ⟨n, ps, ok, hps, heq⟩ := exists_parse_eq s
  obtain ⟨n', ps', ok', hps', heq'⟩ := exists_parse_eq t
  have h : (SignatureFields.parse s).signature = (SignatureFields.parse t).signature := h
  change (SignatureFields.parse s).name = (SignatureFields.parse t).name ∧
    (SignatureFields.parse s).inputParams = (SignatureFields.parse t).inputParams ∧
    (SignatureFields.parse s).outputParams = (SignatureFields.parse t).outputParams
  rw [heq, heq'] at h ⊢
  obtain ⟨rfl, rfl⟩ := render_injective hps hps' h
  exact ⟨rfl, rfl, rfl⟩

/-- A direction and a type are those of one parameter only. -/
theorem direction_type_injective :
    Function.Injective fun p : Param => (p.direction, p.type) := by
  rintro ⟨_ | _, type⟩ ⟨_ | _, type'⟩ h <;>
    simp_all [Param.direction, txt_in, txt_out]

/-- **Equality of signatures is equality of names and collected parameters**, for malformed texts
too. -/
theorem equals_ofText_iff (s t : Text) : (ofText s).equals (ofText t) = true ↔
    (ofText s).name = (ofText t).name ∧ parameters s = parameters t := by
  obtain ⟨n, a, hsplits⟩ := exists_splits s
  obtain ⟨ps, ok, hreads⟩ := exists_reads a
  obtain ⟨n', a', hsplits'⟩ := exists_splits t
  obtain ⟨ps', ok', hreads'⟩ := exists_reads a'
  rw [equals_iff, parameters_eq hsplits hreads, parameters_eq hsplits' hreads']
  change (SignatureFields.parse s).signature = (SignatureFields.parse t).signature ↔
    (SignatureFields.parse s).name = (SignatureFields.parse t).name ∧ _
  rw [parse_eq hsplits hreads, parse_eq hsplits' hreads']
  constructor
  · intro h
    obtain ⟨hn, rfl⟩ := render_injective hreads.wellTyped hreads'.wellTyped h
    exact ⟨hn, rfl⟩
  · rintro ⟨hn, hps⟩
    obtain rfl : n = n' := hn
    obtain rfl := List.map_injective_iff.mpr direction_type_injective hps
    rfl

/-- A signature built from a text is not `any`. -/
theorem equals_any_eq_false (s : Text) : (ofText s).equals any = false := by
  obtain ⟨n, ps, ok, -, heq⟩ := exists_parse_eq s
  by_contra h
  have hsig : (SignatureFields.parse s).signature = txt "*" :=
    equals_iff.mp (Bool.eq_true_of_not_eq_false h)
  rw [heq] at hsig
  exact render_ne_any n ps hsig

/-- **The canonical form of signatures.** Two signatures are equal when the parser has found the
same name and the same parameters in the same order, and then their parameter lists are equal; a
valid one is read back from its string; and none is `any`. -/
theorem canonical_form :
    (∀ s t, (ofText s).equals (ofText t) = true ↔
      (ofText s).name = (ofText t).name ∧ parameters s = parameters t) ∧
    (∀ s t, (ofText s).equals (ofText t) = true →
      (ofText s).inputParams = (ofText t).inputParams ∧
      (ofText s).outputParams = (ofText t).outputParams) ∧
    (∀ s, (ofText s).isValid = true →
      let again := ofText (ofText s).signature
      again.isValid = true ∧ again.name = (ofText s).name ∧
      again.inputParams = (ofText s).inputParams ∧ again.outputParams = (ofText s).outputParams ∧
      again.signature = (ofText s).signature) ∧
    ∀ s, (ofText s).equals any = false ∧ any.equals (ofText s) = false := by
  refine ⟨equals_ofText_iff, fun s t h => (eq_of_signature_eq (equals_iff.mp h)).2,
    fun s hvalid => ?_, fun s => ⟨equals_any_eq_false s, ?_⟩⟩
  · have hagain : ofText (ofText s).signature = ofText s := ofText_signature hvalid
    rw [hagain]
    exact ⟨hvalid, rfl, rfl, rfl, rfl⟩
  · have hany := equals_any_eq_false s
    rw [equals, decide_eq_false_iff_not] at hany ⊢
    exact Ne.symm hany

end ServiceSignature

end Ssoa
