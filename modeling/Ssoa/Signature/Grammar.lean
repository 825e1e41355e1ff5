import Ssoa.Signature.Canonical

/-!
# The grammar of well-formed signatures

A signature is meant to be written

    ws* word ws* "(" ws* param (ws* "," ws* param)* ws* ")" ws*

where a `param` is `in` or `out`, white space and a word (`Written`). The parser accepts these
texts, and one kind more: those with a comma after the last parameter (`TrailingComma`). The
separator alternative of `argPattern` is a comma *or the end*, so a comma need not be followed by a
parameter, and the second alternative, which catches everything that is not one, does not fire on
an empty rest.

## Main results

* `isValid_iff` — the texts that are accepted
* `accepts_grammar_iff` — the parser agrees with the grammar on all texts but those
-/

namespace Ssoa

open Backtrack Span

/-- `param`: a direction, white space and a type. -/
def ParamText (p : Param) (t : Text) : Prop :=
  ∃ sp, t = p.direction ++ (sp ++ p.type) ∧ sp ≠ [] ∧ Spaces sp ∧ IsWord p.type

/-- `param (ws* "," ws* param)*`. -/
inductive ParamList : Text → List Param → Prop
  | one {p t} : ParamText p t → ParamList t [p]
  | cons {p t gap pad u ps} : ParamText p t → Spaces gap → Spaces pad → ParamList u ps →
      ParamList (t ++ (gap ++ chr ',' :: (pad ++ u))) (p :: ps)

/-- `ws* word ws* "(" ws* inside ")" ws*`. -/
def Parenthesised (s w inside : Text) : Prop :=
  ∃ b pad trail, s = b ++ chr '(' :: (pad ++ (inside ++ chr ')' :: trail)) ∧ Bare b w ∧
    Spaces pad ∧ Spaces trail

/-- The text is written as the grammar says, with this name and these parameters. -/
def Written (s w : Text) (ps : List Param) : Prop :=
  ∃ t gap, Parenthesised s w (t ++ gap) ∧ ParamList t ps ∧ Spaces gap

/-- The text is written as the grammar says, but for a comma after the last parameter. -/
def TrailingComma (s w : Text) (ps : List Param) : Prop :=
  ∃ t gap pad, Parenthesised s w (t ++ (gap ++ chr ',' :: pad)) ∧ ParamList t ps ∧ Spaces gap ∧
    Spaces pad

/-! ### Parameter lists -/

theorem ParamList.notHead {t : Text} {ps : List Param} (h : ParamList t ps) (u : Text) :
    NotHead isSpace (t ++ u) := by
  have hparam : ∀ {p : Param} {t : Text}, ParamText p t → ∀ u, NotHead isSpace (t ++ u) := by
    rintro p _ ⟨sp, rfl, -⟩ u
    rw [List.append_assoc]
    exact p.notHead_direction _
  cases h with
  | one hp => exact hparam hp u
  | cons hp =>
    rw [List.append_assoc]
    exact hparam hp _

/-- A parameter list ends in a word character. -/
theorem ParamList.exists_concat {t : Text} {ps : List Param} (h : ParamList t ps) :
    ∃ t' c, t = t' ++ [c] ∧ isWord c := by
  have hparam : ∀ {p : Param} {t : Text}, ParamText p t → ∃ t' c, t = t' ++ [c] ∧ isWord c := by
    rintro p _ ⟨sp, rfl, -, -, hword⟩
    refine ⟨p.direction ++ (sp ++ p.type.dropLast), p.type.getLast hword.1, ?_,
      hword.2 _ (List.getLast_mem hword.1)⟩
    simp [List.dropLast_append_getLast hword.1]
  induction h with
  | one hp => exact hparam hp
  | @cons p t gap pad u ps hp hgap hpad hrest ih =>
    obtain ⟨u', c, rfl, hc⟩ := ih
    exact ⟨t ++ (gap ++ chr ',' :: (pad ++ u')), c, by simp, hc⟩

/-- How a parameter goes on after its type. -/
theorem ParamText.paramAt {p : Param} {t gap tail rest : Text} (h : ParamText p t)
    (hgap : Spaces gap) (htail : NotHead isSpace tail) (hword : NotHead isWord tail)
    (hterm : Terminated gap tail rest) : ParamAt (t ++ (gap ++ tail)) p rest := by
  obtain ⟨sp, rfl, hne, hsp, htype⟩ := h
  exact ⟨sp, gap, tail, by simp, hne, hsp, htype, hgap, htail,
    notHead_of_all (fun b => not_isWord_of_isSpace) hgap hword, hterm⟩

/-- A comma ends a parameter. -/
theorem ParamText.paramAt_comma {p : Param} {t gap pad rest : Text} (h : ParamText p t)
    (hgap : Spaces gap) (hpad : Spaces pad) (hrest : NotHead isSpace rest) :
    ParamAt (t ++ (gap ++ chr ',' :: (pad ++ rest))) p rest :=
  h.paramAt hgap (by simp [isSpace_comma]) (by simp [isWord_comma]) (.inl ⟨pad, rfl, hpad, hrest⟩)

/-- A parameter list reads to its end, and so does one with white space or a comma behind. -/
theorem ParamList.reads {t : Text} {ps : List Param} (h : ParamList t ps) {gap pad : Text}
    (hgap : Spaces gap) (hpad : Spaces pad) :
    Reads (t ++ gap) ps true ∧ Reads (t ++ (gap ++ chr ',' :: pad)) ps true := by
  induction h with
  | one hp =>
    constructor
    · have hend : ParamAt (_ ++ (gap ++ [])) _ [] :=
        hp.paramAt hgap (by simp) (by simp) (.inr (.inl ⟨rfl, rfl⟩))
      rw [List.append_nil] at hend
      exact .param hend .done
    · have hcomma : ParamAt (_ ++ (gap ++ chr ',' :: (pad ++ []))) _ [] :=
        hp.paramAt_comma hgap hpad (by simp)
      rw [List.append_nil] at hcomma
      exact .param hcomma .done
  | cons hp hgap' hpad' hrest ih =>
    constructor
    · refine .param ?_ ih.1
      simpa using hp.paramAt_comma hgap' hpad' (hrest.notHead gap)
    · refine .param ?_ ih.2
      simpa using hp.paramAt_comma hgap' hpad' (hrest.notHead (gap ++ chr ',' :: pad))

/-- **What reads to its end** is nothing, or a parameter list with white space or a comma behind. -/
theorem Reads.paramList {x : Text} {ps : List Param} {ok : Bool} (h : Reads x ps ok)
    (hok : ok = true) : (x = [] ∧ ps = []) ∨ ∃ t gap, ParamList t ps ∧ Spaces gap ∧
      (x = t ++ gap ∨ ∃ pad, x = t ++ (gap ++ chr ',' :: pad) ∧ Spaces pad) := by
  induction h with
  | done => exact .inl ⟨rfl, rfl⟩
  | @param s p rest ps ok hp hrest ih =>
    obtain ⟨sp, gap, tail, rfl, hne, hsp, htype, hgap, -, -, hterm⟩ := hp
    have hparam : ParamText p (p.direction ++ (sp ++ p.type)) := ⟨sp, rfl, hne, hsp, htype⟩
    right
    rcases hterm with ⟨pad, rfl, hpad, -⟩ | ⟨rfl, rfl⟩ | ⟨-, -, g₁, b, g₂, -, hb, rfl⟩
    · rcases ih hok with ⟨rfl, rfl⟩ | ⟨t, gap', ht, hgap', hend⟩
      · exact ⟨_, gap, .one hparam, hgap, .inr ⟨pad, by simp, hpad⟩⟩
      · refine ⟨_, gap', .cons hparam hgap hpad ht, hgap', ?_⟩
        rcases hend with rfl | ⟨pad', rfl, hpad'⟩
        · exact .inl (by simp)
        · exact .inr ⟨pad', by simp, hpad'⟩
    · obtain ⟨rfl, -⟩ := hrest.unique .done
      exact ⟨_, gap, .one hparam, hgap, .inl (by simp)⟩
    · cases (hrest.eq_false_of_space (isSpace_of_isSeparator hb)).symm.trans hok
  | stop => cases hok

/-! ### The call -/

/-- A call with nothing left over is a parenthesised inside. -/
theorem call_nil_iff {s w x : Text} (hx : NotHead isSpace x) (hne : x ≠ []) :
    Call s w x [] ↔ Parenthesised s w x := by
  constructor
  · rintro ⟨y, ⟨b, rfl, hb⟩, pad, trail, rfl, hpad, -, -, htrail, -⟩
    exact ⟨b, pad, trail, by simp, hb, hpad, htrail⟩
  · rintro ⟨b, pad, trail, rfl, hb, hpad, htrail⟩
    exact ⟨_, ⟨b, rfl, hb⟩, pad, trail, by simp, hpad, hne, .inl hx, htrail, by simp, by simp⟩

/-- What the constructor makes of a parenthesised inside that reads to its end. -/
theorem Parenthesised.parse_eq {s w t u : Text} {ps ps' : List Param}
    (h : Parenthesised s w (t ++ u)) (ht : ParamList t ps') (hreads : Reads (t ++ u) ps true) :
    SignatureFields.parse s = SignatureFields.of w ps true := by
  obtain ⟨t', c, rfl, -⟩ := ht.exists_concat
  exact parse_of_call ((call_nil_iff (ht.notHead u) (by simp)).mpr h) hreads

theorem Written.parse_eq {s w : Text} {ps : List Param} (h : Written s w ps) :
    SignatureFields.parse s = SignatureFields.of w ps true := by
  obtain ⟨t, gap, hcall, ht, hgap⟩ := h
  exact hcall.parse_eq ht (ht.reads hgap spaces_nil).1

theorem TrailingComma.parse_eq {s w : Text} {ps : List Param} (h : TrailingComma s w ps) :
    SignatureFields.parse s = SignatureFields.of w ps true := by
  obtain ⟨t, gap, pad, hcall, ht, hgap, hpad⟩ := h
  exact hcall.parse_eq ht (ht.reads hgap hpad).2

/-- **The texts that are accepted.** -/
theorem isValid_iff (s : Text) : (ServiceSignature.ofText s).isValid = true ↔
    ∃ w ps, Written s w ps ∨ TrailingComma s w ps := by
  constructor
  · intro h
    obtain ⟨w, x, ps, hcall, hreads⟩ := isValid_parse_iff.mp h
    have hne := hcall.inside_ne_nil
    rcases hreads.paramList rfl with ⟨rfl, -⟩ | ⟨t, gap, ht, hgap, hx⟩
    · exact absurd rfl hne
    · refine ⟨w, ps, ?_⟩
      rcases hx with rfl | ⟨pad, rfl, hpad⟩
      · exact .inl ⟨t, gap, (call_nil_iff (ht.notHead _) hne).mp hcall, ht, hgap⟩
      · exact .inr ⟨t, gap, pad, (call_nil_iff (ht.notHead _) hne).mp hcall, ht, hgap, hpad⟩
  · rintro ⟨w, ps, h | h⟩
    · exact congrArg SignatureFields.isValid h.parse_eq
    · exact congrArg SignatureFields.isValid h.parse_eq

/-! ### Commas after the last parameter -/

/-- The last character outside a class is determined. -/
theorem last_of_spaces {a b t u : Text} {c d : Byte} (h : a ++ c :: t = b ++ d :: u)
    (ht : Spaces t) (hu : Spaces u) (hc : isSpace c = false) (hd : isSpace d = false) : c = d := by
  have hmem : ∀ {r t u : Text} {c d : Byte}, c :: t = r ++ d :: u → Spaces t →
      isSpace d = false → c = d := by
    rintro (_ | ⟨e, r⟩) t u c d h ht hd
    · exact (List.cons_eq_cons.mp h).1
    · obtain ⟨-, rfl⟩ := List.cons_eq_cons.mp h
      simp [ht d (by simp)] at hd
  rcases List.append_eq_append_iff.mp h with ⟨r, -, hr⟩ | ⟨r, -, hr⟩
  · exact hmem hr ht hd
  · exact (hmem hr hu hc).symm

/-- A text with a comma after the last parameter is not written as the grammar says. -/
theorem TrailingComma.not_written {s w : Text} {ps : List Param} (h : TrailingComma s w ps)
    {w' : Text} {ps' : List Param} : ¬ Written s w' ps' := by
  obtain ⟨t, gap, pad, ⟨b, pad₁, trail, rfl, -, -, htrail⟩, -, -, hpad⟩ := h
  rintro ⟨t', gap', ⟨b', pad₁', trail', heq, -, -, htrail'⟩, ht', hgap'⟩
  obtain ⟨t', c, rfl, hc⟩ := ht'.exists_concat
  -- both end in a closing parenthesis; before it stands a comma in one and a word character in
  -- the other
  have hsplit : (b ++ chr '(' :: (pad₁ ++ (t ++ gap)) ++ chr ',' :: pad) ++ chr ')' :: trail =
      (b' ++ chr '(' :: (pad₁' ++ t') ++ c :: gap') ++ chr ')' :: trail' := by
    simpa using heq
  obtain ⟨hinside, -⟩ := last_unique hsplit (not_mem_of_spaces isSpace_close htrail)
    (not_mem_of_spaces isSpace_close htrail')
  obtain rfl := last_of_spaces hinside hpad hgap' isSpace_comma (not_isSpace_of_isWord hc)
  exact absurd hc (by decide)

/-- The parser agrees with the grammar on a text: it accepts it if it is written as the grammar
says and not otherwise, and then it finds the name and the types in textual order. -/
def AcceptsGrammar (s : Text) : Prop :=
  ((ServiceSignature.ofText s).isValid = true ↔ ∃ w ps, Written s w ps) ∧
  ∀ w ps, Written s w ps → (ServiceSignature.ofText s).name = w ∧
    (ServiceSignature.ofText s).inputParams = inputTypes ps ∧
    (ServiceSignature.ofText s).outputParams = outputTypes ps

/-- **The parser agrees with the grammar** on all texts but those with a comma after the last
parameter. -/
theorem accepts_grammar_iff (s : Text) :
    AcceptsGrammar s ↔ ¬ ∃ w ps, TrailingComma s w ps := by
  constructor
  · rintro ⟨hvalid, -⟩ ⟨w, ps, h⟩
    obtain ⟨w', ps', hwritten⟩ := hvalid.mp ((isValid_iff s).mpr ⟨w, ps, .inr h⟩)
    exact h.not_written hwritten
  · intro hno
    refine ⟨⟨fun hvalid => ?_, fun ⟨w, ps, h⟩ => (isValid_iff s).mpr ⟨w, ps, .inl h⟩⟩, ?_⟩
    · obtain ⟨w, ps, h | h⟩ := (isValid_iff s).mp hvalid
      · exact ⟨w, ps, h⟩
      · exact absurd ⟨w, ps, h⟩ hno
    · intro w ps h
      have hfields : (ServiceSignature.ofText s).toSignatureFields =
          SignatureFields.of w ps true := h.parse_eq
      rw [hfields]
      exact ⟨rfl, rfl, rfl⟩

theorem trailingComma_example : TrailingComma (txt "f(in int,)") (txt "f") [⟨true, txt "int"⟩] := by
  refine ⟨txt "in int", [], [], ⟨txt "f", [], [], by decide, ⟨[], [], by simp, spaces_nil, ?_,
    spaces_nil⟩, spaces_nil, spaces_nil⟩, .one ⟨txt " ", by decide, by decide, spaces_blank, ?_⟩,
    spaces_nil, spaces_nil⟩
  · exact ⟨by decide, by decide +kernel⟩
  · exact ⟨by decide, by decide +kernel⟩

/-- `f(in int,)` is accepted. -/
theorem trailing_comma_accepted : ¬ AcceptsGrammar (txt "f(in int,)") := by
  rintro ⟨hvalid, -⟩
  obtain ⟨w, ps, h⟩ := hvalid.mp (by decide +kernel)
  exact trailingComma_example.not_written h

end Ssoa
