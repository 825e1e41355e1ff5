import Ssoa.Signature.Call

/-!
# What `argPattern` collects from an argument text

One match of `argPattern` is either a parameter, `ParamAt s p rest`, or everything that is left.
`Reads s ps ok` is the loop of the constructor seen from outside: `ps` are the parameters it
collects from `s`, and `ok` says whether it came to the end of the text.

## The end of a parameter

A parameter ends at a comma or at the end of the text. Because `$` also matches before a line
separator, a parameter whose trailing white space contains one is accepted even when neither
follows; the match then stops at the separator, and the next round of the loop fails there. So
the parameter is collected, and the text is malformed all the same. This is the third case of
`Terminated`.

## Main results

* `collectedParams_eq`, `collectArguments_eq` — the loop, through `Reads`
* `Reads.unique`, `exists_reads` — every text reads in exactly one way
-/

namespace Ssoa

open Backtrack Pattern Span

/-- A parameter of a signature. -/
structure Param where
  isInput : Bool
  type : Text
  deriving DecidableEq

/-- The direction, as it is written. -/
def Param.direction (p : Param) : Text := if p.isInput then txt "in" else txt "out"

/-- How white space `gap` and then `tail`, which does not begin with white space, end a parameter,
and the text the next match starts from. -/
def Terminated (gap tail rest : Text) : Prop :=
  (∃ pad, tail = chr ',' :: (pad ++ rest) ∧ Spaces pad ∧ NotHead isSpace rest) ∨
    (tail = [] ∧ rest = []) ∨
    (tail ≠ [] ∧ tail.head? ≠ some (chr ',') ∧
      ∃ g₁ b g₂, gap = g₁ ++ b :: g₂ ∧ isSeparator b ∧ rest = b :: (g₂ ++ tail))

/-- The text begins with the parameter `p`, and the next match starts from `rest`. -/
def ParamAt (s : Text) (p : Param) (rest : Text) : Prop :=
  ∃ sp gap tail, s = p.direction ++ (sp ++ (p.type ++ (gap ++ tail))) ∧ sp ≠ [] ∧ Spaces sp ∧
    IsWord p.type ∧ Spaces gap ∧ NotHead isSpace tail ∧ NotHead isWord (gap ++ tail) ∧
    Terminated gap tail rest

/-- The text begins with a parameter. -/
def StartsParam (s : Text) : Prop := ∃ p rest, ParamAt s p rest

/-- The parameters the loop collects from a text, and whether it reaches the end. -/
inductive Reads : Text → List Param → Bool → Prop
  | done : Reads [] [] true
  | param {s p rest ps ok} : ParamAt s p rest → Reads rest ps ok → Reads s (p :: ps) ok
  | stop {s} : s ≠ [] → ¬ StartsParam s → Reads s [] false

theorem isSpace_of_isSeparator {b : Byte} (h : isSeparator b) : isSpace b := by
  simp only [isSeparator, Bool.or_eq_true, decide_eq_true_eq] at h
  rcases h with (rfl | rfl) | rfl <;> decide

theorem isSpace_comma : isSpace (chr ',') = false := by decide
theorem isWord_comma : isWord (chr ',') = false := by decide

theorem txt_in : txt "in" = [105, 110] := by decide
theorem txt_out : txt "out" = [111, 117, 116] := by decide

theorem Param.direction_cases (p : Param) : p.direction = txt "in" ∨ p.direction = txt "out" := by
  unfold direction
  split
  · exact .inl rfl
  · exact .inr rfl

theorem Param.direction_ne_nil (p : Param) : p.direction ≠ [] := by
  rcases p.direction_cases with h | h <;> rw [h] <;> decide

theorem Param.isWord_direction (p : Param) : ∀ b ∈ p.direction, isWord b := by
  rcases p.direction_cases with h | h <;> rw [h] <;> decide +kernel

theorem Param.notHead_direction (p : Param) (s : Text) : NotHead isSpace (p.direction ++ s) := by
  rcases p.direction_cases with h | h <;> rw [h] <;>
    simp only [txt_in, txt_out, List.cons_append, notHead_cons] <;> decide

/-! ### The engine on a parameter -/

/-- A literal text is matched exactly. -/
theorem run_word {β : Type} {k : Cursor Byte → Option β} {u : Text} :
    ∀ {t : Text} {c : Cursor Byte}, t ≠ [] → c.rest = t ++ u →
      run (word t) k c = k (c.skip t u) := by
  intro t
  induction t with
  | nil => intro c hne; exact absurd rfl hne
  | cons a t ih =>
    intro c _ hrest
    rw [word, run_seq, run_lit hrest]
    by_cases ht : t = []
    · subst ht
      simp [word, run]
    · rw [ih ht rfl]
      simp

theorem run_direction {p : Param} {s : Text} {c : Cursor Byte} (hc : c.rest = p.direction ++ s)
    {β : Type} {k : Cursor Byte → Option β} {b : β}
    (hk : k ((c.skip p.direction s).capture 1 p.direction) = some b) :
    run (group 1 (alt (word (txt "in")) (word (txt "out")))) k c = some b := by
  rw [run_group, run]
  rcases p.direction_cases with hp | hp <;> rw [hp] at hc hk
  · have hin : run (word (txt "in")) (fun c' => k (c'.capture 1 (c'.since c))) c = some b := by
      rw [run_word (by decide) hc, Cursor.since_skip (t := txt "in") hc]
      exact hk
    rw [hin, Option.some_or]
  · have hin : run (word (txt "in")) (fun c' => k (c'.capture 1 (c'.since c))) c = none := by
      simp [txt_in, txt_out, word, lit, run, hc]
    rw [hin, Option.none_or, run_word (by decide) hc, Cursor.since_skip (t := txt "out") hc]
    exact hk

/-- Up to the end of the type the engine has no choice. -/
theorem run_paramHead {p : Param} {sp u : Text} {c : Cursor Byte} (hbase : c.atBase = true)
    (hc : c.rest = p.direction ++ (sp ++ (p.type ++ u))) (hne : sp ≠ []) (hsp : Spaces sp)
    (htype : IsWord p.type) (hu : NotHead isWord u) (r : Pattern Byte) :
    ∃ c', c'.rest = u ∧ c'.caps = (2, p.type) :: (1, p.direction) :: c.caps ∧
      c'.prev = p.type.getLast? ∧
      ∀ {β : Type} {k : Cursor Byte → Option β} {b : β}, run r k c' = some b →
        run (seq restart <| seq (group 1 (alt (word (txt "in")) (word (txt "out")))) <|
          seq (plus isSpace) <| seq (group 2 (plus isWord)) r) k c = some b := by
  have htypeHead : NotHead isSpace (p.type ++ u) := by
    refine NotHead.append ?_ htype.1
    obtain ⟨b, t, ht⟩ := List.exists_cons_of_ne_nil htype.1
    rw [ht]
    simpa using not_isSpace_of_isWord (htype.2 b (by simp [ht]))
  let c₁ := (c.skip p.direction (sp ++ (p.type ++ u))).capture 1 p.direction
  let c₂ := c₁.skip sp (p.type ++ u)
  refine ⟨(c₂.skip p.type u).capture 2 p.type, rfl, rfl, ?_, fun {β k b} hk => ?_⟩
  · have : p.type.getLast? ≠ none := by simpa [List.getLast?_eq_none_iff] using htype.1
    obtain ⟨a, ha⟩ := Option.ne_none_iff_exists'.mp this
    simp [Cursor.capture, Cursor.skip, ha]
  · rw [run_seq, restart, run, if_pos hbase, run_seq]
    refine run_direction hc ?_
    rw [run_seq]
    refine run_plus_of_notHead (t := sp) rfl hne hsp htypeHead ?_
    rw [run_seq, run_group]
    refine run_plus_of_notHead (t := p.type) rfl htype.1 htype.2 hu ?_
    rw [Cursor.since_skip (t := p.type) rfl]
    exact hk

/-- What follows the type in `argPattern`. -/
def paramTail : Pattern Byte :=
  seq (star isSpace) <| group 3 (alt (seq (lit (chr ',')) (star isSpace)) (test endLine))

/-- After the first separator of a run of white space, `$` matches. -/
theorem exists_endLine {gap : Text} {prev : Option Byte} (hprev : prev ≠ some (chr '\r'))
    (h : ∃ b ∈ gap, isSeparator b) : ∃ g₁ b g₂, gap = g₁ ++ b :: g₂ ∧ isSeparator b ∧
      g₁.getLast?.or prev ≠ some (chr '\r') := by
  obtain ⟨g₁, u, rfl, hg₁, hu⟩ := exists_span (fun b => !isSeparator b) gap
  obtain _ | ⟨b, g₂⟩ := u
  · obtain ⟨b, hb, hsep⟩ := h
    rw [List.append_nil] at hb
    simpa [hsep] using hg₁ b hb
  · refine ⟨g₁, b, g₂, rfl, by simpa using hu, ?_⟩
    cases hlast : g₁.getLast? with
    | none => simpa using hprev
    | some a =>
      have : isSeparator a = false := by simpa using hg₁ a (List.mem_of_getLast? hlast)
      rw [Option.some_or]
      rintro h
      obtain rfl : a = chr '\r' := Option.some.inj h
      exact absurd this (by decide)

/-- After a comma the engine takes the white space that follows. -/
theorem run_paramTail_comma {gap pad rest : Text} (hgap : Spaces gap) (hpad : Spaces pad)
    (hrest : NotHead isSpace rest) {c : Cursor Byte}
    (hc : c.rest = gap ++ chr ',' :: (pad ++ rest)) :
    ∃ c', run paramTail some c = some c' ∧ c'.rest = rest ∧
      c'.caps = (3, chr ',' :: pad) :: c.caps := by
  let c₁ := c.skip gap (chr ',' :: (pad ++ rest))
  have hcase : run (group 3 (alt (seq (lit (chr ',')) (star isSpace)) (test endLine))) some c₁ =
      some (((c₁.skip [chr ','] (pad ++ rest)).skip pad rest).capture 3 (chr ',' :: pad)) := by
    have hstar : run (star isSpace) (fun c' => some (c'.capture 3 (c'.since c₁)))
        (c₁.skip [chr ','] (pad ++ rest)) =
        some (((c₁.skip [chr ','] (pad ++ rest)).skip pad rest).capture 3 (chr ',' :: pad)) := by
      refine run_star_of_notHead rfl hpad hrest ?_
      rw [Cursor.since_skip (t := chr ',' :: pad) rfl]
    rw [run_group, run, run_seq, run_lit rfl, hstar, Option.some_or]
  refine ⟨((c₁.skip [chr ','] (pad ++ rest)).skip pad rest).capture 3 (chr ',' :: pad), ?_, rfl,
    rfl⟩
  rw [paramTail, run_seq]
  exact run_star_of_notHead hc hgap (by simp [isSpace_comma]) hcase

/-- At the end of the text the engine has nothing to take. -/
theorem run_paramTail_nil {gap : Text} (hgap : Spaces gap) {c : Cursor Byte} (hc : c.rest = gap) :
    ∃ c', run paramTail some c = some c' ∧ c'.rest = [] ∧ c'.caps = (3, []) :: c.caps := by
  refine ⟨(c.skip gap []).capture 3 [], ?_, rfl, rfl⟩
  have hgapc : c.rest = gap ++ [] := by rw [hc, List.append_nil]
  rw [paramTail, run_seq]
  refine run_star_of_notHead hgapc hgap (by simp) ?_
  have hend : endLine (c.skip gap []) = true := rfl
  rw [run_group, run, run_seq, run_lit_eq_none (by simp), Option.none_or, run, if_pos hend,
    Cursor.since_skip (t := []) rfl]

/-- Otherwise the engine stops before some line separator in the white space. -/
theorem run_paramTail_separator {gap tail : Text} (hne : tail ≠ [])
    (hcomma : tail.head? ≠ some (chr ',')) (hsep : ∃ b ∈ gap, isSeparator b) (hgap : Spaces gap)
    (htail : NotHead isSpace tail) {c : Cursor Byte} (hc : c.rest = gap ++ tail)
    (hprev : c.prev ≠ some (chr '\r')) :
    ∃ c' t, run paramTail some c = some c' ∧
      (∃ g₁ b g₂, gap = g₁ ++ b :: g₂ ∧ isSeparator b ∧ c'.rest = b :: (g₂ ++ tail)) ∧
      c'.caps = (3, t) :: c.caps := by
  obtain ⟨g₁, b, g₂, rfl, hb, hlast⟩ := exists_endLine hprev hsep
  -- the engine answers, because it could stop before the first separator
  have hsome : (run paramTail some c).isSome := by
    have hend : endLine (c.skip g₁ (b :: (g₂ ++ tail))) := by
      simp [endLine, Cursor.skip, hb, hlast]
    have hmatch : Matches paramTail c ((c.skip g₁ (b :: (g₂ ++ tail))).capture 3 []) := by
      refine .seq (.star (by simpa using hc) fun a ha => hgap a (by simp [ha])) ?_
      simpa [Cursor.since] using Matches.group (n := 3) (.altRight (.test hend))
    exact run_isSome_of_matches hmatch rfl
  obtain ⟨c', hrun⟩ := Option.isSome_iff_exists.mp hsome
  -- and wherever it stops, neither a comma nor the end of the text is reached
  obtain ⟨c'', hmatch, hc''⟩ := run_eq_some hrun
  obtain rfl : c'' = c' := by simpa using hc''
  simp only [paramTail, matches_seq_iff, matches_star_iff, matches_group_iff, matches_alt_iff,
    lit, matches_char_iff, matches_test_iff] at hmatch
  obtain ⟨_, ⟨t, u, htu, ht, rfl⟩, c₂, hcase, rfl⟩ := hmatch
  have hstop : ∀ {u}, NotHead isSpace u → t ++ u = (g₁ ++ b :: g₂) ++ tail → u = tail :=
    fun hu h => (span_unique h ht hgap hu htail).2
  have htu : t ++ u = (g₁ ++ b :: g₂) ++ tail := htu.symm.trans hc
  rcases hcase with ⟨_, ⟨a, u', hu, ha, rfl⟩, -⟩ | ⟨hend, rfl⟩
  · obtain rfl : a = chr ',' := by simpa using ha
    obtain rfl : u = chr ',' :: u' := hu
    exact absurd (hstop (by simp [isSpace_comma]) htu ▸ rfl) hcomma
  · obtain _ | ⟨a, u⟩ := u
    · exact absurd (hstop (by simp) htu).symm hne
    have ha : isSeparator a := by simp [endLine, Cursor.skip] at hend; exact hend.1
    refine ⟨_, _, hrun, ?_, rfl⟩
    rcases List.append_eq_append_iff.mp htu with ⟨g, hg, hu⟩ | ⟨g, rfl, hu⟩
    · obtain _ | ⟨a', g⟩ := g
      · rw [List.nil_append] at hu
        simp [← hu, isSpace_of_isSeparator ha] at htail
      · obtain ⟨rfl, rfl⟩ := List.cons_eq_cons.mp hu
        exact ⟨t, a, g, hg, ha, rfl⟩
    · have hnil : g = [] := htail.eq_nil hu fun x hx => ht x (List.mem_append_right _ hx)
      simp [hu, hnil, isSpace_of_isSeparator ha] at htail

/-- The engine prefers a comma or the end of the text over a line end in the white space. -/
theorem run_paramTail {gap tail rest : Text} (h : Terminated gap tail rest) (hgap : Spaces gap)
    (htail : NotHead isSpace tail) {c : Cursor Byte} (hc : c.rest = gap ++ tail)
    (hprev : c.prev ≠ some (chr '\r')) :
    ∃ c' t, run paramTail some c = some c' ∧ Terminated gap tail c'.rest ∧
      c'.caps = (3, t) :: c.caps := by
  rcases h with ⟨pad, rfl, hpad, hrest⟩ | ⟨rfl, rfl⟩ | ⟨hne, hcomma, g₁, b, g₂, rfl, hb, rfl⟩
  · obtain ⟨c', hrun, hc', hcaps⟩ := run_paramTail_comma hgap hpad hrest hc
    exact ⟨c', _, hrun, .inl ⟨pad, by rw [hc'], hpad, hc' ▸ hrest⟩, hcaps⟩
  · obtain ⟨c', hrun, hc', hcaps⟩ := run_paramTail_nil hgap (by simpa using hc)
    exact ⟨c', _, hrun, .inr (.inl ⟨rfl, hc'⟩), hcaps⟩
  · obtain ⟨c', t, hrun, hsplit, hcaps⟩ :=
      run_paramTail_separator hne hcomma ⟨b, by simp, hb⟩ hgap htail hc hprev
    exact ⟨c', t, hrun, .inr (.inr ⟨hne, hcomma, hsplit⟩), hcaps⟩

/-- **The engine on a parameter.** -/
theorem run_argPattern_param {s rest : Text} {p : Param} (h : ParamAt s p rest) {c : Cursor Byte}
    (hbase : c.atBase = true) (hc : c.rest = s) :
    ∃ c' t, run argPattern some c = some c' ∧ ParamAt s p c'.rest ∧
      c'.caps = (3, t) :: (2, p.type) :: (1, p.direction) :: c.caps := by
  obtain ⟨sp, gap, tail, rfl, hne, hsp, htype, hgap, htail, hword, hterm⟩ := h
  obtain ⟨c₁, hrest₁, hcaps₁, hprev₁, hrun₁⟩ :=
    run_paramHead hbase hc hne hsp htype hword paramTail
  have hprev : c₁.prev ≠ some (chr '\r') := by
    rw [hprev₁]
    intro h
    exact absurd (htype.2 _ (List.mem_of_getLast? h)) (by decide)
  obtain ⟨c₂, t, hrun₂, hterm₂, hcaps₂⟩ := run_paramTail hterm hgap htail hrest₁ hprev
  refine ⟨c₂, t, ?_, ⟨sp, gap, tail, rfl, hne, hsp, htype, hgap, htail, hword, hterm₂⟩, ?_⟩
  · rw [argPattern, run, Option.or_eq_some_iff]
    exact .inl (hrun₁ hrun₂)
  · rw [hcaps₂, hcaps₁]

/-! ### Where the pattern finds a parameter, there is one -/

theorem rest_of_matches_word {t : Text} : ∀ {c c' : Cursor Byte}, Matches (word t) c c' →
    c.rest = t ++ c'.rest := by
  induction t with
  | nil =>
    intro c c' h
    obtain ⟨-, rfl⟩ := matches_test_iff.mp h
    rfl
  | cons a t ih =>
    intro c c' h
    obtain ⟨c₁, h₁, h₂⟩ := matches_seq_iff.mp h
    obtain ⟨b, u, hrest, hb, rfl⟩ := matches_char_iff.mp h₁
    obtain rfl : b = a := by simpa using hb
    rw [hrest, List.cons_append, ← ih h₂]
    rfl

/-- White space after a type ends the parameter if a comma, the end of the text or a line
separator is reached in it, however the text goes on. -/
theorem exists_terminated {gap u : Text} (hgap : Spaces gap)
    (h : (∃ u', u = chr ',' :: u') ∨ u = [] ∨ ∃ b u', u = b :: u' ∧ isSeparator b) :
    ∃ gap' tail rest, gap ++ u = gap' ++ tail ∧ Spaces gap' ∧ NotHead isSpace tail ∧
      NotHead isWord (gap' ++ tail) ∧ Terminated gap' tail rest := by
  have hword : ∀ {u}, NotHead isWord u → NotHead isWord (gap ++ u) :=
    notHead_of_all (fun b => not_isWord_of_isSpace) hgap
  rcases h with ⟨u', rfl⟩ | rfl | ⟨b, u', rfl, hb⟩
  · obtain ⟨pad, rest, rfl, hpad, hrest⟩ := exists_span isSpace u'
    exact ⟨gap, _, rest, rfl, hgap, by simp [isSpace_comma], hword (by simp [isWord_comma]),
      .inl ⟨pad, rfl, hpad, hrest⟩⟩
  · exact ⟨gap, [], [], rfl, hgap, by simp, hword (by simp), .inr (.inl ⟨rfl, rfl⟩)⟩
  · have hsp : isSpace b := isSpace_of_isSeparator hb
    obtain ⟨g, tail, rfl, hg, htail⟩ := exists_span isSpace u'
    have hgap' : Spaces (gap ++ b :: g) := by
      simp only [Spaces, List.mem_append, List.mem_cons]
      rintro a (ha | rfl | ha)
      exacts [hgap a ha, hsp, hg a ha]
    have hterm : ∃ rest, Terminated (gap ++ b :: g) tail rest := by
      obtain _ | ⟨a, t⟩ := tail
      · exact ⟨[], .inr (.inl ⟨rfl, rfl⟩)⟩
      by_cases ha : a = chr ','
      · subst ha
        obtain ⟨pad, rest, rfl, hpad, hrest⟩ := exists_span isSpace t
        exact ⟨rest, .inl ⟨pad, rfl, hpad, hrest⟩⟩
      · exact ⟨b :: (g ++ a :: t),
          .inr (.inr ⟨by simp, by simpa using ha, gap, b, g, rfl, hb, rfl⟩)⟩
    obtain ⟨rest, hterm⟩ := hterm
    refine ⟨gap ++ b :: g, tail, rest, by simp, hgap', htail, ?_, hterm⟩
    simpa using hword (u := b :: (g ++ tail)) (by simpa using not_isWord_of_isSpace hsp)

/-- A parameter is found only where the text begins with one. -/
theorem startsParam_of_matches {c c' : Cursor Byte}
    (h : Matches (seq restart <| seq (group 1 (alt (word (txt "in")) (word (txt "out")))) <|
      seq (plus isSpace) <| seq (group 2 (plus isWord)) paramTail) c c') : StartsParam c.rest := by
  simp only [paramTail, restart, matches_seq_iff, matches_test_iff, matches_group_iff,
    matches_alt_iff, matches_plus_iff, matches_star_iff, lit, matches_char_iff] at h
  obtain ⟨c₀, ⟨-, rfl⟩, _, ⟨c₁, hdir, rfl⟩, _, ⟨sp, u₁, hsp, hspne, hspaces, rfl⟩,
    _, ⟨_, ⟨type, u₂, htype, htypene, hword, rfl⟩, rfl⟩, _, ⟨gap, u, hgap, hgaps, rfl⟩, c₂, hend,
    -⟩ := h
  simp only [Cursor.skip_rest, Cursor.capture_rest] at hsp htype hgap
  -- the direction
  obtain ⟨p, hp, htype'⟩ : ∃ p : Param, c₀.rest = p.direction ++ c₁.rest ∧ p.type = type := by
    rcases hdir with hdir | hdir
    · exact ⟨⟨true, type⟩, rest_of_matches_word hdir, rfl⟩
    · exact ⟨⟨false, type⟩, rest_of_matches_word hdir, rfl⟩
  subst htype'
  -- the end
  have hstop : (∃ u', u = chr ',' :: u') ∨ u = [] ∨ ∃ b u', u = b :: u' ∧ isSeparator b := by
    rcases hend with ⟨_, ⟨b, u', hu, hb, rfl⟩, -⟩ | ⟨hend, -⟩
    · obtain rfl : b = chr ',' := by simpa using hb
      exact .inl ⟨u', hu⟩
    · obtain _ | ⟨b, u'⟩ := u
      · exact .inr (.inl rfl)
      · have hb : isSeparator b := by simp [endLine, Cursor.skip] at hend; exact hend.1
        exact .inr (.inr ⟨b, u', rfl, hb⟩)
  obtain ⟨gap', tail, rest, heq, hgap', htail, hnw, hterm⟩ := exists_terminated hgaps hstop
  refine ⟨p, rest, sp, gap', tail, ?_, hspne, hspaces, ⟨htypene, hword⟩, hgap', htail, hnw, hterm⟩
  rw [hp, hsp, htype, hgap, heq]

/-- Where there is no parameter, the second alternative takes everything. -/
theorem run_argPattern_rest {c : Cursor Byte} (hbase : c.atBase = true) (hne : c.rest ≠ [])
    (h : ¬ StartsParam c.rest) :
    run argPattern some c = some ((c.skip c.rest []).capture 4 c.rest) := by
  have hnone : run (seq restart <| seq (group 1 (alt (word (txt "in")) (word (txt "out")))) <|
      seq (plus isSpace) <| seq (group 2 (plus isWord)) paramTail) some c = none := by
    by_contra hsome
    obtain ⟨b, hb⟩ := Option.ne_none_iff_exists'.mp hsome
    obtain ⟨c', hc', -⟩ := run_eq_some hb
    exact h (startsParam_of_matches hc')
  have hall : run (group 4 (plus fun _ => true)) some c =
      some ((c.skip c.rest []).capture 4 c.rest) := by
    rw [run_group]
    refine run_plus_of_notHead (t := c.rest) (u := []) (by simp) hne (by simp) (by simp) ?_
    rw [Cursor.since_skip (t := c.rest) (by simp)]
  rw [argPattern, run, Option.or_eq_some_iff]
  exact .inr ⟨hnone, by rw [run_seq, restart, run, if_pos hbase, hall]⟩

/-! ### The loop -/

theorem ParamAt.length_lt {s rest : Text} {p : Param} (h : ParamAt s p rest) :
    rest.length < s.length := by
  obtain ⟨sp, gap, tail, rfl, -, -, -, -, -, -, hterm⟩ := h
  have hdir : 0 < p.direction.length := List.length_pos_iff.mpr p.direction_ne_nil
  have hrest : rest.length ≤ (gap ++ tail).length := by
    rcases hterm with ⟨pad, rfl, -, -⟩ | ⟨rfl, rfl⟩ | ⟨-, -, g₁, b, g₂, rfl, -, rfl⟩ <;>
      simp only [List.length_append, List.length_cons, List.length_nil] <;> omega
  simp only [List.length_append] at hrest ⊢
  omega

/-- A parameter does not begin with white space. -/
theorem StartsParam.notHead {s : Text} (h : StartsParam s) : NotHead isSpace s := by
  obtain ⟨p, rest, sp, gap, tail, rfl, -⟩ := h
  exact p.notHead_direction _

theorem not_startsParam_nil : ¬ StartsParam [] := by
  rintro ⟨p, rest, h⟩
  exact absurd h.length_lt (by simp)

/-- A text begins with at most one parameter; only where the next match starts can differ, and
then it starts at white space. -/
theorem ParamAt.unique {s rest rest' : Text} {p p' : Param} (h : ParamAt s p rest)
    (h' : ParamAt s p' rest') :
    p = p' ∧ (rest = rest' ∨
      (∃ b u, rest = b :: u ∧ isSpace b) ∧ ∃ b u, rest' = b :: u ∧ isSpace b) := by
  obtain ⟨sp, gap, tail, rfl, hne, hsp, htype, hgap, htail, hword, hterm⟩ := h
  obtain ⟨sp', gap', tail', heq, hne', hsp', htype', hgap', htail', hword', hterm'⟩ := h'
  have hspHead : ∀ {sp u : Text}, sp ≠ [] → Spaces sp → NotHead isWord (sp ++ u) := by
    intro sp u hne hsp
    obtain ⟨b, t, rfl⟩ := List.exists_cons_of_ne_nil hne
    simpa using not_isWord_of_isSpace (hsp b (by simp))
  have hwordHead : ∀ {w u : Text}, IsWord w → NotHead isSpace (w ++ u) := by
    intro w u hw
    obtain ⟨b, t, rfl⟩ := List.exists_cons_of_ne_nil hw.1
    simpa using not_isSpace_of_isWord (hw.2 b (by simp))
  obtain ⟨hdir, heq⟩ := span_unique heq p.isWord_direction p'.isWord_direction
    (hspHead hne hsp) (hspHead hne' hsp')
  obtain ⟨-, heq⟩ := span_unique heq hsp hsp' (hwordHead htype) (hwordHead htype')
  obtain ⟨htypes, heq⟩ := span_unique heq htype.2 htype'.2 hword hword'
  obtain ⟨rfl, rfl⟩ := span_unique heq hgap hgap' htail htail'
  have hp : p = p' := by
    obtain ⟨_ | _, t⟩ := p <;> obtain ⟨_ | _, t'⟩ := p' <;>
      simp_all [Param.direction, txt_in, txt_out]
  refine ⟨hp, ?_⟩
  rcases hterm with
      ⟨pad, rfl, hpad, hrest⟩ | ⟨rfl, rfl⟩ | ⟨hne, hcomma, g₁, b, g₂, rfl, hb, rfl⟩ <;>
    rcases hterm' with
      ⟨pad', htl, hpad', hrest'⟩ | ⟨htl, rfl⟩ | ⟨hne', hcomma', g₁', b', g₂', -, hb', rfl⟩
  · obtain ⟨-, h⟩ := List.cons_eq_cons.mp htl
    exact .inl (span_unique h hpad hpad' hrest hrest').2
  · cases htl
  · simp at hcomma'
  · cases htl
  · exact .inl rfl
  · exact absurd rfl hne'
  · simp [htl] at hcomma
  · exact absurd htl hne
  · exact .inr ⟨⟨b, _, rfl, isSpace_of_isSeparator hb⟩, b', _, rfl, isSpace_of_isSeparator hb'⟩

/-- Nothing is collected from a text that begins with white space. -/
theorem reads_of_space {b : Byte} {u : Text} (hb : isSpace b) : Reads (b :: u) [] false :=
  .stop (by simp) fun h => by simpa [hb] using h.notHead

/-- **A text reads in one way only.** -/
theorem Reads.unique {s : Text} {ps ps' : List Param} {ok ok' : Bool} (h : Reads s ps ok)
    (h' : Reads s ps' ok') : ps = ps' ∧ ok = ok' := by
  induction h generalizing ps' ok' with
  | done =>
    cases h' with
    | done => exact ⟨rfl, rfl⟩
    | param hp => exact absurd ⟨_, _, hp⟩ not_startsParam_nil
    | stop hne => exact absurd rfl hne
  | param hp hrest ih =>
    cases h' with
    | done => exact absurd ⟨_, _, hp⟩ not_startsParam_nil
    | param hp' hrest' =>
      obtain ⟨rfl, rfl | ⟨⟨b, u, rfl, hb⟩, b', u', rfl, hb'⟩⟩ := hp.unique hp'
      · obtain ⟨rfl, rfl⟩ := ih hrest'
        exact ⟨rfl, rfl⟩
      · -- both go on from white space, where nothing more is read
        obtain ⟨rfl, rfl⟩ := ih (reads_of_space hb)
        cases hrest' with
        | param h _ => exact absurd (StartsParam.notHead ⟨_, _, h⟩) (by simp [hb'])
        | stop => exact ⟨rfl, rfl⟩
    | stop _ hno => exact absurd ⟨_, _, hp⟩ hno
  | stop hne hno =>
    cases h' with
    | done => exact absurd rfl hne
    | param hp => exact absurd ⟨_, _, hp⟩ hno
    | stop => exact ⟨rfl, rfl⟩

/-- From white space nothing reads to the end. -/
theorem Reads.eq_false_of_space {b : Byte} {u : Text} {ps : List Param} {ok : Bool}
    (h : Reads (b :: u) ps ok) (hb : isSpace b) : ok = false :=
  (h.unique (reads_of_space hb)).2

/-- Every text reads somehow. -/
theorem exists_reads (s : Text) : ∃ ps ok, Reads s ps ok := by
  induction hn : s.length using Nat.strong_induction_on generalizing s with
  | _ n ih =>
    by_cases hs : s = []
    · exact ⟨[], true, hs ▸ .done⟩
    by_cases hp : StartsParam s
    · obtain ⟨p, rest, h⟩ := hp
      obtain ⟨ps, ok, hrest⟩ := ih rest.length (hn ▸ h.length_lt) rest rfl
      exact ⟨p :: ps, ok, .param h hrest⟩
    · exact ⟨[], false, .stop hs hp⟩

/-- The parameters of a list, collected. -/
def Collected.pushAll (acc : Collected) (ps : List Param) : Collected :=
  ps.foldl (fun acc p => acc.push p.direction p.type) acc

/-- Past the position it starts from, `\G` lets nothing match. -/
theorem run_argPattern_eq_none {c : Cursor Byte} (h : c.atBase = false ∨ c.rest = []) :
    run argPattern some c = none := by
  by_contra hsome
  obtain ⟨b, hb⟩ := Option.ne_none_iff_exists'.mp hsome
  obtain ⟨c', hc', -⟩ := run_eq_some hb
  rcases h with h | h
  · simp [argPattern, restart, matches_alt_iff, matches_seq_iff, matches_test_iff, h] at hc'
  · rw [argPattern, matches_alt_iff] at hc'
    rcases hc' with hc' | hc'
    · exact not_startsParam_nil (h ▸ startsParam_of_matches hc')
    · simp only [restart, matches_seq_iff, matches_test_iff, matches_group_iff,
        matches_plus_iff] at hc'
      obtain ⟨_, ⟨-, rfl⟩, _, ⟨t, u, hrest, hne, -⟩, -⟩ := hc'
      rw [h] at hrest
      exact hne (List.append_eq_nil_iff.mp hrest.symm).1

/-- A search of `argPattern` succeeds where it starts or not at all. -/
theorem search_argPattern {s : Text} {prev : Option Byte} {c : Cursor Byte}
    (h : run argPattern some (startAt prev s) = some c) :
    search argPattern prev s = some ⟨[], c⟩ := by
  refine search_eq_some (t := []) rfl (by simpa [startAt, Cursor.skip] using h)
    fun t' u' _ hlt => ?_
  simp at hlt

theorem search_argPattern_nil (prev : Option Byte) : search argPattern prev [] = none :=
  search_eq_none fun t u hs => run_argPattern_eq_none <| by
    obtain ⟨rfl, rfl⟩ := List.append_eq_nil_iff.mp hs.symm
    exact .inr rfl

/-- The parameters of the matches, each with its direction, up to the first non-empty group 4. -/
def collectedParams (is : List (Occurrence Byte)) : List (Text × Text) :=
  (is.takeWhile fun i => i.group 4 = []).map fun i => (i.group 1, i.group 2)

/-- The loop pushes the collected parameters one after the other, and leaves the text marked
malformed when it stops early. -/
theorem collectArguments_eq_foldl (is : List (Occurrence Byte)) (acc : Collected) :
    collectArguments is acc =
      { (collectedParams is).foldl (fun acc p => acc.push p.1 p.2) acc with
        isValid := acc.isValid && is.all fun i => i.group 4 = [] } := by
  induction is generalizing acc with
  | nil => simp [collectArguments, collectedParams]
  | cons i is ih =>
    by_cases h : i.group 4 = []
    · have hstep : collectArguments (i :: is) acc =
          collectArguments is (acc.push (i.group 1) (i.group 2)) := by
        rw [collectArguments, if_neg (by simpa using h)]
      rw [hstep, ih]
      simp [collectedParams, h, Collected.push]
    · simp [collectArguments, collectedParams, h]

/-- **What the loop collects** is what `Reads` says, and it stops early unless `Reads` comes to the
end of the text. -/
theorem collectedParams_eq {ps : List Param} {ok : Bool} : ∀ {fuel : ℕ} {s : Text}, Reads s ps ok →
    s.length < fuel → ∀ prev : Option Byte,
      collectedParams (occurrencesFrom argPattern fuel prev s) =
        ps.map (fun p => (p.direction, p.type)) ∧
      ((occurrencesFrom argPattern fuel prev s).all fun i => i.group 4 = []) = ok := by
  induction ps generalizing ok with
  | nil =>
    intro fuel s h hfuel prev
    obtain ⟨fuel, rfl⟩ : ∃ n, fuel = n + 1 := ⟨fuel - 1, by omega⟩
    cases h with
    | done => simp [occurrencesFrom, search_argPattern_nil, collectedParams]
    | stop hne hno =>
      have hrun := run_argPattern_rest (c := startAt prev s) rfl hne hno
      simp [occurrencesFrom, search_argPattern hrun, collectedParams, Occurrence.group,
        Cursor.group, startAt, hne]
  | cons p ps ih =>
    intro fuel s h hfuel prev
    obtain ⟨fuel, rfl⟩ : ∃ n, fuel = n + 1 := ⟨fuel - 1, by omega⟩
    have hp : ∃ rest, ParamAt s p rest := by
      cases h with
      | param hp _ => exact ⟨_, hp⟩
    obtain ⟨rest, hp⟩ := hp
    obtain ⟨c, t, hrun, hpc, hcaps⟩ := run_argPattern_param hp (c := startAt prev s) rfl rfl
    -- what the loop goes on with reads like the rest of `s`
    obtain ⟨ps', ok', hread⟩ := exists_reads c.rest
    obtain ⟨hps, rfl⟩ := (Reads.param hpc hread).unique h
    obtain ⟨-, rfl⟩ := List.cons_eq_cons.mp hps
    have hlt : c.rest.length < fuel := by have := hpc.length_lt; omega
    obtain ⟨hparams, hall⟩ := ih hread hlt c.prev
    have hgroups : c.group 4 = [] ∧ c.group 1 = p.direction ∧ c.group 2 = p.type := by
      simp [Cursor.group, hcaps, startAt, List.lookup_cons]
    have hoccurrences : occurrencesFrom argPattern (fuel + 1) prev s =
        ⟨[], c⟩ :: occurrencesFrom argPattern fuel c.prev c.rest := by
      simp only [occurrencesFrom, search_argPattern hrun, Occurrence.after]
    rw [hoccurrences]
    constructor
    · rw [List.map_cons, ← hparams]
      simp [collectedParams, Occurrence.group, hgroups]
    · rw [List.all_cons, hall]
      simp [Occurrence.group, hgroups]

/-- **The loop of the constructor.** It collects what `Reads` says, and leaves the text marked
malformed unless it came to the end of it. -/
theorem collectArguments_eq {ps : List Param} {ok : Bool} {fuel : ℕ} {s : Text} (h : Reads s ps ok)
    (hfuel : s.length < fuel) (prev : Option Byte) (acc : Collected) :
    collectArguments (occurrencesFrom argPattern fuel prev s) acc =
      { acc.pushAll ps with isValid := acc.isValid && ok } := by
  obtain ⟨hparams, hall⟩ := collectedParams_eq h hfuel prev
  rw [collectArguments_eq_foldl, hparams, hall, List.foldl_map]
  rfl

/-! ### What the loop fills in -/

/-- A parameter, as it is written. -/
def Param.text (p : Param) : Text := p.direction ++ txt " " ++ p.type

/-- A parameter list, as it is written. -/
def argumentText : List Param → Text
  | [] => []
  | [p] => p.text
  | p :: q :: ps => p.text ++ txt ", " ++ argumentText (q :: ps)

theorem Param.text_ne_nil (p : Param) : p.text ≠ [] := by simp [Param.text, p.direction_ne_nil]

theorem argumentText_concat (ps : List Param) (p : Param) :
    argumentText (ps ++ [p]) =
      (if argumentText ps ≠ [] then argumentText ps ++ txt ", " else argumentText ps) ++
        p.text := by
  induction ps with
  | nil => simp [argumentText]
  | cons q ps ih =>
    cases ps with
    | nil => simp [argumentText, q.text_ne_nil]
    | cons r ps =>
      have hne : argumentText (r :: ps) ≠ [] := by
        cases ps <;> simp [argumentText, r.text_ne_nil]
      rw [if_pos hne] at ih
      have hne' : argumentText (q :: r :: ps) ≠ [] := by simp [argumentText, q.text_ne_nil]
      rw [if_pos hne', List.cons_append, List.cons_append, argumentText, ← List.cons_append, ih]
      simp [argumentText]

theorem pushAll_concat (acc : Collected) (ps : List Param) (p : Param) :
    acc.pushAll (ps ++ [p]) = (acc.pushAll ps).push p.direction p.type := by
  simp [Collected.pushAll]

/-- The loop's accumulator after the parameters `ps`. -/
theorem pushAll_eq (ps : List Param) (valid : Bool) :
    ({ isValid := valid } : Collected).pushAll ps =
      { arguments := argumentText ps
        inputParams := (ps.filter Param.isInput).map Param.type
        outputParams := (ps.filter fun p => !p.isInput).map Param.type
        isValid := valid } := by
  induction ps using List.reverseRecOn with
  | nil => rfl
  | append_singleton ps p ih =>
    rw [pushAll_concat, ih, argumentText_concat]
    obtain ⟨_ | _, type⟩ := p <;>
      simp [Collected.push, Param.direction, Param.text, List.filter_append, txt_in, txt_out]

end Ssoa
