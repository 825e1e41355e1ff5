import Ssoa.Lib.Span
import Ssoa.Signature.Constructor

/-!
# What `sigPattern` finds in a text

`sigPattern` looks for a *call*: a name, a parenthesis, anything, and the last parenthesis of the
text. `Call s w x v` says that the text `s` begins with a call of name `w` and inside `x`, and
that `v` is left over; `FirstCall s u w x v` says that the leftmost call of `s` comes after `u`.

The dot of `(.+)` is greedy and matches everything, so a call always extends to the last closing
parenthesis. A text therefore has at most one call, and the two replacements in the constructor
replace it once or not at all.

## Main results

* `matchesWhole_sigPattern_iff` — the whole text matches when it is a call with nothing left over
* `replaceAll_sigPattern` — the name text and the argument text of the constructor
-/

namespace Ssoa

open Backtrack Pattern Span

/-- A text of white space. -/
abbrev Spaces (t : Text) : Prop := ∀ b ∈ t, isSpace b

/-- A non-empty text of word characters. -/
def IsWord (t : Text) : Prop := t ≠ [] ∧ ∀ b ∈ t, isWord b

/-- The word `w` with white space around it. -/
def Bare (s w : Text) : Prop :=
  ∃ lead gap, s = lead ++ (w ++ gap) ∧ Spaces lead ∧ IsWord w ∧ Spaces gap

/-- The text begins with the name `w` and an opening parenthesis, and `y` follows. -/
def Opens (s w y : Text) : Prop := ∃ a, s = a ++ chr '(' :: y ∧ Bare a w

/-- What follows the opening parenthesis, cut at the last closing one: the inside is `x`, without
the white space before it, and `v` is what remains after the white space behind. If there is only
white space between the parentheses, the inside is the last character of it. -/
def Inside (y x v : Text) : Prop :=
  ∃ pad trail, y = pad ++ (x ++ chr ')' :: (trail ++ v)) ∧ Spaces pad ∧ x ≠ [] ∧
    (NotHead isSpace x ∨ ∃ b, x = [b]) ∧ Spaces trail ∧ NotHead isSpace v ∧ chr ')' ∉ v

/-- The text begins with a call of name `w` and inside `x`, and `v` is left over. -/
def Call (s w x v : Text) : Prop := ∃ y, Opens s w y ∧ Inside y x v

/-- The text begins with a call. -/
def HasCall (s : Text) : Prop := ∃ w x v, Call s w x v

/-- There is no call anywhere in the text. -/
def NoCall (s : Text) : Prop := ∀ u t, s = u ++ t → ¬ HasCall t

/-- The leftmost call of the text stands between `u` and `v`. -/
def FirstCall (s u w x v : Text) : Prop :=
  ∃ t, s = u ++ t ∧ Call t w x v ∧ ∀ u' t', s = u' ++ t' → u'.length < u.length → ¬ HasCall t'

theorem isSpace_open : isSpace (chr '(') = false := by decide
theorem isWord_open : isWord (chr '(') = false := by decide
theorem isSpace_close : isSpace (chr ')') = false := by decide
theorem isWord_close : isWord (chr ')') = false := by decide

theorem spaces_nil : Spaces [] := fun _ h => absurd h List.not_mem_nil

theorem not_mem_of_spaces {t : Text} {b : Byte} (hb : isSpace b = false) (ht : Spaces t) : b ∉ t :=
  fun h => by simp [ht b h] at hb

theorem not_mem_of_word {t : Text} {b : Byte} (hb : isWord b = false) (ht : ∀ b ∈ t, isWord b) :
    b ∉ t :=
  fun h => by simp [ht b h] at hb

theorem not_isWord_of_isSpace {b : Byte} (h : isSpace b) : isWord b = false := by
  by_contra hw
  simp [not_isSpace_of_isWord (b := b) (by simpa using hw)] at h

/-! ### Names before the parenthesis -/

theorem Bare.word {s w : Text} (h : Bare s w) : IsWord w := by
  obtain ⟨-, -, -, -, hw, -⟩ := h
  exact hw

/-- Only white space and word characters stand before the parenthesis. -/
theorem Bare.not_mem {s w : Text} (h : Bare s w) {b : Byte} (hs : isSpace b = false)
    (hw : isWord b = false) : b ∉ s := by
  obtain ⟨lead, gap, rfl, hlead, hword, hgap⟩ := h
  simp only [List.mem_append, not_or]
  exact ⟨not_mem_of_spaces hs hlead, not_mem_of_word hw hword.2, not_mem_of_spaces hs hgap⟩

/-! ### The inside -/

theorem Inside.close_mem {y x v : Text} (h : Inside y x v) : chr ')' ∈ y := by
  obtain ⟨pad, trail, rfl, -⟩ := h
  simp

/-- Text before a closing parenthesis has an inside. -/
theorem exists_inside {y t z : Text} (hy : y = t ++ chr ')' :: z) (ht : t ≠ []) :
    ∃ x v, Inside y x v := by
  obtain ⟨y₁, y₂, rfl, hy₂⟩ := exists_last (a := chr ')') (s := y) (by simp [hy])
  have hy₁ : y₁ ≠ [] := by
    rintro rfl
    rw [List.nil_append] at hy
    rcases List.cons_eq_append_iff.mp hy with ⟨rfl, -⟩ | ⟨t', rfl, rfl⟩
    · exact ht rfl
    · simp at hy₂
  obtain ⟨trail, v, rfl, htrail, hv⟩ := exists_span isSpace y₂
  have hvno : chr ')' ∉ v := fun h => hy₂ (by simp [h])
  obtain ⟨pad, x, rfl, hpad, hx⟩ := exists_span isSpace y₁
  by_cases hxne : x = []
  · -- only white space: the last character of it is the inside
    subst hxne
    rw [List.append_nil] at hy₁
    refine ⟨[pad.getLast hy₁], v, pad.dropLast, trail, ?_, fun b hb =>
      hpad b (List.dropLast_subset _ hb), by simp, .inr ⟨_, rfl⟩, htrail, hv, hvno⟩
    rw [← List.append_assoc, List.dropLast_append_getLast, List.append_nil]
  · exact ⟨x, v, pad, trail, by simp, hpad, hxne, .inl hx, htrail, hv, hvno⟩

/-- When only white space follows a closing parenthesis, nothing is left over. -/
theorem Inside.eq_nil {y x v t z : Text} (h : Inside y x v) (hy : y = t ++ chr ')' :: z)
    (hz : Spaces z) : v = [] := by
  obtain ⟨pad, trail, hy', -, -, -, htrail, hv, hvno⟩ := h
  have hsplit : t ++ chr ')' :: z = (pad ++ x) ++ chr ')' :: (trail ++ v) := by
    rw [← hy, hy', List.append_assoc]
  obtain ⟨-, rfl⟩ := last_unique hsplit (not_mem_of_spaces isSpace_close hz) (by
    simp only [List.mem_append, not_or]
    exact ⟨not_mem_of_spaces isSpace_close htrail, hvno⟩)
  exact hv.eq_nil (List.append_nil v).symm fun b hb => hz b (by simp [hb])

/-! ### The engine on a call -/

/-- Sequencing in continuation-passing style. -/
theorem run_seq {r s : Pattern Byte} {β : Type*} (k : Cursor Byte → Option β) (c : Cursor Byte) :
    run (seq r s) k c = run r (run s k) c := rfl

theorem run_group {n : ℕ} {r : Pattern Byte} {β : Type*} (k : Cursor Byte → Option β)
    (c : Cursor Byte) :
    run (group n r) k c = run r (fun c' => k (c'.capture n (c'.since c))) c := rfl

theorem run_lit {a : Byte} {β : Type*} {k : Cursor Byte → Option β} {c : Cursor Byte} {u : Text}
    (h : c.rest = a :: u) : run (lit a) k c = k (c.skip [a] u) := by
  simp [lit, run, h]

theorem run_lit_eq_none {a : Byte} {β : Type*} {k : Cursor Byte → Option β} {c : Cursor Byte}
    (h : a ∉ c.rest) : run (lit a) k c = none := by
  by_contra hne
  obtain ⟨b, hb⟩ := Option.ne_none_iff_exists'.mp hne
  obtain ⟨c', hc', -⟩ := run_eq_some hb
  obtain ⟨a', u, hrest, ha, -⟩ := matches_char_iff.mp hc'
  have : a' = a := by simpa using ha
  exact h (by simp [hrest, this])

/-- Up to the opening parenthesis the engine has no choice. -/
theorem run_opens {s w y : Text} (h : Opens s w y) {c : Cursor Byte} (hc : c.rest = s)
    (r : Pattern Byte) :
    ∃ c', c'.rest = y ∧ c'.caps = (1, w) :: c.caps ∧
      ∀ {β : Type} {k : Cursor Byte → Option β} {b : β}, run r k c' = some b →
        run (seq (star isSpace) <| seq (group 1 (plus isWord)) <| seq (star isSpace) <|
          seq (lit (chr '(')) r) k c = some b := by
  obtain ⟨_, rfl, lead, gap, rfl, hlead, hw, hgap⟩ := h
  have hgapHead : NotHead isWord (gap ++ chr '(' :: y) :=
    notHead_of_all (fun b => not_isWord_of_isSpace) hgap (by simp [isWord_open])
  have hwordHead : NotHead isSpace (w ++ (gap ++ chr '(' :: y)) :=
    NotHead.append (by
      obtain ⟨hne, hword⟩ := hw
      obtain _ | ⟨b, w⟩ := w
      · exact absurd rfl hne
      · simpa using not_isSpace_of_isWord (hword b (List.mem_cons_self ..))) hw.1
  let c₁ := c.skip lead (w ++ (gap ++ chr '(' :: y))
  let c₂ := (c₁.skip w (gap ++ chr '(' :: y)).capture 1 w
  refine ⟨(c₂.skip gap (chr '(' :: y)).skip [chr '('] y, rfl, rfl, fun {β k b} hk => ?_⟩
  rw [run_seq]
  refine run_star_of_notHead (t := lead) (by simp [hc]) hlead hwordHead ?_
  rw [run_seq, run_group]
  refine run_plus_of_notHead (t := w) rfl hw.1 hw.2 hgapHead ?_
  rw [Cursor.since_skip (t := w) rfl, run_seq]
  refine run_star_of_notHead (t := gap) rfl hgap (by simp [isSpace_open]) ?_
  rw [run_seq, run_lit rfl]
  exact hk

/-- Past the opening parenthesis, the greedy dot runs to the last closing one. -/
theorem run_inside {y x v : Text} (h : Inside y x v) {c : Cursor Byte} (hc : c.rest = y) :
    ∃ c', c'.rest = v ∧ c'.caps = (2, x) :: c.caps ∧
      run (seq (star isSpace) <| seq (group 2 (plus fun _ => true)) <|
        seq (lit (chr ')')) (star isSpace)) some c = some c' := by
  obtain ⟨pad, trail, rfl, hpad, hx, hxhead, htrail, hv, hvno⟩ := h
  have hno : chr ')' ∉ trail ++ v := by
    simp only [List.mem_append, not_or]
    exact ⟨not_mem_of_spaces isSpace_close htrail, hvno⟩
  let c₁ := c.skip pad (x ++ chr ')' :: (trail ++ v))
  let c₂ := (c₁.skip x (chr ')' :: (trail ++ v))).capture 2 x
  -- the inside, once the white space before it is skipped
  have hdot :
      run (group 2 (plus fun _ => true)) (run (seq (lit (chr ')')) (star isSpace)) some) c₁ =
      some ((c₂.skip [chr ')'] (trail ++ v)).skip trail v) := by
    rw [run_group]
    refine run_plus_eq (t := x) rfl hx (by simp) ?_ ?_
    · rw [Cursor.since_skip (t := x) rfl, run_seq, run_lit rfl]
      exact run_star_of_notHead rfl htrail hv rfl
    · -- a longer inside would have to end at a later parenthesis
      rintro (_ | ⟨b, t'⟩) u' hu hne -
      · exact absurd rfl hne
      · obtain ⟨-, htail⟩ := List.cons_eq_cons.mp hu
        rw [run_seq, run_lit_eq_none]
        exact fun hmem => hno (htail ▸ List.mem_append_right t' hmem)
  refine ⟨(c₂.skip [chr ')'] (trail ++ v)).skip trail v, rfl, rfl, ?_⟩
  rw [run_seq]
  refine run_star_eq (t := pad) hc hpad hdot ?_
  intro t' u' hu hne ht'
  rcases hxhead with hxhead | ⟨b, rfl⟩
  · exact absurd ((hxhead.append hx).eq_nil hu ht') hne
  · -- one white space character inside: skipping it too leaves nothing for the dot
    obtain _ | ⟨b', t'⟩ := t'
    · exact absurd rfl hne
    obtain ⟨-, hu⟩ := List.cons_eq_cons.mp hu
    obtain rfl : t' = [] :=
      NotHead.eq_nil (by simp [isSpace_close]) hu fun a ha => ht' a (by simp [ha])
    obtain rfl : chr ')' :: (trail ++ v) = u' := hu
    by_contra hsome
    obtain ⟨b, hb⟩ := Option.ne_none_iff_exists'.mp hsome
    rw [run_seq, run_group] at hb
    obtain ⟨c', hc', hb⟩ := run_eq_some hb
    obtain ⟨t, u, hrest, htne, -, rfl⟩ := matches_plus_iff.mp hc'
    rw [run_seq, run_lit_eq_none] at hb
    · cases hb
    · obtain _ | ⟨a, t⟩ := t
      · exact absurd rfl htne
      obtain ⟨-, hrest⟩ := List.cons_eq_cons.mp hrest
      exact fun hmem => hno (hrest ▸ List.mem_append_right t hmem)

/-- **The engine on a call.** It captures the name and the inside and stops after the white space
behind the last closing parenthesis. -/
theorem run_sigPattern {s w x v : Text} (h : Call s w x v) {c : Cursor Byte} (hc : c.rest = s) :
    ∃ c', run sigPattern some c = some c' ∧ c'.rest = v ∧ c'.caps = (2, x) :: (1, w) :: c.caps := by
  obtain ⟨y, hopens, hinside⟩ := h
  obtain ⟨c₁, hrest₁, hcaps₁, hrun⟩ := run_opens hopens hc (seq (star isSpace) <|
    seq (group 2 (plus fun _ => true)) <| seq (lit (chr ')')) (star isSpace))
  obtain ⟨c₂, hrest₂, hcaps₂, hrun₂⟩ := run_inside hinside hrest₁
  exact ⟨c₂, hrun hrun₂, hrest₂, by rw [hcaps₂, hcaps₁]⟩

/-- A text begins with at most one call. -/
theorem Call.unique {s w x v w' x' v' : Text} (h : Call s w x v) (h' : Call s w' x' v') :
    w = w' ∧ x = x' ∧ v = v' := by
  obtain ⟨c, hc, hrest, hcaps⟩ := run_sigPattern h (c := startAt none s) rfl
  obtain ⟨c', hc', hrest', hcaps'⟩ := run_sigPattern h' (c := startAt none s) rfl
  obtain rfl : c = c' := Option.some.inj (hc.symm.trans hc')
  rw [hcaps] at hcaps'
  rw [hrest] at hrest'
  simp_all

/-- Wherever the pattern can match, there is a call; where it can match up to the end of the
text, nothing is left over. -/
theorem call_of_matches {c c' : Cursor Byte} (h : Matches sigPattern c c') :
    ∃ w x v, Call c.rest w x v ∧ (c'.rest = [] → v = []) := by
  simp only [sigPattern, matches_seq_iff, matches_star_iff, matches_group_iff, matches_plus_iff,
    lit, matches_char_iff] at h
  obtain ⟨_, ⟨lead, u₁, hlead, hspLead, rfl⟩, _, ⟨_, ⟨w, u₂, hw, hwne, hword, rfl⟩, rfl⟩,
    _, ⟨gap, u₃, hgap, hspGap, rfl⟩, _, ⟨a, u₄, hopen, ha, rfl⟩, _, ⟨pad, u₅, hpad, -, rfl⟩,
    _, ⟨_, ⟨x, u₆, hx, hxne, -, rfl⟩, rfl⟩, _, ⟨b, u₇, hclose, hb, rfl⟩, trail, u₈, htrail,
    hspTrail, rfl⟩ := h
  obtain rfl : a = chr '(' := by simpa using ha
  obtain rfl : b = chr ')' := by simpa using hb
  simp only [Cursor.skip_rest, Cursor.capture_rest] at hw hgap hopen hpad hx hclose htrail
  have hy : u₄ = (pad ++ x) ++ chr ')' :: u₇ := by rw [hpad, hx, hclose, List.append_assoc]
  obtain ⟨x', v, hinside⟩ := exists_inside hy (by simp [hxne])
  refine ⟨w, x', v, ⟨u₄, ⟨lead ++ (w ++ gap), ?_, lead, gap, rfl, hspLead, ⟨hwne, hword⟩, hspGap⟩,
    hinside⟩, fun hend => hinside.eq_nil hy ?_⟩
  · rw [hlead, hw, hgap, hopen]
    simp
  · have hend : u₈ = [] := by simpa using hend
    rw [htrail, hend, List.append_nil]
    exact hspTrail

/-! ### The constructor's two replacements -/

theorem run_sigPattern_eq_none {c : Cursor Byte} (h : ¬ HasCall c.rest) :
    run sigPattern some c = none := by
  by_contra hne
  obtain ⟨b, hb⟩ := Option.ne_none_iff_exists'.mp hne
  obtain ⟨c', hc', -⟩ := run_eq_some hb
  obtain ⟨w, x, v, hcall, -⟩ := call_of_matches hc'
  exact h ⟨w, x, v, hcall⟩

theorem search_sigPattern_of_noCall {s : Text} (h : NoCall s) (prev : Option Byte) :
    search sigPattern prev s = none :=
  search_eq_none fun t u hs => run_sigPattern_eq_none (h t u hs)

/-- A call ends at a closing parenthesis, so without one there is none. -/
theorem noCall_of_not_mem {s : Text} (h : chr ')' ∉ s) : NoCall s := by
  rintro u t rfl ⟨w, x, v, y, ⟨a, rfl, -⟩, hinside⟩
  exact h (by simp [hinside.close_mem])

theorem FirstCall.rest_noCall {s u w x v : Text} (h : FirstCall s u w x v) : NoCall v := by
  obtain ⟨t, -, ⟨y, -, pad, trail, -, -, -, -, -, -, hvno⟩, -⟩ := h
  exact noCall_of_not_mem hvno

/-- A text has no call or a leftmost one. -/
theorem noCall_or_firstCall (s : Text) : NoCall s ∨ ∃ u w x v, FirstCall s u w x v := by
  induction s with
  | nil =>
    refine .inl fun u t hs => ?_
    obtain ⟨rfl, rfl⟩ := List.append_eq_nil_iff.mp hs.symm
    rintro ⟨w, x, v, y, ⟨a, ha, -⟩, -⟩
    simp at ha
  | cons b s ih =>
    by_cases hhere : HasCall (b :: s)
    · obtain ⟨w, x, v, hcall⟩ := hhere
      exact .inr ⟨[], w, x, v, b :: s, rfl, hcall, by simp⟩
    · rcases ih with hno | ⟨u, w, x, v, t, rfl, hcall, hbefore⟩
      · refine .inl fun u t hs => ?_
        obtain _ | ⟨b', u⟩ := u
        · obtain rfl : b :: s = t := hs
          exact hhere
        · exact hno u t (List.cons_eq_cons.mp hs).2
      · refine .inr ⟨b :: u, w, x, v, t, rfl, hcall, fun u' t' hs hlt => ?_⟩
        obtain _ | ⟨b', u'⟩ := u'
        · obtain rfl : b :: (u ++ t) = t' := hs
          exact hhere
        · exact hbefore u' t' (List.cons_eq_cons.mp hs).2 (by simpa using hlt)

theorem search_sigPattern {s u w x v : Text} (h : FirstCall s u w x v) (prev : Option Byte) :
    ∃ c, search sigPattern prev s = some ⟨u, c⟩ ∧ c.rest = v ∧ c.caps = [(2, x), (1, w)] := by
  obtain ⟨t, hs, hcall, hbefore⟩ := h
  obtain ⟨c, hrun, hrest, hcaps⟩ := run_sigPattern hcall (c := (startAt prev s).skip u t) rfl
  exact ⟨c, search_eq_some hs hrun fun u' t' hs' hlt => run_sigPattern_eq_none
    (hbefore u' t' hs' hlt), hrest, hcaps⟩

/-- Without a call both replacements leave the text alone. -/
theorem replaceAll_sigPattern_of_noCall {s : Text} (h : NoCall s) (n : ℕ) :
    replaceAll sigPattern n s = s :=
  replaceAll_of_none (search_sigPattern_of_noCall h none)

/-- With one, it is replaced by its name in the name text and by its inside in the argument
text. -/
theorem replaceAll_sigPattern {s u w x v : Text} (h : FirstCall s u w x v) :
    replaceAll sigPattern 1 s = u ++ w ++ v ∧ replaceAll sigPattern 2 s = u ++ x ++ v := by
  obtain ⟨c, hsearch, rfl, hcaps⟩ := search_sigPattern h none
  have hafter : ∀ prev, search sigPattern prev c.rest = none :=
    search_sigPattern_of_noCall h.rest_noCall
  refine ⟨?_, ?_⟩ <;>
  · rw [replaceAll_of_single hsearch hafter]
    simp [Occurrence.group, Cursor.group, Occurrence.after, hcaps, List.lookup_cons]

/-- **The outer match.** The whole text matches when it is a call with nothing left over. -/
theorem matchesWhole_sigPattern_iff {s : Text} :
    matchesWhole sigPattern s = true ↔ ∃ w x, Call s w x [] := by
  rw [matchesWhole_iff]
  constructor
  · rintro ⟨c, hc, hrest⟩
    obtain ⟨w, x, v, hcall, hv⟩ := call_of_matches hc
    obtain rfl := hv hrest
    exact ⟨w, x, hcall⟩
  · rintro ⟨w, x, hcall⟩
    obtain ⟨c, hrun, hrest, -⟩ := run_sigPattern hcall (c := startAt none s) rfl
    obtain ⟨c', hc', hsome⟩ := run_eq_some hrun
    obtain rfl : c' = c := by simpa using hsome
    exact ⟨c', hc', hrest⟩

/-- A text that is a call has it as its leftmost one. -/
theorem Call.firstCall {s w x v : Text} (h : Call s w x v) : FirstCall s [] w x v :=
  ⟨s, rfl, h, by simp⟩

end Ssoa
