import Ssoa.Signature.Canonical

/-!
# Malformed texts, parsed again

The canonical string of a malformed text is built from whatever was collected before the text was
found malformed. Parsed again, it can be a valid signature. The texts for which that happens are
described here in terms of the text alone: `Leaks`.

There are two ways. The first parse can already leave a word for a name and at least one parameter,
as from `f(in int, foo bar)`. Or it leaves a name text that itself begins like a call, as from
`f(in int,`; the canonical string then ends in `()`, which supplies the missing parenthesis, and
the second parse finds the parameters. After two parses nothing more can change.

## Main results

* `startsParam_iff` — where a text begins with a parameter
* `isValid_render_iff` — when a canonical string is valid
* `isValid_canon_render_iff` — when a canonical string is valid after one more parse
* `exists_isValid_iterate_iff` — validity after any number of parses is decided by the second
-/

namespace Ssoa

open Backtrack Span

/-- The canonical string of a text. -/
def canon (s : Text) : Text := (SignatureFields.parse s).signature

/-! ### Parameters, more loosely -/

/-- A parameter may end before this text: it is empty, or begins with a comma or a line
separator. -/
def Stops (u : Text) : Prop := ∀ b ∈ u.head?, b = chr ',' ∨ isSeparator b

/-- **Where a text begins with a parameter**: a direction, white space, a type, white space, and
then the end of the text, a comma or a line separator. -/
theorem startsParam_iff {s : Text} : StartsParam s ↔ ∃ (p : Param) (sp gap u : Text),
    s = p.direction ++ (sp ++ (p.type ++ (gap ++ u))) ∧ sp ≠ [] ∧ Spaces sp ∧ IsWord p.type ∧
      Spaces gap ∧ Stops u := by
  constructor
  · rintro ⟨p, rest, sp, gap, tail, rfl, hne, hsp, htype, hgap, -, -, hterm⟩
    rcases hterm with ⟨pad, rfl, -⟩ | ⟨rfl, -⟩ | ⟨-, -, g₁, b, g₂, rfl, hb, -⟩
    · exact ⟨p, sp, gap, _, rfl, hne, hsp, htype, hgap, by simp [Stops]⟩
    · exact ⟨p, sp, gap, [], rfl, hne, hsp, htype, hgap, by simp [Stops]⟩
    · refine ⟨p, sp, g₁, b :: (g₂ ++ tail), by simp, hne, hsp, htype,
        fun a ha => hgap a (by simp [ha]), by simp [Stops, hb]⟩
  · rintro ⟨p, sp, gap, u, rfl, hne, hsp, htype, hgap, hstop⟩
    have hcases : (∃ u', u = chr ',' :: u') ∨ u = [] ∨ ∃ b u', u = b :: u' ∧ isSeparator b := by
      obtain _ | ⟨b, u⟩ := u
      · exact .inr (.inl rfl)
      · rcases hstop b rfl with rfl | hb
        · exact .inl ⟨u, rfl⟩
        · exact .inr (.inr ⟨b, u, rfl, hb⟩)
    obtain ⟨gap', tail, rest, heq, hgap', htail, hword, hterm⟩ := exists_terminated hgap hcases
    exact ⟨p, rest, sp, gap', tail, by rw [heq], hne, hsp, htype, hgap', htail, hword, hterm⟩

theorem not_stops_open {z : Text} : ¬ Stops (chr '(' :: z) := by
  intro h
  rcases h _ rfl with h | h
  · exact absurd h (by decide)
  · exact absurd h (by decide)

/-- What follows an opening parenthesis does not matter to the parameter before it. -/
theorem startsParam_open {q z z' : Text} (h : StartsParam (q ++ chr '(' :: z)) :
    StartsParam (q ++ chr '(' :: z') := by
  obtain ⟨p, sp, gap, u, heq, hne, hsp, htype, hgap, hstop⟩ := startsParam_iff.mp h
  have hno : chr '(' ∉ p.direction ++ (sp ++ (p.type ++ gap)) := by
    simp only [List.mem_append, not_or]
    exact ⟨not_mem_of_word isWord_open p.isWord_direction, not_mem_of_spaces isSpace_open hsp,
      not_mem_of_word isWord_open htype.2, not_mem_of_spaces isSpace_open hgap⟩
  have heq : q ++ chr '(' :: z = (p.direction ++ (sp ++ (p.type ++ gap))) ++ u := by
    rw [heq]
    simp
  rcases List.append_eq_append_iff.mp heq with ⟨r, hr, hu⟩ | ⟨r, rfl, hu⟩
  · -- the parenthesis would stand inside the parameter
    obtain _ | ⟨c, r⟩ := r
    · rw [List.nil_append] at hu
      subst hu
      exact absurd hstop not_stops_open
    · obtain ⟨rfl, -⟩ := List.cons_eq_cons.mp hu
      exact absurd (by simp [hr]) hno
  · refine startsParam_iff.mpr ⟨p, sp, gap, r ++ chr '(' :: z', by simp, hne, hsp, htype, hgap, ?_⟩
    obtain _ | ⟨c, r⟩ := r
    · rw [List.nil_append] at hu
      subst hu
      exact absurd hstop not_stops_open
    · subst hu
      simpa [Stops] using hstop

/-- Something was collected exactly when the text begins with a parameter. -/
theorem Reads.ne_nil_iff {s : Text} {ps : List Param} {ok : Bool} (h : Reads s ps ok) :
    ps ≠ [] ↔ StartsParam s := by
  cases h with
  | done => simp [not_startsParam_nil]
  | param hp _ => exact ⟨fun _ => ⟨_, _, hp⟩, fun _ => by simp⟩
  | stop _ hno => simp [hno]

/-- A text that reads to the end consists of white space, words and commas. -/
theorem Reads.chars {s : Text} {ps : List Param} {ok : Bool} (h : Reads s ps ok)
    (hok : ok = true) : ∀ b ∈ s, isSpace b ∨ isWord b ∨ b = chr ',' := by
  induction h with
  | done => simp
  | param hp hrest ih =>
    obtain ⟨sp, gap, tail, rfl, -, hsp, htype, hgap, -, -, hterm⟩ := hp
    have htail : ∀ b ∈ tail, isSpace b ∨ isWord b ∨ b = chr ',' := by
      rcases hterm with ⟨pad, rfl, hpad, -⟩ | ⟨rfl, -⟩ | ⟨-, -, g₁, b, g₂, -, hb, rfl⟩
      · simp only [List.mem_cons, List.mem_append]
        rintro b (rfl | hb | hb)
        exacts [.inr (.inr rfl), .inl (hpad b hb), ih hok b hb]
      · simp
      · cases (hrest.eq_false_of_space (isSpace_of_isSeparator hb)).symm.trans hok
    simp only [List.mem_append]
    rintro b (hb | hb | hb | hb | hb)
    · exact .inr (.inl (Param.isWord_direction _ b hb))
    · exact .inl (hsp b hb)
    · exact .inr (.inl (htype.2 b hb))
    · exact .inl (hgap b hb)
    · exact htail b hb
  | stop => cases hok

/-! ### Canonical strings of malformed texts -/

theorem canon_eq {s n a : Text} {ps : List Param} {ok : Bool} (hs : Splits s n a)
    (ha : Reads a ps ok) : canon s = render n ps := by
  rw [canon, parse_eq hs ha]
  rfl

/-- The split of a canonical string at its last parenthesis against a split at its first. -/
theorem render_split {n a y : Text} {ps : List Param} (h : render n ps = a ++ chr '(' :: y)
    (ha : chr '(' ∉ a) : (n = a ∧ y = argumentText ps ++ [chr ')']) ∨
      ∃ r, n = a ++ chr '(' :: r ∧ y = r ++ chr '(' :: (argumentText ps ++ [chr ')']) := by
  rcases List.append_eq_append_iff.mp h with ⟨r, rfl, hr⟩ | ⟨r, rfl, hr⟩
  · obtain _ | ⟨c, r⟩ := r
    · exact .inl ⟨by simp, (List.cons_eq_cons.mp hr).2.symm⟩
    · obtain ⟨rfl, -⟩ := List.cons_eq_cons.mp hr
      exact absurd (by simp) ha
  · obtain _ | ⟨c, r⟩ := r
    · exact .inl ⟨by simp, (List.cons_eq_cons.mp hr).2⟩
    · obtain ⟨rfl, hy⟩ := List.cons_eq_cons.mp hr
      exact .inr ⟨r, rfl, hy⟩

/-- **When a canonical string is valid**: the name is a word, up to white space, and there is a
parameter. -/
theorem isValid_render_iff {n : Text} {ps : List Param} (hps : WellTyped ps) :
    (SignatureFields.parse (render n ps)).isValid = true ↔ (∃ w, Bare n w) ∧ ps ≠ [] := by
  constructor
  · intro hvalid
    obtain ⟨w, x, ps', ⟨y, ⟨a, heq, hbare⟩, hinside⟩, hreads⟩ := isValid_parse_iff.mp hvalid
    have hopen : chr '(' ∉ a := hbare.not_mem isSpace_open isWord_open
    obtain ⟨pad, trail, hy, hpad, hx, -, htrail, -, -⟩ := hinside
    rw [List.append_nil] at hy
    rcases render_split heq hopen with ⟨rfl, rfl⟩ | ⟨r, rfl, rfl⟩
    · refine ⟨⟨w, hbare⟩, ?_⟩
      rintro rfl
      -- between the parentheses there is nothing
      have hlen := congrArg List.length hy
      have hpos : 0 < x.length := List.length_pos_iff.mpr hx
      simp [argumentText] at hlen
      omega
    · -- the parenthesis after the name would have to be read as a parameter
      have hmem : chr '(' ∈ pad ++ (x ++ chr ')' :: trail) := by simp [← hy]
      simp only [List.mem_append, List.mem_cons] at hmem
      rcases hmem with h | h | h | h
      · exact absurd h (not_mem_of_spaces isSpace_open hpad)
      · rcases hreads.chars rfl _ h with h | h | h
        · exact absurd h (by decide)
        · exact absurd h (by decide)
        · exact absurd h (by decide)
      · exact absurd h (by decide)
      · exact absurd h (not_mem_of_spaces isSpace_open htrail)
  · rintro ⟨⟨w, hbare⟩, hne⟩
    simp [parse_render hbare hne hps, SignatureFields.of]

/-! ### One more parse -/

/-- The name text begins like a call: after word characters `u` stands a word `b`, a parenthesis
and white space, and what follows, with `u` put before it, begins with a parameter. -/
structure Hides (n u b w pad q : Text) : Prop where
  eq : n = u ++ (b ++ chr '(' :: (pad ++ q))
  bare : Bare b w
  word : ∀ c ∈ u, isWord c
  space : u = [] ∨ ∃ c b', b = c :: b' ∧ isSpace c
  pad : Spaces pad
  notHead : NotHead isSpace q
  param : StartsParam (u ++ (q ++ [chr '(']))

/-- The name text hides a call. -/
def HidesCall (n : Text) : Prop := ∃ u b w pad q, Hides n u b w pad q

theorem Bare.eq_of_space {b w : Text} (h : Bare b w) {u b' : Text} (hu : u ≠ []) {w' : Text}
    (hword : ∀ c ∈ u, isWord c) (hspace : ∃ c b', b = c :: b' ∧ isSpace c)
    (h' : Bare b' w') (heq : b' = u ++ b) : False := by
  obtain ⟨lead, gap, rfl, hlead, hw', hgap⟩ := h'
  obtain ⟨c, t, rfl, hc⟩ := hspace
  obtain ⟨d, u', rfl⟩ := List.exists_cons_of_ne_nil hu
  have hd : isWord d := hword d (by simp)
  -- the name begins where `u` does, and ends before the white space
  obtain rfl : lead = [] := NotHead.eq_nil (s := (d :: u') ++ c :: t)
    (by simpa using not_isSpace_of_isWord hd) (by simpa using heq.symm) hlead
  have hgapHead : NotHead isWord gap := by
    obtain _ | ⟨g, gap⟩ := gap
    · simp
    · simpa using not_isWord_of_isSpace (hgap g (by simp))
  obtain ⟨-, rfl⟩ := span_unique (p := isWord) (by simpa using heq) hw'.2 hword hgapHead
    (by simpa using not_isWord_of_isSpace hc)
  -- so only white space is left, and no name
  obtain ⟨lead, gap', hb, hlead, hw, -⟩ := h
  obtain ⟨e, hemem⟩ := List.exists_mem_of_ne_nil w hw.1
  have hspace : isSpace e := hgap e (by rw [hb]; simp [hemem])
  simp [not_isSpace_of_isWord (hw.2 e hemem)] at hspace

/-- The hidden call is the leftmost call of the canonical string. -/
theorem Hides.firstCall {n u b w pad q : Text} (h : Hides n u b w pad q) (ps : List Param) :
    FirstCall (render n ps) u w (q ++ chr '(' :: argumentText ps) [] := by
  have hq : NotHead isSpace (q ++ chr '(' :: argumentText ps) := by
    obtain _ | ⟨c, q⟩ := q
    · simp [isSpace_open]
    · simpa using h.notHead
  refine ⟨b ++ chr '(' :: (pad ++ (q ++ chr '(' :: (argumentText ps ++ [chr ')']))), ?_,
    ⟨_, ⟨b, rfl, h.bare⟩, pad, [], by simp, h.pad, by simp, .inl hq, spaces_nil, by simp,
      by simp⟩, ?_⟩
  · rw [render, h.eq]
    simp
  · rintro u' t' heq hlt ⟨w', x', v', y', ⟨b', rfl, hbare'⟩, -⟩
    have hrender : render n ps = (u ++ b) ++ chr '(' ::
        (pad ++ (q ++ chr '(' :: (argumentText ps ++ [chr ')']))) := by
      rw [render, h.eq]
      simp
    have hu : chr '(' ∉ u := not_mem_of_word isWord_open h.word
    have hsplit : (u' ++ b') ++ chr '(' :: y' = (u ++ b) ++ chr '(' ::
        (pad ++ (q ++ chr '(' :: (argumentText ps ++ [chr ')']))) := by
      rw [← hrender, heq, List.append_assoc]
    obtain ⟨u₂, rfl, hu₂⟩ : ∃ u₂, u = u' ++ u₂ ∧ u₂ ≠ [] := by
      rw [List.append_assoc, List.append_assoc] at hsplit
      rcases List.append_eq_append_iff.mp hsplit with ⟨r, rfl, -⟩ | ⟨r, rfl, -⟩
      · refine ⟨r, rfl, ?_⟩
        rintro rfl
        simp at hlt
      · simp only [List.length_append] at hlt
        omega
    have hfirst := first_unique hsplit (by
        simp only [List.mem_append, not_or] at hu ⊢
        exact ⟨hu.1, hbare'.not_mem isSpace_open isWord_open⟩) (by
        simp only [List.mem_append, not_or] at hu ⊢
        exact ⟨hu, h.bare.not_mem isSpace_open isWord_open⟩)
    have hb' : b' = u₂ ++ b := by simpa using hfirst.1
    rcases h.space with hnil | hspace
    · exact hu₂ (List.append_eq_nil_iff.mp hnil).2
    · exact h.bare.eq_of_space hu₂ (fun c hc => h.word c (by simp [hc])) hspace hbare' hb'

theorem exists_render_concat (n : Text) (ps : List Param) : ∃ t, render n ps = t ++ [chr ')'] :=
  ⟨n ++ chr '(' :: argumentText ps, by simp [render]⟩

/-- A call in a canonical string leaves nothing over. -/
theorem FirstCall.eq_nil {n u w x v : Text} {ps : List Param}
    (h : FirstCall (render n ps) u w x v) : v = [] := by
  obtain ⟨t, heq, ⟨y, ⟨a, rfl, -⟩, hinside⟩, -⟩ := h
  obtain ⟨t', ht'⟩ := exists_render_concat n ps
  have heq : t' ++ [chr ')'] = (u ++ a) ++ chr '(' :: y := by rw [← ht', heq, List.append_assoc]
  rcases exists_concat heq with ⟨rfl, -⟩ | ⟨y', rfl⟩
  · exact absurd hinside.close_mem List.not_mem_nil
  · exact hinside.eq_nil rfl spaces_nil

theorem argumentText_cons (p : Param) (ps : List Param) :
    ∃ t, argumentText (p :: ps) = p.direction ++ (txt " " ++ t) := by
  cases ps with
  | nil => exact ⟨p.type, by simp [argumentText, Param.text]⟩
  | cons q ps => exact ⟨p.type ++ (txt ", " ++ argumentText (q :: ps)), by
      simp [argumentText, Param.text]⟩

/-- A direction does not end with another one. -/
theorem append_direction_ne {u : Text} (hu : u ≠ []) (p q : Param) :
    u ++ p.direction ≠ q.direction := by
  obtain ⟨c, u, rfl⟩ := List.exists_cons_of_ne_nil hu
  intro h
  have hlen := congrArg List.length h
  rcases p.direction_cases with hp | hp <;> rcases q.direction_cases with hq | hq <;>
    rw [hp, hq] at h hlen <;>
    simp only [txt_in, txt_out, List.length_append, List.length_cons, List.length_nil] at h hlen
  · omega
  · -- `in` at the end of `out` fits in length only
    obtain rfl : u = [] := List.eq_nil_of_length_eq_zero (by omega)
    simp at h
  · omega
  · omega

/-- Word characters before a written parameter list leave no parameter at the start. -/
theorem not_startsParam_word_append {u : Text} (hu : u ≠ []) (hword : ∀ c ∈ u, isWord c)
    (ps : List Param) : ¬ StartsParam (u ++ argumentText ps) := by
  intro h
  obtain ⟨p, sp, gap, v, heq, hne, hsp, -, -, -⟩ := startsParam_iff.mp h
  have hspHead : NotHead isWord (sp ++ (p.type ++ (gap ++ v))) := by
    obtain ⟨c, sp, rfl⟩ := List.exists_cons_of_ne_nil hne
    simpa using not_isWord_of_isSpace (hsp c (by simp))
  cases ps with
  | nil =>
    have hsplit := (span_unique (p := isWord) (t := u) (u := []) (by simpa [argumentText] using heq)
      hword p.isWord_direction (by simp) hspHead).2
    exact hne (List.append_eq_nil_iff.mp hsplit.symm).1
  | cons q ps =>
    -- the direction would be `u` followed by the direction of the first parameter
    obtain ⟨t, ht⟩ := argumentText_cons q ps
    rw [ht] at heq
    have hword' : ∀ c ∈ u ++ q.direction, isWord c := by
      simp only [List.mem_append]
      rintro c (hc | hc)
      exacts [hword c hc, q.isWord_direction c hc]
    refine append_direction_ne hu q p (span_unique (p := isWord) (u := txt " " ++ t)
      (by simpa using heq) hword' p.isWord_direction ?_ hspHead).1
    rw [txt_blank, List.cons_append, notHead_cons]
    decide

/-- Before a call there are only word characters, if what is left without it is a word and begins
with a parameter. -/
theorem isWord_before {u w w' x : Text} (hw : IsWord w) (hname : Bare (u ++ w) w')
    (hparam : StartsParam (u ++ x)) : ∀ c ∈ u, isWord c := by
  obtain ⟨lead, gap, hsplit, hlead, hw', hgap⟩ := hname
  by_cases hu : u = []
  · simp [hu]
  have hhead : NotHead isSpace (u ++ w) := by
    obtain ⟨c, u', rfl⟩ := List.exists_cons_of_ne_nil hu
    simpa using hparam.notHead
  obtain rfl : lead = [] := hhead.eq_nil hsplit hlead
  have hsplit : u ++ w = w' ++ gap := hsplit
  -- a last word character leaves no gap
  obtain rfl : gap = [] := by
    by_contra hne
    have hlast : (u ++ w).getLast? = some (gap.getLast hne) := by
      rw [hsplit, List.getLast?_append, List.getLast?_eq_some_getLast hne, Option.some_or]
    rw [List.getLast?_append, List.getLast?_eq_some_getLast hw.1, Option.some_or] at hlast
    have hc := hw.2 _ (List.getLast_mem hw.1)
    rw [Option.some.inj hlast] at hc
    simpa [hgap _ (List.getLast_mem hne)] using not_isSpace_of_isWord hc
  intro c hc
  rw [List.append_nil] at hsplit
  exact hw'.2 c (hsplit ▸ List.mem_append_left w hc)

/-- A leftmost call has no word character right before its name. -/
theorem FirstCall.space_before {s u b y w x v : Text} (h : FirstCall s u w x v)
    (heq : s = u ++ (b ++ chr '(' :: y)) (hbare : Bare b w) (hy : Inside y x v)
    (hword : ∀ c ∈ u, isWord c) : u = [] ∨ ∃ c b', b = c :: b' ∧ isSpace c := by
  by_contra hno
  simp only [not_or] at hno
  obtain ⟨hu, hb⟩ := hno
  obtain ⟨_, -, -, hleft⟩ := h
  obtain ⟨lead, gap, rfl, hlead, hw, hgap⟩ := hbare
  obtain rfl : lead = [] := by
    obtain _ | ⟨c, lead⟩ := lead
    · rfl
    · exact absurd ⟨c, lead ++ (w ++ gap), rfl, hlead c (by simp)⟩ hb
  -- one character earlier there would be a call already
  refine hleft u.dropLast (u.getLast hu :: (w ++ gap ++ chr '(' :: y)) ?_ ?_
    ⟨u.getLast hu :: w, x, v, y,
      ⟨u.getLast hu :: (w ++ gap), rfl, [], gap, rfl, spaces_nil, ⟨by simp, ?_⟩, hgap⟩, hy⟩
  · rw [heq]
    nth_rewrite 1 [← List.dropLast_append_getLast hu]
    simp
  · have := List.length_pos_iff.mpr hu
    simp only [List.length_dropLast]
    omega
  · simp only [List.mem_cons]
    rintro c (rfl | hc)
    exacts [hword _ (List.getLast_mem hu), hw.2 c hc]

/-- Where the name text of a canonical string stands in its leftmost call. -/
theorem FirstCall.hides {n u w x v : Text} {ps : List Param}
    (h : FirstCall (render n ps) u w x v) (hname : ∃ w', Bare (u ++ w) w')
    (hparam : StartsParam (u ++ x)) : (Bare n w ∧ ps ≠ []) ∨ HidesCall n := by
  obtain rfl := h.eq_nil
  have hfirst := h
  obtain ⟨w', hname⟩ := hname
  obtain ⟨t, heq, ⟨y, ⟨b, rfl, hbare⟩, hinside⟩, -⟩ := h
  have hword : ∀ c ∈ u, isWord c := isWord_before hbare.word hname hparam
  have hopen : chr '(' ∉ u ++ b := by
    simp only [List.mem_append, not_or]
    exact ⟨not_mem_of_word isWord_open hword, hbare.not_mem isSpace_open isWord_open⟩
  have hspace : u = [] ∨ ∃ c b', b = c :: b' ∧ isSpace c :=
    hfirst.space_before heq hbare hinside hword
  obtain ⟨pad, trail, rfl, hpad, hx, hxhead, htrail, -, -⟩ := hinside
  have hclose : chr ')' ∉ trail := not_mem_of_spaces isSpace_close htrail
  rcases render_split (a := u ++ b) (by simpa using heq) hopen with ⟨rfl, hy⟩ | ⟨r, rfl, hy⟩
  · -- the name text is all before the parenthesis
    obtain ⟨hargs, -⟩ := last_unique (t := pad ++ x) (by simpa using hy) hclose List.not_mem_nil
    have hps : ps ≠ [] := by
      rintro rfl
      exact hx (List.append_eq_nil_iff.mp hargs).2
    by_cases hu : u = []
    · exact .inl ⟨by simpa [hu] using hbare, hps⟩
    · obtain rfl : pad = [] := (notHead_argumentText ps).eq_nil hargs.symm hpad
      obtain rfl : x = argumentText ps := hargs
      exact absurd hparam (not_startsParam_word_append hu hword ps)
  · -- the name text has the parenthesis
    have hy : (pad ++ x) ++ chr ')' :: trail = (r ++ chr '(' :: argumentText ps) ++ [chr ')'] := by
      simpa using hy
    obtain ⟨hargs, -⟩ := last_unique hy hclose List.not_mem_nil
    have hxhead : NotHead isSpace x := by
      rcases hxhead with h | ⟨c, rfl⟩
      · exact h
      · have hmem : chr '(' ∈ pad ++ [c] := by simp [hargs]
        simp only [List.mem_append, List.mem_singleton] at hmem
        rcases hmem with h | rfl
        · exact absurd h (not_mem_of_spaces isSpace_open hpad)
        · simp [isSpace_open]
    obtain ⟨pad', q, rfl, hpad', hq⟩ := exists_span isSpace r
    have hqhead : NotHead isSpace (q ++ chr '(' :: argumentText ps) := by
      obtain _ | ⟨c, q⟩ := q
      · simp [isSpace_open]
      · simpa using hq
    obtain ⟨-, rfl⟩ := span_unique (by simpa using hargs) hpad hpad' hxhead hqhead
    refine .inr ⟨u, b, w, pad', q, by simp, hbare, hword, hspace, hpad', hq, ?_⟩
    rw [← List.append_assoc] at hparam ⊢
    exact startsParam_open hparam

/-- **When a canonical string is valid after one more parse**: when it is valid, or its name text
hides a call. -/
theorem isValid_canon_render_iff {n : Text} {ps : List Param} (hps : WellTyped ps) :
    (SignatureFields.parse (canon (render n ps))).isValid = true ↔
      ((∃ w, Bare n w) ∧ ps ≠ []) ∨ HidesCall n := by
  obtain ⟨n', a', hsplits⟩ := exists_splits (render n ps)
  obtain ⟨ps', ok, hreads⟩ := exists_reads a'
  constructor
  · intro hvalid
    rw [canon_eq hsplits hreads, isValid_render_iff hreads.wellTyped, hreads.ne_nil_iff] at hvalid
    obtain ⟨⟨w', hbare⟩, hparam⟩ := hvalid
    rcases hsplits with ⟨-, rfl, -⟩ | ⟨u, w, x, v, hfirst, rfl, rfl⟩
    · exact absurd (by simp [render]) (hbare.not_mem isSpace_open isWord_open)
    · obtain rfl := hfirst.eq_nil
      rw [List.append_nil] at hbare hparam
      rcases hfirst.hides ⟨w', hbare⟩ hparam with ⟨hn, hne⟩ | hhides
      · exact .inl ⟨⟨w, hn⟩, hne⟩
      · exact .inr hhides
  · rintro (⟨⟨w, hbare⟩, hne⟩ | ⟨u, b, w, pad, q, h⟩)
    · have hparse := parse_render hbare hne hps
      have hcanon : canon (render n ps) = render w ps := by
        rw [canon, hparse]
        rfl
      rw [hcanon, parse_render (bare_self hbare.word) hne hps]
      rfl
    · have hfirst := h.firstCall ps
      have hsplits' : Splits (render n ps) (u ++ w) (u ++ (q ++ chr '(' :: argumentText ps)) :=
        .inr ⟨u, w, _, [], hfirst, by simp, by simp⟩
      obtain ⟨ps₂, ok₂, hreads₂⟩ := exists_reads (u ++ (q ++ chr '(' :: argumentText ps))
      rw [canon_eq hsplits' hreads₂, isValid_render_iff hreads₂.wellTyped, hreads₂.ne_nil_iff]
      refine ⟨⟨u ++ w, bare_self ⟨by simp [h.bare.word.1], ?_⟩⟩, ?_⟩
      · simp only [List.mem_append]
        rintro c (hc | hc)
        exacts [h.word c hc, h.bare.word.2 c hc]
      · have := h.param
        rw [← List.append_assoc] at this ⊢
        exact startsParam_open this

/-! ### Any number of parses -/

/-- A closing parenthesis with something before it closes a call. -/
theorem hasCall_of_bare {b w y t z : Text} (hb : Bare b w) (hy : y = t ++ chr ')' :: z)
    (ht : t ≠ []) : HasCall (b ++ chr '(' :: y) := by
  obtain ⟨x, v, hinside⟩ := exists_inside hy ht
  exact ⟨w, x, v, y, ⟨b, rfl, hb⟩, hinside⟩

/-- The name text of a canonical string hides no call. -/
theorem Splits.not_hidesCall {m n a : Text} {ps : List Param} (h : Splits (render m ps) n a) :
    ¬ HidesCall n := by
  rintro ⟨u, b, w, pad, q, hh⟩
  rcases h with ⟨hno, rfl, -⟩ | ⟨u₁, w₁, x₁, v₁, hfirst, rfl, -⟩
  · -- there is no call, so only the last parenthesis follows the opening one
    obtain ⟨t, ht⟩ := exists_render_concat m ps
    have heq : t ++ [chr ')'] = (u ++ b) ++ chr '(' :: (pad ++ q) := by
      rw [← ht, hh.eq, List.append_assoc]
    rcases exists_concat heq with ⟨-, hc⟩ | ⟨v, hv⟩
    · exact absurd hc (by decide)
    by_cases hne : v = []
    · subst hne
      obtain rfl : pad = [] := NotHead.eq_nil (by simp [isSpace_close]) hv.symm hh.pad
      obtain rfl : q = [chr ')'] := hv
      obtain ⟨p, sp, gap, v, heq, hspne, hsp, -, -, -⟩ := startsParam_iff.mp hh.param
      obtain ⟨c, sp, rfl⟩ := List.exists_cons_of_ne_nil hspne
      have hrest := (span_unique (p := isWord) heq hh.word p.isWord_direction
        (by simp [isWord_close])
        (by simpa using not_isWord_of_isSpace (hsp c (by simp)))).2
      obtain ⟨rfl, -⟩ := List.cons_eq_cons.mp hrest
      exact absurd (hsp _ (List.mem_cons_self ..)) (by decide)
    · exact hno u _ hh.eq (hasCall_of_bare hh.bare hv hne)
  · -- the hidden call would come before the leftmost one
    obtain rfl := hfirst.eq_nil
    obtain ⟨t₁, heq, ⟨y₁, ⟨b₁, rfl, hb₁⟩, hinside⟩, hleft⟩ := hfirst
    have hw₁ : chr '(' ∉ w₁ := not_mem_of_word isWord_open hb₁.word.2
    have hsplit : u₁ ++ w₁ = (u ++ b) ++ chr '(' :: (pad ++ q) := by simpa using hh.eq
    rcases List.append_eq_append_iff.mp hsplit with ⟨r, -, hr⟩ | ⟨r, rfl, hr⟩
    · exact hw₁ (by simp [hr])
    · obtain _ | ⟨c, r⟩ := r
      · rw [List.nil_append] at hr
        exact hw₁ (by simp [← hr])
      obtain ⟨rfl, -⟩ := List.cons_eq_cons.mp hr
      obtain ⟨y₂, y₃, rfl⟩ := List.append_of_mem hinside.close_mem
      have hcall : HasCall (b ++ chr '(' :: ((r ++ (b₁ ++ chr '(' :: y₂)) ++ chr ')' :: y₃)) :=
        hasCall_of_bare hh.bare rfl (by simp)
      refine hleft u _ ?_ ?_ hcall
      · rw [heq]
        simp
      · simp only [List.length_append, List.length_cons]
        omega

/-- The text becomes a valid signature when its canonical string is parsed again: with its call
replaced by its name it is a word, and with its call replaced by its inside it begins with a
parameter; or with its call replaced by its name it hides another call. -/
def Leaks (s : Text) : Prop :=
  ∃ n a, Splits s n a ∧ (((∃ w, Bare n w) ∧ StartsParam a) ∨ HidesCall n)

theorem Splits.unique {s n a n' a' : Text} (h : Splits s n a) (h' : Splits s n' a') :
    n = n' ∧ a = a' :=
  ⟨h.replaceAll.1.symm.trans h'.replaceAll.1, h.replaceAll.2.symm.trans h'.replaceAll.2⟩

/-- **Two parses decide.** -/
theorem isValid_canon_canon_iff {s : Text} :
    (SignatureFields.parse (canon (canon s))).isValid = true ↔ Leaks s := by
  obtain ⟨n, a, hsplits⟩ := exists_splits s
  obtain ⟨ps, ok, hreads⟩ := exists_reads a
  rw [canon_eq hsplits hreads, isValid_canon_render_iff hreads.wellTyped, hreads.ne_nil_iff]
  constructor
  · exact fun h => ⟨n, a, hsplits, h⟩
  · rintro ⟨n', a', hsplits', h⟩
    obtain ⟨rfl, rfl⟩ := hsplits.unique hsplits'
    exact h

/-- A valid text stays valid. -/
theorem isValid_canon {s : Text} (h : (SignatureFields.parse s).isValid = true) :
    (SignatureFields.parse (canon s)).isValid = true := by
  have := ServiceSignature.ofText_signature (a := .ofText s) h
  exact (congrArg (fun a => a.isValid) this).trans h

/-- After two parses nothing becomes valid any more. -/
theorem isValid_canon_of_canon_canon {s : Text}
    (h : (SignatureFields.parse (canon (canon (canon s)))).isValid = true) :
    (SignatureFields.parse (canon (canon s))).isValid = true := by
  obtain ⟨m, b, hsplits₀⟩ := exists_splits s
  obtain ⟨ps₀, ok₀, hreads₀⟩ := exists_reads b
  rw [canon_eq hsplits₀ hreads₀] at h ⊢
  obtain ⟨n, a, hsplits⟩ := exists_splits (render m ps₀)
  obtain ⟨ps, ok, hreads⟩ := exists_reads a
  rw [canon_eq hsplits hreads] at h ⊢
  rw [isValid_render_iff hreads.wellTyped]
  rcases (isValid_canon_render_iff hreads.wellTyped).mp h with hn | hhides
  · exact hn
  · exact absurd hhides hsplits.not_hidesCall

/-- **Validity after any number of parses.** A malformed text becomes valid at some parse of its
canonical string exactly when it leaks. -/
theorem exists_isValid_iterate_iff {s : Text} (hs : (SignatureFields.parse s).isValid = false) :
    (∃ k, (SignatureFields.parse (canon^[k] s)).isValid = true) ↔ Leaks s := by
  rw [← isValid_canon_canon_iff]
  constructor
  · rintro ⟨k, hk⟩
    induction k with
    | zero =>
      rw [Function.iterate_zero, id, hs] at hk
      cases hk
    | succ k ih =>
      rcases k with _ | _ | k
      · rw [Function.iterate_succ_apply', Function.iterate_zero, id] at hk
        exact isValid_canon hk
      · rw [Function.iterate_succ_apply', Function.iterate_succ_apply', Function.iterate_zero,
          id] at hk
        exact hk
      · simp only [Function.iterate_succ_apply'] at hk ih
        exact ih (isValid_canon_of_canon_canon hk)
  · intro h
    refine ⟨2, ?_⟩
    rw [Function.iterate_succ_apply', Function.iterate_succ_apply', Function.iterate_zero, id]
    exact h

end Ssoa
