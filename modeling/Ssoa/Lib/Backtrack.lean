import Ssoa.Lib.Span
import Mathlib.Data.List.Basic
import Mathlib.Tactic.Common

/-!
# Backtracking pattern matching

A small matcher with Perl semantics: alternatives are tried from left to right, a repetition
takes as much as it can and gives characters back one at a time, and the first complete way
through the pattern is the match. Repetition is over single character classes only, which is
what keeps the matcher structurally recursive and total.

The engine is written in continuation-passing style: `run r k c` matches `r` at the cursor `c`
and hands every position it reaches to `k`, until `k` accepts one. Backtracking is nothing
but `Option.or`, and the order in which the engine tries things is the order in which the
definition mentions them.

## Two readings

`Matches` is the order-free reading: which cursors a pattern can lead to at all. `run` commits
to one of them. `run_eq_some` and `run_isSome_of_matches` say that the engine finds an accepted
cursor exactly when there is one; `run_star_eq` says *which* one a repetition settles on, namely
the longest run of characters after which the continuation still succeeds.

## Main results

* `run_eq_some`, `run_isSome_of_matches` — soundness and completeness with respect to `Matches`
* `run_star_eq`, `run_plus_eq` — a greedy repetition, evaluated
* `search_eq_some`, `search_eq_none` — the leftmost match of a text
-/

namespace Backtrack

universe u v

variable {α : Type u} {β : Type v}

/-- Where a match stands: the character just before the position, whether the position is the
one the search started from, the text ahead, and the groups captured so far, latest first. -/
structure Cursor (α : Type u) where
  prev : Option α
  atBase : Bool
  rest : List α
  caps : List (ℕ × List α)

namespace Cursor

/-- Move over the text `t`, leaving `u` ahead. -/
def skip (c : Cursor α) (t u : List α) : Cursor α :=
  ⟨t.getLast?.or c.prev, c.atBase && t.isEmpty, u, c.caps⟩

/-- Record `t` as the contents of group `n`. -/
def capture (c : Cursor α) (n : ℕ) (t : List α) : Cursor α :=
  { c with caps := (n, t) :: c.caps }

/-- The text between an earlier cursor and this one. -/
def since (c : Cursor α) (start : Cursor α) : List α :=
  start.rest.take (start.rest.length - c.rest.length)

/-- The contents of group `n`, empty when the group took no part in the match. -/
def group (c : Cursor α) (n : ℕ) : List α := (c.caps.lookup n).getD []

@[simp] theorem skip_rest (c : Cursor α) (t u : List α) : (c.skip t u).rest = u := rfl

@[simp] theorem skip_caps (c : Cursor α) (t u : List α) : (c.skip t u).caps = c.caps := rfl

@[simp] theorem capture_rest (c : Cursor α) (n : ℕ) (t : List α) : (c.capture n t).rest = c.rest :=
  rfl

@[simp] theorem capture_caps (c : Cursor α) (n : ℕ) (t : List α) :
    (c.capture n t).caps = (n, t) :: c.caps := rfl

@[simp] theorem skip_nil (c : Cursor α) : c.skip [] c.rest = c := by
  simp [skip]

@[simp] theorem skip_skip (c : Cursor α) (t u t' u' : List α) :
    (c.skip t u).skip t' u' = c.skip (t ++ t') u' := by
  have hbase : (t ++ t').isEmpty = (t.isEmpty && t'.isEmpty) := by cases t <;> simp
  have hprev : (t ++ t').getLast?.or c.prev = t'.getLast?.or (t.getLast?.or c.prev) := by
    rw [List.getLast?_append, Option.or_assoc]
  simp only [skip, hbase, hprev, Bool.and_assoc]

theorem since_skip {c c' : Cursor α} {t : List α} (h : c.rest = t ++ c'.rest) :
    c'.since c = t := by
  simp [since, h]

end Cursor

/-- Patterns: a character class, a greedy repetition of one, sequence, alternative, capturing
group, and a zero-width test of the position. -/
inductive Pattern (α : Type u) where
  | char (p : α → Bool)
  | star (p : α → Bool)
  | seq (r s : Pattern α)
  | alt (r s : Pattern α)
  | group (n : ℕ) (r : Pattern α)
  | test (f : Cursor α → Bool)

namespace Pattern

/-- One or more characters of a class. -/
def plus (p : α → Bool) : Pattern α := seq (char p) (star p)

/-- A literal character. -/
def lit [DecidableEq α] (a : α) : Pattern α := char fun b => b = a

/-- A literal text. -/
def word [DecidableEq α] : List α → Pattern α
  | [] => test fun _ => true
  | a :: as => seq (lit a) (word as)

/-- A repetition, from the text ahead: prefer one more character, and fall back to stopping. -/
def runStar (p : α → Bool) (k : Cursor α → Option β) (c : Cursor α) : List α → List α → Option β
  | t, [] => k (c.skip t [])
  | t, a :: u =>
    if p a then (runStar p k c (t ++ [a]) u).or (k (c.skip t (a :: u)))
    else k (c.skip t (a :: u))

/-- The engine. `run r k c` tries the ways through `r` from `c` in order, and returns the first
answer `k` gives. -/
def run : Pattern α → (Cursor α → Option β) → Cursor α → Option β
  | char p, k, c =>
    match c.rest with
    | [] => none
    | a :: u => if p a then k (c.skip [a] u) else none
  | star p, k, c => runStar p k c [] c.rest
  | seq r s, k, c => run r (run s k) c
  | alt r s, k, c => (run r k c).or (run s k c)
  | group n r, k, c => run r (fun c' => k (c'.capture n (c'.since c))) c
  | test f, k, c => if f c then k c else none

/-- The cursors a pattern can lead to, in no particular order. -/
inductive Matches : Pattern α → Cursor α → Cursor α → Prop
  | char {p c a u} : c.rest = a :: u → p a → Matches (char p) c (c.skip [a] u)
  | star {p c t u} : c.rest = t ++ u → (∀ a ∈ t, p a) → Matches (star p) c (c.skip t u)
  | seq {r s c c' c''} : Matches r c c' → Matches s c' c'' → Matches (seq r s) c c''
  | altLeft {r s c c'} : Matches r c c' → Matches (alt r s) c c'
  | altRight {r s c c'} : Matches s c c' → Matches (alt r s) c c'
  | group {n r c c'} : Matches r c c' → Matches (group n r) c (c'.capture n (c'.since c))
  | test {f c} : f c → Matches (test f) c c

end Pattern

open Pattern Span

/-! ## Inversion of the order-free reading -/

theorem matches_char_iff {p : α → Bool} {c c' : Cursor α} :
    Matches (char p) c c' ↔ ∃ a u, c.rest = a :: u ∧ p a ∧ c' = c.skip [a] u := by
  constructor
  · rintro ⟨hrest, ha⟩
    exact ⟨_, _, hrest, ha, rfl⟩
  · rintro ⟨a, u, hrest, ha, rfl⟩
    exact .char hrest ha

theorem matches_star_iff {p : α → Bool} {c c' : Cursor α} :
    Matches (star p) c c' ↔ ∃ t u, c.rest = t ++ u ∧ (∀ a ∈ t, p a) ∧ c' = c.skip t u := by
  constructor
  · rintro ⟨⟩
    exact ⟨_, _, ‹_›, ‹_›, rfl⟩
  · rintro ⟨t, u, hrest, ht, rfl⟩
    exact .star hrest ht

theorem matches_seq_iff {r s : Pattern α} {c c'' : Cursor α} :
    Matches (seq r s) c c'' ↔ ∃ c', Matches r c c' ∧ Matches s c' c'' := by
  constructor
  · rintro ⟨⟩
    exact ⟨_, ‹_›, ‹_›⟩
  · rintro ⟨c', hr, hs⟩
    exact .seq hr hs

theorem matches_alt_iff {r s : Pattern α} {c c' : Cursor α} :
    Matches (alt r s) c c' ↔ Matches r c c' ∨ Matches s c c' := by
  constructor
  · intro h
    cases h with
    | altLeft h => exact .inl h
    | altRight h => exact .inr h
  · rintro (h | h)
    · exact .altLeft h
    · exact .altRight h

theorem matches_group_iff {n : ℕ} {r : Pattern α} {c c'' : Cursor α} :
    Matches (group n r) c c'' ↔ ∃ c', Matches r c c' ∧ c'' = c'.capture n (c'.since c) := by
  constructor
  · rintro ⟨⟩
    exact ⟨_, ‹_›, rfl⟩
  · rintro ⟨c', h, rfl⟩
    exact .group h

theorem matches_test_iff {f : Cursor α → Bool} {c c' : Cursor α} :
    Matches (test f) c c' ↔ f c ∧ c' = c := by
  constructor
  · rintro ⟨⟩
    exact ⟨‹_›, rfl⟩
  · rintro ⟨h, rfl⟩
    exact .test h

theorem matches_plus_iff {p : α → Bool} {c c' : Cursor α} :
    Matches (plus p) c c' ↔
      ∃ t u, c.rest = t ++ u ∧ t ≠ [] ∧ (∀ a ∈ t, p a) ∧ c' = c.skip t u := by
  rw [plus, matches_seq_iff]
  constructor
  · rintro ⟨c₁, h₁, h₂⟩
    obtain ⟨a, u, hrest, ha, rfl⟩ := matches_char_iff.mp h₁
    obtain ⟨t, u', rfl, ht, rfl⟩ := matches_star_iff.mp h₂
    exact ⟨a :: t, u', hrest, by simp, by simpa [ha] using ht, by simp⟩
  · rintro ⟨_ | ⟨a, t⟩, u, hrest, hne, ht, rfl⟩
    · exact absurd rfl hne
    · refine ⟨c.skip [a] (t ++ u), .char hrest (ht a (List.mem_cons_self ..)), ?_⟩
      have htail : ∀ b ∈ t, p b := fun b hb => ht b (List.mem_cons_of_mem _ hb)
      simpa using Matches.star (c := c.skip [a] (t ++ u)) rfl htail

/-! ## One repetition -/

theorem runStar_eq_some {p : α → Bool} {k : Cursor α → Option β} {c : Cursor α} {b : β} :
    ∀ {u t : List α}, runStar p k c t u = some b →
      ∃ t' u', u = t' ++ u' ∧ (∀ a ∈ t', p a) ∧ k (c.skip (t ++ t') u') = some b := by
  intro u
  induction u with
  | nil => intro t h; exact ⟨[], [], rfl, by simp, by simpa [runStar] using h⟩
  | cons a u ih =>
    intro t h
    have hstop : k (c.skip t (a :: u)) = some b →
        ∃ t' u', a :: u = t' ++ u' ∧ (∀ a ∈ t', p a) ∧ k (c.skip (t ++ t') u') = some b :=
      fun h => ⟨[], a :: u, rfl, by simp, by simpa using h⟩
    by_cases ha : p a
    · rw [runStar, if_pos ha, Option.or_eq_some_iff] at h
      rcases h with h | ⟨-, h⟩
      · obtain ⟨t', u', rfl, ht', hk⟩ := ih h
        exact ⟨a :: t', u', rfl, by simpa [ha] using ht', by simpa using hk⟩
      · exact hstop h
    · rw [runStar, if_neg ha] at h
      exact hstop h

/-- **A greedy repetition, evaluated.** The repetition settles on the text `t` when the
continuation succeeds after `t` and fails after every longer run of the class. -/
theorem runStar_eq {p : α → Bool} {k : Cursor α → Option β} {c : Cursor α} {b : β} {u : List α} :
    ∀ {t s : List α}, (∀ a ∈ t, p a) → k (c.skip (s ++ t) u) = some b →
      (∀ t' u', u = t' ++ u' → t' ≠ [] → (∀ a ∈ t', p a) → k (c.skip (s ++ t ++ t') u') = none) →
      runStar p k c s (t ++ u) = some b := by
  intro t
  induction t with
  | nil =>
    intro s _ hk hlater
    rw [List.append_nil] at hk
    cases u with
    | nil => exact hk
    | cons a u =>
      rw [List.nil_append, runStar]
      split
      · next ha =>
        have hnone : runStar p k c (s ++ [a]) u = none := by
          by_contra hne
          obtain ⟨b', hb'⟩ := Option.ne_none_iff_exists'.mp hne
          obtain ⟨t', u', rfl, ht', hk'⟩ := runStar_eq_some hb'
          have := hlater (a :: t') u' rfl (by simp) (by simpa [ha] using ht')
          simp_all
        simpa [hnone] using hk
      · exact hk
  | cons a t ih =>
    intro s ht hk hlater
    have hrec : runStar p k c (s ++ [a]) (t ++ u) = some b := by
      refine ih (fun x hx => ht x (List.mem_cons_of_mem _ hx)) (by simpa using hk) ?_
      intro t' u' hu hne hp
      simpa using hlater t' u' hu hne hp
    rw [List.cons_append, runStar, if_pos (ht a (List.mem_cons_self ..)), hrec]
    rfl

theorem run_star_eq {p : α → Bool} {k : Cursor α → Option β} {c : Cursor α} {b : β}
    {t u : List α} (hrest : c.rest = t ++ u) (ht : ∀ a ∈ t, p a) (hk : k (c.skip t u) = some b)
    (hlater : ∀ t' u', u = t' ++ u' → t' ≠ [] → (∀ a ∈ t', p a) →
      k (c.skip (t ++ t') u') = none) : run (star p) k c = some b := by
  rw [run, hrest]
  exact runStar_eq ht (by simpa using hk) (by simpa using hlater)

/-- `run_star_eq` for at least one character. -/
theorem run_plus_eq {p : α → Bool} {k : Cursor α → Option β} {c : Cursor α} {b : β}
    {t u : List α} (hrest : c.rest = t ++ u) (hne : t ≠ []) (ht : ∀ a ∈ t, p a)
    (hk : k (c.skip t u) = some b)
    (hlater : ∀ t' u', u = t' ++ u' → t' ≠ [] → (∀ a ∈ t', p a) →
      k (c.skip (t ++ t') u') = none) : run (plus p) k c = some b := by
  obtain _ | ⟨a, t⟩ := t
  · exact absurd rfl hne
  have hstar : run (star p) k (c.skip [a] (t ++ u)) = some b :=
    run_star_eq (t := t) rfl (fun x hx => ht x (List.mem_cons_of_mem _ hx)) (by simpa using hk)
      fun t' u' hu hne' hp => by simpa using hlater t' u' hu hne' hp
  simpa [plus, run, hrest, ht a (List.mem_cons_self ..)] using hstar

/-- When the class ends where the repetition stops, nothing longer competes. -/
theorem run_star_of_notHead {p : α → Bool} {k : Cursor α → Option β} {c : Cursor α} {b : β}
    {t u : List α} (hrest : c.rest = t ++ u) (ht : ∀ a ∈ t, p a) (hu : NotHead p u)
    (hk : k (c.skip t u) = some b) : run (star p) k c = some b :=
  run_star_eq hrest ht hk fun _ _ hu' hne hp => absurd (hu.eq_nil hu' hp) hne

theorem run_plus_of_notHead {p : α → Bool} {k : Cursor α → Option β} {c : Cursor α} {b : β}
    {t u : List α} (hrest : c.rest = t ++ u) (hne : t ≠ []) (ht : ∀ a ∈ t, p a)
    (hu : NotHead p u) (hk : k (c.skip t u) = some b) : run (plus p) k c = some b :=
  run_plus_eq hrest hne ht hk fun _ _ hu' hne' hp => absurd (hu.eq_nil hu' hp) hne'

/-! ## The engine against the order-free reading -/

/-- **Soundness.** Every answer of the engine is the continuation's answer at a cursor the
pattern leads to. -/
theorem run_eq_some {r : Pattern α} {k : Cursor α → Option β} {c : Cursor α} {b : β}
    (h : run r k c = some b) : ∃ c', Matches r c c' ∧ k c' = some b := by
  induction r generalizing k c with
  | char p =>
    simp only [run] at h
    split at h
    · cases h
    · next a u hrest =>
      split at h
      · next ha => exact ⟨_, .char hrest ha, h⟩
      · cases h
  | star p =>
    obtain ⟨t, u, hu, ht, hk⟩ := runStar_eq_some (t := []) (by simpa [run] using h)
    exact ⟨_, .star hu ht, by simpa using hk⟩
  | seq r s ihr ihs =>
    obtain ⟨c', hc', h'⟩ := ihr h
    obtain ⟨c'', hc'', h''⟩ := ihs h'
    exact ⟨c'', .seq hc' hc'', h''⟩
  | alt r s ihr ihs =>
    rw [run, Option.or_eq_some_iff] at h
    rcases h with h | ⟨-, h⟩
    · obtain ⟨c', hc', h'⟩ := ihr h
      exact ⟨c', .altLeft hc', h'⟩
    · obtain ⟨c', hc', h'⟩ := ihs h
      exact ⟨c', .altRight hc', h'⟩
  | group n r ih =>
    obtain ⟨c', hc', h'⟩ := ih h
    exact ⟨_, .group hc', h'⟩
  | test f =>
    simp only [run] at h
    split at h
    · next hf => exact ⟨c, .test hf, h⟩
    · cases h

theorem runStar_isSome {p : α → Bool} {k : Cursor α → Option β} {c : Cursor α} {u : List α} :
    ∀ {t s : List α}, (∀ a ∈ t, p a) → (k (c.skip (s ++ t) u)).isSome →
      (runStar p k c s (t ++ u)).isSome := by
  intro t
  induction t with
  | nil =>
    intro s _ hk
    rw [List.append_nil] at hk
    cases u with
    | nil => exact hk
    | cons a u =>
      rw [List.nil_append, runStar]
      split
      · simp [hk]
      · exact hk
  | cons a t ih =>
    intro s ht hk
    have hrec : (runStar p k c (s ++ [a]) (t ++ u)).isSome :=
      ih (fun x hx => ht x (List.mem_cons_of_mem _ hx)) (by simpa using hk)
    rw [List.cons_append, runStar, if_pos (ht a (List.mem_cons_self ..))]
    simp [hrec]

/-- **Completeness.** If the pattern leads to a cursor the continuation accepts, the engine
answers. -/
theorem run_isSome_of_matches {r : Pattern α} {k : Cursor α → Option β} {c c' : Cursor α}
    (h : Matches r c c') (hk : (k c').isSome) : (run r k c).isSome := by
  induction h generalizing k with
  | char hrest ha => simpa [run, hrest, ha] using hk
  | star hrest ht =>
    rw [run, hrest]
    exact runStar_isSome ht (by simpa using hk)
  | seq _ _ ihr ihs => exact ihr (ihs hk)
  | altLeft _ ih => simp [run, ih hk]
  | altRight _ ih => simp [run, ih hk]
  | group _ ih => exact ih hk
  | test hf => simpa [run, hf] using hk

/-! ## Searching a text -/

/-- The cursor at the start of a search: `prev` is the character before the text. -/
def startAt (prev : Option α) (s : List α) : Cursor α := ⟨prev, true, s, []⟩

/-- One match in a text: what stands before it and where the engine stopped. -/
structure Occurrence (α : Type u) where
  before : List α
  stop : Cursor α

namespace Occurrence

/-- The text after the match. -/
def after (m : Occurrence α) : List α := m.stop.rest

/-- The contents of a group of the match. -/
def group (m : Occurrence α) (n : ℕ) : List α := m.stop.group n

end Occurrence

/-- The leftmost match: try the pattern at every position in turn. -/
def searchFrom (r : Pattern α) (start : Cursor α) : List α → List α → Option (Occurrence α)
  | t, [] => (run r some (start.skip t [])).map (Occurrence.mk t)
  | t, a :: u =>
    ((run r some (start.skip t (a :: u))).map (Occurrence.mk t)).or
      (searchFrom r start (t ++ [a]) u)

/-- The leftmost match of a pattern in a text. -/
def search (r : Pattern α) (prev : Option α) (s : List α) : Option (Occurrence α) :=
  searchFrom r (startAt prev s) [] s

/-- Whether the pattern matches the whole text. -/
def matchesWhole (r : Pattern α) (s : List α) : Bool :=
  (run r (fun c => if c.rest.isEmpty then some () else none) (startAt none s)).isSome

/-- All matches of a text, each search starting where the match before it stopped. For patterns
that match no empty text, `fuel` beyond the length of the text changes nothing. -/
def occurrencesFrom (r : Pattern α) : ℕ → Option α → List α → List (Occurrence α)
  | 0, _, _ => []
  | fuel + 1, prev, s =>
    match search r prev s with
    | none => []
    | some m => m :: occurrencesFrom r fuel m.stop.prev m.after

/-- All matches of a text, from left to right. -/
def occurrences (r : Pattern α) (s : List α) : List (Occurrence α) :=
  occurrencesFrom r (s.length + 1) none s

/-- The text with each match replaced by its group `n`; what is not matched is copied. -/
def replaceAll (r : Pattern α) (n : ℕ) (s : List α) : List α :=
  ((occurrences r s).flatMap fun m => m.before ++ m.group n) ++
    (((occurrences r s).getLast?.map Occurrence.after).getD s)

theorem searchFrom_eq_none {r : Pattern α} {start : Cursor α} :
    ∀ {u t : List α}, (∀ t' u', u = t' ++ u' → run r some (start.skip (t ++ t') u') = none) →
      searchFrom r start t u = none := by
  intro u
  induction u with
  | nil => intro t h; simpa [searchFrom] using h [] [] rfl
  | cons a u ih =>
    intro t h
    have hhere : run r some (start.skip t (a :: u)) = none := by simpa using h [] (a :: u) rfl
    rw [searchFrom, hhere]
    refine ih fun t' u' hu => ?_
    simpa [hu] using h (a :: t') u' (by simp [hu])

/-- There is no match when the pattern fails at every position. -/
theorem search_eq_none {r : Pattern α} {prev : Option α} {s : List α}
    (h : ∀ t u, s = t ++ u → run r some ((startAt prev s).skip t u) = none) :
    search r prev s = none :=
  searchFrom_eq_none fun t u hs => by simpa using h t u hs

theorem searchFrom_eq_some {r : Pattern α} (start : Cursor α) {c : Cursor α} {u : List α} :
    ∀ {t s : List α}, run r some (start.skip (s ++ t) u) = some c →
      (∀ t' u', t ++ u = t' ++ u' → t'.length < t.length →
        run r some (start.skip (s ++ t') u') = none) →
      searchFrom r start s (t ++ u) = some ⟨s ++ t, c⟩ := by
  intro t
  induction t with
  | nil =>
    intro s h _
    rw [List.append_nil] at h
    cases u <;> simp [searchFrom, h]
  | cons a t ih =>
    intro s h hbefore
    have hhere : run r some (start.skip s (a :: (t ++ u))) = none := by
      simpa using hbefore [] (a :: t ++ u) rfl (by simp)
    rw [List.cons_append, searchFrom, hhere, Option.map_none]
    have := ih (s := s ++ [a]) (by simpa using h) fun t' u' hu hlt => by
      simpa using hbefore (a :: t') u' (by simp [hu]) (by simpa using hlt)
    simpa using this

/-- **The leftmost match.** The search stops after `t` when the pattern matches there and at no
earlier position. -/
theorem search_eq_some {r : Pattern α} {prev : Option α} {s t u : List α} {c : Cursor α}
    (hs : s = t ++ u) (h : run r some ((startAt prev s).skip t u) = some c)
    (hbefore : ∀ t' u', s = t' ++ u' → t'.length < t.length →
      run r some ((startAt prev s).skip t' u') = none) :
    search r prev s = some ⟨t, c⟩ := by
  have := searchFrom_eq_some (r := r) (startAt prev s) (s := []) (t := t) (u := u)
    (by simpa using h) fun t' u' hu hlt => by simpa using hbefore t' u' (hs.trans hu) hlt
  rw [search]
  nth_rewrite 2 [hs]
  simpa using this

theorem occurrencesFrom_of_none {r : Pattern α} {prev : Option α} {s : List α} (fuel : ℕ)
    (h : search r prev s = none) : occurrencesFrom r fuel prev s = [] := by
  cases fuel <;> simp [occurrencesFrom, h]

/-- With no match the replacement changes nothing. -/
theorem replaceAll_of_none {r : Pattern α} {n : ℕ} {s : List α} (h : search r none s = none) :
    replaceAll r n s = s := by
  simp [replaceAll, occurrences, occurrencesFrom_of_none _ h]

/-- With a single match the replacement keeps what stands around it. -/
theorem replaceAll_of_single {r : Pattern α} {n : ℕ} {s : List α} {m : Occurrence α}
    (h : search r none s = some m) (hafter : ∀ prev, search r prev m.after = none) :
    replaceAll r n s = m.before ++ m.group n ++ m.after := by
  have : occurrences r s = [m] := by
    simp [occurrences, occurrencesFrom, h, occurrencesFrom_of_none _ (hafter _)]
  simp [replaceAll, this]

theorem matchesWhole_iff {r : Pattern α} {s : List α} :
    matchesWhole r s = true ↔ ∃ c, Matches r (startAt none s) c ∧ c.rest = [] := by
  constructor
  · intro h
    obtain ⟨b, hb⟩ := Option.isSome_iff_exists.mp h
    obtain ⟨c, hc, hk⟩ := run_eq_some hb
    refine ⟨c, hc, ?_⟩
    by_contra hne
    simp [hne] at hk
  · rintro ⟨c, hc, hrest⟩
    exact run_isSome_of_matches hc (by simp [hrest])

end Backtrack
