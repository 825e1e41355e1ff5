import Ssoa.Lib.PathWalk
import Ssoa.Lib.Throwing

/-!
# Programs confined to a folder

A program on a tree of files is *confined* to a folder if nothing outside the folder has a part in
it: from two trees that agree around the folder it does the same, and it changes nothing that is not
in the folder. Programs made of confined programs are confined.

## Main results

* `Throwing.Confined.bind` — one confined program after the other
-/

namespace Throwing

open FileTree

variable {N C ε α β : Type} [DecidableEq N] {cwd : List N} {name : N}

/-- Two runs that do the same, of which the first leaves what is outside the folder. -/
structure Alike (cwd : List N) (name : N) (t : FileTree N C)
    (r r' : Except ε α × FileTree N C) : Prop where
  value : r.1 = r'.1
  agree : Agree (cwd ++ [name]) r.2 r'.2
  inside : Inside cwd name t r.2

/-- The program is confined to the folder of that name in `cwd`. -/
def Confined (cwd : List N) (name : N) (x : Throwing (FileTree N C) ε α) : Prop :=
  ∀ t u, t.lookup cwd = some .folder → Agree (cwd ++ [name]) t u →
    Alike cwd name t (x.run t) (x.run u)

namespace Confined

variable {x : Throwing (FileTree N C) ε α} {f : α → Throwing (FileTree N C) ε β}

theorem of_pure (a : α) : Confined cwd name (pure a : Throwing (FileTree N C) ε α) :=
  fun _ _ hcwd hagree => ⟨rfl, hagree, .refl hcwd⟩

theorem of_throw (e : ε) : Confined cwd name (throw e : Throwing (FileTree N C) ε α) :=
  fun _ _ hcwd hagree => ⟨rfl, hagree, .refl hcwd⟩

/-- **One confined program after the other** is confined. -/
theorem bind (hx : Confined cwd name x) (hf : ∀ a, Confined cwd name (f a)) :
    Confined cwd name (x >>= f) := by
  intro t u hcwd hagree
  have hrun := hx t u hcwd hagree
  rcases ht : x.run t with ⟨e | a, t'⟩ <;> rcases hu : x.run u with ⟨e' | a', u'⟩ <;>
    rw [ht, hu] at hrun
  · obtain rfl : e = e' := Except.error.inj hrun.value
    rw [run_bind_of_error ht, run_bind_of_error hu]
    exact ⟨rfl, hrun.agree, hrun.inside⟩
  · cases hrun.value
  · cases hrun.value
  · obtain rfl : a = a' := Except.ok.inj hrun.value
    rw [run_bind_of_ok ht, run_bind_of_ok hu]
    have hnext := hf a t' u' hrun.inside.folder hrun.agree
    exact ⟨hnext.value, hnext.agree, hrun.inside.trans hnext.inside⟩

end Confined

end Throwing
