import Ssoa.Base
import Ssoa.Lib.Throwing

/-!
# Factories

`FactoryBase<T, Args...>` maps class names to functions that create an object of a derived class.
The name of a service is such a class name, and so is the type of an argument.
-/

namespace Ssoa

/-- `CreatorMethod`: it creates an object or throws. -/
abbrev CreatorMethod (A T : Type) := A → Except Exn T

structure FactoryBase (A T : Type) where
  hierarchyName : Text
  mappings : List (Text × CreatorMethod A T) := []

namespace FactoryBase

variable {A T : Type}

def contains (f : FactoryBase A T) (className : Text) : Bool :=
  (f.mappings.lookup className).isSome

def install (className : Text) (creator : CreatorMethod A T) :
    Throwing (FactoryBase A T) Exn Unit := do
  let f ← get
  if (f.mappings.lookup className).isSome then
    throw (.logic (f.hierarchyName ++ txt ": Duplicate initialization for identifier \"" ++
      className ++ txt "\"."))
  else
    set { f with mappings := (className, creator) :: f.mappings }

def create (f : FactoryBase A T) (className : Text) (args : A) : Except Exn T :=
  match f.mappings.lookup className with
  | none => .error (.runtime (f.hierarchyName ++ txt ": Unknown message type: \"" ++ className ++
      txt "\"."))
  | some creator => creator args

variable {f : FactoryBase A T} {className : Text} {creator : CreatorMethod A T}

theorem contains_of_lookup (h : f.mappings.lookup className = some creator) :
    f.contains className = true := by
  rw [contains, h, Option.isSome_some]

theorem create_of_lookup (h : f.mappings.lookup className = some creator) (args : A) :
    f.create className args = creator args := by
  rw [create, h]

theorem install_cases (className : Text) (creator : CreatorMethod A T) (f : FactoryBase A T) :
    (∃ e, (install className creator).run f = (.error e, f)) ∨
    (f.mappings.lookup className = none ∧ (install className creator).run f =
      (.ok (), { f with mappings := (className, creator) :: f.mappings })) := by
  cases h : f.mappings.lookup className with
  | none => exact .inr ⟨rfl, by simp [install, h]⟩
  | some _ => exact .inl ⟨_, by simp [install, h]; rfl⟩

/-- Install several classes, one after the other. -/
def installAll (classes : List (Text × CreatorMethod A T)) : Throwing (FactoryBase A T) Exn Unit :=
  forM classes fun i => install i.1 i.2

theorem installAll_cons {i : Text × CreatorMethod A T} {classes : List (Text × CreatorMethod A T)}
    {f' : FactoryBase A T} (hrun : (installAll (i :: classes)).run f = (.ok (), f')) :
    f.mappings.lookup i.1 = none ∧
      (installAll classes).run { f with mappings := i :: f.mappings } = (.ok (), f') := by
  rw [installAll, List.forM_cons] at hrun
  rcases install_cases i.1 i.2 f with ⟨e, he⟩ | ⟨hnone, hok⟩
  · rw [Throwing.run_bind_of_error he] at hrun
    cases hrun
  · rw [Throwing.run_bind_of_ok hok] at hrun
    exact ⟨hnone, hrun⟩

/-- What has been installed stays installed. -/
theorem lookup_of_installAll {classes : List (Text × CreatorMethod A T)} {f f' : FactoryBase A T}
    (hrun : (installAll classes).run f = (.ok (), f'))
    (h : f.mappings.lookup className = some creator) :
    f'.mappings.lookup className = some creator := by
  induction classes generalizing f with
  | nil =>
    obtain rfl : f = f' := congrArg Prod.snd hrun
    exact h
  | cons i classes ih =>
    obtain ⟨hnone, hrun⟩ := installAll_cons hrun
    refine ih hrun ?_
    have hne : className ≠ i.1 := by
      rintro rfl
      rw [hnone] at h
      cases h
    rw [List.lookup_cons, beq_eq_false_iff_ne.mpr hne]
    exact h

/-- A class that has been installed is found. -/
theorem lookup_of_mem_installAll {classes : List (Text × CreatorMethod A T)}
    {f f' : FactoryBase A T} (hrun : (installAll classes).run f = (.ok (), f'))
    (h : (className, creator) ∈ classes) : f'.mappings.lookup className = some creator := by
  induction classes generalizing f with
  | nil => cases h
  | cons i classes ih =>
    obtain ⟨-, hrun⟩ := installAll_cons hrun
    rcases List.mem_cons.mp h with rfl | h
    · refine lookup_of_installAll hrun ?_
      rw [List.lookup_cons, beq_self_eq_true]
    · exact ih hrun h

end FactoryBase

end Ssoa
