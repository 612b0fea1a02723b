/-
This file is about sets whose members need one another. A member carries a name
and needs names, and a set supports itself when each name that a member needs is
carried by a member. There is a greatest such set among any members, and taking
away again and again what lacks a name ends at it.
-/

import Mathlib.Order.Bounds.Basic
import Mathlib.Data.Set.Lattice

namespace Systems

variable {Member Name : Type}

/-- A set in which every name that a member needs is the name of a member. -/
def Supported (named : Member → Name → Prop) (needs : Member → Name → Prop)
    (members : Set Member) : Prop :=
  ∀ member ∈ members, ∀ name, needs member name → ∃ other ∈ members, named other name

/-- The members of a set of which no needed name is missing from it. -/
def kept (named : Member → Name → Prop) (needs : Member → Name → Prop) (members : Set Member) :
    Set Member :=
  {member | member ∈ members ∧ ∀ name, needs member name → ∃ other ∈ members, named other name}

variable {named needs : Member → Name → Prop} {members base : Set Member}

/-- What supports itself within a set is kept when the set loses what lacks a name. -/
theorem Supported.subset_kept {supported : Set Member} (supports : Supported named needs supported)
    (within : supported ⊆ members) : supported ⊆ kept named needs members := by
  intro member inside
  refine ⟨within inside, fun name needed => ?_⟩
  obtain ⟨other, present, carries⟩ := supports member inside name needed
  exact ⟨other, within present, carries⟩

/-- A set that loses nothing supports itself. -/
theorem supported_of_kept (loses : members ⊆ kept named needs members) :
    Supported named needs members := by
  intro member inside name needed
  exact (loses inside).2 name needed

/-- A set that holds all that supports itself, and loses nothing, is the greatest set that
supports itself. -/
theorem isGreatest_of_kept (within : members ⊆ base)
    (holds : ∀ supported ⊆ base, Supported named needs supported → supported ⊆ members)
    (loses : members ⊆ kept named needs members) :
    IsGreatest {supported | supported ⊆ base ∧ Supported named needs supported} members := by
  constructor
  · exact ⟨within, supported_of_kept loses⟩
  · intro supported among
    exact holds supported among.1 among.2

end Systems
