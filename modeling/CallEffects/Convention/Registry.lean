import CallEffects.Callee
import CallEffects.Convention

/-!
# The convention registry

Registered conventions are never removed and have different names; the position of a convention is
its id. Callees are assigned ids, and the revision goes up whenever an assignment changes.
-/

namespace CallEffects

open Std

abbrev ConventionId := Nat

def ConventionId.render (id : ConventionId) : String := "cc" ++ toString id

structure Conventions where
  registered : List Convention
  assignments : ExtTreeMap Callee ConventionId
  revision : Nat
deriving DecidableEq

namespace Conventions

def empty : Conventions := ⟨[], ∅, 0⟩

def get? (cs : Conventions) (id : ConventionId) : Option Convention := cs.registered[id]?

def find? (cs : Conventions) (name : String) : Option ConventionId :=
  cs.registered.findIdx? (·.name == name)

/-- A convention whose name is taken is not registered again. -/
def register (cs : Conventions) (c : Convention) : ConventionId × Conventions :=
  match cs.find? c.name with
  | some id => (id, cs)
  | none => (cs.registered.length, { cs with registered := cs.registered ++ [c] })

def registerPreset (cs : Conventions) (name : String) : Option (ConventionId × Conventions) :=
  (Convention.preset? name).map cs.register

def assigned? (cs : Conventions) (callee : Callee) : Option ConventionId := cs.assignments[callee]?

def assign (cs : Conventions) (callee : Callee) (id : ConventionId) : Conventions :=
  { cs with
    assignments := cs.assignments.insert callee id
    revision := if cs.assigned? callee = some id then cs.revision else cs.revision + 1 }

def unassign (cs : Conventions) (callee : Callee) : Option ConventionId × Conventions :=
  (cs.assigned? callee,
    { cs with
      assignments := cs.assignments.erase callee
      revision := if (cs.assigned? callee).isSome then cs.revision + 1 else cs.revision })

/-- The convention of a callee, if it is assigned one that is registered. -/
def lookup? (cs : Conventions) (callee : Callee) : Option (ConventionId × Convention) := do
  let id ← cs.assigned? callee
  let c ← cs.get? id
  some (id, c)

/-- Conventions keep their ids. -/
def Extends (cs cs' : Conventions) : Prop := cs.registered <+: cs'.registered

variable {cs cs' cs'' : Conventions}

theorem Extends.refl (cs : Conventions) : cs.Extends cs := List.prefix_rfl

theorem Extends.trans (h : cs.Extends cs') (h' : cs'.Extends cs'') : cs.Extends cs'' :=
  List.IsPrefix.trans h h'

theorem Extends.get? (h : cs.Extends cs') {id : ConventionId} {c : Convention}
    (hc : cs.get? id = some c) : cs'.get? id = some c := by
  obtain ⟨more, hmore⟩ := h
  have hlt := (List.getElem?_eq_some_iff.mp hc).1
  rw [Conventions.get?, ← hmore, List.getElem?_append_left hlt]
  exact hc

theorem register_cases (cs : Conventions) (c : Convention) :
    (∃ id, cs.find? c.name = some id ∧ cs.register c = (id, cs)) ∨
    (cs.find? c.name = none ∧
      cs.register c = (cs.registered.length, { cs with registered := cs.registered ++ [c] })) := by
  cases hfind : cs.find? c.name with
  | some id => exact .inl ⟨id, rfl, by simp only [register, hfind]⟩
  | none => exact .inr ⟨rfl, by simp only [register, hfind]⟩

theorem extends_register (cs : Conventions) (c : Convention) : cs.Extends (cs.register c).2 := by
  obtain ⟨id, -, heq⟩ | ⟨-, heq⟩ := cs.register_cases c <;> rw [heq]
  · exact .refl cs
  · exact List.prefix_append _ _

theorem extends_foldl {α : Type} {change : Conventions → α → Conventions}
    (h : ∀ (cs : Conventions) x, cs.Extends (change cs x)) (xs : List α) (cs : Conventions) :
    cs.Extends (xs.foldl change cs) := by
  induction xs generalizing cs with
  | nil => exact .refl cs
  | cons x xs ih => exact (h cs x).trans (ih (change cs x))

end Conventions

end CallEffects
