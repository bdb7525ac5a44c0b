import CallEffects.Convention.Registry

/-!
# Convention detectors

A detector is asked about a callee that has no convention, and may register and assign whatever it
finds; leaving the callee unassigned is a valid answer. It may do anything to the registry but take
back what is registered, and may go by what it has been asked before. `fixed` assigns one convention
to every callee, to indirect calls only if it is told to guess. `rules` follows a table that says,
for a callee asked about, which presets to assign to which callees.
-/

namespace CallEffects

structure Detector where
  /-- The registry after a question; `asked` are the earlier ones that are remembered. -/
  detect (asked : List Callee) (callee : Callee) (cs : Conventions) : Conventions
  /-- Whether the questions are remembered. -/
  remembers : Bool
  extends_detect (asked : List Callee) (callee : Callee) (cs : Conventions) :
    cs.Extends (detect asked callee cs)

structure DetectorRule where
  asked : Callee
  assignments : List (Callee × String)
deriving DecidableEq, Repr

namespace Detector

/-- Knows no convention for the architecture. -/
def silent : Detector where
  detect _ _ cs := cs
  remembers := false
  extends_detect _ _ cs := .refl cs

def fixed (c : Convention) (guessIndirect : Bool) : Detector where
  detect _ callee cs :=
    if callee.isIndirect && !guessIndirect then cs
    else
      let (id, cs) := cs.register c
      cs.assign callee id
  remembers := false
  extends_detect _ callee cs := by
    split
    · exact .refl cs
    · exact cs.extends_register c

/-- The platform convention of an architecture. -/
def ofArchitecture (arch : Architecture) (guessIndirect : Bool) : Detector :=
  match Convention.defaultFor? arch with
  | some c => .fixed c guessIndirect
  | none => .silent

def assignPreset (cs : Conventions) (callee : Callee) (name : String) : Conventions :=
  match cs.registerPreset name with
  | some (id, cs) => cs.assign callee id
  | none => cs

theorem extends_assignPreset (cs : Conventions) (callee : Callee) (name : String) :
    cs.Extends (assignPreset cs callee name) := by
  unfold assignPreset
  split
  · next id cs' h =>
    obtain ⟨c, -, hc⟩ := Option.map_eq_some_iff.mp h
    have hregister := cs.extends_register c
    rw [hc] at hregister
    exact hregister
  · exact .refl cs

def rules (table : List DetectorRule) : Detector where
  detect _ callee cs :=
    (table.filter (·.asked == callee)).foldl
      (fun cs rule => rule.assignments.foldl (fun cs (c, name) => assignPreset cs c name) cs) cs
  remembers := true
  extends_detect _ _ cs := by
    apply Conventions.extends_foldl
    intro cs rule
    exact Conventions.extends_foldl
      (fun cs (x : Callee × String) => extends_assignPreset cs x.1 x.2) _ cs

end Detector

end CallEffects
