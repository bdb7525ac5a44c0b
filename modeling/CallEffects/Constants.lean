import CallEffects.Statement

/-!
# Known constants

A table of the locations known to hold a constant at one point of a function, and what a statement
does to it. A call that is not followed by a statement of a call hook destroys every fact; a hooked
call loses only what the hook's statements kill, write or rebase, as these follow it. Moving the
stack pointer by `delta` renames the slot at `o` to `o - delta` and moves a known pointer along.
-/

namespace CallEffects

open Std

abbrev Constants := ExtTreeMap Location UInt64

namespace Constants

instance : LawfulBEq Constants := inferInstance

def set (known : Constants) (l : Location) : Option UInt64 → Constants
  | some v => known.insert l v
  | none => known.erase l

/-- The facts both tables agree on. -/
def meet (known other : Constants) : Constants := known.filter fun l v => other[l]? == some v

def shiftLocation (delta : Int64) : Location → Location
  | .stack offset => .stack (offset - delta)
  | l => l

def shiftStack (known : Constants) (delta : Int64) : Constants :=
  ExtTreeMap.ofList (known.toList.map fun (l, v) => (shiftLocation delta l, v))

def evaluate (known : Constants) : Value → Option UInt64
  | .constant v => some v
  | .location l => known[l]?

def adjustStack (known : Constants) (pointer : Location) (delta : Int64) : Constants :=
  (known.shiftStack delta).set pointer ((known[pointer]?).map (· + delta.toUInt64))

@[simp] theorem getElem?_set_self (known : Constants) (l : Location) (v : Option UInt64) :
    (known.set l v)[l]? = v := by
  cases v <;> simp [set]

theorem getElem?_set_of_ne (known : Constants) {l k : Location} (v : Option UInt64)
    (h : l ≠ k) : (known.set l v)[k]? = known[k]? := by
  cases v <;> simp [set, ExtTreeMap.getElem?_insert, ExtTreeMap.getElem?_erase, h]

theorem getElem?_meet_eq_some_iff (known other : Constants) (l : Location) (v : UInt64) :
    (known.meet other)[l]? = some v ↔ known[l]? = some v ∧ other[l]? = some v := by
  rw [meet, ExtTreeMap.getElem?_filter']
  simp [Option.filter_eq_some_iff]

end Constants

/-- Whether the statement after a call belongs to a call hook. -/
def isHookedCall (next : Option Statement) : Bool :=
  next.any fun s => s.origin == .synthetic .call

/-- The effect of a statement, given the one after it. -/
def Statement.transfer (s : Statement) (next : Option Statement) (known : Constants) : Constants :=
  match s.kind with
  | .assign dst src => known.set dst (known.evaluate src)
  | .call _ => if isHookedCall next then known else ∅
  | .touch location .write | .kill location => known.set location none
  | .adjustStack pointer delta => known.adjustStack pointer delta
  | .touch _ .read | .ret _ | .jump | .nop => known

/-- Pushes the facts through a run of statements. -/
def walk : List Statement → Constants → Constants
  | [], known => known
  | s :: rest, known => walk rest (s.transfer rest.head? known)

/-- Every statement of a run with the one after it and the facts known before it. -/
def statesBefore : List Statement → Constants → List (Statement × Option Statement × Constants)
  | [], _ => []
  | s :: rest, known =>
    (s, rest.head?, known) :: statesBefore rest (s.transfer rest.head? known)

end CallEffects
