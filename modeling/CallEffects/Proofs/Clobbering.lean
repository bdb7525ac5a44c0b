import CallEffects.Hook
import CallEffects.Proofs.ConstantOrder

/-!
# What a hooked call destroys

The statements of a call hook contain no call, so what they do to the known constants depends on
their kinds only and can be worked out list by list: reading arguments changes nothing, kills and
writes take facts away, and moving the stack pointer renames slots. Kills leave out what carries a
return value, and writes make up for it, so that nothing is left on the locations that the hook
declares and everything else has only moved with the stack.
-/

namespace CallEffects

open Std

namespace Constants

variable {known : Constants} {l : Location} {locations more : List Location}

def without (known : Constants) (locations : List Location) : Constants :=
  known.filter fun l _ => !locations.contains l

theorem getElem?_without (known : Constants) (locations : List Location) (l : Location) :
    (known.without locations)[l]? = if l ∈ locations then none else known[l]? := by
  rw [without, ExtTreeMap.getElem?_filter']
  cases known[l]? <;> by_cases hl : l ∈ locations <;> simp [hl]

theorem without_nil (known : Constants) : known.without [] = known := by
  apply ExtTreeMap.ext_getElem?
  intro l
  rw [getElem?_without, if_neg List.not_mem_nil]

theorem without_without (known : Constants) (locations more : List Location) :
    (known.without locations).without more = known.without (locations ++ more) := by
  apply ExtTreeMap.ext_getElem?
  intro l
  rw [getElem?_without, getElem?_without, getElem?_without, ← ite_or]
  exact if_congr (or_comm.trans List.mem_append.symm) rfl rfl

theorem without_congr (h : ∀ l, l ∈ locations ↔ l ∈ more) :
    known.without locations = known.without more := by
  apply ExtTreeMap.ext_getElem?
  intro l
  rw [getElem?_without, getElem?_without]
  exact if_congr (h l) rfl rfl

theorem set_none_eq_without (known : Constants) (l : Location) :
    known.set l none = known.without [l] := by
  apply ExtTreeMap.ext_getElem?
  intro k
  rw [getElem?_without]
  by_cases hk : l = k
  · subst hk
    rw [getElem?_set_self, if_pos (List.mem_singleton_self _)]
  · rw [getElem?_set_of_ne _ _ hk, if_neg]
    exact fun hmem => hk (List.mem_singleton.mp hmem).symm

/-- What the slot at the offset holds. There are no slots beyond the range of offsets. -/
def slot? (known : Constants) (offset : Int) : Option UInt64 :=
  if Int64.minValue.toInt ≤ offset ∧ offset ≤ Int64.maxValue.toInt then
    known[Location.stack (Int64.ofInt offset)]?
  else none

/-- No slot with a known value leaves the range of offsets when the stack pointer is raised. -/
def Fits (known : Constants) (n : Nat) : Prop :=
  ∀ (offset : Int64) (v : UInt64), known[Location.stack offset]? = some v →
    Int64.minValue.toInt ≤ offset.toInt - n

/-- The stack pointer has been raised by `n`; a pointer that is a slot itself keeps its name. -/
structure Raised (known known' : Constants) (pointer : Location) (n : Nat) : Prop where
  pointer_eq : known'[pointer]? = (known[pointer]?).map (· + UInt64.ofNat n)
  slot : known.Fits n → ∀ offset : Int64, .stack offset ≠ pointer →
    known'[Location.stack offset]? = known.slot? (offset.toInt + n)
  /-- Offsets that leave their range wrap around. -/
  wraps : ∀ offset : Int64, .stack offset ≠ pointer →
    known'[Location.stack offset]? = known[Location.stack (offset + Int64.ofNat n)]?
  other : ∀ l : Location, l ≠ pointer → l.isStack = false → known'[l]? = known[l]?

/-- As long as offsets stay in range the slot is found where the sum says. -/
theorem Fits.slot?_add (h : known.Fits n) (offset : Int64) :
    known.slot? (offset.toInt + n) = known[Location.stack (offset + Int64.ofNat n)]? := by
  have hmin : Int64.minValue.toInt = -2 ^ 63 := rfl
  have hmax : Int64.maxValue.toInt = 2 ^ 63 - 1 := rfl
  have hlow := offset.le_toInt
  have hhigh := offset.toInt_lt
  have hofNat : (Int64.ofNat n).toInt = (n : Int).bmod (2 ^ 64) := Int64.toInt_ofNat'
  have hadd : (offset + Int64.ofNat n).toInt = (offset.toInt + n).bmod (2 ^ 64) := by
    rw [Int64.toInt_add, hofNat, Int.add_bmod_bmod]
  unfold slot?
  split
  · next hrange =>
    congr 2
    apply Int64.toInt_inj.mp
    exact Int64.toInt_ofInt.trans hadd.symm
  · next hrange =>
    symm
    cases hv : known[Location.stack (offset + Int64.ofNat n)]? with
    | none => rfl
    | some v =>
      -- The slot would have come from an offset below the range.
      have hfit := h _ v hv
      have hsum := (offset + Int64.ofNat n).toInt_lt
      rw [hadd] at hfit hsum
      have hmod : (offset.toInt + n).bmod (2 ^ 64) % (2 ^ 64 : Nat) =
          (offset.toInt + n) % (2 ^ 64 : Nat) := Int.bmod_emod
      omega

theorem raised_of_wraps {known known' : Constants} {pointer : Location} {n : Nat}
    (hpointer : known'[pointer]? = (known[pointer]?).map (· + UInt64.ofNat n))
    (hother : ∀ l : Location, l ≠ pointer →
      known'[l]? = known[shiftLocation (-Int64.ofNat n) l]?) : known.Raised known' pointer n where
  pointer_eq := hpointer
  wraps offset hne := by
    rw [hother _ hne, shiftLocation]
    congr 2
    grind
  slot hfits offset hne := by
    rw [hother _ hne, shiftLocation, hfits.slot?_add]
    congr 2
    grind
  other l hne hl := by
    rw [hother l hne]
    cases l with
    | stack offset => cases hl
    | register | memory | flags => rfl

theorem raised_adjustStack (known : Constants) (pointer : Location) (n : Nat) :
    known.Raised (known.adjustStack pointer (Int64.ofNat n)) pointer n := by
  have hword : (Int64.ofNat n).toUInt64 = UInt64.ofNat n := rfl
  apply raised_of_wraps
  · rw [adjustStack, getElem?_set_self, hword]
  · intro l hne
    rw [adjustStack, getElem?_set_of_ne _ _ fun he => hne he.symm]
    apply Option.ext
    exact getElem?_shiftStack known (Int64.ofNat n) l

theorem raised_zero (known : Constants) (pointer : Location) : known.Raised known pointer 0 := by
  apply raised_of_wraps
  · cases known[pointer]? <;> simp
  · intro l _
    cases l <;> simp [shiftLocation]

end Constants

/-! ## Hook statements -/

namespace StatementKind

variable {known : Constants} {locations : List Location}

/-- What a statement of the kind does to the known constants, unless it is a call. -/
def apply (known : Constants) (kind : StatementKind) : Constants :=
  (Statement.lifted 0 none kind).transfer none known

theorem foldl_read (locations : List Location) (known : Constants) :
    (touches .read locations).foldl apply known = known := by
  induction locations with
  | nil => rfl
  | cons l locations ih => exact ih

theorem foldl_destroy {kind : Location → StatementKind}
    (hkind : ∀ (l : Location) (known : Constants), apply known (kind l) = known.set l none)
    (locations : List Location) (known : Constants) :
    (locations.map kind).foldl apply known = known.without locations := by
  induction locations generalizing known with
  | nil => exact known.without_nil.symm
  | cons l locations ih =>
    rw [List.map_cons, List.foldl_cons, ih, hkind, Constants.set_none_eq_without,
      Constants.without_without]
    rfl

end StatementKind

/-- A run without calls depends on the kinds of its statements only. -/
theorem walk_eq_foldl {ss : List Statement} {known : Constants}
    (h : ∀ s ∈ ss, s.kind.isCall = false) :
    walk ss known = (ss.map (·.kind)).foldl StatementKind.apply known := by
  induction ss generalizing known with
  | nil => rfl
  | cons s ss ih =>
    have hone : s.transfer ss.head? known = StatementKind.apply known s.kind := by
      have hs := h s List.mem_cons_self
      unfold StatementKind.apply Statement.transfer
      cases hk : s.kind with
      | call target =>
        rw [hk] at hs
        cases hs
      | touch l access => cases access <;> rfl
      | _ => rfl
    rw [walk, hone, ih fun t ht => h t (List.mem_cons_of_mem _ ht)]
    rfl

namespace Convention

theorem callEffects_raised (c : Convention) (signature : Option CallSignature)
    (adjustment : Option Nat) (known : Constants) :
    (known.without (c.clobbered ++ (c.callEffects signature adjustment).returnValues)).Raised
      ((c.callEffects signature adjustment).kinds.foldl StatementKind.apply known) c.stackPointer
      (c.callEffects signature adjustment).cleanup := by
  generalize heffects : c.callEffects signature adjustment = e
  have hkilled : e.killed = c.clobbered.filter fun l => !e.returnValues.contains l := by
    rw [← heffects]
    rfl
  have hkinds : e.kinds = touches .read e.arguments ++ e.killed.map .kill ++
      touches .write e.returnValues ++ if e.cleanup = 0 then []
        else [.adjustStack c.stackPointer (Int64.ofNat e.cleanup)] := by
    rw [← heffects]
    rfl
  have hgone : ∀ l, l ∈ e.killed ++ e.returnValues ↔ l ∈ c.clobbered ++ e.returnValues := by
    intro l
    rw [hkilled]
    by_cases hl : l ∈ e.returnValues <;> simp [hl]
  have hkills : ∀ known, (e.killed.map StatementKind.kill).foldl StatementKind.apply known =
      known.without e.killed := StatementKind.foldl_destroy (fun _ _ => rfl) e.killed
  have hwrites : ∀ known, (touches .write e.returnValues).foldl StatementKind.apply known =
      known.without e.returnValues := StatementKind.foldl_destroy (fun _ _ => rfl) e.returnValues
  rw [hkinds, List.foldl_append, List.foldl_append, List.foldl_append, StatementKind.foldl_read,
    hkills, hwrites, Constants.without_without, Constants.without_congr hgone]
  split
  · next hzero =>
    rw [hzero]
    exact Constants.raised_zero _ _
  · exact Constants.raised_adjustStack _ _ _

theorem callEffects_kinds_not_call (c : Convention) (signature : Option CallSignature)
    (adjustment : Option Nat) :
    ∀ kind ∈ (c.callEffects signature adjustment).kinds, kind.isCall = false := by
  intro kind hkind
  simp only [callEffects, touches, List.mem_append, List.mem_map] at hkind
  rcases hkind with ((⟨l, -, rfl⟩ | ⟨l, -, rfl⟩) | ⟨l, -, rfl⟩) | hkind
  · rfl
  · rfl
  · rfl
  · split at hkind
    · cases hkind
    · rw [List.mem_singleton.mp hkind]
      rfl

end Convention

namespace Hook

variable {target : CallTarget} {c : Convention} {signature : Option CallSignature}
variable {adjustment : Option Nat}

theorem build_kinds (id : HookId) (plan : Plan) (f : Function) :
    (build id plan f).1.statements.map (·.kind) = plan.effects.kinds := by
  simp only [build, List.map_map]
  exact List.zipIdx_map_fst _ _

/-- Right behind its call the hook of a call with statements destroys what it declares and nothing
else: nothing is known any more of what the convention clobbers and of the return values, and all
that is left has moved with the stack pointer by the cleanup. -/
theorem hooked_call_destroys_declared (id : HookId) (plan : Plan) (f : Function)
    (hanchor : plan.key.anchor.kind = .call)
    (heffects : plan.effects = c.callEffects signature adjustment)
    (hne : (build id plan f).1.statements ≠ []) (call : Statement)
    (hcall : call.kind = .call target) (known : Constants) :
    (known.without (c.clobbered ++ (build id plan f).1.effects.returnValues)).Raised
      (walk (call :: (build id plan f).1.statements) known) c.stackPointer
      (build id plan f).1.effects.cleanup := by
  have hkinds := build_kinds id plan f
  have hhooked : isHookedCall (build id plan f).1.statements.head? := by
    obtain ⟨s, rest, hs⟩ := List.exists_cons_of_ne_nil hne
    have hmem : s ∈ (build id plan f).1.statements := hs ▸ List.mem_cons_self
    obtain ⟨x, -, rfl⟩ := List.mem_map.mp hmem
    simp [hs, isHookedCall, Statement.synthetic, hanchor]
  have hplain : ∀ s ∈ (build id plan f).1.statements, s.kind.isCall = false := by
    intro s hs
    have hkind : s.kind ∈ (c.callEffects signature adjustment).kinds := by
      rw [← heffects, ← hkinds]
      exact List.mem_map_of_mem hs
    exact c.callEffects_kinds_not_call signature adjustment _ hkind
  have hpast : call.transfer (build id plan f).1.statements.head? known = known := by
    rw [Statement.transfer, hcall]
    exact if_pos hhooked
  have hbuilt : (build id plan f).1.effects = c.callEffects signature adjustment := heffects
  rw [walk, hpast, walk_eq_foldl hplain, hkinds, heffects, hbuilt]
  exact c.callEffects_raised signature adjustment known

/-- A call that releases eight bytes, seen by what is known of the stack pointer, a slot, a register
that it clobbers and one that it leaves alone. -/
theorem stdcall_keeps_moved_slot :
    let plan := Plan.ofCall ⟨0, 0⟩ (1, .stdcall) none (some 8)
    let hook := (build ⟨.call, 0⟩ plan (.empty 0 "caller" none)).1
    let facts : List (Location × UInt64) :=
      [(.register 4, 0x1000), (.stack 8, 5), (.register 1, 3), (.register 6, 7)]
    let known : Constants := ExtTreeMap.ofList facts
    let after := walk (.lifted 0 none (.call (.direct 0x2000)) :: hook.statements) known
    after[Location.register 4]? = some 0x1008 ∧ after[Location.stack 0]? = some 5 ∧
      after[Location.register 1]? = none ∧ after[Location.register 6]? = some 7 := by
  intro plan hook facts known after
  have hraised := hooked_call_destroys_declared (c := .stdcall) ⟨.call, 0⟩ plan
    (.empty 0 "caller" none) rfl rfl (by decide) (.lifted 0 none (.call (.direct 0x2000))) rfl known
  have hlist : (known.without (Convention.stdcall.clobbered ++ hook.effects.returnValues)).toList =
      [(.register 4, 0x1000), (.register 6, 7), (.stack 8, 5)] := by
    decide +kernel
  have hfits : (known.without (Convention.stdcall.clobbered ++ hook.effects.returnValues)).Fits
      hook.effects.cleanup := by
    intro offset v hv
    rw [← ExtTreeMap.mem_toList_iff_getElem?_eq_some, hlist] at hv
    obtain ⟨rfl, -⟩ : offset = 8 ∧ v = 5 := by simpa using hv
    decide
  refine ⟨hraised.pointer_eq.trans ?_, (hraised.slot hfits 0 ?_).trans ?_,
    (hraised.other (.register 1) ?_ rfl).trans ?_, (hraised.other (.register 6) ?_ rfl).trans ?_⟩
  all_goals decide +kernel

end Hook

end CallEffects
