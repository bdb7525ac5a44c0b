import CallEffects.Proofs.Resolution

/-!
# Known constants hold when the code runs

A run of a function starts at its entry block with any store and follows statements and edges. What
a call without a hook, a write or a kill leaves behind is not fixed, and neither is the value of a
stack slot whose offset would leave the range of offsets. Along every run the facts carried to a
point hold of the store there: a statement keeps this, and the facts at the entry of a block are
within those at the exit of each of its predecessors.
-/

namespace CallEffects

open Std

/-! ## Offsets in range -/

/-- A stack slot keeps an offset in range when the stack pointer moves. -/
def Location.Fits (delta : Int64) : Location → Prop
  | .stack offset => Int64.minValue.toInt ≤ offset.toInt - delta.toInt ∧
      offset.toInt - delta.toInt ≤ Int64.maxValue.toInt
  | _ => True

instance (delta : Int64) : (l : Location) → Decidable (l.Fits delta)
  | .stack _ => inferInstanceAs (Decidable (_ ∧ _))
  | .register _ | .memory _ | .flags => inferInstanceAs (Decidable True)

/-- A move of the stack pointer keeps the offsets of all slots with a known value in range. -/
def StatementKind.Fits (known : Constants) : StatementKind → Prop
  | .adjustStack _ delta => ∀ x ∈ known.toList, x.1.Fits delta
  | _ => True

instance (known : Constants) : (kind : StatementKind) → Decidable (kind.Fits known)
  | .adjustStack _ delta => inferInstanceAs (Decidable (∀ x ∈ known.toList, x.1.Fits delta))
  | .assign .. | .call _ | .ret _ | .jump | .nop | .touch .. | .kill _ =>
    inferInstanceAs (Decidable True)

/-- Wherever the function moves the stack pointer the offsets stay in range. -/
def Function.OffsetsFit (f : Function) : Prop :=
  ∀ x ∈ f.reachableStates f.blockFacts, x.1.kind.Fits x.2.2

instance (f : Function) : Decidable f.OffsetsFit :=
  inferInstanceAs (Decidable (∀ x ∈ f.reachableStates f.blockFacts, x.1.kind.Fits x.2.2))

/-! ## Stores -/

/-- What the locations hold at one point of a run. -/
abbrev Store := Location → UInt64

namespace Store

variable {σ σ' : Store} {known : Constants} {l : Location}

def evaluate (σ : Store) : Value → UInt64
  | .constant v => v
  | .location l => σ l

/-- Only the location may have changed. -/
def SameExcept (σ σ' : Store) (l : Location) : Prop := ∀ k, k ≠ l → σ' k = σ k

/-- The slots are renamed and the pointer is moved at once: a pointer that is a slot itself keeps
its name. -/
structure Moved (σ σ' : Store) (pointer : Location) (delta : Int64) : Prop where
  pointer_eq : σ' pointer = σ pointer + delta.toUInt64
  slot : ∀ offset : Int64, (Location.stack offset).Fits delta →
    .stack (offset - delta) ≠ pointer → σ' (.stack (offset - delta)) = σ (.stack offset)
  other : ∀ k : Location, k.isStack = false → k ≠ pointer → σ' k = σ k

def Meets (σ : Store) (known : Constants) : Prop :=
  ∀ (l : Location) (v : UInt64), known[l]? = some v → σ l = v

theorem meets_empty (σ : Store) : σ.Meets ∅ := by
  intro l v h
  simp at h

theorem Meets.within {known' : Constants} (h : σ.Meets known) (hk : known'.Within known) :
    σ.Meets known' :=
  fun l v hl => h l v (hk l v hl)

theorem Meets.evaluate (h : σ.Meets known) (src : Value) {v : UInt64}
    (hv : known.evaluate src = some v) : σ.evaluate src = v := by
  cases src with
  | constant c => exact Option.some.inj hv
  | location l => exact h l v hv

theorem Meets.set (h : σ.Meets known) (hs : σ.SameExcept σ' l) {x : Option UInt64}
    (hx : ∀ v, x = some v → σ' l = v) : σ'.Meets (known.set l x) := by
  intro k v hk
  by_cases hl : l = k
  · subst hl
    rw [Constants.getElem?_set_self] at hk
    exact hx v hk
  · rw [Constants.getElem?_set_of_ne _ _ hl] at hk
    rw [hs k fun he => hl he.symm]
    exact h k v hk

/-- A slot known after the move was known under its old name. -/
theorem Meets.adjustStack (h : σ.Meets known) {pointer : Location} {delta : Int64}
    (hm : σ.Moved σ' pointer delta) (hfits : ∀ x ∈ known.toList, x.1.Fits delta) :
    σ'.Meets (known.adjustStack pointer delta) := by
  intro k v hk
  unfold Constants.adjustStack at hk
  by_cases hp : pointer = k
  · subst hp
    rw [Constants.getElem?_set_self] at hk
    obtain ⟨w, hw, rfl⟩ := Option.map_eq_some_iff.mp hk
    rw [hm.pointer_eq, h pointer w hw]
  · rw [Constants.getElem?_set_of_ne _ _ hp, Constants.getElem?_shiftStack] at hk
    have hne : k ≠ pointer := fun he => hp he.symm
    cases k with
    | stack offset =>
      have hold := h _ v hk
      have hback := Constants.shiftLocation_neg delta (.stack offset)
      simp only [Constants.shiftLocation, Location.stack.injEq] at hk hold hback
      have hfit := hfits _ (Constants.mem_toList.mpr hk)
      rw [← hold, ← hm.slot (offset - -delta) hfit (by rwa [hback]), hback]
    | register | memory | flags =>
      rw [hm.other _ rfl hne]
      exact h _ v hk

end Store

/-! ## Runs -/

/-- The statement, with the one after it, may turn the store into the other. -/
def Statement.Executes (s : Statement) (next : Option Statement) (σ σ' : Store) : Prop :=
  match s.kind with
  | .assign dst src => σ' dst = σ.evaluate src ∧ σ.SameExcept σ' dst
  | .call _ => isHookedCall next → σ' = σ
  | .touch l .write | .kill l => σ.SameExcept σ' l
  | .adjustStack pointer delta => σ.Moved σ' pointer delta
  | .touch _ .read | .ret _ | .jump | .nop => σ' = σ

/-- Before the statement at the index, or at the end of the block. -/
structure Point where
  block : BlockId
  index : Nat
  store : Store

namespace Function

inductive Step (f : Function) : Point → Point → Prop where
  | statement {b : BlockId} {block : Block} {i : Nat} {s : Statement} {σ σ' : Store}
      (hblock : f.blocks[b]? = some block) (hs : block.statements[i]? = some s)
      (hrun : s.Executes block.statements[i + 1]? σ σ') : Step f ⟨b, i, σ⟩ ⟨b, i + 1, σ'⟩
  | edge {b c : BlockId} {block : Block} {σ : Store} (hblock : f.blocks[b]? = some block)
      (hc : c ∈ block.successors) : Step f ⟨b, block.statements.length, σ⟩ ⟨c, 0, σ⟩

/-- Some run of the function comes to the point. -/
def Arrives (f : Function) (p : Point) : Prop :=
  ∃ σ : Store, Relation.ReflTransGen f.Step ⟨entryBlock, 0, σ⟩ p

def stateAt? (f : Function) (b : BlockId) (i : Nat) :
    Option (Statement × Option Statement × Constants) := do
  let block ← f.blocks[b]?
  let entry ← f.blockFacts[b]?
  (statesBefore block.statements entry)[i]?

end Function

/-! ## Facts inside a block -/

/-- The facts before the statement at the index, those at the end behind the last one. -/
def factsBefore : List Statement → Nat → Constants → Constants
  | s :: rest, i + 1, known => factsBefore rest i (s.transfer rest.head? known)
  | _, _, known => known

section Block

variable {ss : List Statement} {i : Nat} {s : Statement} {known : Constants}

@[simp] theorem factsBefore_zero (ss : List Statement) (known : Constants) :
    factsBefore ss 0 known = known := by
  cases ss <;> rfl

theorem factsBefore_length (ss : List Statement) (known : Constants) :
    factsBefore ss ss.length known = walk ss known := by
  induction ss generalizing known with
  | nil => rfl
  | cons s ss ih => exact ih _

theorem factsBefore_succ (hs : ss[i]? = some s) :
    factsBefore ss (i + 1) known = s.transfer ss[i + 1]? (factsBefore ss i known) := by
  induction ss generalizing i known with
  | nil => cases hs
  | cons x ss ih =>
    cases i with
    | zero =>
      obtain rfl := Option.some.inj hs
      simp [factsBefore, List.head?_eq_getElem?]
    | succ i => exact ih hs

theorem getElem?_statesBefore (ss : List Statement) (i : Nat) (known : Constants) :
    (statesBefore ss known)[i]? = ss[i]?.map fun s => (s, ss[i + 1]?, factsBefore ss i known) := by
  induction ss generalizing i known with
  | nil => rfl
  | cons x ss ih =>
    cases i with
    | zero => simp [statesBefore, List.head?_eq_getElem?]
    | succ i => exact ih i _

end Block

theorem Store.Meets.transfer {σ σ' : Store} {known : Constants} {s : Statement}
    {next : Option Statement} (h : σ.Meets known) (hrun : s.Executes next σ σ')
    (hfits : s.kind.Fits known) : σ'.Meets (s.transfer next known) := by
  obtain ⟨id, address, kind, origin⟩ := s
  cases kind with
  | assign dst src => exact h.set hrun.2 fun v hv => hrun.1.trans (h.evaluate src hv)
  | call target =>
    change σ'.Meets (if isHookedCall next then known else ∅)
    split
    · next hhook =>
      obtain rfl : σ' = σ := hrun hhook
      exact h
    · exact meets_empty σ'
  | touch l access =>
    cases access with
    | read =>
      obtain rfl : σ' = σ := hrun
      exact h
    | write => exact h.set hrun fun v hv => nomatch hv
  | kill l => exact h.set hrun fun v hv => nomatch hv
  | adjustStack pointer delta => exact h.adjustStack hrun hfits
  | ret | jump | nop =>
    obtain rfl : σ' = σ := hrun
    exact h

namespace Function

variable {f : Function} {b : BlockId} {block : Block} {i : Nat} {s : Statement}
variable {entry : Constants} {p p' : Point} {site : CallSite}

theorem stateAt?_eq_some {x : Statement × Option Statement × Constants} :
    f.stateAt? b i = some x ↔ ∃ block entry s, f.blocks[b]? = some block ∧
      f.blockFacts[b]? = some entry ∧ block.statements[i]? = some s ∧
        x = (s, block.statements[i + 1]?, factsBefore block.statements i entry) := by
  simp only [stateAt?, bind, Option.bind_eq_some_iff, getElem?_statesBefore,
    Option.map_eq_some_iff]
  constructor
  · rintro ⟨block, hblock, entry, hentry, s, hs, rfl⟩
    exact ⟨block, entry, s, hblock, hentry, hs, rfl⟩
  · rintro ⟨block, entry, s, hblock, hentry, hs, rfl⟩
    exact ⟨block, hblock, entry, hentry, s, hs, rfl⟩

theorem mem_reachableStates {x : Statement × Option Statement × Constants} :
    x ∈ f.reachableStates f.blockFacts ↔ ∃ b i, f.stateAt? b i = some x := by
  simp only [reachableStates_eq, List.mem_flatMap, Prod.exists]
  constructor
  · rintro ⟨block, b, hmem, hx⟩
    rw [blockStates] at hx
    split at hx
    · cases hx
    · next entry hentry =>
      obtain ⟨i, hi⟩ := List.mem_iff_getElem?.mp hx
      refine ⟨b, i, ?_⟩
      simp only [stateAt?, List.mk_mem_zipIdx_iff_getElem?.mp hmem, hentry, bind,
        Option.bind_some, hi]
  · rintro ⟨b, i, hx⟩
    simp only [stateAt?, bind, Option.bind_eq_some_iff] at hx
    obtain ⟨block, hblock, entry, hentry, hi⟩ := hx
    refine ⟨block, b, List.mk_mem_zipIdx_iff_getElem?.mpr hblock, ?_⟩
    simp only [blockStates, hentry]
    exact List.mem_of_getElem? hi

/-- What a run keeps: its block can be reached, and the facts carried to its point hold. -/
structure Vouched (f : Function) (p : Point) : Prop where
  reached : f.Reaches p.block
  meets : ∀ {block : Block} {entry : Constants}, f.blocks[p.block]? = some block →
    f.blockFacts[p.block]? = some entry →
      p.store.Meets (factsBefore block.statements p.index entry)

theorem vouched_start (f : Function) (σ : Store) : f.Vouched ⟨entryBlock, 0, σ⟩ where
  reached := .refl
  meets {block entry} _ hentry := by
    have hstart := f.blockFacts_solved.agrees.start
    simp only [hentry, Option.getD_some] at hstart
    rw [hstart, factsBefore_zero]
    exact σ.meets_empty

theorem Vouched.step (h : f.Vouched p) (hstep : f.Step p p') (hfits : f.OffsetsFit) :
    f.Vouched p' := by
  cases hstep with
  | statement hblock hs hrun =>
    refine ⟨h.reached, fun {block' entry} hblock' hentry => ?_⟩
    obtain rfl := Option.some.inj (hblock.symm.trans hblock')
    have hstate := mem_reachableStates.mpr
      ⟨_, _, stateAt?_eq_some.mpr ⟨_, _, _, hblock, hentry, hs, rfl⟩⟩
    rw [factsBefore_succ hs]
    exact (h.meets hblock hentry).transfer hrun (hfits _ hstate)
  | @edge b c block σ hblock hc =>
    refine ⟨h.reached.tail ⟨block, hblock, hc⟩, fun {block' entry} _ hentry => ?_⟩
    have hlen := (List.getElem?_eq_some_iff.mp hblock).1
    obtain ⟨old, hold⟩ := f.blockFacts_solved.mem_iff.mpr ⟨h.reached, hlen⟩
    have hedge := f.blockFacts_solved.agrees.edge h.reached hblock hc
    simp only [hold, hentry, Option.getD_some] at hedge
    have hexit := h.meets hblock hold
    rw [factsBefore_length] at hexit
    rw [factsBefore_zero]
    exact hexit.within hedge

theorem Arrives.vouched (h : f.Arrives p) (hfits : f.OffsetsFit) : f.Vouched p := by
  obtain ⟨σ, hrun⟩ := h
  induction hrun with
  | refl => exact f.vouched_start σ
  | tail _ hstep ih => exact ih.step hstep hfits

/-- What is known of a function holds along all its runs: at each statement, and in particular of
the targets its snapshot reports, each of which it reports for one place. -/
structure Truthful (f : Function) : Prop where
  visited : ∀ {p : Point} {block : Block}, f.Arrives p → f.blocks[p.block]? = some block →
    ∃ entry : Constants, f.blockFacts[p.block]? = some entry
  known : ∀ {p : Point} {block : Block} {s : Statement}, f.Arrives p →
    f.blocks[p.block]? = some block → block.statements[p.index]? = some s →
      ∃ known, f.stateAt? p.block p.index = some (s, block.statements[p.index + 1]?, known) ∧
        p.store.Meets known
  calls : ∀ {site : CallSite}, site ∈ (Snapshot.take f).calls ↔
    ∃ b i s next known, f.stateAt? b i = some (s, next, known) ∧
      callSite? s next known = some site
  target : ∀ {p : Point} {s : Statement} {next : Option Statement} {known : Constants}
    {site : CallSite} {l : Location} {a : Address}, f.Arrives p →
      f.stateAt? p.block p.index = some (s, next, known) → callSite? s next known = some site →
        s.kind = .call (.indirect l) → site.target = some a → p.store l = a

theorem Arrives.meets (h : f.Arrives p) (hfits : f.OffsetsFit) {next : Option Statement}
    {known : Constants} (hstate : f.stateAt? p.block p.index = some (s, next, known)) :
    p.store.Meets known := by
  obtain ⟨block, entry, s, hblock, hentry, -, heq⟩ := stateAt?_eq_some.mp hstate
  cases heq
  exact (h.vouched hfits).meets hblock hentry

theorem Arrives.visited (h : f.Arrives p) (hfits : f.OffsetsFit)
    (hblock : f.blocks[p.block]? = some block) :
    ∃ entry : Constants, f.blockFacts[p.block]? = some entry :=
  f.blockFacts_solved.mem_iff.mpr
    ⟨(h.vouched hfits).reached, (List.getElem?_eq_some_iff.mp hblock).1⟩

theorem runs_truthful (f : Function) (hfits : f.OffsetsFit) : f.Truthful where
  visited h hblock := h.visited hfits hblock
  known {p block s} h hblock hs := by
    obtain ⟨entry, hentry⟩ := h.visited hfits hblock
    have hstate := stateAt?_eq_some.mpr ⟨block, entry, s, hblock, hentry, hs, rfl⟩
    exact ⟨_, hstate, h.meets hfits hstate⟩
  calls {site} := by
    simp only [Snapshot.take, List.mem_filterMap, mem_reachableStates]
    constructor
    · rintro ⟨⟨s, next, known⟩, ⟨b, i, hstate⟩, hsite⟩
      exact ⟨b, i, s, next, known, hstate, hsite⟩
    · rintro ⟨b, i, s, next, known, hstate, hsite⟩
      exact ⟨(s, next, known), ⟨b, i, hstate⟩, hsite⟩
  target {p s next known site l a} h hstate hsite hkind ha := by
    obtain ⟨target, hcall, -, htarget⟩ := callSite?_some hsite
    obtain rfl := StatementKind.call.inj (hkind.symm.trans hcall)
    exact h.meets hfits hstate l a (htarget.symm.trans ha)

/-- A loop that calls what a register holds, and whose call hook moves the stack pointer while a
slot is known. -/
def sampleLoop : Function :=
  let start := [Statement.lifted 0 (some 0x1000) (.assign (.register 0) (.constant 0x3000)),
    .lifted 1 (some 0x1004) (.assign (.stack 8) (.constant 7))]
  let body := [Statement.lifted 2 (some 0x1008) (.call (.indirect (.register 0))),
    .synthetic 4 .call (.adjustStack (.register 7) 4), .synthetic 5 .call (.kill (.register 1))]
  let finish := [Statement.lifted 3 (some 0x100c) (.ret 0)]
  ⟨0, "loop", some 0x1000, [⟨some 0x1000, start, [1]⟩, ⟨some 0x1008, body, [1, 2]⟩,
    ⟨some 0x100c, finish, []⟩], 6, 4⟩

theorem sampleLoop_truthful : sampleLoop.OffsetsFit ∧ sampleLoop.Truthful :=
  ⟨by decide +kernel, sampleLoop.runs_truthful (by decide +kernel)⟩

example : (Snapshot.take sampleLoop).calls.map (·.target) = [some 0x3000] := by decide +kernel

end Function

end CallEffects
