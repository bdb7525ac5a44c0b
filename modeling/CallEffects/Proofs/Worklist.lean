import CallEffects.Constants.Propagation
import CallEffects.Proofs.ConstantOrder
import Mathlib.Algebra.BigOperators.Ring.List
import Mathlib.Algebra.Order.BigOperators.Group.List
import Mathlib.Algebra.Order.Group.Nat
import Mathlib.Algebra.Ring.Nat
import Mathlib.Logic.Relation

/-!
# Constant propagation ends with the best solution

`Progress.Sound` is what every visit of a block keeps. A block that does not wait has the entry
facts that the exits of its predecessors call for, so once no block waits the entry facts solve the
flow equations, and they are the best solution: whatever agrees with the flow is within them.
`Progress.load` counts the blocks that may still be put on the stack. Each step lowers it and the
budget is the load at the start, so that none waits in the end.
-/

namespace CallEffects

open Std

namespace Function

/-- Control may go from one block to the other. -/
def Edge (f : Function) (q b : BlockId) : Prop :=
  ∃ block, f.blocks[q]? = some block ∧ b ∈ block.successors

abbrev Reaches (f : Function) : BlockId → Prop := Relation.ReflTransGen f.Edge entryBlock

def total (f : Function) (g : Block × BlockId → Nat) : Nat := (f.blocks.zipIdx.map g).sum

variable {f : Function} {g g' : Block × BlockId → Nat} {b : BlockId} {block : Block}

theorem total_le (h : ∀ x, g x ≤ g' x) : f.total g ≤ f.total g' :=
  List.sum_le_sum fun x _ => h x

theorem total_add_le (hb : f.blocks[b]? = some block) {d : Nat}
    (hd : g (block, b) + d ≤ g' (block, b))
    (h : ∀ x, g x ≤ g' x) : f.total g + d ≤ f.total g' := by
  have hall : ∀ xs : List (Block × BlockId), (block, b) ∈ xs →
      (xs.map g).sum + d ≤ (xs.map g').sum := by
    intro xs hx
    induction xs with
    | nil => cases hx
    | cons y ys ih =>
      rw [List.map_cons, List.map_cons, List.sum_cons, List.sum_cons]
      rcases List.mem_cons.mp hx with rfl | hx
      · have hrest : (ys.map g).sum ≤ (ys.map g').sum := List.sum_le_sum fun x _ => h x
        omega
      · have hrest := ih hx
        have hy := h y
        omega
  exact hall _ (List.mk_mem_zipIdx_iff_getElem?.mpr hb)

theorem total_fst (f : Function) (g : Block → Nat) :
    f.total (fun x => g x.1) = (f.blocks.map g).sum := by
  have hzip : f.blocks.zipIdx.map (fun x => g x.1) = (f.blocks.zipIdx.map (·.1)).map g := by
    rw [List.map_map]
    rfl
  rw [total, hzip, List.zipIdx_map_fst]

end Function

namespace Propagation

variable {f : Function} {p p' : Progress} {b c q : BlockId} {block : Block} {entry exit : Constants}
variable {l : Location} {v : UInt64}

theorem mem_predecessors : q ∈ predecessors f b ↔ f.Edge q b := by
  simp only [predecessors, List.mem_flatMap, List.mem_map, List.mem_filter, beq_iff_eq]
  constructor
  · rintro ⟨⟨block, i⟩, hmem, s, ⟨hs, rfl⟩, rfl⟩
    exact ⟨block, List.mk_mem_zipIdx_iff_getElem?.mp hmem, hs⟩
  · rintro ⟨block, hblock, hb⟩
    exact ⟨(block, q), List.mk_mem_zipIdx_iff_getElem?.mpr hblock, b, ⟨hb, rfl⟩, rfl⟩

theorem getElem?_foldl_meet (c : Constants) (cs : List Constants) :
    (cs.foldl Constants.meet c)[l]? = some v ↔ ∀ d ∈ c :: cs, d[l]? = some v := by
  induction cs generalizing c with
  | nil => simp
  | cons d cs ih =>
    rw [List.foldl_cons, ih]
    simp [Constants.getElem?_meet_eq_some_iff, and_assoc]

theorem getElem?_meetAll {cs : List Constants} (hne : cs ≠ []) :
    (meetAll cs)[l]? = some v ↔ ∀ known ∈ cs, known[l]? = some v := by
  cases cs with
  | nil => exact absurd rfl hne
  | cons c cs => exact getElem?_foldl_meet c cs

/-! ## Entry facts -/

namespace Progress

/-- A predecessor of the block has been visited. -/
def Served (p : Progress) (f : Function) (b : BlockId) : Prop :=
  ∃ (q : BlockId) (exit : Constants), f.Edge q b ∧ p.exits[q]? = some exit

@[simp] theorem entryFacts_entryBlock : p.entryFacts f Function.entryBlock = ∅ := if_pos rfl

theorem getElem?_entryFacts (hb : b ≠ Function.entryBlock) (hs : p.Served f b) :
    (p.entryFacts f b)[l]? = some v ↔
      ∀ (q : BlockId) (exit : Constants), f.Edge q b → p.exits[q]? = some exit →
        exit[l]? = some v := by
  have hmem : ∀ exit, exit ∈ (predecessors f b).filterMap (fun q => p.exits[q]?) ↔
      ∃ q, f.Edge q b ∧ p.exits[q]? = some exit := by
    intro exit
    simp only [List.mem_filterMap, mem_predecessors]
  have hne : (predecessors f b).filterMap (fun q => p.exits[q]?) ≠ [] := by
    obtain ⟨q, exit, hq, hexit⟩ := hs
    exact List.ne_nil_of_mem ((hmem exit).mpr ⟨q, hq, hexit⟩)
  rw [entryFacts, if_neg hb, getElem?_meetAll hne]
  constructor
  · exact fun h q exit hq hexit => h exit ((hmem exit).mpr ⟨q, hq, hexit⟩)
  · intro h exit hexit
    obtain ⟨q, hq, hexit⟩ := (hmem exit).mp hexit
    exact h q exit hq hexit

theorem entryFacts_within (hb : b ≠ Function.entryBlock) (hq : f.Edge q b)
    (hexit : p.exits[q]? = some exit) :
    (p.entryFacts f b).Within exit :=
  fun _ _ hl => (getElem?_entryFacts hb ⟨q, exit, hq, hexit⟩).mp hl q exit hq hexit

theorem entryFacts_congr (h : ∀ q, f.Edge q b → p'.exits[q]? = p.exits[q]?) :
    p'.entryFacts f b = p.entryFacts f b := by
  have hexits : (predecessors f b).filterMap (fun q => p'.exits[q]?) =
      (predecessors f b).filterMap fun q => p.exits[q]? :=
    List.filterMap_congr fun q hq => h q (mem_predecessors.mp hq)
  rw [entryFacts, hexits, entryFacts]

/-- Fewer facts at the exits, and more exits, leave fewer facts at the entries. -/
theorem entryFacts_shrinks (hs : b = Function.entryBlock ∨ p.Served f b)
    (h : ∀ (q : BlockId) (exit : Constants), p.exits[q]? = some exit →
      ∃ exit', p'.exits[q]? = some exit' ∧ Constants.Within exit' exit) :
    (p'.entryFacts f b).Within (p.entryFacts f b) := by
  by_cases hb : b = Function.entryBlock
  · subst hb
    rw [entryFacts_entryBlock, entryFacts_entryBlock]
    exact .refl _
  · have hs := hs.resolve_left hb
    have hs' : p'.Served f b := by
      obtain ⟨q, exit, hq, hexit⟩ := hs
      obtain ⟨exit', hexit', -⟩ := h q exit hexit
      exact ⟨q, exit', hq, hexit'⟩
    intro l v hl
    rw [getElem?_entryFacts hb hs'] at hl
    rw [getElem?_entryFacts hb hs]
    intro q exit hq hexit
    obtain ⟨exit', hexit', hwithin⟩ := h q exit hexit
    exact hwithin l v (hl q exit' hq hexit')

/-! ## What every step keeps -/

def Visited (p : Progress) (b : BlockId) : Prop := ∃ entry : Constants, p.entries[b]? = some entry

/-- The block waits or has been visited. -/
def Seen (p : Progress) (b : BlockId) : Prop := b ∈ p.pending ∨ p.Visited b

def visitedLength (p : Progress) (f : Function) : Nat :=
  f.total fun x => if p.exits.contains x.2 then x.1.statements.length else 0

structure Sound (p : Progress) (f : Function) : Prop where
  walked : ∀ {b : BlockId} {entry : Constants}, p.entries[b]? = some entry →
    ∃ block, f.blocks[b]? = some block ∧ p.exits[b]? = some (walk block.statements entry)
  entered : ∀ {b : BlockId} {exit : Constants}, p.exits[b]? = some exit → p.Visited b
  below : ∀ {b : BlockId} {entry : Constants}, p.entries[b]? = some entry →
    (p.entryFacts f b).Within entry
  settled : ∀ {b : BlockId} {entry : Constants}, p.entries[b]? = some entry → b ∉ p.pending →
    entry = p.entryFacts f b
  served : ∀ {b}, p.Seen b → b = Function.entryBlock ∨ p.Served f b
  reached : ∀ {b}, p.Seen b → f.Reaches b
  closed : ∀ {q b}, p.Visited q → f.Edge q b → b < f.blocks.length → p.Seen b
  begun : Function.entryBlock < f.blocks.length → p.Seen Function.entryBlock
  small : ∀ {b : BlockId} {exit : Constants}, p.exits[b]? = some exit →
    ExtTreeMap.size exit ≤ p.visitedLength f

theorem sound_start (f : Function) : start.Sound f := by
  have hseen : ∀ {b}, start.Seen b → b = Function.entryBlock := by
    rintro b (hb | ⟨entry, hentry⟩)
    · exact List.mem_singleton.mp hb
    · simp [start] at hentry
  constructor
  · intro b entry h
    simp [start] at h
  · intro b exit h
    simp [start] at h
  · intro b entry h
    simp [start] at h
  · intro b entry h
    simp [start] at h
  · exact fun hb => .inl (hseen hb)
  · intro b hb
    obtain rfl := hseen hb
    exact .refl
  · rintro q b ⟨entry, h⟩
    simp [start] at h
  · exact fun _ => .inl (List.mem_singleton_self _)
  · intro b exit h
    simp [start] at h

theorem mem_foldl_enqueue (bs pending : List BlockId) :
    c ∈ bs.foldl enqueue pending ↔ c ∈ bs ∨ c ∈ pending := by
  induction bs generalizing pending with
  | nil => simp
  | cons b bs ih =>
    have hone : c ∈ enqueue pending b ↔ c = b ∨ c ∈ pending := by
      unfold enqueue
      split
      · next hmem =>
        constructor
        · exact .inr
        · rintro (rfl | hc)
          · exact hmem
          · exact hc
      · exact List.mem_cons
    rw [List.foldl_cons, ih, hone, List.mem_cons]
    tauto

theorem length_foldl_enqueue_le (bs pending : List BlockId) :
    (bs.foldl enqueue pending).length ≤ bs.length + pending.length := by
  induction bs generalizing pending with
  | nil => simp
  | cons b bs ih =>
    have hone : (enqueue pending b).length ≤ pending.length + 1 := by
      unfold enqueue
      split
      · exact Nat.le_succ _
      · exact Nat.le_refl _
    have hrest := ih (enqueue pending b)
    rw [List.foldl_cons, List.length_cons]
    omega

/-- The progress after visiting the block on top of the stack. -/
structure Visit (f : Function) (b : BlockId) (block : Block) (p p' : Progress) : Prop where
  block_eq : f.blocks[b]? = some block
  entries : p'.entries = p.entries.insert b (p.entryFacts f b)
  exits : ∀ q : BlockId, p'.exits[q]? =
    if b = q then some (walk block.statements (p.entryFacts f b)) else p.exits[q]?
  pending : ∃ rest, p.pending = b :: rest ∧
    (p.exits[b]? = some (walk block.statements (p.entryFacts f b)) ∧ p'.pending = rest ∨
      p.exits[b]? ≠ some (walk block.statements (p.entryFacts f b)) ∧
        p'.pending = block.successors.foldl enqueue rest)

theorem visit_visit {rest : List BlockId} (hp : p.pending = b :: rest)
    (hb : f.blocks[b]? = some block) :
    Visit f b block p ({ p with pending := rest }.visit f b block) := by
  have hfacts : { p with pending := rest }.entryFacts f b = p.entryFacts f b := rfl
  unfold Progress.visit
  dsimp only
  rw [hfacts]
  split
  · next hsame =>
    refine ⟨hb, rfl, fun q => ?_, rest, hp, .inl ⟨hsame, rfl⟩⟩
    split
    · next hq => exact hq ▸ hsame
    · rfl
  · next hne =>
    refine ⟨hb, rfl, fun q => ?_, rest, hp, .inr ⟨hne, rfl⟩⟩
    split
    · next hq =>
      subst hq
      exact ExtTreeMap.getElem?_insert_self
    · next hq => exact Table.getElem?_insert_of_ne hq

theorem step_cases (p : Progress) (f : Function) :
    (p.pending = [] ∧ p.step f = p) ∨
      (∃ b rest, p.pending = b :: rest ∧ f.blocks[b]? = none ∧
        p.step f = { p with pending := rest }) ∨
      ∃ b block, Visit f b block p (p.step f) := by
  unfold step
  split
  · next hp => exact .inl ⟨hp, rfl⟩
  · next b rest hp =>
    split
    · next hb => exact .inr (.inl ⟨b, rest, hp, hb, rfl⟩)
    · next block hb => exact .inr (.inr ⟨b, block, visit_visit hp hb⟩)

namespace Visit

theorem seen_top (h : Visit f b block p p') : p.Seen b := by
  obtain ⟨rest, hp, -⟩ := h.pending
  exact .inl (hp ▸ List.mem_cons_self)

theorem exits_self (h : Visit f b block p p') :
    p'.exits[b]? = some (walk block.statements (p.entryFacts f b)) :=
  (h.exits b).trans (if_pos rfl)

theorem exits_of_ne (h : Visit f b block p p') (hq : q ≠ b) : p'.exits[q]? = p.exits[q]? :=
  (h.exits q).trans (if_neg fun he => hq he.symm)

theorem entries_cases (h : Visit f b block p p') (hc : p'.entries[c]? = some entry) :
    (c = b ∧ entry = p.entryFacts f b) ∨ (c ≠ b ∧ p.entries[c]? = some entry) := by
  rw [h.entries] at hc
  exact Table.getElem?_insert_eq_some hc

theorem visited_iff (h : Visit f b block p p') : p'.Visited c ↔ c = b ∨ p.Visited c := by
  unfold Visited
  rw [h.entries]
  by_cases hc : b = c
  · subst hc
    simp
  · rw [Table.getElem?_insert_of_ne hc]
    exact ⟨.inr, fun hv => hv.resolve_left fun he => hc he.symm⟩

theorem seen (h : Visit f b block p p') (hc : p.Seen c) : p'.Seen c := by
  rcases hc with hc | hc
  · obtain ⟨rest, hp, hpending⟩ := h.pending
    rw [hp] at hc
    rcases List.mem_cons.mp hc with rfl | hc
    · exact .inr (h.visited_iff.mpr (.inl rfl))
    · rcases hpending with ⟨-, heq⟩ | ⟨-, heq⟩
      · exact .inl (heq ▸ hc)
      · exact .inl (heq ▸ (mem_foldl_enqueue _ _).mpr (.inr hc))
  · exact .inr (h.visited_iff.mpr (.inr hc))

theorem seen_cases (h : Visit f b block p p') (hc : p'.Seen c) : p.Seen c ∨ f.Edge b c := by
  rcases hc with hc | hc
  · obtain ⟨rest, hp, hpending⟩ := h.pending
    have hold : c ∈ rest → p.Seen c := fun hmem => .inl (hp ▸ List.mem_cons_of_mem _ hmem)
    rcases hpending with ⟨-, heq⟩ | ⟨-, heq⟩
    · exact .inl (hold (heq ▸ hc))
    · rw [heq, mem_foldl_enqueue] at hc
      exact hc.symm.imp hold fun hmem => ⟨block, h.block_eq, hmem⟩
  · rcases h.visited_iff.mp hc with rfl | hc
    · exact .inl h.seen_top
    · exact .inl (.inr hc)

theorem exits_of_edge (h : Visit f b block p p') (hc : c ∉ p'.pending) (hq : f.Edge q c) :
    p'.exits[q]? = p.exits[q]? := by
  by_cases hqb : q = b
  · subst hqb
    obtain ⟨rest, -, hpending⟩ := h.pending
    rcases hpending with ⟨hsame, -⟩ | ⟨-, heq⟩
    · rw [h.exits_self, hsame]
    · obtain ⟨block', hblock', hmem⟩ := hq
      obtain rfl := Option.some.inj (h.block_eq.symm.trans hblock')
      rw [heq, mem_foldl_enqueue] at hc
      exact absurd (.inl hmem) hc
  · exact h.exits_of_ne hqb

theorem not_mem_pending (h : Visit f b block p p') (hc : c ∉ p'.pending) (hne : c ≠ b) :
    c ∉ p.pending := by
  obtain ⟨rest, hp, hpending⟩ := h.pending
  rw [hp, List.mem_cons, not_or]
  refine ⟨hne, fun hmem => hc ?_⟩
  rcases hpending with ⟨-, heq⟩ | ⟨-, heq⟩
  · exact heq ▸ hmem
  · exact heq ▸ (mem_foldl_enqueue _ _).mpr (.inr hmem)

end Visit

namespace Sound

theorem drop {rest : List BlockId} (h : p.Sound f) (hp : p.pending = b :: rest)
    (hb : f.blocks[b]? = none) :
    { p with pending := rest }.Sound f := by
  have hseen : ∀ {c}, { p with pending := rest }.Seen c → p.Seen c := by
    rintro c (hc | hc)
    · exact .inl (hp ▸ List.mem_cons_of_mem _ hc)
    · exact .inr hc
  have hkept : ∀ {c}, c < f.blocks.length → p.Seen c → { p with pending := rest }.Seen c := by
    rintro c hlt (hc | hc)
    · rw [hp] at hc
      rcases List.mem_cons.mp hc with rfl | hc
      · exact absurd hlt (Nat.not_lt_of_le (List.getElem?_eq_none_iff.mp hb))
      · exact .inl hc
    · exact .inr hc
  constructor
  · exact h.walked
  · exact h.entered
  · exact h.below
  · intro c entry hentry hc
    refine h.settled hentry ?_
    rw [hp, List.mem_cons, not_or]
    refine ⟨?_, hc⟩
    rintro rfl
    obtain ⟨block, hblock, -⟩ := h.walked hentry
    rw [hb] at hblock
    cases hblock
  · exact fun hc => h.served (hseen hc)
  · exact fun hc => h.reached (hseen hc)
  · exact fun hq hedge hlt => hkept hlt (h.closed hq hedge hlt)
  · exact fun hlt => hkept hlt (h.begun hlt)
  · exact h.small

theorem exit_within (h : p.Sound f) (hv : Visit f b block p p') (hexit : p.exits[b]? = some exit) :
    (walk block.statements (p.entryFacts f b)).Within exit := by
  obtain ⟨entry, hentry⟩ := h.entered hexit
  obtain ⟨block', hb', hwalk⟩ := h.walked hentry
  obtain rfl := Option.some.inj (hv.block_eq.symm.trans hb')
  obtain rfl := Option.some.inj (hwalk.symm.trans hexit)
  exact (h.below hentry).walk _

theorem shrinks (h : p.Sound f) (hv : Visit f b block p p') (q : BlockId) (exit : Constants)
    (hexit : p.exits[q]? = some exit) :
    ∃ exit', p'.exits[q]? = some exit' ∧ Constants.Within exit' exit := by
  by_cases hq : q = b
  · subst hq
    exact ⟨_, hv.exits_self, h.exit_within hv hexit⟩
  · exact ⟨exit, (hv.exits_of_ne hq).trans hexit, .refl _⟩

/-- Going through a block adds at most its statements to the facts of a predecessor. -/
theorem size_exit_le (h : p.Sound f) (hb : p.Seen b) (block : Block) :
    ExtTreeMap.size (walk block.statements (p.entryFacts f b)) ≤
      p.visitedLength f + block.statements.length := by
  have hentry : ExtTreeMap.size (p.entryFacts f b) ≤ p.visitedLength f := by
    by_cases hstart : b = Function.entryBlock
    · subst hstart
      rw [entryFacts_entryBlock]
      exact Nat.zero_le _
    · obtain ⟨q, exit, hq, hexit⟩ := (h.served hb).resolve_left hstart
      exact Nat.le_trans (entryFacts_within hstart hq hexit).size_le (h.small hexit)
  exact Nat.le_trans (size_walk_le _ _) (Nat.add_le_add_right hentry _)

theorem visitedLength_le (h : p.Sound f) (hv : Visit f b block p p') :
    p.visitedLength f ≤ p'.visitedLength f ∧
      (p.exits[b]? = none → p.visitedLength f + block.statements.length ≤ p'.visitedLength f) := by
  have hcontains : ∀ (p : Progress) (q : BlockId), p.exits.contains q = (p.exits[q]?).isSome :=
    fun p q => ExtTreeMap.contains_eq_isSome_getElem?
  have hmono : ∀ x : Block × BlockId,
      (if p.exits.contains x.2 then x.1.statements.length else 0) ≤
        if p'.exits.contains x.2 then x.1.statements.length else 0 := by
    intro x
    split
    · next hx =>
      rw [hcontains] at hx
      obtain ⟨exit, hexit⟩ := Option.isSome_iff_exists.mp hx
      obtain ⟨exit', hexit', -⟩ := h.shrinks hv x.2 exit hexit
      rw [if_pos (by rw [hcontains, hexit']; rfl)]
    · exact Nat.zero_le _
  refine ⟨Function.total_le hmono, fun hnone => Function.total_add_le hv.block_eq ?_ hmono⟩
  simp [hcontains, hnone, hv.exits_self]

theorem size_le (h : p.Sound f) (hv : Visit f b block p p')
    (hexit : p'.exits[q]? = some exit) : ExtTreeMap.size exit ≤ p'.visitedLength f := by
  obtain ⟨hmono, hfirst⟩ := h.visitedLength_le hv
  by_cases hq : q = b
  · subst hq
    obtain rfl := Option.some.inj (hv.exits_self.symm.trans hexit)
    cases hold : p.exits[q]? with
    | none => exact Nat.le_trans (h.size_exit_le hv.seen_top block) (hfirst hold)
    | some old =>
      exact Nat.le_trans (h.exit_within hv hold).size_le (Nat.le_trans (h.small hold) hmono)
  · exact Nat.le_trans (h.small ((hv.exits_of_ne hq).symm.trans hexit)) hmono

theorem visit (h : p.Sound f) (hv : Visit f b block p p') : p'.Sound f := by
  have hfacts : ∀ {c}, p.Seen c → (p'.entryFacts f c).Within (p.entryFacts f c) :=
    fun hc => entryFacts_shrinks (h.served hc) (h.shrinks hv)
  have hserved : ∀ {c}, p.Served f c → p'.Served f c := by
    rintro c ⟨q, exit, hq, hexit⟩
    obtain ⟨exit', hexit', -⟩ := h.shrinks hv q exit hexit
    exact ⟨q, exit', hq, hexit'⟩
  constructor
  · intro c entry hentry
    rcases hv.entries_cases hentry with ⟨rfl, rfl⟩ | ⟨hne, hold⟩
    · exact ⟨block, hv.block_eq, hv.exits_self⟩
    · rw [hv.exits_of_ne hne]
      exact h.walked hold
  · intro c exit hexit
    by_cases hc : c = b
    · exact hv.visited_iff.mpr (.inl hc)
    · exact hv.visited_iff.mpr (.inr (h.entered ((hv.exits_of_ne hc).symm.trans hexit)))
  · intro c entry hentry
    rcases hv.entries_cases hentry with ⟨rfl, rfl⟩ | ⟨hne, hold⟩
    · exact hfacts hv.seen_top
    · exact (hfacts (.inr ⟨entry, hold⟩)).trans (h.below hold)
  · intro c entry hentry hc
    rw [entryFacts_congr fun q hq => hv.exits_of_edge hc hq]
    rcases hv.entries_cases hentry with ⟨rfl, rfl⟩ | ⟨hne, hold⟩
    · rfl
    · exact h.settled hold (hv.not_mem_pending hc hne)
  · intro c hc
    rcases hv.seen_cases hc with hc | hc
    · exact (h.served hc).imp_right hserved
    · exact .inr ⟨b, _, hc, hv.exits_self⟩
  · intro c hc
    rcases hv.seen_cases hc with hc | hc
    · exact h.reached hc
    · exact (h.reached hv.seen_top).tail hc
  · intro q c hq hedge hlt
    by_cases hold : p.Visited q
    · exact hv.seen (h.closed hold hedge hlt)
    · obtain rfl := (hv.visited_iff.mp hq).resolve_right hold
      obtain ⟨rest, -, ⟨hsame, -⟩ | ⟨-, heq⟩⟩ := hv.pending
      · exact absurd (h.entered hsame) hold
      · obtain ⟨block', hblock', hmem⟩ := hedge
        obtain rfl := Option.some.inj (hv.block_eq.symm.trans hblock')
        exact .inl (heq ▸ (mem_foldl_enqueue _ _).mpr (.inl hmem))
  · exact fun hlt => hv.seen (h.begun hlt)
  · exact fun hexit => h.size_le hv hexit

theorem step (h : p.Sound f) : (p.step f).Sound f := by
  rcases p.step_cases f with ⟨-, heq⟩ | ⟨b, rest, hp, hb, heq⟩ | ⟨b, block, hv⟩
  · rwa [heq]
  · rw [heq]
    exact h.drop hp hb
  · exact h.visit hv

end Sound

/-! ## The budget -/

/-- How often the exit facts of a block may still change. -/
def room (p : Progress) (f : Function) (b : BlockId) : Nat :=
  match p.exits[b]? with
  | some exit => ExtTreeMap.size exit
  | none => f.statements.length + 1

/-- The blocks that wait, and those that may still be put on the stack. -/
def load (p : Progress) (f : Function) : Nat :=
  p.pending.length + f.total fun x => x.1.successors.length * p.room f x.2

theorem load_start (f : Function) : start.load f = budget f := by
  have hroom : ∀ b, start.room f b = f.statements.length + 1 := by
    intro b
    simp [room, start]
  have htotal := f.total_fst fun block => block.successors.length * (f.statements.length + 1)
  have hfactor := List.sum_map_mul_right f.blocks (·.successors.length)
    (f.statements.length + 1)
  simp only [load, hroom, htotal]
  rw [hfactor, budget, edgeCount, List.length_flatMap, Nat.mul_comm, Nat.add_comm]
  rfl

theorem visitedLength_le (p : Progress) (f : Function) :
    p.visitedLength f ≤ f.statements.length := by
  have hle : p.visitedLength f ≤ f.total fun x => x.1.statements.length := by
    refine Function.total_le fun x => ?_
    split
    · exact Nat.le_refl _
    · exact Nat.zero_le _
  refine Nat.le_trans hle (Nat.le_of_eq ?_)
  rw [f.total_fst fun block => block.statements.length, Function.statements, List.length_flatMap]

namespace Sound

theorem room_le (h : p.Sound f) (hv : Visit f b block p p') (q : BlockId) :
    p'.room f q ≤ p.room f q := by
  have hsmall : ∀ {exit : Constants}, p'.exits[q]? = some exit →
      ExtTreeMap.size exit ≤ f.statements.length :=
    fun hexit => Nat.le_trans (h.size_le hv hexit) (p'.visitedLength_le f)
  unfold room
  cases hold : p.exits[q]? with
  | some exit =>
    obtain ⟨exit', hexit', hwithin⟩ := h.shrinks hv q exit hold
    rw [hexit']
    exact hwithin.size_le
  | none =>
    cases hnew : p'.exits[q]? with
    | some exit => exact Nat.le_succ_of_le (hsmall hnew)
    | none => exact Nat.le_refl _

theorem room_lt (h : p.Sound f) (hv : Visit f b block p p')
    (hne : p.exits[b]? ≠ some (walk block.statements (p.entryFacts f b))) :
    p'.room f b + 1 ≤ p.room f b := by
  have hsmall := Nat.le_trans (h.size_le hv hv.exits_self) (p'.visitedLength_le f)
  unfold room
  rw [hv.exits_self]
  cases hold : p.exits[b]? with
  | some exit =>
    refine Constants.Within.size_lt (h.exit_within hv hold) fun heq => hne ?_
    rw [hold, heq]
  | none => exact Nat.succ_le_succ hsmall

theorem load_lt (h : p.Sound f) (hp : p.pending ≠ []) : (p.step f).load f < p.load f := by
  rcases p.step_cases f with ⟨hnil, -⟩ | ⟨b, rest, hpending, -, heq⟩ | ⟨b, block, hv⟩
  · exact absurd hnil hp
  · rw [heq, load, load, hpending]
    exact Nat.add_lt_add_right (Nat.lt_succ_self _) _
  · have hmono : ∀ x : Block × BlockId, x.1.successors.length * (p.step f).room f x.2 ≤
        x.1.successors.length * p.room f x.2 :=
      fun x => Nat.mul_le_mul_left _ (h.room_le hv x.2)
    obtain ⟨rest, hpending, ⟨-, heq⟩ | ⟨hne, heq⟩⟩ := hv.pending
    · have htotal := f.total_le hmono
      rw [load, load, heq, hpending, List.length_cons]
      omega
    · have hpushed := length_foldl_enqueue_le block.successors rest
      have htotal := Function.total_add_le hv.block_eq (d := block.successors.length) (by
        rw [← Nat.mul_succ]
        exact Nat.mul_le_mul_left _ (h.room_lt hv hne)) hmono
      rw [load, load, heq, hpending, List.length_cons]
      omega

/-- With fuel for its load a progress runs until no block waits; whatever steps keep is kept. -/
theorem run {kept : Progress → Prop} (hstep : ∀ p, p.Sound f → kept p → kept (p.step f)) {fuel : Nat}
    (h : p.Sound f) (hp : kept p) (hfuel : p.load f ≤ fuel) :
    (p.run f fuel).Sound f ∧ kept (p.run f fuel) ∧ (p.run f fuel).pending = [] := by
  induction fuel generalizing p with
  | zero =>
    refine ⟨h, hp, List.length_eq_zero_iff.mp ?_⟩
    exact (Nat.add_eq_zero_iff.mp (Nat.le_zero.mp hfuel)).1
  | succ fuel ih =>
    rw [Progress.run]
    split
    · next hempty => exact ⟨h, hp, List.isEmpty_iff.mp hempty⟩
    · next hne =>
      have hlt := h.load_lt (fun hnil => hne (List.isEmpty_iff.mpr hnil))
      exact ih h.step (hstep p h hp) (Nat.le_of_lt_succ (Nat.lt_of_lt_of_le hlt hfuel))

end Sound

end Progress

end Propagation

namespace Function

open Propagation

variable {f : Function} {q b : BlockId} {block : Block} {entry : Constants}

/-- Facts for each block that agree with the flow along all edges that can be reached. -/
structure Agrees (f : Function) (facts : BlockId → Constants) : Prop where
  start : facts entryBlock = ∅
  edge : ∀ {q b : BlockId} {block : Block}, f.Reaches q → f.blocks[q]? = some block →
    b ∈ block.successors → (facts b).Within (walk block.statements (facts q))

/-- What the facts of a function are: known for the blocks that can be reached, in agreement with
the flow, and the most that agrees with it. -/
structure Solved (f : Function) (facts : ExtTreeMap BlockId Constants) : Prop where
  mem_iff : ∀ {b}, (∃ entry : Constants, facts[b]? = some entry) ↔
    f.Reaches b ∧ b < f.blocks.length
  agrees : f.Agrees fun b => (facts[b]?).getD ∅
  greatest : ∀ {other : BlockId → Constants}, f.Agrees other →
    ∀ b, b < f.blocks.length → f.Reaches b → (other b).Within ((facts[b]?).getD ∅)

theorem Agrees.step {facts : BlockId → Constants} (h : f.Agrees facts) {p : Progress}
    (hp : p.Sound f)
    (hfacts : ∀ (b : BlockId) (entry : Constants), p.entries[b]? = some entry →
      (facts b).Within entry) (b : BlockId) (entry : Constants)
    (hentry : (p.step f).entries[b]? = some entry) : (facts b).Within entry := by
  rcases p.step_cases f with ⟨-, heq⟩ | ⟨c, rest, -, -, heq⟩ | ⟨c, block, hv⟩
  · rw [heq] at hentry
    exact hfacts b entry hentry
  · rw [heq] at hentry
    exact hfacts b entry hentry
  · rcases hv.entries_cases hentry with ⟨rfl, rfl⟩ | ⟨-, hold⟩
    · by_cases hb : b = entryBlock
      · rw [hb, h.start]
        exact Constants.empty_within _
      · intro l v hl
        refine (Progress.getElem?_entryFacts hb ((hp.served hv.seen_top).resolve_left hb)).mpr ?_
        rintro q exit ⟨block', hblock', hmem⟩ hexit
        obtain ⟨old, hold⟩ := hp.entered hexit
        obtain ⟨block'', hblock'', hwalk⟩ := hp.walked hold
        obtain rfl := Option.some.inj (hblock'.symm.trans hblock'')
        obtain rfl := Option.some.inj (hwalk.symm.trans hexit)
        have hedge := h.edge (hp.reached (.inr ⟨old, hold⟩)) hblock' hmem
        exact (hfacts q old hold).walk _ l v (hedge l v hl)
    · exact hfacts b entry hold

theorem run_start (f : Function) {kept : Progress → Prop}
    (hstep : ∀ p : Progress, p.Sound f → kept p → kept (p.step f)) (hstart : kept start) :
    (start.run f (budget f)).Sound f ∧ kept (start.run f (budget f)) ∧
      (start.run f (budget f)).pending = [] :=
  (Progress.sound_start f).run hstep hstart (Nat.le_of_eq (Progress.load_start f))

theorem run_ends (f : Function) :
    (start.run f (budget f)).Sound f ∧ (start.run f (budget f)).pending = [] := by
  have hkept : ∀ p : Progress, p.Sound f → True → True := fun _ _ _ => trivial
  obtain ⟨hsound, -, hpending⟩ := f.run_start hkept trivial
  exact ⟨hsound, hpending⟩

theorem Agrees.within {facts : BlockId → Constants} (h : f.Agrees facts)
    (hentry : f.blockFacts[b]? = some entry) : (facts b).Within entry := by
  have hstart : ∀ (b : BlockId) (entry : Constants),
      Propagation.start.entries[b]? = some entry →
      (facts b).Within entry := by
    intro b entry hstart
    simp [Propagation.start] at hstart
  exact (f.run_start (fun p hp => h.step hp) hstart).2.1 b entry hentry

theorem visited_iff_of_sound {p : Progress} (h : p.Sound f) (hp : p.pending = []) :
    p.Visited b ↔ f.Reaches b ∧ b < f.blocks.length := by
  have hseen : ∀ {b}, p.Seen b → p.Visited b := by
    rintro b (hb | hb)
    · rw [hp] at hb
      cases hb
    · exact hb
  constructor
  · rintro ⟨entry, hentry⟩
    obtain ⟨block, hblock, -⟩ := h.walked hentry
    exact ⟨h.reached (.inr ⟨entry, hentry⟩), (List.getElem?_eq_some_iff.mp hblock).1⟩
  · rintro ⟨hb, hlen⟩
    induction hb with
    | refl => exact hseen (h.begun hlen)
    | tail _ hedge ih =>
      have hfrom := hedge
      obtain ⟨block, hblock, -⟩ := hfrom
      exact hseen (h.closed (ih (List.getElem?_eq_some_iff.mp hblock).1) hedge hlen)

/-- Once no block waits the entry facts are a solution; what agrees with the flow has stayed within
them. -/
theorem solved_of_sound {p : Progress} (h : p.Sound f) (hp : p.pending = [])
    (hmost : ∀ {facts : BlockId → Constants}, f.Agrees facts → ∀ {b : BlockId} {entry : Constants},
      p.entries[b]? = some entry → (facts b).Within entry) : f.Solved p.entries := by
  have hentry : ∀ {b : BlockId} {entry : Constants}, p.entries[b]? = some entry →
      entry = p.entryFacts f b :=
    fun hentry => h.settled hentry (by simp [hp])
  refine ⟨visited_iff_of_sound h hp, ⟨?_, ?_⟩, ?_⟩
  · cases hstart : p.entries[entryBlock]? with
    | none => rfl
    | some entry => exact (hentry hstart).trans Progress.entryFacts_entryBlock
  · intro q b block hq hblock hb
    have hlen := (List.getElem?_eq_some_iff.mp hblock).1
    obtain ⟨old, hold⟩ := (visited_iff_of_sound h hp).mpr ⟨hq, hlen⟩
    obtain ⟨block', hblock', hwalk⟩ := h.walked hold
    obtain rfl := Option.some.inj (hblock.symm.trans hblock')
    cases hnew : p.entries[b]? with
    | none => exact Constants.empty_within _
    | some entry =>
      obtain rfl := hentry hnew
      simp only [hold, Option.getD_some]
      by_cases hstart : b = entryBlock
      · rw [hstart, Progress.entryFacts_entryBlock]
        exact Constants.empty_within _
      · exact Progress.entryFacts_within hstart ⟨block, hblock, hb⟩ hwalk
  · intro other hother b hlen hb
    obtain ⟨entry, hnew⟩ := (visited_iff_of_sound h hp).mpr ⟨hb, hlen⟩
    rw [hnew]
    exact hmost hother hnew

theorem blockFacts_solved (f : Function) : f.Solved f.blockFacts := by
  obtain ⟨hsound, hpending⟩ := f.run_ends
  exact solved_of_sound hsound hpending fun hother _ _ hentry => hother.within hentry

end Function

end CallEffects
