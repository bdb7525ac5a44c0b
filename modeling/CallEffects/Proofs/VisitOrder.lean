import CallEffects.Proofs.Edit
import CallEffects.Proofs.Worklist

/-!
# The facts do not depend on the order of visits

The facts at the block entries are the best solution of the flow equations, and there is only one.
So they depend on the statements of the blocks and on which edges there are, but not on the order in
which a block lists its successors. They do not depend on which of the waiting blocks is visited
next either: every schedule keeps `Progress.Sound` and stays above whatever agrees with the flow, it
comes to an end because each visit lowers the load, and where it ends it has found the best solution.
-/

namespace CallEffects

open Std

namespace Function

variable {f g : Function} {q b : BlockId} {block : Block} {facts other : ExtTreeMap BlockId Constants}

/-! ## One solution -/

theorem Solved.within (h : f.Solved facts) (h' : f.Solved other) {entry entry' : Constants}
    (hentry : facts[b]? = some entry) (hentry' : other[b]? = some entry') :
    entry.Within entry' := by
  obtain ⟨hb, hlen⟩ := h.mem_iff.mp ⟨entry, hentry⟩
  have hwithin := h'.greatest h.agrees b hlen hb
  simpa only [hentry, hentry', Option.getD_some] using hwithin

theorem Solved.unique (h : f.Solved facts) (h' : f.Solved other) : facts = other := by
  apply ExtTreeMap.ext_getElem?
  intro b
  have hsame : (∃ entry : Constants, facts[b]? = some entry) ↔
      ∃ entry : Constants, other[b]? = some entry := h.mem_iff.trans h'.mem_iff.symm
  cases hentry : facts[b]? with
  | none =>
    cases hentry' : other[b]? with
    | none => rfl
    | some entry' =>
      obtain ⟨entry, hsome⟩ := hsame.mpr ⟨entry', hentry'⟩
      rw [hentry] at hsome
      cases hsome
  | some entry =>
    obtain ⟨entry', hentry'⟩ := hsame.mp ⟨entry, hentry⟩
    rw [hentry', (h.within h' hentry hentry').antisymm (h'.within h hentry' hentry)]

/-! ## The order of successors -/

/-- The same statements and the same edges, listed in any order and any number of times. -/
structure SameFlow (f g : Function) : Prop where
  bodies : g.bodies = f.bodies
  edge : ∀ q b, g.Edge q b ↔ f.Edge q b

namespace SameFlow

theorem symm (h : f.SameFlow g) : g.SameFlow f :=
  ⟨h.bodies.symm, fun q b => (h.edge q b).symm⟩

theorem length_eq (h : f.SameFlow g) : g.blocks.length = f.blocks.length := by
  have hlen := congrArg List.length h.bodies
  simpa only [Function.bodies, List.length_map] using hlen

theorem reaches (h : f.SameFlow g) (hb : f.Reaches b) : g.Reaches b := by
  induction hb with
  | refl => exact .refl
  | tail _ hedge ih => exact ih.tail ((h.edge _ _).mpr hedge)

theorem exists_block (h : f.SameFlow g) (hblock : f.blocks[b]? = some block) :
    ∃ block', g.blocks[b]? = some block' ∧ block'.statements = block.statements := by
  have hbody : g.bodies[b]? = some block.statements := by
    rw [h.bodies, getElem?_bodies, hblock]
    rfl
  rw [getElem?_bodies] at hbody
  exact Option.map_eq_some_iff.mp hbody

theorem agrees (h : f.SameFlow g) {facts : BlockId → Constants} (hf : f.Agrees facts) :
    g.Agrees facts := by
  refine ⟨hf.start, fun {q b block'} hq hblock' hb => ?_⟩
  obtain ⟨block, hblock, hmem⟩ := (h.edge q b).mp ⟨block', hblock', hb⟩
  obtain ⟨block'', hblock'', hstatements⟩ := h.exists_block hblock
  obtain rfl := Option.some.inj (hblock'.symm.trans hblock'')
  rw [hstatements]
  exact hf.edge (h.symm.reaches hq) hblock hmem

theorem solved (h : f.SameFlow g) (hf : f.Solved facts) : g.Solved facts where
  mem_iff {b} := by
    rw [hf.mem_iff, h.length_eq]
    exact and_congr_left fun _ => ⟨h.reaches, h.symm.reaches⟩
  agrees := h.agrees hf.agrees
  greatest hother b hlen hb :=
    hf.greatest (h.symm.agrees hother) b (h.length_eq ▸ hlen) (h.symm.reaches hb)

theorem blockFacts_eq (h : f.SameFlow g) : g.blockFacts = f.blockFacts :=
  g.blockFacts_solved.unique (h.solved f.blockFacts_solved)

end SameFlow

end Function

/-! ## The order of visits -/

namespace Propagation.Progress

variable {f : Function} {p p' : Progress} {b : BlockId} {pre post : List BlockId}

/-- Some block that waits, wherever it is in the stack, is visited. -/
inductive Visits (f : Function) : Progress → Progress → Prop where
  | visit {p : Progress} {pre post : List BlockId} {b : BlockId} (h : p.pending = pre ++ b :: post) :
      Visits f p ({ p with pending := b :: (pre ++ post) }.step f)

/-- What visits keep sees of the stack only which blocks wait. -/
theorem Sound.reorder (h : p.Sound f) {pending : List BlockId}
    (hp : ∀ b, b ∈ pending ↔ b ∈ p.pending) : ({ p with pending } : Progress).Sound f := by
  have hseen : ∀ {b}, ({ p with pending } : Progress).Seen b ↔ p.Seen b :=
    fun {b} => or_congr_left (hp b)
  exact
    { walked := h.walked
      entered := h.entered
      below := h.below
      settled := fun hentry hb => h.settled hentry fun hmem => hb ((hp _).mpr hmem)
      served := fun hb => h.served (hseen.mp hb)
      reached := fun hb => h.reached (hseen.mp hb)
      closed := fun hq hedge hlen => hseen.mpr (h.closed hq hedge hlen)
      begun := fun hlen => hseen.mpr (h.begun hlen)
      small := h.small }

theorem Sound.top (h : p.Sound f) (hp : p.pending = pre ++ b :: post) :
    ({ p with pending := b :: (pre ++ post) } : Progress).Sound f := by
  apply h.reorder
  intro c
  rw [hp, List.mem_append, List.mem_cons, List.mem_cons, List.mem_append]
  tauto

/-- Whatever agrees with the flow is within the facts found so far. -/
def Bounding (p : Progress) (f : Function) : Prop :=
  ∀ {facts : BlockId → Constants}, f.Agrees facts → ∀ {b : BlockId} {entry : Constants},
    p.entries[b]? = some entry → (facts b).Within entry

namespace Visits

theorem sound (h : Visits f p p') (hp : p.Sound f) : p'.Sound f := by
  cases h with
  | visit hpending => exact (hp.top hpending).step

theorem bounding (h : Visits f p p') (hp : p.Sound f) (hb : p.Bounding f) : p'.Bounding f := by
  cases h with
  | visit hpending =>
    intro facts hfacts b entry hentry
    exact hfacts.step (hp.top hpending) (fun _ _ => hb hfacts) b entry hentry

theorem load_lt (h : Visits f p p') (hp : p.Sound f) : p'.load f < p.load f := by
  cases h with
  | @visit pre post b hpending =>
    have hlt := (hp.top hpending).load_lt (List.cons_ne_nil _ _)
    have hload : ({ p with pending := b :: (pre ++ post) } : Progress).load f = p.load f := by
      simp only [load, room, hpending, List.length_cons, List.length_append]
      omega
    omega

end Visits

/-- A schedule can go on as long as a block waits. -/
theorem exists_visits (hp : p.pending ≠ []) : ∃ p', Visits f p p' := by
  obtain ⟨b, rest, hpending⟩ := List.exists_cons_of_ne_nil hp
  exact ⟨_, .visit (hpending.trans (List.nil_append _).symm)⟩

/-- No schedule goes on forever. -/
theorem Sound.acc (h : p.Sound f) : Acc (fun p' p => Visits f p p') p := by
  induction hn : p.load f using Nat.strong_induction_on generalizing p with
  | _ n ih =>
    constructor
    intro p' hvisits
    exact ih _ (hn ▸ hvisits.load_lt h) (hvisits.sound h) rfl

theorem schedule_sound (h : Relation.ReflTransGen (Visits f) start p) :
    p.Sound f ∧ p.Bounding f := by
  induction h with
  | refl =>
    refine ⟨sound_start f, fun {facts} _ b entry hentry => ?_⟩
    simp [start] at hentry
  | tail _ hvisits ih => exact ⟨hvisits.sound ih.1, hvisits.bounding ih.1 ih.2⟩

theorem schedule_entries (h : Relation.ReflTransGen (Visits f) start p) (hp : p.pending = []) :
    p.entries = f.blockFacts := by
  obtain ⟨hsound, hbounding⟩ := schedule_sound h
  exact (Function.solved_of_sound hsound hp hbounding).unique f.blockFacts_solved

end Propagation.Progress

namespace Function

open Propagation

variable {f : Function} {b : BlockId} {entry : Constants}

/-! ## What determines the facts -/

/-- The facts of a block are those on which the exits of its predecessors agree, and it has one. -/
structure MeetsAt (f : Function) (facts : ExtTreeMap BlockId Constants) (b : BlockId) : Prop where
  entered : ∃ q, f.Reaches q ∧ f.Edge q b
  iff_exits : ∀ (l : Location) (v : UInt64), ((facts[b]?).getD ∅)[l]? = some v ↔
    ∀ (q : BlockId) (block : Block), f.Reaches q → f.blocks[q]? = some block →
      b ∈ block.successors → (walk block.statements ((facts[q]?).getD ∅))[l]? = some v

theorem meetsAt_of_sound {p : Progress} (h : p.Sound f) (hp : p.pending = [])
    (hentry : p.entries[b]? = some entry) (hb : b ≠ entryBlock) : f.MeetsAt p.entries b := by
  have hserved : p.Served f b := (h.served (.inr ⟨entry, hentry⟩)).resolve_left hb
  refine ⟨?_, fun l v => ?_⟩
  · obtain ⟨q, exit, hedge, hexit⟩ := hserved
    obtain ⟨old, hold⟩ := h.entered hexit
    exact ⟨q, h.reached (.inr ⟨old, hold⟩), hedge⟩
  · have hsettled := h.settled hentry (by simp [hp])
    rw [hentry, Option.getD_some, hsettled, Progress.getElem?_entryFacts hb hserved]
    constructor
    · intro hall q block hq hblock hmem
      have hlen := (List.getElem?_eq_some_iff.mp hblock).1
      obtain ⟨old, hold⟩ := (visited_iff_of_sound h hp).mpr ⟨hq, hlen⟩
      obtain ⟨block', hblock', hwalk⟩ := h.walked hold
      obtain rfl := Option.some.inj (hblock.symm.trans hblock')
      rw [hold, Option.getD_some]
      exact hall q _ ⟨block, hblock, hmem⟩ hwalk
    · rintro hall q exit ⟨block, hblock, hmem⟩ hexit
      obtain ⟨old, hold⟩ := h.entered hexit
      obtain ⟨block', hblock', hwalk⟩ := h.walked hold
      obtain rfl := Option.some.inj (hblock.symm.trans hblock')
      obtain rfl := Option.some.inj (hwalk.symm.trans hexit)
      have hexit := hall q block (h.reached (.inr ⟨old, hold⟩)) hblock hmem
      rwa [hold, Option.getD_some] at hexit

/-- The facts solve the flow, are the meet of the exits of the predecessors, and are found whatever
the order of the successors and of the visits. -/
structure Determined (f : Function) (facts : ExtTreeMap BlockId Constants) : Prop where
  solved : f.Solved facts
  only : ∀ {other : ExtTreeMap BlockId Constants}, f.Solved other → other = facts
  meets : ∀ {b : BlockId}, b ≠ entryBlock → f.Reaches b → b < f.blocks.length → f.MeetsAt facts b
  successors : ∀ {g : Function}, f.SameFlow g → g.blockFacts = facts
  stops : Acc (fun p' p => Progress.Visits f p p') start
  visits : ∀ {p : Progress}, Relation.ReflTransGen (Progress.Visits f) start p →
    (∃ p', Progress.Visits f p p') ∨ p.entries = facts

theorem blockFacts_determined (f : Function) : f.Determined f.blockFacts where
  solved := f.blockFacts_solved
  only h := h.unique f.blockFacts_solved
  meets {b} hb hreaches hlen := by
    obtain ⟨hsound, hpending⟩ := f.run_ends
    obtain ⟨entry, hentry⟩ := f.blockFacts_solved.mem_iff.mpr ⟨hreaches, hlen⟩
    exact meetsAt_of_sound hsound hpending hentry hb
  successors h := h.blockFacts_eq
  stops := (Progress.sound_start f).acc
  visits {p} h := by
    by_cases hp : p.pending = []
    · exact .inr (Progress.schedule_entries h hp)
    · exact .inl (Progress.exists_visits hp)

end Function

end CallEffects
