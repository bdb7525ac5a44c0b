import CallEffects.Proofs.Convergence

/-!
# What the target of a call depends on

Constants flow along the code and are lost where calls and their hooks destroy them. So the target
of a call depends on the hooks of those calls only that precede it on some way through the function.
Calls that lie on no loop precede one another without cycles: `Function.rank` counts the indirect
ones in front of a call, and it is higher behind each of them.
-/

namespace CallEffects

open Std

variable {s t : Statement} {known : Constants} {ss : List Statement}

/-! ## Statements with their hooks -/

namespace Hooks

variable {h h' : Hooks} {i : FunctionId} {b : BlockId} {x : CallSite}

/-- The statement does the same to what is known with the hook it carries in either table. -/
def Alike (h h' : Hooks) (i : FunctionId) (s : Statement) : Prop :=
  ∀ known, walk (h.around i s) known = walk (h'.around i s) known

theorem Alike.symm (ha : h.Alike h' i s) : h'.Alike h i s := fun known => (ha known).symm

theorem alike_of_active (ha : h.active[Anchor.call ⟨i, s.id⟩]? = h'.active[Anchor.call ⟨i, s.id⟩]?)
    (hs : s.kind.isCall) : h.Alike h' i s := by
  intro known
  cases hk : s.kind with
  | call target => simp only [around, hk, attached, ha]
  | _ =>
    rw [hk] at hs
    cases hs

theorem alike_of_not_call (hc : h.Consistent) (hc' : h'.Consistent) (hs : s.isSynthetic = false)
    (hk : s.kind.isCall = false) : h.Alike h' i s := by
  intro known
  cases hkind : s.kind with
  | call target =>
    rw [hkind] at hk
    cases hk
  | ret pop => rw [walk_around_ret hc hkind hs, walk_around_ret hc' hkind hs]
  | _ => simp only [around, hkind]

theorem walk_flatMap_alike (hc : h.Consistent) (hc' : h'.Consistent)
    (hl : ∀ s ∈ ss, s.isSynthetic = false) (ha : ∀ s ∈ ss, s.kind.isCall → h.Alike h' i s)
    (known : Constants) :
    walk (ss.flatMap (h.around i)) known = walk (ss.flatMap (h'.around i)) known := by
  induction ss generalizing known with
  | nil => rfl
  | cons s ss ih =>
    have hrest : ∀ t ∈ ss, t.isSynthetic = false := fun t ht => hl t (List.mem_cons_of_mem _ ht)
    have hone : h.Alike h' i s := by
      cases hk : s.kind.isCall with
      | true => exact ha s List.mem_cons_self hk
      | false => exact alike_of_not_call hc hc' (hl s List.mem_cons_self) hk
    rw [List.flatMap_cons, List.flatMap_cons, walk_append (hc.plain hrest),
      walk_append (hc'.plain hrest), hone]
    exact ih hrest (fun t ht => ha t (List.mem_cons_of_mem _ ht)) _

def siteOf (h : Hooks) (i : FunctionId) (s : Statement) (target : CallTarget)
    (known : Constants) : CallSite :=
  ⟨s.id, s.address, target.resolve known, isHookedCall (h.attached (.call ⟨i, s.id⟩)).head?⟩

/-- The calls among statements with their hooks are the calls among the statements, each with what
is known behind those before it. -/
theorem mem_callsOf_flatMap (hc : h.Consistent) (hl : ∀ s ∈ ss, s.isSynthetic = false) :
    x ∈ callsOf (ss.flatMap (h.around i)) known ↔
      ∃ (j : Nat) (s : Statement) (target : CallTarget), ss[j]? = some s ∧ s.kind = .call target ∧
        x = h.siteOf i s target (walk ((ss.take j).flatMap (h.around i)) known) := by
  induction ss generalizing known with
  | nil => simp [callsOf, statesBefore]
  | cons t ss ih =>
    have hrest : ∀ s ∈ ss, s.isSynthetic = false := fun s hs => hl s (List.mem_cons_of_mem _ hs)
    have hplain : ∀ j, isHookedCall ((ss.take j).flatMap (h.around i)).head? = false := fun j =>
      hc.plain fun s hs => hrest s (List.mem_of_mem_take hs)
    rw [List.flatMap_cons, callsOf_append (hc.plain hrest), List.mem_append, ih hrest]
    constructor
    · rintro (hx | ⟨j, s, target, hj, hk, rfl⟩)
      · cases hk : t.kind with
        | call target =>
          rw [callsOf_around_call hc hk, List.mem_singleton] at hx
          exact ⟨0, t, target, rfl, hk, hx⟩
        | _ =>
          rw [callsOf_around_other hc (by rw [hk]; rfl)] at hx
          cases hx
      · refine ⟨j + 1, s, target, hj, hk, ?_⟩
        rw [List.take_succ_cons, List.flatMap_cons, walk_append (hplain j)]
    · rintro ⟨j, s, target, hj, hk, rfl⟩
      cases j with
      | zero =>
        obtain rfl := Option.some.inj hj
        left
        rw [callsOf_around_call hc hk]
        exact List.mem_singleton_self _
      | succ j =>
        right
        refine ⟨j, s, target, hj, hk, ?_⟩
        rw [List.take_succ_cons, List.flatMap_cons, walk_append (hplain j)]

end Hooks

/-! ## Places in the code -/

namespace Function

variable {f g : Function} {b c q : BlockId} {i j k : Nat} {h h' : Hooks}

/-- The statement is the lifted one at the place. -/
def Line (f : Function) (b : BlockId) (i : Nat) (s : Statement) : Prop :=
  ∃ block, f.blocks[b]? = some block ∧ block.lifted[i]? = some s

/-- Control may come to the second statement after the first one. -/
def Precedes (f : Function) (s t : Statement) : Prop :=
  ∃ q i b j, f.Line q i s ∧ f.Line b j t ∧
    (Relation.TransGen f.Edge q b ∨ q = b ∧ i < j)

def OnLoop (f : Function) (s : Statement) : Prop :=
  ∃ b i, f.Line b i s ∧ Relation.TransGen f.Edge b b

theorem Line.of_code (hl : f.Line b i s) (h : g.code = f.code) : g.Line b i s := by
  obtain ⟨x, hx, hs⟩ := hl
  obtain ⟨y, hy, hbare⟩ := block_of_code h hx
  have hlifted : y.lifted = x.lifted := congrArg Block.statements hbare
  exact ⟨y, hy, hlifted ▸ hs⟩

theorem transGen_of_code (h : g.code = f.code) (hq : Relation.TransGen f.Edge q b) :
    Relation.TransGen g.Edge q b := by
  have hedges : f.Edge ≤ g.Edge := fun _ _ => edge_of_code h
  exact Relation.TransGen.mono hedges _ _ hq

theorem Precedes.of_code (hp : f.Precedes s t) (h : g.code = f.code) : g.Precedes s t := by
  obtain ⟨q, i, b, j, hs, ht, hqb⟩ := hp
  exact ⟨q, i, b, j, hs.of_code h, ht.of_code h, hqb.imp_left (transGen_of_code h)⟩

theorem OnLoop.of_code (hs : f.OnLoop s) (h : g.code = f.code) : g.OnLoop s := by
  obtain ⟨b, i, hb, hloop⟩ := hs
  exact ⟨b, i, hb.of_code h, transGen_of_code h hloop⟩

theorem Line.mem (hl : f.Line b i s) : s ∈ f.statements ∧ s.isSynthetic = false := by
  obtain ⟨x, hx, hs⟩ := hl
  have hmem := List.mem_of_getElem? hs
  exact ⟨mem_statements.mpr ⟨b, x, hx, (List.mem_filter.mp hmem).1⟩, lifted_of_mem s hmem⟩

theorem Line.unique (hl : f.Line b i s) (hl' : f.Line c j s) (hf : f.Numbered) : b = c ∧ i = j := by
  obtain ⟨x, hx, hs⟩ := hl
  obtain ⟨y, hy, hs'⟩ := hl'
  obtain rfl := hf.block_unique hx hy (List.mem_filter.mp (List.mem_of_getElem? hs)).1
    (List.mem_filter.mp (List.mem_of_getElem? hs')).1
  obtain rfl := Option.some.inj (hx.symm.trans hy)
  have hnodup : x.lifted.Nodup := (Hooks.Weave.nodup_body hf hx).filter _
  obtain ⟨hi, hs⟩ := List.getElem?_eq_some_iff.mp hs
  obtain ⟨hj, hs'⟩ := List.getElem?_eq_some_iff.mp hs'
  exact ⟨rfl, (hnodup.getElem_inj_iff).mp (hs.trans hs'.symm)⟩

theorem Precedes.trans {u : Statement} (hp : f.Precedes s t) (hp' : f.Precedes t u)
    (hf : f.Numbered) : f.Precedes s u := by
  obtain ⟨q, i, b, j, hs, ht, hqb⟩ := hp
  obtain ⟨b', j', c, k, ht', hu, hbc⟩ := hp'
  obtain ⟨rfl, rfl⟩ := ht.unique ht' hf
  refine ⟨q, i, c, k, hs, hu, ?_⟩
  rcases hqb with hqb | ⟨rfl, hij⟩
  · rcases hbc with hbc | ⟨rfl, -⟩
    · exact .inl (hqb.trans hbc)
    · exact .inl hqb
  · rcases hbc with hbc | ⟨rfl, hjk⟩
    · exact .inl hbc
    · exact .inr ⟨rfl, hij.trans hjk⟩

theorem Precedes.onLoop (hp : f.Precedes s s) (hf : f.Numbered) : f.OnLoop s := by
  obtain ⟨q, i, b, j, hs, hs', hqb⟩ := hp
  obtain ⟨rfl, rfl⟩ := hs.unique hs' hf
  rcases hqb with hqb | ⟨-, hlt⟩
  · exact ⟨q, i, hs, hqb⟩
  · exact absurd hlt (Nat.lt_irrefl i)

theorem not_onLoop (h : ∀ block ∈ f.blocks, s ∈ block.lifted → block.successors = []) :
    ¬f.OnLoop s := by
  rintro ⟨b, i, ⟨block, hblock, hline⟩, hloop⟩
  obtain ⟨c, ⟨block', hblock', hc⟩, -⟩ := Relation.TransGen.head'_iff.mp hloop
  obtain rfl := Option.some.inj (hblock.symm.trans hblock')
  rw [h block (List.mem_of_getElem? hblock) (List.mem_of_getElem? hline)] at hc
  cases hc

/-! ## Targets -/

namespace Rehooked

theorem walk_eq (hg : f.Rehooked g h h') {x y : Block} (hx : f.blocks[b]? = some x)
    (hy : g.blocks[b]? = some y) (h0 : b = entryBlock → known = ∅)
    (ha : ∀ s ∈ x.lifted, s.kind.isCall → h.Alike h' f.id s) :
    walk x.statements known = walk y.statements known := by
  obtain ⟨hstatements, hstatements', -⟩ := hg.block hx hy
  rw [hstatements, hstatements', (Hooks.woven_entry hg.consistent lifted_of_mem h0).1,
    (Hooks.woven_entry hg.consistent' lifted_of_mem h0).1]
  exact Hooks.walk_flatMap_alike hg.consistent hg.consistent' lifted_of_mem ha known

/-- What is known in front of a block depends on the blocks only from which it can be reached. -/
theorem facts_within (hg : f.Rehooked g h h')
    (ha : ∀ {q : BlockId} {i : Nat} {s : Statement}, Relation.TransGen f.Edge q b → f.Line q i s →
      s.kind.isCall → h.Alike h' f.id s) {known known' : Constants}
    (hk : f.blockFacts[b]? = some known) (hk' : g.blockFacts[b]? = some known') :
    known.Within known' := by
  classical
  have hsolved := f.blockFacts_solved
  have hagrees : g.Agrees fun q =>
      if Relation.ReflTransGen f.Edge q b then (f.blockFacts[q]?).getD ∅ else ∅ := by
    refine ⟨?_, ?_⟩
    · rw [hsolved.agrees.start, ite_self]
    · intro q c y hq hy hc
      split
      · next hcb =>
        obtain ⟨x, hx, -⟩ := block_of_code hg.same.code_eq.symm hy
        obtain ⟨-, -, hsuccessors⟩ := hg.block hx hy
        have hqc : f.Edge q c := ⟨x, hx, hsuccessors ▸ hc⟩
        have hwithin := hsolved.agrees.edge (reaches_of_code hg.same.code_eq.symm hq) hx
          (hsuccessors ▸ hc)
        rw [if_pos (hcb.head hqc)]
        refine hwithin.trans (Eq.subst ?_ (Constants.Within.refl _))
        refine hg.walk_eq hx hy ?_ fun s hs hcall => ?_
        · rintro rfl
          exact hsolved.agrees.start
        · obtain ⟨i, hi⟩ := List.mem_iff_getElem?.mp hs
          exact ha (Relation.TransGen.head' hqc hcb) ⟨x, hx, hi⟩ hcall
      · exact Constants.empty_within _
  have hwithin := hagrees.within hk'
  rwa [if_pos Relation.ReflTransGen.refl, hk, Option.getD_some] at hwithin

theorem facts_eq (hg : f.Rehooked g h h')
    (ha : ∀ {q : BlockId} {i : Nat} {s : Statement}, Relation.TransGen f.Edge q b → f.Line q i s →
      s.kind.isCall → h.Alike h' f.id s) {known known' : Constants}
    (hk : f.blockFacts[b]? = some known) (hk' : g.blockFacts[b]? = some known') :
    known = known' := by
  have hwithin : known.Within known' := hg.facts_within ha hk hk'
  refine hwithin.antisymm (hg.symm.facts_within ?_ hk' hk)
  intro q i s hq hs hcall
  rw [hg.same.id_eq]
  exact (ha (transGen_of_code hg.same.code_eq.symm hq) (hs.of_code hg.same.code_eq.symm) hcall).symm

/-- A snapshot lists the same calls whatever hooks there are. An indirect call has the same target
if all calls that precede it act alike, and a direct one in any case. -/
theorem exists_call (hg : f.Rehooked g h h') {x : CallSite} (hx : x ∈ (Snapshot.take f).calls) :
    ∃ t : Statement, t.id = x.statement ∧ t.kind.isCall ∧ (∃ b i, f.Line b i t) ∧
      ∃ y ∈ (Snapshot.take g).calls, y.statement = x.statement ∧
        ((t.isIndirectCall → ∀ s, f.Precedes s t → s.kind.isCall → h.Alike h' f.id s) →
          y.target = x.target) := by
  obtain ⟨b, block, known, hblock, hk, hx⟩ := mem_calls.mp hx
  obtain ⟨block', hblock', -⟩ := block_of_code hg.same.code_eq hblock
  obtain ⟨known', hk'⟩ := (visited_iff_of_code hg.same.code_eq).mpr ⟨known, hk⟩
  obtain ⟨hstatements, hstatements', -⟩ := hg.block hblock hblock'
  have h0 : b = entryBlock → known = ∅ := by
    rintro rfl
    have hstart := f.blockFacts_solved.agrees.start
    rwa [hk, Option.getD_some] at hstart
  have h0' : b = entryBlock → known' = ∅ := by
    rintro rfl
    have hstart := g.blockFacts_solved.agrees.start
    rwa [hk', Option.getD_some] at hstart
  rw [hstatements, (Hooks.woven_entry hg.consistent lifted_of_mem h0).2,
    Hooks.mem_callsOf_flatMap hg.consistent lifted_of_mem] at hx
  obtain ⟨j, t, target, hj, hkind, rfl⟩ := hx
  have hline : f.Line b j t := ⟨block, hblock, hj⟩
  refine ⟨t, rfl, by rw [hkind]; rfl, ⟨b, j, hline⟩, h'.siteOf f.id t target
    (walk ((block.lifted.take j).flatMap (h'.around f.id)) known'), ?_, rfl, ?_⟩
  · refine mem_calls.mpr ⟨b, block', known', hblock', hk', ?_⟩
    rw [hstatements', (Hooks.woven_entry hg.consistent' lifted_of_mem h0').2,
      Hooks.mem_callsOf_flatMap hg.consistent' lifted_of_mem]
    exact ⟨j, t, target, hj, hkind, rfl⟩
  · intro ha
    cases target with
    | direct address => rfl
    | indirect l =>
      have ha := ha (by simp only [Statement.isIndirectCall, hkind])
      have hfacts : known = known' := hg.facts_eq
        (fun {q i s} hq hs hcall => ha s ⟨q, i, b, j, hs, hline, .inl hq⟩ hcall) hk hk'
      have hwalk : walk ((block.lifted.take j).flatMap (h.around f.id)) known =
          walk ((block.lifted.take j).flatMap (h'.around f.id)) known := by
        refine Hooks.walk_flatMap_alike hg.consistent hg.consistent'
          (fun s hs => lifted_of_mem s (List.mem_of_mem_take hs)) (fun s hs hcall => ?_) known
        obtain ⟨i, hi⟩ := List.mem_iff_getElem?.mp hs
        rw [List.getElem?_take] at hi
        split at hi
        · next hij => exact ha s ⟨b, i, b, j, ⟨block, hblock, hi⟩, hline, .inr ⟨rfl, hij⟩⟩ hcall
        · cases hi
      subst hfacts
      simp only [Hooks.siteOf, hwalk]

end Rehooked

/-! ## Calls on no loop -/

open scoped Classical in
/-- How many indirect calls that are on no loop precede the statement. -/
noncomputable def rank (f : Function) (t : Statement) : Nat :=
  (f.code.flatMap (·.statements)).countP fun s =>
    s.isIndirectCall ∧ ¬f.OnLoop s ∧ f.Precedes s t

theorem Line.mem_code (hl : f.Line b i s) : s ∈ f.code.flatMap (·.statements) := by
  obtain ⟨block, hblock, hmem⟩ := mem_lifted_iff.mp hl.mem
  exact List.mem_flatMap.mpr ⟨block, hblock, hmem⟩

theorem Precedes.rank_lt (hp : f.Precedes s t) (hf : f.Numbered) (hs : s.isIndirectCall)
    (hloop : ¬f.OnLoop s) : f.rank s < f.rank t := by
  classical
  have hplaces := hp
  obtain ⟨q, i, -, -, hline, -, -⟩ := hplaces
  refine countP_lt_countP (a := s) ?_ hline.mem_code ?_ ?_
  · intro u hu
    rw [decide_eq_true_iff] at hu ⊢
    exact ⟨hu.1, hu.2.1, hu.2.2.trans hp hf⟩
  · rw [decide_eq_true_iff]
    exact fun hself => hloop (hself.2.2.onLoop hf)
  · rw [decide_eq_true_iff]
    exact ⟨hs, hloop, hp⟩

theorem Line.rank_lt (hl : f.Line b i t) (hf : f.Numbered) (ht : t.isIndirectCall) :
    f.rank t < (f.code.flatMap (·.statements)).countP (·.isIndirectCall) := by
  classical
  refine countP_lt_countP (a := t) ?_ hl.mem_code ?_ ht
  · intro u hu
    rw [decide_eq_true_iff] at hu
    exact hu.1
  · rw [decide_eq_true_iff]
    exact fun hself => hself.2.1 (hself.2.2.onLoop hf)

theorem rank_of_code (h : g.code = f.code) (t : Statement) : g.rank t = f.rank t := by
  classical
  have hsame : ∀ s, (s.isIndirectCall ∧ ¬g.OnLoop s ∧ g.Precedes s t) ↔
      (s.isIndirectCall ∧ ¬f.OnLoop s ∧ f.Precedes s t) := fun s =>
    and_congr_right fun _ => and_congr (not_congr ⟨(·.of_code h.symm), (·.of_code h)⟩)
      ⟨(·.of_code h.symm), (·.of_code h)⟩
  rw [rank, rank, h]
  refine List.countP_congr fun s _ => ?_
  rw [decide_eq_true_iff, decide_eq_true_iff]
  exact hsame s

end Function

end CallEffects
