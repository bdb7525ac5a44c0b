import CallEffects.Proofs.History
import Mathlib.Algebra.Order.Group.Nat
import Mathlib.Algebra.Ring.Nat

/-!
# Taking all hooks off

Detaching a hook removes the statements it counts as removed, and no others. Once every touched
function has lost its hooks none is active anywhere, so what is left of each function is what was
lifted. This holds after any sequence of steps, however they ended, since every hook that was ever
attached is active on an anchor of a touched function.
-/

namespace CallEffects

open Std

namespace Function

theorem bare_of_lifted {f : Function} (h : ∀ s ∈ f.statements, s.isSynthetic = false) :
    f.bare = f := by
  have hcode : f.code = f.blocks := by
    conv_rhs => rw [← List.map_id f.blocks]
    apply List.map_congr_left
    intro block hblock
    exact Block.bare_eq_self fun s hs => h s (List.mem_flatMap.mpr ⟨block, hblock, hs⟩)
  simp only [bare, hcode]

theorem syntheticCount_eq_zero {f : Function} (h : ∀ s ∈ f.statements, s.isSynthetic = false) :
    f.syntheticCount = 0 := by
  rw [syntheticCount, List.countP_eq_zero]
  intro s hs
  simp [h s hs]

theorem bare_removeSynthetic (f : Function) (ids : List StatementId) :
    (f.removeSynthetic ids).bare = f.bare := by
  have hcode := f.code_removeSynthetic ids
  unfold bare
  rw [hcode]
  rfl

theorem syntheticCount_removeSynthetic_le (f : Function) (ids : List StatementId) :
    (f.removeSynthetic ids).syntheticCount ≤ f.syntheticCount := by
  rw [syntheticCount, statements_removeSynthetic]
  exact List.Sublist.countP_le List.filter_sublist

end Function

def Functions.syntheticTotal (fs : Functions) : Nat := (fs.map Function.syntheticCount).sum

theorem Functions.syntheticTotal_eq_zero {fs : Functions}
    (h : ∀ f ∈ fs, ∀ s ∈ f.statements, s.isSynthetic = false) : syntheticTotal fs = 0 := by
  apply List.sum_eq_zero_iff_forall_eq_nat.mpr
  intro n hn
  obtain ⟨f, hf, rfl⟩ := List.mem_map.mp hn
  exact Function.syntheticCount_eq_zero (h f hf)

theorem Functions.syntheticTotal_set {fs : Functions} {i : Nat} {f g : Function}
    (h : fs[i]? = some f) :
    syntheticTotal (fs.set i g) + f.syntheticCount = syntheticTotal fs + g.syntheticCount := by
  obtain ⟨hlt, hget⟩ := List.getElem?_eq_some_iff.mp h
  have hfs : fs = fs.take i ++ f :: fs.drop (i + 1) := by
    rw [← hget, List.getElem_cons_drop, List.take_append_drop]
  have hset : fs.set i g = fs.take i ++ g :: fs.drop (i + 1) :=
    List.set_eq_take_append_cons_drop.trans (if_pos hlt)
  have hsum : ∀ k : Function, syntheticTotal (fs.take i ++ k :: fs.drop (i + 1)) =
      syntheticTotal (fs.take i) + (k.syntheticCount + syntheticTotal (fs.drop (i + 1))) := by
    intro k
    simp only [syntheticTotal, List.map_append, List.map_cons, List.sum_append, List.sum_cons]
  have hold := hsum f
  have hnew := hsum g
  rw [← hfs] at hold
  rw [hset]
  omega

namespace Bench

theorem detach_bare (b : Bench) (a : Anchor) : (b.detach a).function.bare = b.function.bare := by
  cases h : b.hooks.active[a]? with
  | none => rw [detach_of_none h]
  | some hook =>
    rw [detach_of_some h]
    exact b.function.bare_removeSynthetic _

theorem detach_removed (b : Bench) (a : Anchor) :
    (b.detach a).stats.removed + (b.detach a).function.syntheticCount =
      b.stats.removed + b.function.syntheticCount := by
  cases h : b.hooks.active[a]? with
  | none => rw [detach_of_none h]
  | some hook =>
    have hle := b.function.syntheticCount_removeSynthetic_le hook.statementIds
    rw [detach_of_some h]
    dsimp only
    omega

theorem foldl_detach_bare (as : List Anchor) (b : Bench) :
    (as.foldl detach b).function.bare = b.function.bare := by
  induction as generalizing b with
  | nil => rfl
  | cons a as ih => exact (ih (b.detach a)).trans (b.detach_bare a)

theorem foldl_detach_removed (as : List Anchor) (b : Bench) :
    (as.foldl detach b).stats.removed + (as.foldl detach b).function.syntheticCount =
      b.stats.removed + b.function.syntheticCount := by
  induction as generalizing b with
  | nil => rfl
  | cons a as ih => exact (ih (b.detach a)).trans (b.detach_removed a)

theorem deinstrument_active (b : Bench) (a : Anchor) :
    b.deinstrument.hooks.active[a]? =
      if a.function = b.function.id then none else b.hooks.active[a]? := by
  rw [deinstrument, foldl_detach_active]
  by_cases ha : a.function = b.function.id
  · cases hk : b.hooks.active[a]? with
    | none => simp [ha]
    | some k =>
      have hmem : a ∈ b.hooks.active.keys := Table.mem_keys_iff.mpr ⟨k, hk⟩
      simp [ha, hmem]
  · simp [ha]

end Bench

namespace Round

variable {r : Round} {f : Function}

/-- The round with the hooks of some functions taken off, so far as `left` has lost them. -/
structure Stripped (r left : Round) : Prop where
  inOrder : left.InOrder
  bare : left.functions.map Function.bare = r.functions.map Function.bare
  removed : left.stats.removed + Functions.syntheticTotal left.functions =
    r.stats.removed + Functions.syntheticTotal r.functions
  active : ∀ {a : Anchor} {k : Hook}, left.hooks.active[a]? = some k → r.hooks.active[a]? = some k

theorem Stripped.refl (h : r.InOrder) : r.Stripped r := ⟨h, rfl, rfl, id⟩

theorem Stripped.trans {r' r'' : Round} (h : r.Stripped r') (h' : r'.Stripped r'') : r.Stripped r'' :=
  ⟨h'.inOrder, h'.bare.trans h.bare, h'.removed.trans h.removed, fun hk => h.active (h'.active hk)⟩

theorem deinstrument_active (r : Round) (f : Function) (a : Anchor) :
    (r.deinstrument f).hooks.active[a]? =
      if a.function = f.id then none else r.hooks.active[a]? :=
  (r.bench f).deinstrument_active a

theorem deinstrument_stripped (h : r.InOrder) (hf : f ∈ r.functions) :
    r.Stripped (r.deinstrument f) := by
  have hplace := h.getElem? hf
  have hm : Bench.Moves none .empty (fun _ => False) (r.bench f) _ := (r.bench f).deinstrument_moves
  have hid : (r.bench f).deinstrument.function.id = f.id := Bench.Moves.function_id hm
  have hbare : (r.bench f).deinstrument.function.bare = f.bare := Bench.foldl_detach_bare _ (r.bench f)
  have hremoved : (r.bench f).deinstrument.stats.removed +
      (r.bench f).deinstrument.function.syntheticCount = 0 + f.syntheticCount :=
    Bench.foldl_detach_removed _ (r.bench f)
  have hset : (r.deinstrument f).functions =
      r.functions.set f.id (r.bench f).deinstrument.function := functions_putBack hid
  refine ⟨h.deinstrument hf, ?_, ?_, ?_⟩
  · rw [hset]
    exact Functions.map_set_of_eq hplace hbare
  · have htotal := Functions.syntheticTotal_set hplace (g := (r.bench f).deinstrument.function)
    have hstats : (r.deinstrument f).stats.removed =
        r.stats.removed + (r.bench f).deinstrument.stats.removed := rfl
    rw [hset, hstats]
    omega
  · intro a k hk
    rw [deinstrument_active] at hk
    split at hk
    · cases hk
    · exact hk

def deinstrumentEach (r : Round) (ids : List FunctionId) : Round :=
  ids.foldl
    (fun r id =>
      match r.functions[id]? with
      | none => r
      | some f => r.deinstrument f) r

theorem deinstrumentAll_eq (r : Round) :
    r.deinstrumentAll = r.deinstrumentEach r.hooks.touched.keys := rfl

theorem deinstrumentEach_spec (ids : List FunctionId) (h : r.InOrder) :
    r.Stripped (r.deinstrumentEach ids) ∧
      ∀ a : Anchor, a.function ∈ ids → (r.deinstrumentEach ids).hooks.active[a]? = none := by
  induction ids generalizing r with
  | nil => exact ⟨.refl h, by simp⟩
  | cons id ids ih =>
    simp only [deinstrumentEach, List.foldl_cons]
    cases hf : r.functions[id]? with
    | none =>
      obtain ⟨hstripped, hnone⟩ := ih h
      refine ⟨hstripped, ?_⟩
      intro a ha
      rcases List.mem_cons.mp ha with ha | ha
      · cases hk : (r.deinstrumentEach ids).hooks.active[a]? with
        | none => exact hk
        | some k =>
          have hlt := h.present (hstripped.active hk)
          rw [ha] at hlt
          exact absurd (List.getElem?_eq_none_iff.mp hf) (Nat.not_le_of_lt hlt)
      · exact hnone a ha
    | some f =>
      have hfid := h.ids hf
      have hone := deinstrument_stripped h (List.mem_of_getElem? hf)
      obtain ⟨hstripped, hnone⟩ := ih hone.inOrder
      refine ⟨hone.trans hstripped, ?_⟩
      intro a ha
      rcases List.mem_cons.mp ha with ha | ha
      · cases hk : ((r.deinstrument f).deinstrumentEach ids).hooks.active[a]? with
        | none => exact hk
        | some k =>
          have hk' := hstripped.active hk
          rw [deinstrument_active, if_pos (ha.trans hfid.symm)] at hk'
          cases hk'
      · exact hnone a ha

theorem deinstrumentEach_of_inactive (h : r.InOrder) (ha : r.hooks.active = ∅)
    (ids : List FunctionId) : r.deinstrumentEach ids = r := by
  induction ids with
  | nil => rfl
  | cons id ids ih =>
    simp only [deinstrumentEach, List.foldl_cons]
    cases hf : r.functions[id]? with
    | none => exact ih
    | some f =>
      have hkeys : (r.bench f).hooks.active.keys.filter (·.function == f.id) = [] := by
        rw [List.filter_eq_nil_iff]
        intro a hmem
        obtain ⟨k, hk⟩ := Table.mem_keys_iff.mp hmem
        simp [bench, ha] at hk
      have hbench : (r.bench f).deinstrument = r.bench f := by
        rw [Bench.deinstrument]
        exact congrArg (List.foldl Bench.detach (r.bench f)) hkeys
      have hf' := h.getElem? (List.mem_of_getElem? hf)
      simp only [deinstrument, hbench, putBack_bench hf']
      exact ih

theorem deinstrumentEach_conventions (r : Round) (ids : List FunctionId) :
    (r.deinstrumentEach ids).conventions = r.conventions := by
  induction ids generalizing r with
  | nil => rfl
  | cons id ids ih =>
    simp only [deinstrumentEach, List.foldl_cons]
    cases r.functions[id]? with
    | none => exact ih r
    | some f => exact (ih (r.deinstrument f)).trans (Bench.foldl_detach_conventions _ (r.bench f))

theorem InOrder.deinstrumentAll (h : r.InOrder) :
    r.deinstrumentAll.functions = r.functions.map Function.bare ∧
      r.deinstrumentAll.hooks.active = ∅ ∧
      r.deinstrumentAll.stats.removed = r.stats.removed + Functions.syntheticTotal r.functions := by
  rw [deinstrumentAll_eq]
  obtain ⟨hstripped, hnone⟩ := deinstrumentEach_spec r.hooks.touched.keys h
  generalize r.deinstrumentEach r.hooks.touched.keys = r' at hstripped hnone
  have hactive : ∀ a : Anchor, r'.hooks.active[a]? = none := by
    intro a
    cases hk : r'.hooks.active[a]? with
    | none => rfl
    | some k =>
      have htouched := h.touched (hstripped.active hk)
      rw [hnone a (ExtTreeMap.mem_keys.mpr htouched)] at hk
      cases hk
  have hlifted : ∀ f ∈ r'.functions, ∀ s ∈ f.statements, s.isSynthetic = false := by
    intro f hf s hs
    cases hsyn : s.isSynthetic with
    | false => rfl
    | true =>
      obtain ⟨a, k, hk, -⟩ := ((hstripped.inOrder.accounts f hf).synthetic_iff s).mp ⟨hs, hsyn⟩
      rw [hactive a] at hk
      cases hk
  have htotal := Functions.syntheticTotal_eq_zero hlifted
  refine ⟨?_, ?_, ?_⟩
  · rw [← hstripped.bare]
    conv_lhs => rw [← List.map_id r'.functions]
    apply List.map_congr_left
    intro f hf
    exact (Function.bare_of_lifted (hlifted f hf)).symm
  · apply ExtTreeMap.ext_getElem?
    intro a
    rw [hactive a, ExtTreeMap.getElem?_empty]
  · have hremoved := hstripped.removed
    rwa [htotal, Nat.add_zero] at hremoved

end Round

namespace Workspace

variable {w₀ w : Workspace} {sources₀ sources : Sources} {r₀ r : Round}

/-- Whatever was done since the workspace was fresh, taking all hooks off leaves the lifted code of
every function and nothing else, counts every hook statement there was, and does nothing when it is
done again. -/
theorem deinstrumentAll_leaves_lifted_code (h₀ : w₀.round? = some (sources₀, r₀)) (hf : r₀.Fresh)
    (h : Relation.ReflTransGen (Step fun _ => True) w₀ w) (hr : w.round? = some (sources, r)) :
    r.deinstrumentAll.functions = r.functions.map Function.bare ∧
      r.deinstrumentAll.hooks.active = ∅ ∧
      r.deinstrumentAll.stats.removed = Functions.syntheticTotal r.functions ∧
      ∃ r', (w.putBack r.deinstrumentAll).round? = some (sources, r') ∧
        r'.deinstrumentAll = r' ∧ r'.stats.removed = 0 := by
  obtain ⟨sources', r', hr', hturns⟩ := steps_turns h h₀ hf.inOrder
  obtain ⟨rfl, rfl⟩ := Prod.mk.inj (Option.some.inj (hr.symm.trans hr'))
  have hin : r.InOrder := Round.Turns.inOrder hturns hf.inOrder
  obtain ⟨hfunctions, hactive, hremoved⟩ := hin.deinstrumentAll
  have hzero := stats_of_round? hr
  refine ⟨hfunctions, hactive, ?_, _, round?_putBack hr _, ?_, rfl⟩
  · rw [hremoved, hzero]
    exact Nat.zero_add _
  · have hdone : r.deinstrumentAll.InOrder :=
      (Round.deinstrumentEach_spec r.hooks.touched.keys hin).1.inOrder
    have hagain : Round.InOrder { r.deinstrumentAll with stats := .zero } :=
      hdone.congr rfl rfl rfl rfl rfl
    exact Round.deinstrumentEach_of_inactive hagain hactive _

theorem deinstrumentAll_sample :
    ∃ sources r, (left (sample.run .standard)).round? = some (sources, r) ∧
      0 < Functions.syntheticTotal r.functions ∧
      r.deinstrumentAll.functions = r.functions.map Function.bare := by
  have hround : ((left (sample.run .standard)).round?).any fun x =>
      0 < Functions.syntheticTotal x.2.functions := by decide +kernel
  obtain ⟨⟨sources, r⟩, hr, hpos⟩ := (Option.any_eq_true _ _).mp hround
  have hbare := (deinstrumentAll_leaves_lifted_code round?_sample Round.sample_fresh
    (.single (.run sample .standard)) hr).1
  exact ⟨sources, r, hr, of_decide_eq_true hpos, hbare⟩

end Workspace

end CallEffects
