import CallEffects.Proofs.Emission
import CallEffects.Proofs.Identity

/-!
# Instrumentation loses no facts

The facts in front of the lifted statements of a function are compared with those of its copy
without hooks. A lifted statement with its hook passes on at least what it passes on alone, and the
facts at the block entries grow with the hooks, so the two analyses list the same lifted statements
in the same order, with at least as much known in front of each of them in the function with hooks.
-/

namespace CallEffects

open Std

variable {known known' : Constants} {s : Statement} {xs ys ss : List Statement}

/-! ## Lifted statements -/

def liftedState? (x : Statement × Option Statement × Constants) : Option (Statement × Constants) :=
  if x.1.isSynthetic then none else some (x.1, x.2.2)

def liftedStates (ss : List Statement) (known : Constants) : List (Statement × Constants) :=
  (statesBefore ss known).filterMap liftedState?

def Function.liftedStates (f : Function) : List (Statement × Constants) :=
  (f.reachableStates f.blockFacts).filterMap liftedState?

/-- The same statement, with at least as much known before it. -/
def Richer (x y : Statement × Constants) : Prop := y.1 = x.1 ∧ x.2.Within y.2

theorem liftedStates_cons (x : Statement) (xs : List Statement) (known : Constants) :
    liftedStates (x :: xs) known =
      (if x.isSynthetic then [] else [(x, known)]) ++
        liftedStates xs (x.transfer xs.head? known) := by
  unfold liftedStates
  rw [statesBefore, List.filterMap_cons, liftedState?]
  cases x.isSynthetic <;> rfl

theorem liftedStates_append (hy : isHookedCall ys.head? = false) :
    liftedStates (xs ++ ys) known = liftedStates xs known ++ liftedStates ys (walk xs known) :=
  filterMap_statesBefore_append (fun _ _ _ _ _ => rfl) hy

theorem liftedStates_eq_nil (h : ∀ t ∈ xs, t.isSynthetic = true) : liftedStates xs known = [] := by
  induction xs generalizing known with
  | nil => rfl
  | cons x xs ih =>
    rw [liftedStates_cons, ih fun t ht => h t (List.mem_cons_of_mem _ ht),
      if_pos (h x List.mem_cons_self)]
    rfl

namespace Hooks

variable {h h' : Hooks} {i : FunctionId} {b : BlockId}

theorem Consistent.attached_synthetic (hc : h.Consistent) {a : Anchor} :
    ∀ t ∈ h.attached a, t.isSynthetic = true := by
  intro t ht
  rw [Statement.isSynthetic, (hc.attached ht).1]

/-- A lifted statement with its hook has one lifted statement, and nothing before it changes the
facts. -/
theorem liftedStates_around (hc : h.Consistent) (hs : s.isSynthetic = false) :
    liftedStates (h.around i s) known = [(s, known)] := by
  have hone : ∀ xs : List Statement, (∀ t ∈ xs, t.isSynthetic = true) →
      liftedStates (s :: xs) known = [(s, known)] := by
    intro xs hxs
    rw [liftedStates_cons, liftedStates_eq_nil hxs, hs]
    rfl
  cases hk : s.kind with
  | call target =>
    simp only [around, hk]
    exact hone _ hc.attached_synthetic
  | ret pop =>
    have hplain : isHookedCall [s].head? = false := isHookedCall_of_lifted hs
    simp only [around, hk]
    rw [liftedStates_append hplain, liftedStates_eq_nil hc.attached_synthetic, hc.walk_ret]
    exact hone [] (by simp)
  | _ =>
    simp only [around, hk]
    exact hone [] (by simp)

theorem flatMap_richer (hc : h.Consistent) (hc' : h'.Consistent) (hg : h.Grows h' i)
    (hl : ∀ s ∈ ss, s.isSynthetic = false) (hk : known.Within known') :
    List.Forall₂ Richer (liftedStates (ss.flatMap (h.around i)) known)
      (liftedStates (ss.flatMap (h'.around i)) known') := by
  induction ss generalizing known known' with
  | nil => exact .nil
  | cons s ss ih =>
    have hs := hl s List.mem_cons_self
    have hrest : ∀ t ∈ ss, t.isSynthetic = false := fun t ht => hl t (List.mem_cons_of_mem _ ht)
    rw [List.flatMap_cons, List.flatMap_cons, liftedStates_append (hc.plain hrest),
      liftedStates_append (hc'.plain hrest), liftedStates_around hc hs, liftedStates_around hc' hs]
    exact .cons ⟨rfl, hk⟩ (ih hrest (around_within hc hc' hg hk hs))

theorem liftedStates_woven (hc : h.Consistent) (hl : ∀ s ∈ ss, s.isSynthetic = false)
    (h0 : b = Function.entryBlock → known = ∅) :
    liftedStates (h.woven i b ss) known = liftedStates (ss.flatMap (h.around i)) known := by
  unfold woven
  split
  · next hb =>
    obtain rfl := h0 hb
    rw [liftedStates_append (hc.plain hl), liftedStates_eq_nil hc.attached_synthetic, hc.walk_entry]
    rfl
  · rfl

theorem woven_richer (hc : h.Consistent) (hc' : h'.Consistent) (hg : h.Grows h' i)
    (hl : ∀ s ∈ ss, s.isSynthetic = false) (hk : known.Within known')
    (h0 : b = Function.entryBlock → known' = ∅) :
    List.Forall₂ Richer (liftedStates (h.woven i b ss) known)
      (liftedStates (h'.woven i b ss) known') := by
  have hempty : b = Function.entryBlock → known = ∅ :=
    fun hb => Constants.eq_empty_of_within (h0 hb ▸ hk)
  rw [liftedStates_woven hc hl hempty, liftedStates_woven hc' hl h0]
  exact flatMap_richer hc hc' hg hl hk

end Hooks

/-! ## Functions -/

namespace Function

variable {f g : Function} {h h' : Hooks}

/-- What analysis of the first function finds, it finds in the second one too. -/
structure Informs (f g : Function) : Prop where
  /-- The same calls in the same order, each with the target that it had if it had one. -/
  calls : List.Forall₂ CallSite.Sharpens (Snapshot.take f).calls (Snapshot.take g).calls
  returns : (Snapshot.take g).returns = (Snapshot.take f).returns
  /-- The same lifted statements in the same order, with at least as much known before each. -/
  known : List.Forall₂ Richer f.liftedStates g.liftedStates

namespace Hooked

theorem informs (hg : f.Hooked g h h') : f.Informs g where
  calls := hg.sharpened_calls
  returns := take_returns_of_code hg.same.code_eq
  known := hg.forall₂_states fun hb hb' hk h0 => by
    obtain ⟨hstatements, hstatements', -⟩ := hg.block hb hb'
    rw [hstatements, hstatements']
    exact Hooks.woven_richer hg.consistent hg.consistent' hg.grows lifted_of_mem hk h0

end Hooked

/-- The copy without hooks reads as its code without hooks. -/
theorem bare_hooked (hc : h.Consistent) (hf : f.Reads h) : f.bare.Hooked f .empty h where
  same := ⟨rfl, rfl, rfl, (congrArg blocks f.bare_bare).symm⟩
  consistent := Hooks.consistent_empty
  consistent' := hc
  reads := by
    intro b block hb
    rw [Hooks.woven_empty]
    obtain ⟨x, -, rfl⟩ := Option.map_eq_some_iff.mp (List.getElem?_map ▸ hb)
    exact (List.filter_eq_self.mpr fun s hs => by simp [lifted_of_mem s hs]).symm
  reads' := hf
  grows a k _ hk := by simp [Hooks.empty] at hk

end Function

namespace Round

variable {r₀ r r' : Round} {sources₀ sources : Sources} {f : Function} {s : Snapshot}

/-- Whatever was done since no hook was there, after a function has been instrumented its analysis
finds what the analysis of its copy without hooks finds: the same calls, with every target that was
known, the same returns and all facts before the lifted statements. -/
theorem instrument_loses_no_facts (hfresh : r₀.Fresh)
    (h : Turns (fun f s => s.Genuine f) (sources₀, r₀) (sources, r)) (hf : f ∈ r.functions)
    (hs : s.Genuine f) (hok : r.instrument sources f s = .ok r') :
    ∃ f', r'.functions[f.id]? = some f' ∧ f.SameCode f' ∧ f'.bare.Informs f' := by
  have hin : r.InOrder := h.inOrder hfresh.inOrder
  have hwoven : r.Woven := h.woven hfresh.inOrder hfresh.woven
  obtain ⟨f', hf', hsame, hreads⟩ := hin.instrument_reads hwoven hf hs hok
  have hturn : Turn (fun f s => s.Genuine f) (sources, r) (sources, r') := by
    have hturn : Turn (fun f s => s.Genuine f) (sources, r) _ := .instrument sources r f s hf hs
    rwa [hok] at hturn
  have hin' : r'.InOrder := hturn.inOrder hin
  exact ⟨f', hf', hsame, (Function.bare_hooked hin'.consistent hreads).informs⟩

/-- The sample function, but it calls `0x2000` once more through a register that it has set before
the first call. -/
def calling : Function :=
  let statements := [Statement.lifted 0 (some 0x1000) (.assign (.register 6) (.constant 0x2000)),
    Statement.lifted 1 (some 0x1005) (.call (.direct 0x2000)),
    Statement.lifted 2 (some 0x100a) (.call (.indirect (.register 6))),
    Statement.lifted 3 (some 0x100c) (.ret 0)]
  ⟨0, "calling", some 0x1000, [⟨some 0x1000, statements, []⟩], 4, 0⟩

def callingSample : Round := { sample with functions := [calling] }

theorem callingSample_fresh : callingSample.Fresh :=
  fresh_of_singleton rfl rfl rfl ⟨by decide, by decide, by decide⟩ (by decide)

/-- Without the hook of the first call the target of the second one is not known. -/
theorem calling_loses_no_facts :
    ∃ r' f', callingSample.instrument ⟨none, .sound .empty⟩ calling (.take calling) = .ok r' ∧
      r'.functions[0]? = some f' ∧ f'.bare.Informs f' ∧
      (Snapshot.take f'.bare).calls.map (·.target) = [some 0x2000, none] ∧
      (Snapshot.take f').calls.map (·.target) = [some 0x2000, some 0x2000] := by
  have hexists : (callingSample.instrument ⟨none, .sound .empty⟩ calling
      (.take calling)).toOption.any fun r' => (r'.functions[0]?).any fun f' =>
        (Snapshot.take f'.bare).calls.map (·.target) == [some 0x2000, none] &&
          (Snapshot.take f').calls.map (·.target) == [some 0x2000, some 0x2000] := by
    decide +kernel
  obtain ⟨r', hok, hany⟩ := exists_of_any_toOption hexists
  obtain ⟨f', hf', htargets⟩ := (Option.any_eq_true _ _).mp hany
  rw [Bool.and_eq_true, beq_iff_eq, beq_iff_eq] at htargets
  have hmem : calling ∈ callingSample.functions := List.mem_singleton_self _
  obtain ⟨g, hg, -, hinforms⟩ := instrument_loses_no_facts callingSample_fresh .refl hmem
    (callingSample_fresh.inOrder.genuine_take hmem (.refl _)) hok
  obtain rfl := Option.some.inj (hf'.symm.trans hg)
  exact ⟨r', f', hok, hf', hinforms, htargets⟩

end Round

end CallEffects
