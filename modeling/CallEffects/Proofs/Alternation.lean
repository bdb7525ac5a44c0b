import CallEffects.Proofs.Rounds

/-!
# Runs that guess

A detector that guesses gives indirect calls a convention before their target is known. The hook of
a guess can keep the very constant that resolves the call, and the hook that the target then asks
for can destroy it, so that a call on a loop goes back and forth for ever. Off the loops this cannot
happen: the target of a call depends on the calls in front of it only, so with every round the calls
of one more rank have come to the targets that they are going to keep. If from some round on the
indirect calls on loops do the same to what is known whatever hooks they carry, the run converges.
-/

namespace CallEffects

open Std

/-! ## Snapshots that are not quite up to date -/

/-- The snapshot lists the calls and the returns that the function has now, and those calls with the
targets they have now that are direct or have a rank below `n`. -/
structure Function.Fits (f : Function) (n : Nat) (s : Snapshot) : Prop where
  returns : s.returns = (Snapshot.take f).returns
  listed : ∀ x ∈ s.calls, ∃ y ∈ (Snapshot.take f).calls, y.statement = x.statement
  calls : ∀ y ∈ (Snapshot.take f).calls, ∃ x ∈ s.calls, x.statement = y.statement
  targets : ∀ x ∈ s.calls, ∀ y ∈ (Snapshot.take f).calls, y.statement = x.statement →
    ∀ {t : Statement} {b : BlockId} {i : Nat}, f.Line b i t → t.id = x.statement →
      (t.isIndirectCall → f.rank t < n) → y.target = x.target

theorem Snapshot.mem_anchors_of {s s' : Snapshot} {f : FunctionId} {a : Anchor}
    (hcalls : ∀ x ∈ s.calls, ∃ y ∈ s'.calls, y.statement = x.statement)
    (hreturns : ∀ ret ∈ s.returns, ret ∈ s'.returns) (ha : a ∈ s.anchors f) : a ∈ s'.anchors f := by
  have hf := function_of_mem_anchors ha
  cases a with
  | entry i =>
    obtain rfl : i = f := hf
    exact entry_mem_anchors s' i
  | ret r =>
    obtain ⟨i, id⟩ := r
    obtain rfl : i = f := hf
    exact ret_mem_anchors.mpr (hreturns id (ret_mem_anchors.mp ha))
  | call r =>
    obtain ⟨i, id⟩ := r
    obtain rfl : i = f := hf
    obtain ⟨x, hx, rfl⟩ := call_mem_anchors.mp ha
    exact call_mem_anchors.mpr (hcalls x hx)

namespace Bench

variable {b b' : Bench} {sources : Sources} {s s' : Snapshot} {a : Anchor} {plan : Option Plan}

theorem Bears.active_eq (h : b.Bears a plan) (h' : b'.Bears a plan) (hc : b.hooks.Consistent)
    (hc' : b'.hooks.Consistent) (hbuilt : b.hooks.built <+: b'.hooks.built) :
    b'.hooks.active[a]? = b.hooks.active[a]? := by
  cases plan with
  | none =>
    have hnone : b.hooks.active[a]? = none := h
    have hnone' : b'.hooks.active[a]? = none := h'
    rw [hnone, hnone']
  | some p =>
    obtain ⟨k, hk, hkey⟩ := h
    obtain ⟨k', hk', hkey'⟩ := h'
    have hmem := hbuilt.subset (hc.active_built hk).1
    rw [hk, hk', hc'.key_inj hmem (hc'.active_built hk').1 (hkey.trans hkey'.symm)]

theorem Rests.renew (h : b.Rests sources s) (hserves : s'.mismatch? b.function = none)
    (hreturns : s'.returns = s.returns)
    (hcalls : ∀ y ∈ s'.calls, ∃ x ∈ s.calls, x.statement = y.statement ∧ x.target = y.target)
    (hlisted : ∀ x ∈ s.calls, ∃ y ∈ s'.calls, y.statement = x.statement) : b.Rests sources s' where
  consistent := h.consistent
  serves := hserves
  conventions := h.conventions
  signatures := h.signatures
  started := by
    have hpop : Hooks.popOf? b.function s' = Hooks.popOf? b.function s := by
      simp only [Hooks.popOf?, hreturns]
    have hstart : b.start s' = b.start s := by simp only [start, Hooks.observe, hpop]
    rw [hstart, h.started]
  own := h.own
  entry := h.entry
  returns := by
    rw [hreturns]
    exact h.returns
  calls := by
    intro y hy
    obtain ⟨x, hx, hid, htarget⟩ := hcalls y hy
    have hcall : b.callAt x = b.callAt y := by rw [callAt, hid, callAt]
    rw [← hcall, ← htarget, ← b.callPlan_of_target _ hid htarget]
    exact h.calls x hx
  recalls := by
    intro a ha
    refine h.recalls a (Snapshot.mem_anchors_of (fun y hy => ?_) (fun ret => ?_) ha)
    · obtain ⟨x, hx, hid, -⟩ := hcalls y hy
      exact ⟨x, hx, hid⟩
    · rw [hreturns]
      exact id
  only := by
    intro a ha hnot
    refine h.only a ha fun hmem => hnot (Snapshot.mem_anchors_of hlisted (fun ret => ?_) hmem)
    rw [hreturns]
    exact id

end Bench

/-! ## Rounds -/

namespace Round

variable {r r' q : Round} {sources : Sources} {f g : Function} {n : Nat}

theorem Steady.reads (h : r.Steady) (hg : g ∈ r.functions) (hf : f.Orderly) (hsame : f.SameCode g)
    (hrests : (r.bench g).Rests sources (.take f)) : g.Reads r.hooks := by
  obtain ⟨ever, gone, hweave⟩ := h.woven g hg
  exact hrests.reads hf hsame hweave

/-- The function is at rest but for calls with a rank of `n` or more. -/
structure Near (sources : Sources) (n : Nat) (r : Round) (g : Function) : Prop where
  reads : g.Reads r.hooks
  current : r.snapshots[g.id]? = some (.take g)
  rests : ∃ s, (r.bench g).Rests sources s ∧ g.Fits n s

theorem Follows.active_eq (h : r.Follows sources r' r.functions) (hc : r.hooks.Consistent)
    (hn : r.Near sources n f) (hid : g.id = f.id) (hrests : (r'.bench g).Rests sources (.take f))
    {s : Statement} {b : BlockId} {i : Nat} (hl : f.Line b i s)
    (hs : s.isIndirectCall → f.rank s < n) :
    r'.hooks.active[Anchor.call ⟨f.id, s.id⟩]? = r.hooks.active[Anchor.call ⟨f.id, s.id⟩]? := by
  obtain ⟨s₀, hrests₀, hfits⟩ := hn.rests
  by_cases hlisted : ∃ x ∈ s₀.calls, x.statement = s.id
  · obtain ⟨x, hx, hxs⟩ := hlisted
    obtain ⟨y, hy, hyx⟩ := hfits.listed x hx
    have htarget := hfits.targets x hx y hy hyx hl hxs.symm hs
    obtain ⟨hbears, hdecided⟩ := hrests₀.calls x hx
    obtain ⟨hbears', -⟩ := hrests.calls y hy
    have hplan : (r'.bench g).callPlan sources.signatures.value y =
        (r.bench f).callPlan sources.signatures.value x := by
      rw [Bench.callPlan_of_target _ _ hyx htarget]
      exact Bench.callPlan_congr hid (hdecided.lookup?_eq h.answered) h.observed
    have hcall : (r'.bench g).callAt y = (r.bench f).callAt x := by
      have hfunction : (r'.bench g).function.id = (r.bench f).function.id := hid
      rw [Bench.callAt, Bench.callAt, hyx, hfunction]
    rw [hplan, hcall] at hbears'
    have hactive := hbears.active_eq hbears' hc h.steady.inOrder.consistent h.built
    rw [Bench.callAt, hxs] at hactive
    exact hactive
  · have hanchor : Anchor.call ⟨f.id, s.id⟩ ∉ s₀.anchors f.id :=
      fun hmem => hlisted (Snapshot.call_mem_anchors.mp hmem)
    have hanchor' : Anchor.call ⟨f.id, s.id⟩ ∉ (Snapshot.take f).anchors g.id := by
      rw [hid]
      intro hmem
      obtain ⟨y, hy, hys⟩ := Snapshot.call_mem_anchors.mp hmem
      obtain ⟨x, hx, hxy⟩ := hfits.calls y hy
      exact hlisted ⟨x, hx, hxy.trans hys⟩
    have hnone : r.hooks.active[Anchor.call ⟨f.id, s.id⟩]? = none :=
      (hrests₀.only _ rfl hanchor).1
    have hnone' : r'.hooks.active[Anchor.call ⟨f.id, s.id⟩]? = none :=
      (hrests.only (.call ⟨f.id, s.id⟩) hid.symm hanchor').1
    rw [hnone, hnone']

/-- After a round a function is at rest but for calls in front of which the round has changed what a
hook does. -/
theorem Follows.near (h : r.Follows sources r' r.functions) (hr : r.Steady) (hf : f ∈ r.functions)
    (hreads : f.Reads r.hooks)
    (ha : ∀ {t : Statement} {b : BlockId} {i : Nat}, f.Line b i t → t.isIndirectCall →
      f.rank t < n → ∀ s, f.Precedes s t → s.kind.isCall → r.hooks.Alike r'.hooks f.id s) :
    ∃ g, r'.functions[f.id]? = some g ∧ f.SameCode g ∧ r'.Near sources n g := by
  obtain ⟨g, hg, hsame, hrests, hsnapshot⟩ := h.rests f hf
  have horderly := hr.inOrder.orderly hf
  have hmem := List.mem_of_getElem? hg
  have hreads' := h.steady.reads hmem horderly hsame hrests
  have hrehooked : f.Rehooked g r.hooks r'.hooks :=
    ⟨hsame, hr.inOrder.consistent, h.steady.inOrder.consistent, hreads, hreads'⟩
  refine ⟨g, hg, hsame, hreads', hsame.id_eq ▸ hsnapshot, .take f, hrests, ?_, ?_, ?_, ?_⟩
  · exact (Function.take_returns_of_code hsame.code_eq).symm
  · intro x hx
    obtain ⟨-, -, -, -, y, hy, hyx, -⟩ := hrehooked.exists_call hx
    exact ⟨y, hy, hyx⟩
  · intro y hy
    obtain ⟨-, -, -, -, x, hx, hxy, -⟩ := hrehooked.symm.exists_call hy
    exact ⟨x, hx, hxy⟩
  · intro x hx y hy hyx t b i hl ht hrank
    obtain ⟨t', ht', -, ⟨b', i', hl'⟩, y', hy', hyx', htarget⟩ := hrehooked.exists_call hx
    have hlf := hl.of_code hsame.code_eq.symm
    obtain rfl : t' = t :=
      horderly.numbered.eq_of_id_eq hl'.mem.1 hlf.mem.1 (ht'.trans ht.symm)
    have hnodup := Snapshot.calls_nodup (h.steady.inOrder.orderly hmem).numbered
    obtain rfl : y' = y := List.inj_on_of_nodup_map hnodup hy' hy (hyx'.trans hyx.symm)
    refine htarget fun hindirect s hs hcall => ha hlf hindirect ?_ s hs hcall
    rw [← Function.rank_of_code hsame.code_eq]
    exact hrank hindirect

/-- With every round the calls of one more rank have come to their targets, as long as the round
does not change what the indirect calls on loops do. -/
theorem Follows.near_succ (h : r.Follows sources r' r.functions) (hr : r.Steady)
    (hf : f ∈ r.functions) (hn : r.Near sources n f)
    (ha : ∀ s ∈ f.statements, s.isIndirectCall → f.OnLoop s → r.hooks.Alike r'.hooks f.id s) :
    ∃ g, r'.functions[f.id]? = some g ∧ f.SameCode g ∧ r'.Near sources (n + 1) g := by
  refine h.near hr hf hn.reads fun {t b i} hl ht hrank s hs hcall => ?_
  have horderly := hr.inOrder.orderly hf
  obtain ⟨g, hg, hsame, hrests, -⟩ := h.rests f hf
  have hplaces := hs
  obtain ⟨c, j, -, -, hls, -, -⟩ := hplaces
  by_cases hloop : s.isIndirectCall ∧ f.OnLoop s
  · exact ha s hls.mem.1 hloop.1 hloop.2
  · refine (Hooks.alike_of_active ?_ hcall).symm
    refine h.active_eq hr.inOrder.consistent hn hsame.id_eq hrests hls fun hindirect => ?_
    have hlt := hs.rank_lt horderly.numbered hindirect fun hon => hloop ⟨hindirect, hon⟩
    omega

theorem Near.renew (h : r.Near sources n f) (hc : r.hooks.Consistent)
    (hrank : ∀ {t : Statement} {b : BlockId} {i : Nat}, f.Line b i t → t.isIndirectCall →
      f.rank t < n) : (r.bench f).Rests sources (.take f) := by
  obtain ⟨s, hs, hfits⟩ := h.rests
  have hserves : (Snapshot.take f).mismatch? f = none := Snapshot.mismatch?_eq_none.mpr ⟨rfl, rfl⟩
  have hrehooked : f.Rehooked f r.hooks r.hooks := ⟨.refl f, hc, hc, h.reads, h.reads⟩
  refine hs.renew hserves hfits.returns.symm (fun y hy => ?_) hfits.listed
  obtain ⟨x, hx, hxy⟩ := hfits.calls y hy
  obtain ⟨t, ht, -, ⟨b, i, hl⟩, -⟩ := hrehooked.exists_call hy
  exact ⟨x, hx, hxy, (hfits.targets x hx y hy hxy.symm hl (ht.trans hxy.symm) (hrank hl)).symm⟩

theorem Steady.run_again (h : r.Steady) (hd : ∀ d ∈ sources.detector, d.IsBuiltin)
    (hn : ∀ f ∈ r.functions, r.Near sources n f)
    (hrank : ∀ f ∈ r.functions, ∀ {t : Statement} {b : BlockId} {i : Nat}, f.Line b i t →
      t.isIndirectCall → f.rank t < n) (hok : r.run sources = .ok r') :
    r.Again r.hooks r.stats r' := by
  have hrests : ∀ fs : List Function, (∀ f ∈ fs, f ∈ r.functions) →
      r.RestsAll sources r.hooks fs := by
    intro fs hfs
    induction fs with
    | nil => trivial
    | cons f fs ih =>
      have hf := hfs f List.mem_cons_self
      have hobserve : r.hooks.observe f (.take f) = r.hooks :=
        Hooks.observe_eq_self (h.observes f hf)
      rw [RestsAll, hobserve]
      exact ⟨(hn f hf).renew h.inOrder.consistent (hrank f hf),
        ih fun g hg => hfs g (List.mem_cons_of_mem _ hg)⟩
  have hrun := ((hrests r.functions fun _ hf => hf).instrumentEach hd
    (fun f hf => h.inOrder.getElem? hf) (fun f hf => (hn f hf).current) r.cancellation r.stats).1
  have hok : (r.functions.map Snapshot.take).foldlM (instrumentNext sources)
      (r.resume r.hooks r.cancellation r.stats) = .ok r' := by
    rw [run] at hok
    have hlearned := h.learned_eq
    rw [learned] at hlearned
    rwa [hlearned] at hok
  rw [hok, h.observes.observeAll fun _ hf => hf] at hrun
  exact hrun.2

/-! ## One round after the other -/

/-- What so many rounds make of the first one. -/
inductive Passes (sources : Sources) (r₀ : Round) : Nat → Round → Prop
  | zero : Passes sources r₀ 0 r₀
  | succ {m : Nat} {r r' : Round} (h : Passes sources r₀ m r) (hok : r.run sources = .ok r') :
      Passes sources r₀ (m + 1) { r' with stats := .zero }

/-- Once more than `k` rounds are over, no round changes what the hooks of the indirect calls that
lie on loops do to what is known. -/
def LoopsSettle (sources : Sources) (r₀ : Round) (k : Nat) : Prop :=
  ∀ m r r', k < m → Passes sources r₀ m r → r.run sources = .ok r' → ∀ f ∈ r₀.functions,
    ∀ s ∈ f.statements, s.isIndirectCall → f.OnLoop s → r.hooks.Alike r'.hooks f.id s

theorem LoopsSettle.of_loopless {r₀ : Round}
    (h : ∀ f ∈ r₀.functions, ∀ s ∈ f.statements, s.isIndirectCall → ¬f.OnLoop s) (k : Nat) :
    LoopsSettle sources r₀ k :=
  fun _ _ _ _ _ _ f hf s hs hindirect hloop => absurd hloop (h f hf s hs hindirect)

/-- What is true after so many rounds, of which the first `k` may have gone back and forth. -/
structure Progress (sources : Sources) (r₀ : Round) (k m : Nat) (r : Round) : Prop where
  passes : Passes sources r₀ m r
  steady : r.Steady
  sound : r.conventions.poisoned = false
  same : Functions.Each Function.SameCode r₀.functions r.functions
  near : ∀ f ∈ r.functions, r.Near sources (m - (k + 1)) f

variable {r₀ : Round} {k m : Nat}

theorem Progress.first (h : r₀.learned.Steady) (hc : r₀.conventions.poisoned = false)
    (hreads : ∀ f ∈ r₀.functions, f.Reads r₀.learned.hooks)
    (hd : ∀ d ∈ sources.detector, d.IsBuiltin) (hok : r₀.run sources = .ok r') :
    Progress sources r₀ k 1 { r' with stats := .zero } := by
  have hfollows : r₀.learned.Follows sources r' r₀.learned.functions := by
    rw [r₀.learned_functions]
    exact run_follows h hd hok
  have hsame := hfollows.same
  have hsteady := hfollows.steady
  refine ⟨.succ .zero hok, ⟨hsteady.inOrder.congr rfl rfl rfl rfl rfl, hsteady.woven,
    hsteady.registered, hsteady.observes⟩, ?_, r₀.learned_functions ▸ hsame, ?_⟩
  · rw [hfollows.poisoned, r₀.learned_conventions]
    exact hc
  · intro g hg
    obtain ⟨i, f, hf, hi, -⟩ := hsame.of_mem hg
    have hmem := List.mem_of_getElem? hf
    obtain ⟨g', hg', -, hnear⟩ := hfollows.near (n := 0) h hmem
      (hreads f (r₀.learned_functions ▸ hmem)) fun _ _ hlt => absurd hlt (Nat.not_lt_zero _)
    rw [h.inOrder.ids hf] at hg'
    obtain rfl := Option.some.inj (hi.symm.trans hg')
    have hzero : 1 - (k + 1) = 0 := by omega
    rw [hzero]
    exact ⟨hnear.reads, hnear.current, hnear.rests⟩

theorem Progress.run (h : Progress sources r₀ k m r) (hloops : LoopsSettle sources r₀ k)
    (hd : ∀ d ∈ sources.detector, d.IsBuiltin) (hok : r.run sources = .ok r') :
    Progress sources r₀ k (m + 1) { r' with stats := .zero } := by
  have hfollows : r.Follows sources r' r.functions := by
    have hrun := run_follows (h.steady.learned_eq.symm ▸ h.steady) hd hok
    rwa [h.steady.learned_eq] at hrun
  have hsteady := hfollows.steady
  refine ⟨.succ h.passes hok, ⟨hsteady.inOrder.congr rfl rfl rfl rfl rfl, hsteady.woven,
    hsteady.registered, hsteady.observes⟩, hfollows.poisoned.trans h.sound,
    h.same.trans hfollows.same, ?_⟩
  intro g hg
  obtain ⟨i, f, hf, hi, -⟩ := hfollows.same.of_mem hg
  have hmem := List.mem_of_getElem? hf
  have hid := h.steady.inOrder.ids hf
  suffices hnear : ∃ g, r'.functions[f.id]? = some g ∧ f.SameCode g ∧
      r'.Near sources (m + 1 - (k + 1)) g by
    obtain ⟨g', hg', -, hnear⟩ := hnear
    rw [hid] at hg'
    obtain rfl := Option.some.inj (hi.symm.trans hg')
    exact ⟨hnear.reads, hnear.current, hnear.rests⟩
  by_cases hlate : k < m
  · have hsucc : m + 1 - (k + 1) = m - (k + 1) + 1 := by omega
    rw [hsucc]
    refine hfollows.near_succ h.steady hmem (h.near f hmem) fun s hs hindirect hloop => ?_
    obtain ⟨_, f₀, hf₀, -, hsame⟩ := h.same.of_mem hmem
    obtain ⟨b, j, hl, hb⟩ := hloop.of_code hsame.code_eq.symm
    rw [hsame.id_eq]
    exact hloops m r r' hlate h.passes hok f₀ (List.mem_of_getElem? hf₀) s hl.mem.1 hindirect
      ⟨b, j, hl, hb⟩
  · have hzero : m + 1 - (k + 1) = 0 := by omega
    rw [hzero]
    exact hfollows.near h.steady hmem (h.near f hmem).reads
      fun _ _ hlt => absurd hlt (Nat.not_lt_zero _)

theorem Fresh.learned_steady (h : r.Fresh) (hd : (r.functions.map Callee.ofFunction).Nodup)
    (hregistered : r.conventions.value.AllRegistered) :
    r.learned.Steady ∧ ∀ f ∈ r.functions, f.Reads r.learned.hooks := by
  have hin := h.inOrder
  obtain ⟨observed, hlearned⟩ := r.exists_learned
  have hinOrder : r.learned.InOrder := by
    rw [hlearned]
    exact hin.congr rfl rfl rfl rfl rfl
  have hwoven : r.learned.Woven := by
    have hturns : Turns (fun f s => s.Genuine f) (⟨none, .sound .empty⟩, r)
        (⟨none, .sound .empty⟩, r.learned) := foldl_observe_turns r _
    exact Turns.woven hturns hin h.woven
  refine ⟨⟨hinOrder, hwoven, r.learned_conventions.symm ▸ hregistered, ?_⟩, ?_⟩
  · intro f hf pop hpop
    rw [r.learned_functions] at hf
    exact getElem?_observed (fun g hg => hin.getElem? hg) hd hf hpop
  · intro f hf
    obtain ⟨ever, gone, hweave⟩ := hwoven f (r.learned_functions.symm ▸ hf)
    refine Function.reads_of_weave hweave hinOrder.consistent fun {a k} hk => ?_
    rw [hlearned, h.hooks] at hk
    simp [Hooks.empty] at hk

end Round

/-! ## Whole runs -/

theorem Functions.rank_lt {fs : Functions}
    (hlifted : ∀ f ∈ fs, ∀ s ∈ f.statements, s.isSynthetic = false) {f : Function} (hf : f ∈ fs)
    (hn : f.Numbered) {t : Statement} {b : BlockId} {i : Nat} (hl : f.Line b i t)
    (ht : t.isIndirectCall) : f.rank t < fs.indirectCalls := by
  have hcode : f.code = f.blocks :=
    congrArg Function.blocks (Function.bare_of_lifted (hlifted f hf))
  have hlt := hl.rank_lt hn ht
  rw [hcode] at hlt
  refine Nat.lt_of_lt_of_le hlt ?_
  exact List.le_sum_of_mem (List.mem_map_of_mem hf)

namespace Workspace

variable {w : Workspace} {sources : Sources} {r₀ r : Round} {stats : ScheduleStats}
variable {c : Configuration} {p : Program} {fs : Functions} {k m n rounds : Nat}

theorem runRounds_settles (h : w.Shares sources r) (hss : sources.signatures.poisoned = false)
    (hd : ∀ d ∈ sources.detector, d.IsBuiltin) (hp : Round.Progress sources r₀ k m r)
    (hloops : Round.LoopsSettle sources r₀ k)
    (hrank : ∀ f ∈ r₀.functions, ∀ {t : Statement} {b : BlockId} {i : Nat}, f.Line b i t →
      t.isIndirectCall → f.rank t < n) (hm : stats.iterations = m) (hle : m < k + n + 2)
    (hrounds : k + n + 2 ≤ m + rounds) {x : Workspace × ScheduleStats}
    (hok : runRounds rounds w stats = .ok x) :
    x.2.converged ∧ x.2.iterations ≤ k + n + 2 := by
  induction rounds generalizing w r stats m with
  | zero => omega
  | succ rounds ih =>
    have hsound := hp.sound
    cases hrun : r.run sources with
    | error stopped =>
      rw [runRounds_of_error h hsound hss hrun] at hok
      cases hok
    | ok r' =>
      have hp' := hp.run hloops hd hrun
      rw [runRounds_of_ok h hsound hss hrun hp'.sound] at hok
      split at hok
      · obtain rfl := Except.ok.inj hok
        refine ⟨rfl, ?_⟩
        change stats.iterations + 1 ≤ _
        omega
      · next hagain =>
        by_cases hlast : m + 1 < k + n + 2
        · refine ih (h.putBack r') hp' ?_ hlast (by omega) hok
          change stats.iterations + 1 = _
          rw [hm]
        · refine absurd ?_ hagain
          have hn : m - (k + 1) = n := by omega
          obtain ⟨unresolved, hq⟩ := hp.steady.run_again hd hp.near (fun f hf t b i hl ht => by
            obtain ⟨_, f₀, hf₀, -, hsame⟩ := hp.same.of_mem hf
            rw [hn, Function.rank_of_code hsame.code_eq]
            exact hrank f₀ (List.mem_of_getElem? hf₀) (hl.of_code hsame.code_eq.symm) ht) hrun
          have hstats : r'.stats = { r.stats with
              unresolved := r.stats.unresolved + unresolved } := congrArg Round.stats hq
          have hconventions : r'.conventions = r.conventions := by
            have hsame := congrArg Round.conventions hq
            exact hsame
          rw [hstats, stats_of_round? h.round, hconventions]
          simp [InstrumentStats.changed, InstrumentStats.zero]

theorem runRounds_settles_fresh (h : w.Shares sources r) (hfresh : r.Fresh)
    (hdistinct : (r.functions.map Callee.ofFunction).Nodup)
    (hcs : r.conventions.poisoned = false) (hss : sources.signatures.poisoned = false)
    (hr : r.conventions.value.AllRegistered) (hd : ∀ d ∈ sources.detector, d.IsBuiltin)
    (hloops : Round.LoopsSettle sources r k)
    (hrounds : k + Functions.indirectCalls r.functions + 2 ≤ rounds)
    {x : Workspace × ScheduleStats} (hok : runRounds rounds w .zero = .ok x) :
    x.2.converged ∧ x.2.iterations ≤ k + Functions.indirectCalls r.functions + 2 := by
  obtain ⟨hsteady, hreads⟩ := hfresh.learned_steady hdistinct hr
  have hrank : ∀ f ∈ r.functions, ∀ {t : Statement} {b : BlockId} {i : Nat}, f.Line b i t →
      t.isIndirectCall → f.rank t < Functions.indirectCalls r.functions :=
    fun f hf _ _ _ hl ht => Functions.rank_lt hfresh.lifted hf (hfresh.numbered f hf) hl ht
  cases rounds with
  | zero => omega
  | succ rounds =>
    cases hrun : r.run sources with
    | error stopped =>
      rw [runRounds_of_error h hcs hss hrun] at hok
      cases hok
    | ok r' =>
      have hfirst := Round.Progress.first (k := k) hsteady hcs hreads hd hrun
      rw [runRounds_of_ok h hcs hss hrun hfirst.sound] at hok
      split at hok
      · obtain rfl := Except.ok.inj hok
        exact ⟨rfl, Nat.le_add_left 1 _⟩
      · exact runRounds_settles (h.putBack r') hss hd hfirst hloops hrank rfl (by omega)
          (by omega) hok

/-- A run on functions that have just been built converges if from some round on the hooks of the
indirect calls on loops go on to do the same: after these `k` rounds it takes two rounds more than
there are indirect calls at most. -/
theorem run_settles (hf : w.functions = none) (he : w.engine = none) (hp : w.program = some p)
    (hb : p.buildFunctions = .ok fs) (hcs : w.currentConventions.poisoned = false)
    (hss : w.currentSignatures.poisoned = false) (hr : w.currentConventions.value.AllRegistered)
    (hloops : Round.LoopsSettle ⟨w.configuredDetector c, w.currentSignatures⟩ (w.firstRound fs) k)
    (hrounds : k + fs.indirectCalls + 2 ≤ c.maxIterations) :
    (∀ done, w.run c = .ok done →
      done.2.converged ∧ done.2.iterations ≤ k + fs.indirectCalls + 2) ∧
    (w.cancellation = .never → (c.emitTree → c.deinstrumentAtEnd) → ∃ done, w.run c = .ok done) := by
  obtain ⟨w₁, hprepare, hshares⟩ := prepare_fresh (c := c) hf he hp hb
  have hfresh : (w.firstRound fs).Fresh := Program.buildFunctions_fresh hb rfl rfl
  have hd := w.configuredDetector_isBuiltin c
  constructor
  · intro done hdone
    rw [run_of_prepare hprepare] at hdone
    obtain ⟨x, hx, hfinish⟩ := Bench.bind_eq_ok hdone
    obtain ⟨removed, heq⟩ := finish_stats hfinish
    rw [heq]
    exact runRounds_settles_fresh hshares hfresh (Program.buildFunctions_distinct hb) hcs hss hr hd
      hloops hrounds hx
  · intro hnever hc
    have hkeeps := runRounds_keeps c.maxIterations .zero hshares hfresh.inOrder hcs hss
    obtain ⟨x, hx⟩ := hkeeps.2 hnever
    rw [hx] at hkeeps
    obtain ⟨r, hshares', hkept⟩ := hkeeps.1
    rw [run_of_prepare hprepare, hx]
    exact finish_ok hshares' hkept.inOrder hss hc

/-- In the sample program no block follows another. -/
theorem loaded_settles :
    ∃ done, loaded.run { Configuration.sample with guessIndirectCalls := true } = .ok done ∧
      done.2.converged ∧ done.2.iterations ≤ 3 := by
  have hbuild : (Program.sample.buildFunctions).toOption.any fun fs =>
      fs.indirectCalls == 1 && fs.all fun f => f.blocks.all fun block => block.successors.isEmpty := by
    decide +kernel
  obtain ⟨fs, hb, hfs⟩ := exists_of_any_toOption hbuild
  rw [Bool.and_eq_true, beq_iff_eq] at hfs
  obtain ⟨hcalls, hfs⟩ := hfs
  have hloopless : ∀ f ∈ fs, ∀ s ∈ f.statements, s.isIndirectCall → ¬f.OnLoop s :=
    fun f hf s _ _ => Function.not_onLoop fun block hblock _ =>
      List.isEmpty_iff.mp (List.all_eq_true.mp (List.all_eq_true.mp hfs f hf) block hblock)
  have hregistered : loaded.currentConventions.value.AllRegistered :=
    fun callee id hid => (loaded_assignsAddresses callee id hid).2
  obtain ⟨hsettles, hruns⟩ := run_settles (k := 0)
    (c := { Configuration.sample with guessIndirectCalls := true }) rfl rfl rfl hb rfl rfl
    hregistered (.of_loopless hloopless 0) (by rw [hcalls]; decide)
  obtain ⟨done, hok⟩ := hruns rfl fun he => absurd he (by decide)
  have hdone := hsettles done hok
  rw [hcalls] at hdone
  exact ⟨done, hok, hdone⟩

/-! ## A run that does not settle -/

/-- The workspace after one more round, if this has changed something. -/
def unsettled? (w : Workspace) : Option Workspace :=
  match w.revisions, w.runRound with
  | .ok _, .ok (w', done) => if done.changed && w'.revisions.isOk then some w' else none
  | _, _ => none

theorem runRounds_of_unsettled {w' : Workspace} (h : w.unsettled? = some w') (rounds : Nat)
    (stats : ScheduleStats) : ∃ stats', stats'.converged = false ∧
      runRounds (rounds + 1) w stats = runRounds rounds w' stats' := by
  unfold unsettled? at h
  split at h
  · next v w₁ done hv hdone =>
    split at h
    · next hchanged =>
      obtain rfl := Option.some.inj h
      obtain ⟨hchanged, hafter⟩ := Bool.and_eq_true_iff.mp hchanged
      cases hv' : w₁.revisions with
      | error e =>
        rw [hv'] at hafter
        cases hafter
      | ok v' =>
        refine ⟨stats.after done false, rfl, ?_⟩
        simp only [runRounds, hv, hdone, hv', hchanged, Except.mapError, bind, Except.bind,
          Bool.not_true, Bool.false_and, Bool.false_eq_true, if_false, ScheduleStats.after]
    · cases h
  · cases h

theorem putBack_putBack (w : Workspace) (r r' : Round) :
    (w.putBack r).putBack r' = w.putBack r' := by
  cases he : w.engine with
  | none => simp [putBack, he]
  | some e => cases hown : e.ownConventions <;> simp [putBack, he, hown]

theorem exists_putBack_of_unsettled {w' : Workspace} (h : w.unsettled? = some w') :
    ∃ sources r q, w.round? = some (sources, r) ∧ w' = w.putBack q := by
  unfold unsettled? at h
  split at h
  · next v w₁ done hv hdone =>
    split at h
    · obtain rfl := Option.some.inj h
      unfold runRound at hdone
      split at hdone
      · cases hdone
      · next sources r hr =>
        split at hdone
        · cases hdone
        · next q hrun =>
          obtain ⟨rfl, -⟩ := Prod.mk.inj (Except.ok.inj hdone)
          exact ⟨sources, r, q, hr, rfl⟩
    · cases h
  · cases h

theorem eq_of_round?_eq {w₁ w₂ w₃ : Workspace} (h₁ : w.unsettled? = some w₁)
    (h₂ : w₁.unsettled? = some w₂) (h₃ : w₂.unsettled? = some w₃)
    (hround : w₃.round?.map Prod.snd = w₁.round?.map Prod.snd) : w₃ = w₁ := by
  obtain ⟨sources, r, q₁, hr, rfl⟩ := exists_putBack_of_unsettled h₁
  obtain ⟨-, -, q₂, -, rfl⟩ := exists_putBack_of_unsettled h₂
  obtain ⟨-, -, q₃, -, rfl⟩ := exists_putBack_of_unsettled h₃
  rw [putBack_putBack, putBack_putBack] at hround ⊢
  rw [round?_putBack hr, round?_putBack hr] at hround
  have hsame : { q₃ with stats := .zero } = { q₁ with stats := .zero } := Option.some.inj hround
  change w.putBack { q₃ with stats := .zero } = w.putBack { q₁ with stats := .zero }
  rw [hsame]

/-- Rounds that come back to where they were go on for as long as they may. -/
theorem not_converged_of_cycle {w' : Workspace} (h : w.unsettled? = some w')
    (h' : w'.unsettled? = some w) (hs : stats.converged = false)
    {x : Workspace × ScheduleStats} (hok : runRounds rounds w stats = .ok x) :
    x.2.converged = false := by
  induction rounds generalizing w w' stats with
  | zero =>
    obtain rfl := Except.ok.inj hok
    exact hs
  | succ rounds ih =>
    obtain ⟨stats', hs', heq⟩ := runRounds_of_unsettled h rounds stats
    rw [heq] at hok
    exact ih h' h hs' hok

end Workspace

/-- A call on a loop through a register that the callee may use. -/
def Program.seesaw : Program :=
  let blocks := Program.empty.blocks.insert 0x1000
    ⟨0x1000, [⟨some 0x1000, .assign (.register 6) (.constant 0x2000)⟩], [0x1010]⟩
  { Program.empty.addEntry 0x1000 none with
    blocks := blocks.insert 0x1010
      ⟨0x1010, [⟨some 0x1010, .call (.indirect (.register 6))⟩], [0x1010]⟩ }

/-- The callee has a convention that destroys the register. -/
def Workspace.seesaw : Workspace :=
  { Workspace.empty with
    program := some .seesaw
    conventions := (Conventions.empty.registerPreset "sysv-amd64").map fun x =>
      .sound (x.2.assign (.address 0x2000) x.1) }

/-- The convention that is guessed keeps it. -/
def Configuration.guessing : Configuration :=
  { Configuration.standard with defaultConvention := some "ms-x64", guessIndirectCalls := true }

namespace Workspace

theorem seesaw_assignsAddresses : seesaw.currentConventions.value.AssignsAddresses := by
  intro callee id hid
  rcases Table.getElem?_insert_eq_some hid with ⟨rfl, rfl⟩ | ⟨-, hid⟩
  · exact ⟨⟨_, rfl⟩, .sysvAmd64, rfl⟩
  · cases hid

/-- With the guess the target is known, with the hook of the target it is not: however many rounds
are allowed, the run does not converge. -/
theorem seesaw_never_converges :
    seesaw.functions = none ∧ seesaw.engine = none ∧
      (∃ p fs, seesaw.program = some p ∧ p.buildFunctions = .ok fs) ∧
      seesaw.currentConventions.value.AssignsAddresses ∧ Configuration.guessing.guessIndirectCalls ∧
      ¬∃ N, ∀ n, N ≤ n → ∃ done,
        seesaw.run { Configuration.guessing with maxIterations := n } = .ok done ∧
          done.2.converged := by
  have hbuild : (Program.seesaw.buildFunctions).toOption.any fun _ => true := by decide +kernel
  obtain ⟨fs, hfs, -⟩ := exists_of_any_toOption hbuild
  refine ⟨rfl, rfl, ⟨_, fs, rfl, hfs⟩, seesaw_assignsAddresses, rfl, ?_⟩
  rintro ⟨N, hN⟩
  obtain ⟨done, hdone, hconverged⟩ := hN (N + 2) (Nat.le_add_right N 2)
  have hcycle : (seesaw.prepare .guessing).toOption.any fun w₀ =>
      w₀.unsettled?.any fun w₁ => w₁.unsettled?.any fun w₂ => w₂.unsettled?.any fun w₃ =>
        w₃.unsettled?.any fun w₄ => w₄.round?.map Prod.snd == w₂.round?.map Prod.snd := by
    decide +kernel
  obtain ⟨w₀, hprepare, hcycle⟩ := exists_of_any_toOption hcycle
  obtain ⟨w₁, h₁, hcycle⟩ := (Option.any_eq_true _ _).mp hcycle
  obtain ⟨w₂, h₂, hcycle⟩ := (Option.any_eq_true _ _).mp hcycle
  obtain ⟨w₃, h₃, hcycle⟩ := (Option.any_eq_true _ _).mp hcycle
  obtain ⟨w₄, h₄, hround⟩ := (Option.any_eq_true _ _).mp hcycle
  obtain rfl := eq_of_round?_eq h₂ h₃ h₄ (beq_iff_eq.mp hround)
  have hprepare' : seesaw.prepare { Configuration.guessing with maxIterations := N + 2 } = .ok w₀ :=
    hprepare
  rw [run_eq hprepare' rfl rfl] at hdone
  obtain ⟨stats₁, -, heq₁⟩ := runRounds_of_unsettled h₁ (N + 1) .zero
  obtain ⟨stats₂, hs₂, heq₂⟩ := runRounds_of_unsettled h₂ N stats₁
  rw [heq₁, heq₂] at hdone
  rw [not_converged_of_cycle h₃ h₄ hs₂ hdone] at hconverged
  cases hconverged

end Workspace

end CallEffects
