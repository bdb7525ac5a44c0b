import CallEffects.Proofs.Likeness
import CallEffects.Proofs.Removal

/-!
# Runs that start over

After code and registries have changed, a run goes on from the hooks that are there. Once it has
converged every function is at rest, and so is every function once a run with a new engine has
converged on the same code without hooks. Both have come to the same hooks, unless an indirect call
on a loop kept the constant that its hook was attached for, or the engine remembers what a function
released that does not do so any longer.
-/

namespace CallEffects

open Std

/-! ## Observing the same code -/

namespace Hooks

variable {h h' : Hooks} {f g : Function} {fs gs : List Function}

theorem observe_of_source (hs : g.source = f.source) (hf : f.Numbered) (hg : g.Numbered)
    (ho : h'.observed = h.observed) :
    (h'.observe g (.take g)).observed = (h.observe f (.take f)).observed := by
  have hsame := (Function.source_eq_iff.mp hs).1
  apply ExtTreeMap.ext_getElem?
  intro callee
  rw [getElem?_observe, getElem?_observe, ho, release?, release?, hsame.ofFunction_eq,
    hsame.popOf?_take hf hg]

theorem observeAll_of_source (hs : gs.map Function.source = fs.map Function.source)
    (hf : ∀ f ∈ fs, f.Numbered) (hg : ∀ g ∈ gs, g.Numbered) (ho : h'.observed = h.observed) :
    (h'.observeAll gs).observed = (h.observeAll fs).observed := by
  induction fs generalizing gs h h' with
  | nil =>
    obtain rfl := List.map_eq_nil_iff.mp hs
    exact ho
  | cons f fs ih =>
    cases gs with
    | nil => cases hs
    | cons g gs =>
      rw [List.map_cons, List.map_cons, List.cons.injEq] at hs
      have hcons : h.observeAll (f :: fs) = (h.observe f (.take f)).observeAll fs := rfl
      have hcons' : h'.observeAll (g :: gs) = (h'.observe g (.take g)).observeAll gs := rfl
      rw [hcons, hcons']
      exact ih hs.2 (fun f hf' => hf f (List.mem_cons_of_mem _ hf'))
        (fun g hg' => hg g (List.mem_cons_of_mem _ hg'))
        (observe_of_source hs.1 (hf f List.mem_cons_self) (hg g List.mem_cons_self) ho)

/-- Everything that has been observed can still be seen. -/
def UpToDate (h : Hooks) (fs : List Function) : Prop :=
  ∀ callee, (h.observed[callee]?).isSome → ∃ f ∈ fs, (release? callee f).isSome

theorem UpToDate.observeAll (hu : h.UpToDate fs) :
    (empty.observeAll fs).observed = (h.observeAll fs).observed := by
  apply ExtTreeMap.ext_getElem?
  intro callee
  rw [getElem?_observeAll, getElem?_observeAll]
  cases hseen : fs.reverse.findSome? (release? callee) with
  | some pop => rfl
  | none =>
    have hnone : h.observed[callee]? = none := by
      rw [← Option.not_isSome_iff_eq_none]
      intro hsome
      obtain ⟨f, hf, hrelease⟩ := hu callee hsome
      rw [List.findSome?_eq_none_iff.mp hseen f (List.mem_reverse.mpr hf)] at hrelease
      cases hrelease
    rw [hnone]
    rfl

end Hooks

/-! ## What rounds keep -/

namespace Round

variable {r r' r'' : Round} {sources : Sources} {f : Function} {fs fs' : List Function}
variable {cs : Conventions}

/-- What rounds with a built-in detector have left of the first one. -/
structure Since (sources : Sources) (r q : Round) : Prop where
  inOrder : q.InOrder
  asked : Conventions.Asked sources.detector r.conventions.value q.conventions.value
  source : q.functions.map Function.source = r.functions.map Function.source
  observed : (q.hooks.observeAll q.functions).observed = (r.hooks.observeAll r.functions).observed

theorem Since.refl (h : r.InOrder) (hr : r.conventions.value.AllRegistered) :
    r.Since sources r :=
  ⟨h, .refl hr, rfl, rfl⟩

theorem Since.regular {q : Round} (h : r.Since sources q) : q.Regular :=
  ⟨h.inOrder.consistent, h.inOrder.ids, h.asked.answered.registered⟩

theorem run_visits (h : r.InOrder) (hr : r.conventions.value.AllRegistered)
    (hd : ∀ d ∈ sources.detector, d.IsBuiltin) (hok : r.run sources = .ok r') :
    r.learned.Visits sources r' r.functions ∧
      r'.hooks.observed = (r.hooks.observeAll r.functions).observed := by
  have hregular : r.Regular := ⟨h.consistent, h.ids, hr⟩
  have hlearned := hregular.learned_eq
  have hin : r.learned.InOrder := by
    rw [hlearned, Hooks.observeAll_fields]
    exact h.congr rfl rfl rfl rfl rfl
  have hvisits : r.learned.Visits sources r' r.functions := by
    refine instrumentEach_visits hin hd (fun f hf => ?_) (Functions.nodup_ids h.ids) hok
    rw [r.learned_functions]
    exact h.getElem? hf
  refine ⟨hvisits, ?_⟩
  rw [hvisits.observed, hlearned, Hooks.observeAll_twice]

theorem Since.run {q q' : Round} (h : r.Since sources q)
    (hd : ∀ d ∈ sources.detector, d.IsBuiltin) (hok : q.run sources = .ok q') :
    r.Since sources { q' with stats := .zero } := by
  obtain ⟨hvisits, hobserved⟩ := run_visits h.inOrder h.asked.answered.registered hd hok
  have hsource : q'.functions.map Function.source = q.functions.map Function.source := by
    rw [hvisits.source, q.learned_functions]
  refine ⟨hvisits.inOrder.congr rfl rfl rfl rfl rfl, hvisits.asked ?_, hsource.trans h.source, ?_⟩
  · rw [q.learned_conventions]
    exact h.asked
  · rw [← h.observed, ← q.hooks.observeAll_twice]
    exact Hooks.observeAll_of_source hsource
      (fun f hf => (h.inOrder.orderly hf).numbered)
      (fun g hg => (hvisits.inOrder.orderly hg).numbered) hobserved

/-! ## Rounds at rest -/

variable {x x' : Sources × Round} {o o' : Hooks} {gs : List Function}

/-- What goes for the round of an engine that has only seen snapshots of its own functions. -/
structure Dependable (x : Sources × Round) : Prop where
  inOrder : x.2.InOrder
  woven : x.2.Woven
  coherent : Coherent x
  spelled : x.2.hooks.Spelled

theorem Fresh.dependable (h : r.Fresh) (hn : sources.signatures.value.Numbered) :
    Dependable (sources, r) := by
  refine ⟨h.inOrder, h.woven, h.coherent hn, ?_⟩
  rw [h.hooks]
  intro k hk
  cases hk

theorem Dependable.turns (h : Dependable x) (ht : Turns (fun f s => s.Genuine f) x x') :
    Dependable x' :=
  ⟨Turns.inOrder ht h.inOrder, Turns.woven ht h.inOrder h.woven,
    Turns.coherent ht h.inOrder h.coherent, Turns.spelled ht h.inOrder h.spelled⟩

/-- A round whose functions are all at rest, of an engine whose registry was `cs` at first. -/
structure Finished (sources : Sources) (cs : Conventions) (r : Round) : Prop
    extends Dependable (sources, r) where
  asked : Conventions.Asked sources.detector cs r.conventions.value
  rests : r.RestsAll sources r.hooks r.functions

theorem Finished.bench (h : r.Finished sources cs) (hf : f ∈ r.functions)
    (hr : ((r.seeing o).bench f).Rests sources (.take f)) :
    ((r.seeing o).bench f).Finished sources cs := by
  obtain ⟨ever, gone, hweave⟩ := h.woven f hf
  have hwoven : (r.seeing o).hooks.Weave f ever gone := hweave.congr rfl rfl
  have horderly := h.inOrder.orderly hf
  exact ⟨(h.inOrder.bench_sound hf).congr rfl rfl rfl rfl, horderly, hr,
    hr.reads horderly (.refl f) hwoven, h.coherent.hooks.congr rfl, h.spelled, h.asked⟩

theorem Finished.map_unnumbered (h : r.Finished sources cs) (h' : r'.Finished sources cs)
    (hloops : ∀ f ∈ r.functions, ∀ s ∈ f.statements, s.isIndirectCall → f.OnLoop s →
      r.hooks.Alike r'.hooks f.id s)
    (hfs : ∀ f ∈ fs, f ∈ r.functions) (hgs : ∀ g ∈ gs, g ∈ r'.functions)
    (hs : gs.map Function.source = fs.map Function.source) (ho : o'.observed = o.observed)
    (hr : r.RestsAll sources o fs) (hr' : r'.RestsAll sources o' gs) :
    gs.map Function.unnumbered = fs.map Function.unnumbered := by
  induction fs generalizing gs o o' with
  | nil =>
    obtain rfl := List.map_eq_nil_iff.mp hs
    rfl
  | cons f fs ih =>
    cases gs with
    | nil => cases hs
    | cons g gs =>
      rw [List.map_cons, List.map_cons, List.cons.injEq] at hs
      have hf := hfs f List.mem_cons_self
      have hg := hgs g List.mem_cons_self
      have hobserved := Hooks.observe_of_source hs.1 (h.inOrder.orderly hf).numbered
        (h'.inOrder.orderly hg).numbered ho
      obtain ⟨hsame, hname⟩ := Function.source_eq_iff.mp hs.1
      have hpeers : Bench.Peers sources cs ((r.seeing (o.observe f (.take f))).bench f)
          ((r'.seeing (o'.observe g (.take g))).bench g) :=
        ⟨h.bench hf hr.1, h'.bench hg hr'.1, hsame, hobserved⟩
      have hone : g.unnumbered = f.unnumbered := hpeers.unnumbered_eq hname (hloops f hf)
      rw [List.map_cons, List.map_cons, hone]
      exact congrArg _ (ih (fun f hf => hfs f (List.mem_cons_of_mem _ hf))
        (fun g hg => hgs g (List.mem_cons_of_mem _ hg)) hs.2 hobserved hr.2 hr'.2)

theorem RestsAll.recount (hr : r.RestsAll sources o fs) (stats : InstrumentStats) :
    RestsAll sources { r with stats } o fs := by
  induction fs generalizing o with
  | nil => trivial
  | cons f fs ih => exact ⟨hr.1, ih hr.2⟩

theorem Since.rests {q q' : Round} (h : r.Since sources q)
    (hd : ∀ d ∈ sources.detector, d.IsBuiltin) (hok : q.run sources = .ok q')
    (hq : q'.edits ≤ q.edits) : q'.RestsAll sources q'.hooks q'.functions := by
  have hidles := run_idles h.regular hd hok hq
  have hobserved := (run_visits h.inOrder h.asked.answered.registered hd hok).2
  rw [hidles.functions, q.learned_functions]
  refine hidles.rests.congr ?_
  rw [hobserved, h.regular.learned_eq]

theorem Since.current {q q' : Round} (h : r.Since sources q)
    (hd : ∀ d ∈ sources.detector, d.IsBuiltin) (hok : q.run sources = .ok q')
    (hq : q'.edits ≤ q.edits) : ∀ f ∈ q'.functions, q'.snapshots[f.id]? = some (.take f) := by
  have hidles := run_idles h.regular hd hok hq
  intro f hf
  rw [hidles.functions, q.learned_functions] at hf
  exact hidles.current f hf

theorem RestsAll.exists_rests (hr : r.RestsAll sources o fs) (hf : f ∈ fs) :
    ∃ o', ((r.seeing o').bench f).Rests sources (.take f) := by
  induction fs generalizing o with
  | nil => cases hf
  | cons g fs ih =>
    rcases List.mem_cons.mp hf with rfl | hf
    · exact ⟨_, hr.1⟩
    · exact ih hr.2 hf

end Round

/-! ## Runs -/

namespace Workspace

variable {w w' w₁ : Workspace} {sources : Sources} {r : Round} {c : Configuration}
variable {stats stats' : ScheduleStats}

theorem run_last (hr : w.round? = some (sources, r)) (hin : r.InOrder)
    (hregistered : r.conventions.value.AllRegistered) (hd : ∀ d ∈ sources.detector, d.IsBuiltin)
    (hend : c.deinstrumentAtEnd = false) (hok : w.run c = .ok (w', stats))
    (hconverged : stats.converged) :
    ∃ q q', r.Since sources q ∧ q.run sources = .ok q' ∧ q'.edits ≤ q.edits ∧
      w'.round? = some (sources, { q' with stats := .zero }) := by
  obtain ⟨w₁, hprepare, hround⟩ := round?_prepare (c := c) hr
  have hprepared : w₁.Prepared := by
    obtain ⟨fs, -, rfl⟩ := prepare_eq_ok hprepare
    exact w.filled_prepared c fs
  rw [run_of_prepare hprepare] at hok
  obtain ⟨⟨w₂, stats₂⟩, hrounds, hfinish⟩ := Bench.bind_eq_ok hok
  rw [finish_eq, hend, if_neg Bool.false_ne_true] at hfinish
  obtain ⟨hround₂, rfl⟩ := round?_of_emission hfinish
  have hkept : ∀ q q', r.Since sources q → q.run sources = .ok q' →
      r.Since sources { q' with stats := .zero } := fun q q' hq hok => hq.run hd hok
  obtain ⟨-, w₀, r₀, r₁, -, hround₀, hsince, hrun₀, hedits, rfl, -⟩ :=
    runRounds_last hprepared hround (.refl hin hregistered) hkept rfl hrounds hconverged
  exact ⟨r₀, r₁, hsince, hrun₀, hedits, hround₂.trans (round?_putBack hround₀ r₁)⟩

/-- Once a run has converged all functions are at rest, and what has been observed is what was known
before or what they release. -/
theorem run_finished (hr : w.round? = some (sources, r)) (h : Round.Dependable (sources, r))
    (hregistered : r.conventions.value.AllRegistered) (hd : ∀ d ∈ sources.detector, d.IsBuiltin)
    (hend : c.deinstrumentAtEnd = false) (hok : w.run c = .ok (w', stats))
    (hconverged : stats.converged) :
    ∃ r', w'.round? = some (sources, r') ∧ r'.Finished sources r.conventions.value ∧
      r'.functions.map Function.source = r.functions.map Function.source ∧
      r'.hooks.observed = (r.hooks.observeAll r.functions).observed := by
  have hevolves : Evolves (fun f s => s.Genuine f) w (left (w.run c)) :=
    w.run_evolves c fun _ _ hs => hs
  obtain ⟨sources', r', hr', hturns⟩ := hevolves sources r hr h.inOrder
  rw [hok] at hr'
  have hr' : w'.round? = some (sources', r') := hr'
  obtain ⟨q, q', hsince, hrun, hedits, hround⟩ :=
    run_last hr h.inOrder hregistered hd hend hok hconverged
  have hlast := hsince.run hd hrun
  rw [hround] at hr'
  obtain ⟨rfl, rfl⟩ := Prod.mk.inj (Option.some.inj hr')
  refine ⟨{ q' with stats := .zero }, hround, ?_, hlast.source, ?_⟩
  · exact ⟨h.turns hturns, hlast.asked, (hsince.rests hd hrun hedits).recount .zero⟩
  · rw [← hsince.observed]
    exact (Round.run_visits hsince.inOrder hsince.asked.answered.registered hd hrun).2

theorem StartsFrom.prepared {p : Program} {ss : Signatures} {fs : Functions}
    (h : w.StartsFrom p ss) (hb : p.buildFunctions = .ok fs) (c : Configuration) :
    ∃ w₁ : Workspace, w.run c = w₁.run c ∧ w₁.Prepared ∧
      w₁.Shares ⟨w.configuredDetector c, .sound ss⟩ (w.firstRound fs) := by
  obtain ⟨w₁, hprepare, hshares⟩ := prepare_fresh (c := c) h.functions h.engine h.program hb
  have hprepared : w₁.Prepared := by
    obtain ⟨fs, -, rfl⟩ := prepare_eq_ok hprepare
    exact w.filled_prepared c fs
  rw [h.signatures] at hshares
  exact ⟨w₁, by rw [run_of_prepare hprepare, run_of_prepare (hprepared.prepare c)], hprepared,
    hshares⟩

theorem engine_of_round? (hr : w.round? = some (sources, r)) :
    ∃ e ∈ w.engine, e.hooks = r.hooks := by
  obtain ⟨e, fs, ss, he, -, -, -, rfl⟩ := round?_eq_some hr
  exact ⟨e, he, rfl⟩

/-- A new engine with the detector and the registries of the old one. -/
def renewEngine (w : Workspace) : Workspace :=
  { w with engine := w.engine.map fun e => { e with hooks := .empty } }

theorem round?_renewEngine (hr : w.round? = some (sources, r)) :
    w.renewEngine.round? = some (sources, { r with hooks := .empty }) := by
  obtain ⟨e, fs, ss, he, hfs, hss, rfl, rfl⟩ := round?_eq_some hr
  simp only [round?, renewEngine, he, hfs, hss, Option.map_some, Option.bind_eq_bind,
    Option.bind_some]
  rfl

theorem renewed_fresh (hr : w.round? = some (sources, r)) (hin : r.InOrder) {removed : Nat}
    (hok : w.deinstrument = .ok (w₁, removed)) :
    ∃ q, w₁.renewEngine.round? = some (sources, q) ∧ q.Fresh ∧
      q.functions = r.functions.map Function.bare ∧ q.conventions = r.conventions := by
  simp only [deinstrument, hr] at hok
  obtain ⟨rfl, -⟩ := Prod.mk.inj (Except.ok.inj hok)
  obtain ⟨hfunctions, hactive, -⟩ := hin.deinstrumentAll
  have hbare : r.deinstrumentAll.InOrder :=
    (Round.deinstrumentEach_spec r.hooks.touched.keys hin).1.inOrder
  refine ⟨_, round?_renewEngine (round?_putBack hr _), ⟨rfl, hbare.ids, ?_, ?_⟩, hfunctions,
    r.deinstrumentEach_conventions _⟩
  · exact fun f hf => (hbare.orderly hf).numbered
  · intro f hf s hs
    refine Bool.eq_false_iff.mpr fun hsyn => ?_
    obtain ⟨a, k, hk, -⟩ := ((hbare.accounts f hf).synthetic_iff s).mp ⟨hs, hsyn⟩
    rw [hactive] at hk
    cases hk

/-- Where a run has come to after any history, there the same run comes to that starts over: with
all hooks off and a new engine it puts in the same statements, numbered from the start. This is so
if either run leaves hooks on the indirect calls on loops that do the same to what is known, and if
what the engine had observed can still be seen. -/
theorem run_renewed {w₀ w'' : Workspace} {taken : List Snapshot} {sources₀ : Sources} {r₀ : Round}
    {removed : Nat} (h₀ : w₀.round? = some (sources₀, r₀)) (hfresh : r₀.Fresh)
    (hn : sources₀.signatures.value.Numbered) (h : History w₀ taken w)
    (hr : w.round? = some (sources, r)) (hd : ∀ d ∈ sources.detector, d.IsBuiltin)
    (hregistered : r.conventions.value.AllRegistered) (hobserved : r.hooks.UpToDate r.functions)
    (hend : c.deinstrumentAtEnd = false) (hok : w.run c = .ok (w', stats))
    (hconverged : stats.converged) (hbare : w.deinstrument = .ok (w₁, removed))
    (hagain : w₁.renewEngine.run c = .ok (w'', stats')) (hconverged' : stats'.converged)
    (hloops : ∀ e ∈ w'.engine, ∀ e' ∈ w''.engine, ∀ f ∈ r.functions, ∀ s ∈ f.statements,
      s.isIndirectCall → f.OnLoop s → e.hooks.Alike e'.hooks f.id s) :
    ∃ fs gs, w'.functions = some fs ∧ w''.functions = some gs ∧
      gs.map Function.unnumbered = fs.map Function.unnumbered := by
  obtain ⟨sources₁, r₁, hr₁, hturns, -⟩ := h.turns h₀ hfresh.inOrder
  obtain ⟨rfl, rfl⟩ := Prod.mk.inj (Option.some.inj (hr.symm.trans hr₁))
  have hdependable : Round.Dependable (sources, r) := (hfresh.dependable hn).turns hturns
  obtain ⟨r', hr', hfinished, hsource, hseen⟩ :=
    run_finished hr hdependable hregistered hd hend hok hconverged
  obtain ⟨q, hq, hqfresh, hfunctions, hconventions⟩ := renewed_fresh hr hdependable.inOrder hbare
  obtain ⟨q', hq', hfinished', hsource', hseen'⟩ :=
    run_finished hq (hqfresh.dependable hdependable.coherent.numbered)
      (hconventions.symm ▸ hregistered) hd hend hagain hconverged'
  have hbarecode : q.functions.map Function.source = r.functions.map Function.source := by
    rw [hfunctions, List.map_map]
    exact List.map_congr_left fun f _ => f.source_bare
  have hcode : q'.functions.map Function.source = r'.functions.map Function.source :=
    (hsource'.trans hbarecode).trans hsource.symm
  have hobserves : q'.hooks.observed = r'.hooks.observed := by
    rw [hseen', hseen, hqfresh.hooks, ← hobserved.observeAll]
    exact Hooks.observeAll_of_source hbarecode
      (fun f hf => (hdependable.inOrder.orderly hf).numbered)
      (fun g hg => hqfresh.numbered g hg) rfl
  have halike : ∀ f ∈ r'.functions, ∀ s ∈ f.statements, s.isIndirectCall → f.OnLoop s →
      r'.hooks.Alike q'.hooks f.id s := by
    obtain ⟨e, he, hhooks⟩ := engine_of_round? hr'
    obtain ⟨e', he', hhooks'⟩ := engine_of_round? hq'
    intro g hg s hs hindirect hloop
    have hg : g.source ∈ r.functions.map Function.source := hsource ▸ List.mem_map_of_mem hg
    obtain ⟨f, hf, hfg⟩ := List.mem_map.mp hg
    obtain ⟨hsame, -⟩ := Function.source_eq_iff.mp hfg.symm
    obtain ⟨b, i, hl, hb⟩ := hloop.of_code hsame.code_eq.symm
    rw [← hhooks, ← hhooks', hsame.id_eq]
    exact hloops e he e' he' f hf s hl.mem.1 hindirect ⟨b, i, hl, hb⟩
  refine ⟨r'.functions, q'.functions, functions_of_round? hr', functions_of_round? hq', ?_⟩
  exact hfinished.map_unnumbered (hconventions ▸ hfinished') halike (fun _ hf => hf)
    (fun _ hg => hg) hcode hobserves hfinished.rests hfinished'.rests

/-! ### What makes a difference -/

/-- What a run and one that starts over come to, if both converge. -/
def both? (w : Workspace) (c : Configuration) : Option (Workspace × Workspace) :=
  match w.run c, w.deinstrument with
  | .ok (w', stats), .ok (bare, _) =>
    match bare.renewEngine.run c with
    | .ok (w'', stats') => if stats.converged && stats'.converged then some (w', w'') else none
    | .error _ => none
  | _, _ => none

theorem both?_eq_some {w'' : Workspace} (h : w.both? c = some (w', w'')) :
    ∃ stats w₁ removed stats', w.run c = .ok (w', stats) ∧ stats.converged ∧
      w.deinstrument = .ok (w₁, removed) ∧ w₁.renewEngine.run c = .ok (w'', stats') ∧
        stats'.converged := by
  unfold both? at h
  split at h
  · next w₂ stats w₁ removed hrun hbare =>
    split at h
    · next w₃ stats' hagain =>
      split at h
      · next hconverged =>
        obtain ⟨rfl, rfl⟩ := Prod.mk.inj (Option.some.inj h)
        obtain ⟨hfirst, hsecond⟩ := Bool.and_eq_true_iff.mp hconverged
        exact ⟨stats, w₁, removed, stats', hrun, hfirst, hbare, hagain, hsecond⟩
      · cases h
    · cases h
  · cases h

/-- The workspace after an edit of lifted code of a function, if this is possible. -/
def edited (i : FunctionId) (e : CodeEdit) (w : Workspace) : Workspace :=
  match w.functions.bind (·[i]?) with
  | none => w
  | some f =>
    match e.apply f with
    | .error _ => w
    | .ok g => if e.Lifted f then { w with functions := w.functions.map (·.set f.id g) } else w

theorem edited_steps {allowed : Snapshot → Prop} (i : FunctionId) (e : CodeEdit) (w : Workspace) :
    Relation.ReflTransGen (Step allowed) w (w.edited i e) := by
  unfold edited
  split
  · exact .refl
  · next f hf =>
    obtain ⟨fs, hfs, hf⟩ := Option.bind_eq_some_iff.mp hf
    split
    · exact .refl
    · next g he =>
      split
      · next hl =>
        rw [hfs]
        exact .single (.edit w fs f g e hfs (List.mem_of_getElem? hf) hl he)
      · exact .refl

theorem History.steps {w₀ : Workspace} {taken : List Snapshot} (h : History w₀ taken w)
    (hs : Relation.ReflTransGen (Step (· ∈ taken)) w w') : History w₀ taken w' := by
  induction hs with
  | refl => exact h
  | tail _ hs ih => exact .step ih hs

end Workspace

/-- A function that puts an address into a register and calls it in its second block. -/
def Function.resolving : Function :=
  let start := [Statement.lifted 0 (some 0x1000) (.assign (.register 6) (.constant 0x2000))]
  let call := [Statement.lifted 1 (some 0x1010) (.call (.indirect (.register 6)))]
  ⟨0, "resolving", some 0x1000, [⟨some 0x1000, start, [1]⟩, ⟨some 0x1010, call, []⟩], 2, 0⟩

def Function.releasing : Function :=
  ⟨1, "releasing", some 0x2000, [⟨some 0x2000, [.lifted 0 (some 0x2000) (.ret 8)], []⟩], 1, 0⟩

namespace Workspace

variable {w : Workspace} {c : Configuration}

def starting (fs : Functions) (cs : Conventions) (detector : Option Detector) : Workspace :=
  { empty with
    functions := some fs
    conventions := some (.sound cs)
    engine := some { Engine.fresh with detector }
    snapshots := some ∅ }

/-- The register is kept by the callee. -/
def resolving : Workspace :=
  starting [.resolving, .releasing]
    ((Conventions.empty.register .cdecl).2.assign (.address 0x2000) 0) none

theorem resolving_fresh : ∃ r, resolving.round? = some (⟨none, .sound .empty⟩, r) ∧ r.Fresh := by
  have hcases : ∀ {f : Function}, f ∈ [Function.resolving, Function.releasing] →
      f = .resolving ∨ f = .releasing := fun hf => by simpa using hf
  refine ⟨_, rfl, rfl, ?_, ?_, ?_⟩
  · intro i f hf
    match i with
    | 0 | 1 =>
      obtain rfl := Option.some.inj hf
      rfl
    | i + 2 => cases hf
  · intro f hf
    rcases hcases hf with rfl | rfl <;> exact ⟨by decide, by decide, by decide⟩
  · intro f hf
    rcases hcases hf with rfl | rfl <;> decide

/-- After a run one more call is added. The hook of the first one has been numbered before. -/
def extended : Workspace :=
  (left (resolving.run .standard)).edited 0 (.push 1 (some 0x1012) (.call (.direct 0x2000)))

theorem extended_renewed :
    ∃ w' w'' fs gs, resolving.History [] extended ∧ extended.both? .standard = some (w', w'') ∧
      w'.functions = some fs ∧ w''.functions = some gs ∧ gs ≠ fs ∧
        gs.map Function.unnumbered = fs.map Function.unnumbered := by
  have hround : (extended.round?).any fun x =>
      x.1.detector.isNone && x.2.conventions == resolving.currentConventions &&
        (x.2.hooks.observed.keys.all fun callee =>
          x.2.functions.any fun f => (Hooks.release? callee f).isSome) &&
        x.2.functions.all fun f => f.blocks.all fun b =>
          b.successors.isEmpty || b.lifted.all fun s => !s.isIndirectCall := by decide +kernel
  have hboth : (extended.both? .standard).any fun x => x.2.functions != x.1.functions := by
    decide +kernel
  have hhistory : resolving.History [] extended :=
    (History.step .start (.run resolving .standard)).steps (edited_steps 0 _ _)
  obtain ⟨⟨sources, r⟩, hr, hround⟩ := (Option.any_eq_true _ _).mp hround
  simp only [Bool.and_eq_true, beq_iff_eq, Option.isNone_iff_eq_none] at hround
  obtain ⟨⟨⟨hdetector, hconventions⟩, hseen⟩, hloopless⟩ := hround
  obtain ⟨⟨w', w''⟩, hboth, hne⟩ := (Option.any_eq_true _ _).mp hboth
  obtain ⟨stats, w₁, removed, stats', hrun, hconverged, hbare, hagain, hconverged'⟩ :=
    both?_eq_some hboth
  obtain ⟨r₀, h₀, hfresh⟩ := resolving_fresh
  have hregistered : r.conventions.value.AllRegistered := by
    rw [hconventions]
    intro callee id hid
    rcases Table.getElem?_insert_eq_some hid with ⟨-, rfl⟩ | ⟨-, hid⟩
    · exact ⟨.cdecl, rfl⟩
    · cases hid
  have hobserved : r.hooks.UpToDate r.functions := by
    intro callee hsome
    obtain ⟨pop, hpop⟩ := Option.isSome_iff_exists.mp hsome
    have hany := List.all_eq_true.mp hseen callee (Table.mem_keys_iff.mpr ⟨pop, hpop⟩)
    exact List.any_eq_true.mp hany
  have hloops : ∀ f ∈ r.functions, ∀ s ∈ f.statements, s.isIndirectCall → ¬f.OnLoop s := by
    refine fun f hf s _ hs => Function.not_onLoop fun block hblock hmem => ?_
    have hends := List.all_eq_true.mp (List.all_eq_true.mp hloopless f hf) block hblock
    rcases Bool.or_eq_true_iff.mp hends with hempty | hdirect
    · exact List.isEmpty_iff.mp hempty
    · have hnot := List.all_eq_true.mp hdirect s hmem
      rw [hs] at hnot
      cases hnot
  obtain ⟨fs, gs, hfs, hgs, hsame⟩ := run_renewed h₀ hfresh Signatures.numbered_empty hhistory hr
    (by simp [hdetector]) hregistered hobserved rfl hrun hconverged hbare hagain hconverged'
    fun _ _ _ _ f hf s hs hindirect hloop => absurd hloop (hloops f hf s hs hindirect)
  refine ⟨w', w'', fs, gs, hhistory, hboth, hfs, hgs, ?_, hsame⟩
  rintro rfl
  rw [hfs, hgs] at hne
  exact absurd rfl (bne_iff_ne.mp hne)

end Workspace

/-- A function that makes another call before and a call that is never resolved after that. -/
def Function.relaying : Function :=
  let statements := [Statement.lifted 0 (some 0x1000) (.assign (.register 6) (.constant 0x2000)),
    .lifted 1 (some 0x1005) (.call (.direct 0x3000)),
    .lifted 2 (some 0x100a) (.call (.indirect (.register 6))),
    .lifted 3 (some 0x100f) (.call (.indirect (.register 7)))]
  ⟨0, "relaying", some 0x1000, [⟨some 0x1000, statements, []⟩], 4, 0⟩

namespace Workspace

variable {w : Workspace} {c : Configuration}

/-- A call that is never resolved has the id that is going to be the next one. -/
def relaying : Workspace :=
  let presets := ((Conventions.empty.register .sysvAmd64).2.register .msX64).2
  let callees := [0x1000, 0x2000, 0x3000].foldl (fun cs a => cs.assign (.address a) 1) presets
  starting [.relaying] (callees.assign (.call ⟨0, 3⟩) 2) (some (.fixed .cdecl false))

/-- The other callee destroys the register and the address is no longer known. -/
def reassigned (w : Workspace) : Workspace :=
  (w.modifyConventions fun cs => cs.assign (.address 0x3000) 0).modifyConventions
    fun cs => (cs.unassign (.address 0x2000)).2

/-- After a run that has converged and a change, a further run does not come to what a run comes to
that starts over, though both converge. -/
def Remembers (w₀ : Workspace) (c : Configuration) (change : Workspace → Workspace) : Prop :=
  ∃ w stats, w₀.run c = .ok (w, stats) ∧ stats.converged ∧
    Relation.ReflTransGen (Step fun _ => False) w (change w) ∧
    ∃ w' w'', (change w).both? c = some (w', w'') ∧
      w''.functions.map (·.map Function.unnumbered) ≠ w'.functions.map (·.map Function.unnumbered)

theorem remembers_of_any {change : Workspace → Workspace}
    (hsteps : ∀ w, Relation.ReflTransGen (Step fun _ => False) w (change w))
    (h : (w.run c).toOption.any fun x => x.2.converged && ((change x.1).both? c).any fun y =>
      y.2.functions.map (·.map Function.unnumbered) !=
        y.1.functions.map (·.map Function.unnumbered)) :
    w.Remembers c change := by
  obtain ⟨⟨w₁, stats⟩, hrun, h⟩ := exists_of_any_toOption h
  obtain ⟨hconverged, h⟩ := Bool.and_eq_true_iff.mp h
  obtain ⟨⟨w', w''⟩, hboth, hne⟩ := (Option.any_eq_true _ _).mp h
  exact ⟨w₁, stats, hrun, hconverged, hsteps w₁, w', w'', hboth, bne_iff_ne.mp hne⟩

/-- A call on a loop keeps the constant that it was resolved with before there was a loop. A call
goes on being adjusted for a return that has been removed. While calls are resolved with constants
that are going to be lost, a detector gives an id to its convention that has already been
assigned. -/
theorem run_remembers :
    Configuration.standard.guessIndirectCalls = false ∧
      Configuration.standard.deinstrumentAtEnd = false ∧
      (∀ e ∈ resolving.engine, e.detector = none) ∧
      (∀ e ∈ relaying.engine, e.detector = some (.fixed .cdecl false)) ∧
      resolving.Remembers .standard (edited 0 (.addEdge 1 1)) ∧
      resolving.Remembers .standard (edited 1 (.remove 0)) ∧
      relaying.Remembers .standard reassigned := by
  refine ⟨rfl, rfl, fun e he => by cases he; rfl, fun e he => by cases he; rfl,
    remembers_of_any (edited_steps 0 _) (by decide +kernel),
    remembers_of_any (edited_steps 1 _) (by decide +kernel),
    remembers_of_any (fun w => ?_) (by decide +kernel)⟩
  exact (Relation.ReflTransGen.single (.assign w (.address 0x3000) 0)).tail
    (.unassign _ (.address 0x2000))

end Workspace

end CallEffects
