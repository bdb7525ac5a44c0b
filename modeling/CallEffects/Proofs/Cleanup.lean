import CallEffects.Proofs.Agreement
import Mathlib.Order.Bounds.Basic

/-!
# What calls release

A round looks at the returns of all functions before it instruments the first of them, and hooks
leave the returns alone. So what is known of a callee when a call is settled does not depend on
which of the two functions comes first, nor on the round, and the hook of a direct call releases
what its callee does.
-/

namespace CallEffects

open Std

/-! ## What functions release -/

namespace Function

variable {f : Function}

/-- What the returns that are reached pop. -/
def pops (f : Function) : Set Nat := {n | ∃ s, f.Returns s ∧ s.kind = .ret n}

theorem Returns.mem_statements {s : Statement} (h : f.Returns s) : s ∈ f.statements := by
  obtain ⟨b, block, -, hblock, hs, -⟩ := h
  exact Function.mem_statements.mpr ⟨b, block, hblock, (List.mem_filter.mp hs).1⟩

theorem Returns.exists_pop {s : Statement} (h : f.Returns s) : ∃ n, s.kind = .ret n := by
  obtain ⟨b, block, -, -, -, hret⟩ := h
  unfold Statement.isReturn StatementKind.isReturn at hret
  split at hret
  · exact ⟨_, ‹_›⟩
  · cases hret

theorem popOf?_take (hf : f.Numbered) :
    ∃ pops : List Nat, Hooks.popOf? f (.take f) = pops.max? ∧ ∀ n, n ∈ pops ↔ n ∈ f.pops := by
  refine ⟨_, rfl, fun n => ?_⟩
  rw [List.mem_filterMap]
  constructor
  · rintro ⟨id, hid, hpop⟩
    obtain ⟨s, hs, rfl⟩ := mem_returns.mp hid
    obtain ⟨m, hkind⟩ := hs.exists_pop
    rw [hf.statement?_eq_some hs.mem_statements, Option.map_some, hkind] at hpop
    exact ⟨s, hs, Option.some.inj hpop ▸ hkind⟩
  · rintro ⟨s, hs, hkind⟩
    refine ⟨s.id, mem_returns.mpr ⟨s, hs, rfl⟩, ?_⟩
    rw [hf.statement?_eq_some hs.mem_statements, Option.map_some, hkind]

theorem isGreatest_pops (hf : f.Numbered) {n : Nat} (h : Hooks.popOf? f (.take f) = some n) :
    IsGreatest f.pops n := by
  obtain ⟨pops, hpops, hmem⟩ := popOf?_take hf
  obtain ⟨hn, hle⟩ := List.max?_eq_some_iff.mp (hpops.symm.trans h)
  exact ⟨(hmem n).mp hn, fun m hm => hle m ((hmem m).mpr hm)⟩

theorem pops_eq_empty (hf : f.Numbered) (h : Hooks.popOf? f (.take f) = none) : f.pops = ∅ := by
  obtain ⟨pops, hpops, hmem⟩ := popOf?_take hf
  obtain rfl := List.max?_eq_none_iff.mp (hpops.symm.trans h)
  exact Set.eq_empty_of_forall_notMem fun n hn => List.not_mem_nil ((hmem n).mpr hn)

theorem ofFunction_eq_address {a : Address} :
    Callee.ofFunction f = .address a ↔ f.entryAddress = some a := by
  unfold Callee.ofFunction
  cases f.entryAddress <;> simp

end Function

/-- How many bytes a direct call releases: what its own signature says, or else the most that a
return of the callee pops, or else what the convention implies. -/
inductive Convention.Releases (c : Convention) (ss : Signatures) (fs : Functions)
    (call : StatementRef) (a : Address) : Nat → Prop
  | told {x : Nat × CallSignature} {n : Nat} (hx : ss.call? call = some x)
      (hn : x.2.stackAdjustment = some n) : c.Releases ss fs call a n
  | seen {g : Function} {n : Nat} (hx : ∀ x ∈ ss.call? call, x.2.stackAdjustment = none)
      (hg : g ∈ fs) (ha : g.entryAddress = some a) (hn : IsGreatest g.pops n) :
      c.Releases ss fs call a n
  | implied (hx : ∀ x ∈ ss.call? call, x.2.stackAdjustment = none)
      (hg : ∀ g ∈ fs, g.entryAddress = some a → g.pops = ∅) :
      c.Releases ss fs call a
        (if c.calleeCleans then
          c.stackArgumentBytes (c.callArity ((ss.forCall? call (.address a)).map (·.2)))
        else 0)

namespace Convention

variable {ss : Signatures} {fs : Functions} {call : StatementRef} {a : Address}

/-- Only the signature of the call itself says what is released. -/
theorem stackAdjustment_forCall? (ss : Signatures) (call : StatementRef) (callee : Callee) :
    (((ss.forCall? call callee).map (·.2)).bind (·.stackAdjustment)) =
      (ss.call? call).bind (·.2.stackAdjustment) := by
  unfold Signatures.forCall?
  cases ss.call? call with
  | some x => rfl
  | none => cases ss.function? callee <;> rfl

theorem releases_observed (c : Convention) (hfs : ∀ f ∈ fs, f.Numbered)
    (hx : ∀ x ∈ ss.call? call, x.2.stackAdjustment = none) :
    c.Releases ss fs call a (((Hooks.empty.observeAll fs).observed[Callee.address a]?).getD
      (c.impliedCleanup (c.callArity ((ss.forCall? call (.address a)).map (·.2))))) := by
  have hempty : Hooks.empty.observed[Callee.address a]? = none := ExtTreeMap.getElem?_empty
  rw [Hooks.getElem?_observeAll, hempty, Option.or_none]
  cases hseen : fs.reverse.findSome? (Hooks.release? (.address a)) with
  | some n =>
    obtain ⟨g, hg, hrelease⟩ := List.exists_of_findSome?_eq_some hseen
    have hg : g ∈ fs := List.mem_reverse.mp hg
    unfold Hooks.release? at hrelease
    split at hrelease
    · next hcallee =>
      exact .seen hx hg (Function.ofFunction_eq_address.mp hcallee)
        (Function.isGreatest_pops (hfs g hg) hrelease)
    · cases hrelease
  | none =>
    refine .implied hx fun g hg ha => ?_
    have hrelease := List.findSome?_eq_none_iff.mp hseen g (List.mem_reverse.mpr hg)
    rw [Hooks.release?, if_pos (Function.ofFunction_eq_address.mpr ha)] at hrelease
    exact Function.pops_eq_empty (hfs g hg) hrelease

end Convention

theorem Hook.Fulfils.releases {k : Hook} {ss : Signatures} {fs : Functions} {call : StatementRef}
    {a : Address} {x : ConventionId × Convention} (hfs : ∀ f ∈ fs, f.Numbered)
    (h : k.Fulfils (.ofCall call x (ss.forCall? call (.address a))
      (Hooks.empty.observeAll fs).observed[Callee.address a]?)) :
    x.2.Releases ss fs call a k.effects.cleanup := by
  have hcleanup := congrArg HookEffects.cleanup h.2
  simp only [Plan.ofCall, Convention.callEffects_filter] at hcleanup
  rw [hcleanup, Convention.callEffects, Convention.stackAdjustment_forCall?]
  cases htold : (ss.call? call).bind (·.2.stackAdjustment) with
  | some n =>
    obtain ⟨y, hy, hn⟩ := Option.bind_eq_some_iff.mp htold
    exact .told hy hn
  | none => exact x.2.releases_observed hfs (Option.bind_eq_none_iff.mp htold)

/-! ## Hooks of calls that have been settled -/

namespace Bench

variable {b b' : Bench} {detector : Option Detector} {signatures : Signatures}
variable {sources : Sources} {s : Snapshot}

theorem foldlM_settleCall_key {sites : List CallSite} (hb : b.Sound)
    (hnodup : (sites.map (·.statement)).Nodup)
    (h : sites.foldlM (settleCall detector signatures) b = .ok b') {site : CallSite}
    (hsite : site ∈ sites) {k : Hook}
    (hk : b'.hooks.active[Anchor.call (b.callAt site)]? = some k) :
    ∃ x, b'.conventions.value.get? x.1 = some x.2 ∧
      k.key = (Plan.ofCall (b.callAt site) x
        (signatures.forCall? (b.callAt site) (.ofCall (b.callAt site) site.target))
        b.hooks.observed[Callee.ofCall (b.callAt site) site.target]?).key := by
  induction sites generalizing b with
  | nil => cases hsite
  | cons first sites ih =>
    rw [List.foldlM_cons] at h
    obtain ⟨b₁, h₁, hothers⟩ := bind_eq_ok h
    rw [List.map_cons, List.nodup_cons] at hnodup
    obtain ⟨hbears, hone, -, hsound⟩ := settleCall_ok hb h₁
    have hcall : ∀ site, b₁.callAt site = b.callAt site := fun site => by
      rw [callAt, hone.function_id, callAt]
    rcases List.mem_cons.mp hsite with rfl | hsite
    · have hmoves : Moves detector signatures (fun _ => True) b₁
          (left (sites.foldlM (settleCall detector signatures) b₁)) :=
        foldlM_moves sites .refl fun _ _ _ _ => settleCall_moves trivial
      rw [hothers, left_ok] at hmoves
      -- The calls that follow are other ones.
      have hkept := (foldlM_settleCall_ok hsound hothers).1.active (.call (b.callAt site)) (by
        rintro ⟨other, hother, heq⟩
        have hid : site.statement = other.statement := by
          simpa [callAt, hone.function_id] using heq
        exact hnodup.1 (hid ▸ List.mem_map_of_mem hother))
      rw [hkept] at hk
      cases hplan : b₁.callPlan signatures site with
      | none =>
        rw [hplan] at hbears
        rw [hbears] at hk
        cases hk
      | some p =>
        rw [hplan] at hbears
        obtain ⟨k', hk', hkey⟩ := hbears
        obtain rfl := Option.some.inj (hk.symm.trans hk')
        obtain ⟨x, hx, rfl⟩ := Option.map_eq_some_iff.mp hplan
        rw [hcall, hone.observed] at hkey
        exact ⟨x, hmoves.extends.get? (Conventions.get?_of_lookup? hx), hkey⟩
    · obtain ⟨x, hx, hkey⟩ := ih hsound hnodup.2 hothers hsite (by rwa [hcall])
      rw [hcall, hone.observed] at hkey
      exact ⟨x, hx, hkey⟩

theorem instrument_call_hook (hb : b.Sound) (hn : sources.signatures.value.Numbered)
    (hc : b.hooks.Coherent b.conventions.value sources.signatures.value)
    (hnodup : (s.calls.map (·.statement)).Nodup) (hok : b.instrument sources s = .ok b')
    {site : CallSite} (hsite : site ∈ s.calls) {k : Hook}
    (hk : b'.hooks.active[Anchor.call (b.callAt site)]? = some k) :
    ∃ x, b'.conventions.value.get? x.1 = some x.2 ∧
      k.Fulfils (.ofCall (b.callAt site) x
        (sources.signatures.value.forCall? (b.callAt site) (.ofCall (b.callAt site) site.target))
        b'.hooks.observed[Callee.ofCall (b.callAt site) site.target]?) := by
  obtain ⟨b₁, b₂, hcourse⟩ := instrument_course hb hok
  have hid : b₁.function.id = b.function.id := hcourse.entry_function_id
  have hcall : b₁.callAt site = b.callAt site := by rw [callAt, hid, callAt]
  have hactive := hcourse.active (.call (b.callAt site)) (by simp)
  rw [hk, if_neg fun hc => hc.2 (Snapshot.call_mem_anchors.mpr ⟨site, hsite, rfl⟩)] at hactive
  obtain ⟨x, hx, hkey⟩ := foldlM_settleCall_key hcourse.entry_sound hnodup hcourse.calls hsite
    (by rw [hcall, ← hactive])
  rw [← hcourse.conventions] at hx
  have hobserved : b₁.hooks.observed = b'.hooks.observed := by
    rw [hcourse.observed, (foldlM_settleCall_ok hcourse.entry_sound hcourse.calls).1.observed]
  rw [hcall, hobserved] at hkey
  -- A plan for what is registered in the end has the effects of every hook with its key.
  have hcoherent := (moves_of_instrument_eq_ok hok).coherent hn hc
  have hbuilt := (hcourse.sound.1.active_built hk).1
  exact ⟨x, hx, hkey, (hcoherent.effects hbuilt _
    (.call _ x _ _ hx fun y hy => ⟨_, hy⟩) hkey.symm).symm⟩

end Bench

theorem Snapshot.target_of_direct {f : Function} (hf : f.Numbered) {s : Statement}
    (hs : s ∈ f.statements) {a : Address} (hkind : s.kind = .call (.direct a)) {site : CallSite}
    (hsite : site ∈ (take f).calls) (hid : site.statement = s.id) : site.target = some a := by
  obtain ⟨⟨t, next, known⟩, hmem, hsome⟩ := List.mem_filterMap.mp hsite
  obtain ⟨target, hcall, hstatement, htarget⟩ := callSite?_some hsome
  obtain rfl : t = s := hf.eq_of_id_eq (Function.mem_of_mem_reachableStates hmem) hs
    (hstatement.symm.trans hid)
  obtain rfl : target = .direct a := by simpa [hkind] using hcall.symm
  exact htarget

/-! ## Rounds -/

namespace Round

variable {r r' : Round} {sources : Sources} {f : Function} {fs : List Function}

/-- The hook of every direct call is one that registries ask for, given what has been observed. -/
def Adjusted (ss : Signatures) (r : Round) : Prop :=
  ∀ f ∈ r.functions, ∀ s ∈ f.statements, ∀ a, s.kind = .call (.direct a) →
    ∀ k, r.hooks.active[Anchor.call ⟨f.id, s.id⟩]? = some k →
      ∃ x, r.conventions.value.get? x.1 = some x.2 ∧
        k.Fulfils (.ofCall ⟨f.id, s.id⟩ x (ss.forCall? ⟨f.id, s.id⟩ (.address a))
          r.hooks.observed[Callee.address a]?)

/-- A round in which nothing is left to observe and whose direct calls are adjusted. -/
structure Accurate (sources : Sources) (r : Round) : Prop where
  inOrder : r.InOrder
  coherent : Coherent (sources, r)
  observes : r.Observes
  adjusted : r.Adjusted sources.signatures.value

theorem Accurate.instrumentNext (h : r.Accurate sources) (hd : ∀ d ∈ sources.detector, d.IsBuiltin)
    (hf : r.functions[f.id]? = some f) (hok : instrumentNext sources r (.take f) = .ok r') :
    r'.Accurate sources := by
  have hmem := List.mem_of_getElem? hf
  have hvisits := instrumentNext_visits h.inOrder hd hf hok
  have hturn : Turns (fun f s => s.Genuine f) (sources, r)
        (sources, left (Round.instrumentNext sources r (.take f))) ∧ _ :=
    instrumentNext_turns h.inOrder h.inOrder (.refl .refl _) hmem fun _ _ hs => hs
  rw [hok, left_ok] at hturn
  obtain ⟨hturns, hsame⟩ := hturn
  have hone : ∀ g ∈ [f], g ∈ r.functions := by simpa using hmem
  have hobserved : r'.hooks.observed = r.hooks.observed := by
    rw [hvisits.observed, h.observes.observeAll hone]
  refine ⟨hvisits.inOrder, Turns.coherent hturns h.inOrder h.coherent,
    h.observes.same h.inOrder hvisits.inOrder hsame hobserved, ?_⟩
  obtain ⟨g, b, t, hg, hb, rfl⟩ := instrumentNext_eq_ok hok
  obtain rfl : f = g := Option.some.inj (hf.symm.trans hg)
  have hsound := h.inOrder.bench_sound hmem
  have hmoves := Bench.moves_of_instrument_eq_ok hb
  have hcode : f.SameCode b.function := Bench.Moves.sameCode hmoves hsound
  intro g hg s hs a hkind k hk
  have horderly := hvisits.inOrder.orderly hg
  obtain ⟨i, hi⟩ := List.mem_iff_getElem?.mp hg
  rcases getElem?_putBack_cases hcode.id_eq hi with ⟨-, rfl⟩ | ⟨hne, hi⟩
  · -- The call is one of the function that has been instrumented.
    rw [hcode.id_eq] at hk ⊢
    obtain ⟨b₁, b₂, hcourse⟩ := Bench.instrument_course hsound hb
    obtain ⟨site, hsite, hid⟩ := Snapshot.call_mem_anchors.mp (hcourse.anchors hk rfl)
    have hs' := Function.mem_of_code hcode.code_eq.symm hs (horderly.lifted_of_call hs hkind)
    have htarget := Snapshot.target_of_direct (h.inOrder.orderly hmem).numbered hs' hkind hsite hid
    rw [← hid] at hk ⊢
    have hhook := Bench.instrument_call_hook hsound h.coherent.numbered h.coherent.hooks
      (Snapshot.calls_nodup (h.inOrder.orderly hmem).numbered) hb hsite hk
    rw [htarget] at hhook
    exact hhook
  · -- The call is one of another function, whose hooks have not changed.
    have hid : g.id ≠ f.id := by
      rw [h.inOrder.ids hi]
      exact hne
    have hactive := (Bench.Moves.frame hmoves).active (.call ⟨g.id, s.id⟩) hid
    obtain ⟨x, hx, hfulfils⟩ := h.adjusted g (List.mem_of_getElem? hi) s hs a hkind k
      (hactive.symm.trans hk)
    refine ⟨x, (Bench.Moves.extends hmoves).get? hx, ?_⟩
    rw [hobserved]
    exact hfulfils

theorem Accurate.instrumentEach (h : r.Accurate sources) (hd : ∀ d ∈ sources.detector, d.IsBuiltin)
    (hfs : ∀ f ∈ fs, r.functions[f.id]? = some f) (hids : (fs.map (·.id)).Nodup)
    (hok : (fs.map Snapshot.take).foldlM (Round.instrumentNext sources) r = .ok r') :
    r'.Accurate sources := by
  refine instrumentEach_induction (motive := fun r _ => r.Accurate sources → r'.Accurate sources)
    ?nil ?cons hfs hids hok h
  case nil => exact fun h => h
  case cons => exact fun hf _ h₁ _ ih h => ih (h.instrumentNext hd hf h₁)

theorem Accurate.recount (h : r.Accurate sources) (stats : InstrumentStats) :
    Accurate sources { r with stats } :=
  ⟨h.inOrder.congr rfl rfl rfl rfl rfl, ⟨h.coherent.numbered, h.coherent.hooks⟩, h.observes,
    h.adjusted⟩

theorem Accurate.learned_eq (h : r.Accurate sources) : r.learned = r := by
  have hlearned : r.learned = { r with hooks := r.hooks.observeAll r.functions } :=
    foldl_observe_take fun f hf => h.inOrder.getElem? hf
  rw [hlearned, h.observes.observeAll fun _ hf => hf]

theorem Accurate.run (h : r.learned.Accurate sources) (hd : ∀ d ∈ sources.detector, d.IsBuiltin)
    (hok : r.run sources = .ok r') :
    r'.Accurate sources ∧ r'.hooks.observed = r.learned.hooks.observed ∧
      r'.functions.map Function.source = r.functions.map Function.source := by
  have hfs : ∀ f ∈ r.functions, r.learned.functions[f.id]? = some f := by
    intro f hf
    rw [← r.learned_functions] at hf
    exact h.inOrder.getElem? hf
  have hids : (r.functions.map (·.id)).Nodup := by
    have hnodup := Functions.nodup_ids h.inOrder.ids
    rwa [r.learned_functions] at hnodup
  have hvisits := instrumentEach_visits h.inOrder hd hfs hids hok
  refine ⟨h.instrumentEach hd hfs hids hok, ?_, ?_⟩
  · rw [hvisits.observed, h.observes.observeAll fun f hf => by rwa [r.learned_functions]]
  · rw [hvisits.source, r.learned_functions]

/-- A round on the functions which, once it has learned what it can, knows what they release. -/
structure Familiar (sources : Sources) (fs : Functions) (r : Round) : Prop where
  accurate : r.learned.Accurate sources
  observed : r.learned.hooks.observed = (Hooks.empty.observeAll fs).observed
  source : r.functions.map Function.source = fs.map Function.source

theorem Fresh.familiar (h : r.Fresh) (hn : sources.signatures.value.Numbered)
    (hd : (r.functions.map Callee.ofFunction).Nodup) : r.Familiar sources r.functions := by
  have hlearned : r.learned = { r with hooks := r.hooks.observeAll r.functions } :=
    foldl_observe_take fun f hf => h.inOrder.getElem? hf
  have hobserves : r.learned.Observes := by
    intro f hf pop hpop
    rw [r.learned_functions] at hf
    exact getElem?_observed (fun g hg => h.inOrder.getElem? hg) hd hf hpop
  rw [Hooks.observeAll_fields] at hlearned
  refine ⟨⟨?_, ⟨hn, ?_⟩, hobserves, ?_⟩, by rw [hlearned, h.hooks], rfl⟩
  · rw [hlearned]
    exact h.inOrder.congr rfl rfl rfl rfl rfl
  · rw [hlearned]
    exact (h.coherent hn).hooks.congr rfl
  · intro f hf s hs a hkind k hk
    rw [hlearned, h.hooks] at hk
    simp [Hooks.empty] at hk

theorem Familiar.run {q : Functions} (h : r.Familiar sources q)
    (hd : ∀ d ∈ sources.detector, d.IsBuiltin) (hok : r.run sources = .ok r') :
    Familiar sources q { r' with stats := .zero } := by
  obtain ⟨haccurate, hobserved, hsource⟩ := h.accurate.run hd hok
  have hrecount := haccurate.recount .zero
  refine ⟨?_, ?_, hsource.trans h.source⟩
  · rwa [hrecount.learned_eq]
  · rw [hrecount.learned_eq]
    exact hobserved.trans h.observed

theorem Familiar.releases (h : r.Familiar sources fs) (hfs : ∀ f ∈ fs, f.Numbered)
    (hf : f ∈ r.functions) {s : Statement} (hs : s ∈ f.statements) {a : Address}
    (hkind : s.kind = .call (.direct a)) {k : Hook}
    (hk : r.hooks.active[Anchor.call ⟨f.id, s.id⟩]? = some k) :
    ∃ convention, r.conventions.value.get? k.key.convention = some convention ∧
      convention.Releases sources.signatures.value fs ⟨f.id, s.id⟩ a k.effects.cleanup := by
  obtain ⟨o, hlearned⟩ := r.exists_learned
  rw [← r.learned_functions] at hf
  obtain ⟨x, hx, hfulfils⟩ := h.accurate.adjusted f hf s hs a hkind k (by rwa [hlearned])
  rw [r.learned_conventions] at hx
  rw [h.observed] at hfulfils
  refine ⟨x.2, ?_, hfulfils.releases hfs⟩
  rw [hfulfils.1]
  exact hx

end Round

/-! ## Whole runs -/

namespace Workspace

variable {w w' : Workspace} {sources : Sources} {r : Round} {c : Configuration}
variable {stats stats' : ScheduleStats} {p : Program} {ss : Signatures} {fs : Functions}

theorem runRounds_invariant {P : Round → Prop} {n : Nat} (hr : w.round? = some (sources, r))
    (hP : P r) (hkept : ∀ q q', P q → q.run sources = .ok q' → P { q' with stats := .zero })
    (hok : runRounds n w stats = .ok (w', stats')) :
    ∃ r', w'.round? = some (sources, r') ∧ P r' := by
  refine runRounds_induction (P := fun w _ => ∃ r, w.round? = some (sources, r) ∧ P r)
    ⟨r, hr, hP⟩ ?_ hok
  rintro w - sources' r₁ q - ⟨r₂, hr₂, hP₂⟩ hr₁ hrun
  obtain ⟨rfl, rfl⟩ := Prod.mk.inj (Option.some.inj (hr₁.symm.trans hr₂))
  exact ⟨_, round?_putBack hr₁ q, hkept r₁ q hP₂ hrun⟩

/-- However many rounds a run on a program takes and whether or not it converges, the hook of every
direct call releases what the signature of the call says, or else the most that a return of the
function at its target pops, or else what its convention implies. -/
theorem direct_calls_release (h : w.StartsFrom p ss) (hb : p.buildFunctions = .ok fs)
    (hn : ss.Numbered) (hend : c.deinstrumentAtEnd = false) (hok : w.run c = .ok (w', stats)) :
    ∃ sources r, w'.round? = some (sources, r) ∧
      r.functions.map Function.source = fs.map Function.source ∧
      ∀ f ∈ r.functions, ∀ s ∈ f.statements, ∀ a, s.kind = .call (.direct a) →
        ∀ k, r.hooks.active[Anchor.call ⟨f.id, s.id⟩]? = some k →
          ∃ convention, r.conventions.value.get? k.key.convention = some convention ∧
            convention.Releases ss fs ⟨f.id, s.id⟩ a k.effects.cleanup := by
  obtain ⟨w₁, hrun, hprepared, hshares⟩ := h.prepared hb c
  have hfresh : (w.firstRound fs).Fresh := Program.buildFunctions_fresh hb rfl rfl
  have hd := w.configuredDetector_isBuiltin c
  rw [hrun, run_of_prepare (hprepared.prepare c)] at hok
  obtain ⟨⟨w₂, stats₂⟩, hrounds, hfinish⟩ := Bench.bind_eq_ok hok
  rw [finish_eq, hend, if_neg Bool.false_ne_true] at hfinish
  obtain ⟨hround, -⟩ := round?_of_emission hfinish
  have hfirst : (w.firstRound fs).Familiar ⟨w.configuredDetector c, .sound ss⟩ fs :=
    hfresh.familiar hn (Program.buildFunctions_distinct hb)
  obtain ⟨r, hr, hfamiliar⟩ :=
    runRounds_invariant hshares.round hfirst (fun _ _ hq hok => hq.run hd hok) hrounds
  refine ⟨_, r, hround.trans hr, hfamiliar.source, ?_⟩
  intro f hf s hs a hkind k hk
  exact hfamiliar.releases (fun g hg => hfresh.numbered g hg) hf hs hkind hk

/-- One round is enough. The second function calls the first one, which releases nothing whatever
the convention says; the first one calls the second before that has been instrumented. -/
theorem pair_releases :
    ∃ (fs : Functions) (w' : Workspace) (stats : ScheduleStats) (sources : Sources) (r : Round)
      (k k' : Hook) (convention convention' : Convention),
      Program.pair.buildFunctions = .ok fs ∧
      pair.run { Configuration.standard with maxIterations := 1 } = .ok (w', stats) ∧
      w'.round? = some (sources, r) ∧
      r.hooks.active[Anchor.call ⟨0, 0⟩]? = some k ∧ k.effects.cleanup = 8 ∧
      convention.Releases .pair fs ⟨0, 0⟩ 0x2000 8 ∧
      r.hooks.active[Anchor.call ⟨1, 0⟩]? = some k' ∧ k'.effects.cleanup = 0 ∧
      convention'.impliedCleanup (convention'.callArity none) = 8 ∧
      convention'.Releases .pair fs ⟨1, 0⟩ 0x1000 0 := by
  have hbuild : (Program.pair.buildFunctions).toOption.any fun fs => fs.length == 2 := by
    decide +kernel
  have hrun : (pair.run { Configuration.standard with maxIterations := 1 }).toOption.any fun done =>
      done.1.round?.any fun x =>
        ((x.2.hooks.active[Anchor.call ⟨0, 0⟩]?).any fun k => k.effects.cleanup == 8) &&
        ((x.2.hooks.active[Anchor.call ⟨1, 0⟩]?).any fun k => k.effects.cleanup == 0 &&
          (x.2.conventions.value.get? k.key.convention) == some .fastcall) &&
        ((x.2.functions[0]?).any fun f => f.id == 0 && f.statements.any fun s =>
          s.id == 0 && s.kind == .call (.direct 0x2000)) &&
        (x.2.functions[1]?).any fun f => f.id == 1 && f.statements.any fun s =>
          s.id == 0 && s.kind == .call (.direct 0x1000) := by
    decide +kernel
  obtain ⟨fs, hb, -⟩ := exists_of_any_toOption hbuild
  obtain ⟨⟨w', stats⟩, hok, hdone⟩ := exists_of_any_toOption hrun
  obtain ⟨⟨sources, r⟩, hr, hdone⟩ := (Option.any_eq_true _ _).mp hdone
  simp only [Bool.and_eq_true] at hdone
  obtain ⟨⟨⟨hfirst, hsecond⟩, hf⟩, hg⟩ := hdone
  obtain ⟨k, hk, hcleanup⟩ := (Option.any_eq_true _ _).mp hfirst
  obtain ⟨k', hk', hcleanup'⟩ := (Option.any_eq_true _ _).mp hsecond
  obtain ⟨f, hf, hcall⟩ := (Option.any_eq_true _ _).mp hf
  obtain ⟨g, hg, hcall'⟩ := (Option.any_eq_true _ _).mp hg
  simp only [Bool.and_eq_true, beq_iff_eq, List.any_eq_true] at hcleanup hcleanup' hcall hcall'
  obtain ⟨hid, s, hs, hsid, hkind⟩ := hcall
  obtain ⟨hid', t, ht, htid, hkind'⟩ := hcall'
  have hn : Signatures.pair.Numbered := Signatures.numbered_empty.setFunction _ _
  obtain ⟨sources', r', hr', -, hreleases⟩ := direct_calls_release pair_startsFrom hb hn rfl hok
  obtain ⟨rfl, rfl⟩ := Prod.mk.inj (Option.some.inj (hr.symm.trans hr'))
  obtain ⟨convention, -, hone⟩ := hreleases f (List.mem_of_getElem? hf) s hs 0x2000 hkind k
    (by rwa [hid, hsid])
  obtain ⟨convention', hget, hother⟩ := hreleases g (List.mem_of_getElem? hg) t ht 0x1000 hkind' k'
    (by rwa [hid', htid])
  rw [hid, hsid, hcleanup] at hone
  rw [hid', htid, hcleanup'.1] at hother
  obtain rfl := Option.some.inj (hget.symm.trans hcleanup'.2)
  exact ⟨fs, w', stats, sources, r, k, k', convention, .fastcall, hb, hok, hr, hk, hcleanup, hone,
    hk', hcleanup'.1, rfl, hother⟩

end Workspace

end CallEffects
