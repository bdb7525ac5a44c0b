import CallEffects.Proofs.Fixpoint

/-!
# The counts are exact

No move of a bench changes any of three balances: the hook statements of the function, with those
counted as removed and without those counted as inserted; its active hooks, with those detached and
without those attached; and the hooks ever built, without those synthesized. So an instrumentation
has done what it counts. One that counts no hook has left the function and the active hooks as they
were, and the statements that a whole run leaves are those it inserted and has not removed since.
-/

namespace CallEffects

open Std

theorem Hooks.Consistent.length_activeIn {h : Hooks} (hc : h.Consistent) (f : FunctionId) :
    (h.activeIn f).length = h.active.keys.countP (·.function == f) := by
  rw [activeIn, ← List.countP_eq_length_filter, Table.values_eq, ← ExtTreeMap.map_fst_toList_eq_keys,
    List.countP_map, List.countP_map]
  apply List.countP_congr
  rintro ⟨a, k⟩ hmem
  obtain ⟨-, rfl⟩ := hc.active_built (ExtTreeMap.mem_toList_iff_getElem?_eq_some.mp hmem)
  rfl

namespace Bench

variable {b b' b'' : Bench} {a : Anchor} {plan : Option Plan}
variable {detector : Option Detector} {signatures : Signatures} {sources : Sources} {s : Snapshot}
variable {wanted : Anchor → Prop}

/-! ## Balances -/

/-- The hook statements of the function, without those that the counters account for. -/
def statementBalance (b : Bench) : Int :=
  b.function.syntheticCount + b.stats.removed - b.stats.inserted

def hookBalance (b : Bench) : Int :=
  (b.hooks.activeIn b.function.id).length + b.stats.detached - b.stats.attached

def cacheBalance (b : Bench) : Int := b.hooks.built.length - b.stats.synthesized

/-- The counters have changed as much as what they count. -/
structure Balanced (b b' : Bench) : Prop where
  statements : b'.statementBalance = b.statementBalance
  hooks : b'.hookBalance = b.hookBalance
  cache : b'.cacheBalance = b.cacheBalance

theorem Balanced.refl (b : Bench) : b.Balanced b := ⟨rfl, rfl, rfl⟩

theorem Balanced.trans (h : b.Balanced b') (h' : b'.Balanced b'') : b.Balanced b'' :=
  ⟨h'.statements.trans h.statements, h'.hooks.trans h.hooks, h'.cache.trans h.cache⟩

theorem Balanced.of_eq (hf : b'.function = b.function) (ha : b'.hooks.active = b.hooks.active)
    (hb : b'.hooks.built = b.hooks.built)
    (hs : b'.stats = { b.stats with unresolved := b'.stats.unresolved }) : b.Balanced b' := by
  refine ⟨?_, ?_, ?_⟩
  · rw [statementBalance, hf, hs, statementBalance]
  · rw [hookBalance, Hooks.activeIn, ha, hf, hs, hookBalance, Hooks.activeIn]
  · rw [cacheBalance, hb, hs, cacheBalance]

theorem detach_balanced (hb : b.Sound) (ha : a.function = b.function.id) :
    b.Balanced (b.detach a) := by
  cases hk : b.hooks.active[a]? with
  | none =>
    rw [detach_of_none hk]
    exact .refl b
  | some hook =>
    -- As many statements are counted as are really taken out of the body.
    have hremoved := b.detach_removed a
    have hkeys := (Table.keys_erase_perm hk).countP_eq (·.function == b.function.id)
    rw [List.countP_cons_of_pos (by simpa using ha)] at hkeys
    have hactive := hb.1.length_activeIn b.function.id
    have hactive' := (hb.detach a ha).1.length_activeIn b.function.id
    rw [detach_active] at hactive'
    rw [detach_of_some hk] at hremoved hactive' ⊢
    refine ⟨?_, ?_, rfl⟩
    · unfold statementBalance
      dsimp only at hremoved ⊢
      omega
    · unfold hookBalance
      dsimp only [Function.removeSynthetic] at hactive' ⊢
      omega

theorem obtain_balanced (b : Bench) (p : Plan) : b.Balanced (b.obtain p).2 := by
  cases hc : b.hooks.cached? p.key with
  | some hook =>
    rw [obtain_of_cached hc]
    exact .refl b
  | none =>
    rw [obtain_of_none hc]
    refine ⟨rfl, rfl, ?_⟩
    simp only [cacheBalance, List.length_append, List.length_singleton]
    omega

theorem place_balanced (hb : b.Sound) {hook : Hook} {f : Function}
    (ha : hook.anchor.function = b.function.id) (hk : hook ∈ b.hooks.built)
    (hnone : b.hooks.active[hook.anchor]? = none) (hplaced : (b.place hook f).Sound)
    (hf : b.function.insertSynthetic hook.anchor.position hook.statements = .ok f) :
    b.Balanced (b.place hook f) := by
  have hsynthetic : hook.statements.countP (·.isSynthetic) = hook.statements.length :=
    List.countP_eq_length.mpr fun s hs => hb.1.isSynthetic hk hs
  have hcount : f.syntheticCount = hook.statements.length + b.function.syntheticCount := by
    rw [Function.syntheticCount, (Function.insertSynthetic_statements hf).countP_eq,
      List.countP_append, hsynthetic, Function.syntheticCount]
  have hid : f.id = b.function.id := by
    rw [(Function.insertSynthetic_fields hf).1]
  have hkeys := (Table.keys_insert_perm hnone hook).countP_eq (·.function == b.function.id)
  rw [List.countP_cons_of_pos (by simpa using ha)] at hkeys
  have hactive := hb.1.length_activeIn b.function.id
  have hactive' := hplaced.1.length_activeIn b.function.id
  have hinsert : (b.place hook f).hooks.active = b.hooks.active.insert hook.anchor hook := rfl
  rw [hinsert] at hactive'
  refine ⟨?_, ?_, rfl⟩
  · simp only [statementBalance, place, hcount]
    omega
  · have hfunction : (b.place hook f).function.id = b.function.id := hid
    rw [hookBalance, hookBalance, hfunction]
    simp only [place] at hactive' ⊢
    omega

theorem Move.balanced (h : Move detector signatures wanted b b') (hb : b.Sound) :
    b.Balanced b' := by
  have hb' : b'.Sound := h.sound hb
  cases h with
  | start s =>
    rw [start_eq]
    exact .of_eq rfl rfl rfl rfl
  | resolve callee =>
    obtain ⟨cs, asked, heq, -⟩ := b.resolve_snd detector callee
    rw [heq]
    exact .of_eq rfl rfl rfl rfl
  | count | remember | forget => exact .of_eq rfl rfl rfl rfl
  | detach a ha => exact detach_balanced hb ha
  | obtain p => exact obtain_balanced b p
  | place hook f ha hw hk hnone hf => exact place_balanced hb ha hk hnone hb' hf

theorem Moves.balanced (h : Moves detector signatures wanted b b') (hb : b.Sound) :
    b.Balanced b' := by
  induction h with
  | refl => exact .refl b
  | tail hms hm ih => exact ih.trans (hm.balanced (Moves.sound hms hb))

/-! ## Nothing counted, nothing changed -/

/-- Neither the function nor its active hooks have changed, and no edit has been counted. -/
structure Untouched (b b' : Bench) : Prop where
  function : b'.function = b.function
  active : b'.hooks.active = b.hooks.active
  edits : b'.edits = b.edits
  consistent : b'.hooks.Consistent

theorem Untouched.refl (hc : b.hooks.Consistent) : b.Untouched b := ⟨rfl, rfl, rfl, hc⟩

theorem Untouched.trans (h : b.Untouched b') (h' : b'.Untouched b'') : b.Untouched b'' :=
  ⟨h'.function.trans h.function, h'.active.trans h.active, h'.edits.trans h.edits, h'.consistent⟩

/-- An edit has been counted, or nothing has been edited. -/
def Admits (b b' : Bench) : Prop := b.edits < b'.edits ∨ b.Untouched b'

theorem Admits.trans (h : b.Admits b') (h' : b'.hooks.Consistent → b'.Admits b'')
    (hle : b'.edits ≤ b''.edits) : b.Admits b'' := by
  rcases h with hlt | h
  · exact .inl (Nat.lt_of_lt_of_le hlt hle)
  · rcases h' h.consistent with hlt | h'
    · exact .inl (h.edits ▸ hlt)
    · exact .inr (h.trans h')

theorem resolve_untouched (hc : b.hooks.Consistent) (detector : Option Detector)
    (callee : Callee) : b.Untouched (b.resolve detector callee).2 := by
  obtain ⟨cs, asked, heq, -⟩ := b.resolve_snd detector callee
  rw [heq]
  exact ⟨rfl, rfl, rfl, hc⟩

theorem revisit_untouched (hc : b.hooks.Consistent) (a : Anchor) : b.Untouched (b.revisit a) := by
  unfold revisit
  cases hk : b.hooks.active[a]? with
  | none => exact ⟨rfl, rfl, rfl, hc⟩
  | some k => exact ⟨rfl, rfl, rfl, hc.remember (hc.active_built hk).1⟩

theorem informed_untouched (hc : b.hooks.Consistent) (detector : Option Detector) (s : Snapshot) :
    b.Untouched (b.informed detector s) := by
  have hstart : b.Untouched (b.start s) := by
    rw [start_eq]
    exact ⟨rfl, rfl, rfl, hc.congr rfl rfl rfl⟩
  exact hstart.trans (resolve_untouched hstart.consistent detector (.ofFunction b.function))

theorem settle_admits (hc : b.hooks.Consistent) (hp : ∀ p ∈ plan, p.key.anchor = a)
    (h : b.settle a plan = .ok b') : b.Admits b' := by
  rcases settle_edits hc hp h with hlt | ⟨-, rfl⟩
  · exact .inl hlt
  · exact .inr (revisit_untouched hc a)

theorem settleCall_admits {site : CallSite} (hc : b.hooks.Consistent)
    (h : settleCall detector signatures b site = .ok b') : b.Admits b' := by
  rw [settleCall_eq] at h
  have hresolve := resolve_untouched hc detector (.ofCall (b.callAt site) site.target)
  have hcall : (b.resolve detector (.ofCall (b.callAt site) site.target)).2.callAt site =
      b.callAt site := by
    rw [callAt, hresolve.function, callAt]
  refine Admits.trans (.inr hresolve) (fun hc' => settle_admits hc' ?_ h) (edits_le_settle h)
  intro p hp
  obtain ⟨c, -, rfl⟩ := Option.map_eq_some_iff.mp hp
  exact congrArg Anchor.call hcall

theorem foldlM_admits {α : Type} {act : Bench → α → Except Halt Bench} {xs : List α}
    (hc : b.hooks.Consistent)
    (hmono : ∀ {b b' : Bench} (x : α), act b x = .ok b' → b.edits ≤ b'.edits)
    (hact : ∀ {b b' : Bench} (x : α), b.hooks.Consistent → act b x = .ok b' → b.Admits b')
    (h : xs.foldlM act b = .ok b') : b.Admits b' :=
  foldlM_invariant (P := b.Admits) (.inr (.refl hc))
    (fun x hadmits h => hadmits.trans (fun hc' => hact x hc' h) (hmono x h)) h

theorem dropUnseen_admits (hc : b.hooks.Consistent) (kind : HookKind) (seen : List Anchor) :
    b.Admits (b.dropUnseen kind seen) := by
  by_cases hnone : ∀ a, b.Unseen kind seen a → b.hooks.active[a]? = none
  · rw [b.dropUnseen_of_inactive kind seen hnone]
    exact .inr ⟨rfl, rfl, rfl, hc.forget _⟩
  · simp only [not_forall] at hnone
    obtain ⟨a, ha, hactive⟩ := hnone
    exact .inl (edits_lt_dropUnseen ha hactive)

theorem instrument_admits (hc : b.hooks.Consistent) (h : b.instrument sources s = .ok b') :
    b.Admits b' := by
  obtain ⟨-, b₁, b₂, b₃, h₁, h₂, h₃, rfl⟩ := instrument_ok h
  -- Stage by stage: no stage takes an edit back, so the first one that makes one decides.
  have hentry : b.Admits b₁ := Admits.trans (.inr (informed_untouched hc sources.detector s))
    (fun hc' => settle_admits hc' (fun p hp => (b.informed_entryPlan_fits s p hp).1) h₁)
    (edits_le_settle h₁)
  have hcalls : b.Admits b₂ := hentry.trans
    (fun hc' => foldlM_admits hc' (fun _ => edits_le_settleCall) (fun _ => settleCall_admits) h₂)
    (edits_le_foldlM (fun _ => edits_le_settleCall) h₂)
  have hdropped : ∀ seen, b.Admits (b₂.dropUnseen .call seen) := fun seen =>
    hcalls.trans (fun hc' => dropUnseen_admits hc' .call seen) (b₂.edits_le_dropUnseen .call seen)
  have hreturns : b.Admits b₃ := (hdropped _).trans
    (fun hc' => foldlM_admits hc' (fun _ => edits_le_settle)
      (fun ret hc' => settle_admits hc' fun p hp => (b.informed_returnPlan_fits s ret p hp).1) h₃)
    (edits_le_foldlM (fun _ => edits_le_settle) h₃)
  exact hreturns.trans (fun hc' => dropUnseen_admits hc' .ret _) (b₃.edits_le_dropUnseen .ret _)

/-- What was done to the second bench since it was the first one is what it has counted. -/
structure Counted (b b' : Bench) : Prop where
  statements : b'.function.syntheticCount + b'.stats.removed =
    b.function.syntheticCount + b'.stats.inserted
  hooks : (b'.hooks.activeIn b.function.id).length + b'.stats.detached =
    (b.hooks.activeIn b.function.id).length + b'.stats.attached
  built : b'.hooks.built.length = b.hooks.built.length + b'.stats.synthesized
  unchanged : b'.stats.changed = false →
    b'.function = b.function ∧ b'.hooks.active = b.hooks.active

theorem instrument_counted (hb : b.Sound) (hs : b.stats = .zero)
    (h : b.instrument sources s = .ok b') : b.Counted b' := by
  have hmoves := moves_of_instrument_eq_ok h
  have hid : b'.function.id = b.function.id := Moves.function_id hmoves
  obtain ⟨hstatements, hhooks, hcache⟩ := Moves.balanced hmoves hb
  simp only [statementBalance, hookBalance, cacheBalance, hs, hid, InstrumentStats.zero]
    at hstatements hhooks hcache
  refine ⟨by omega, by omega, by omega, fun hunchanged => ?_⟩
  have hidle : b'.stats.attached = 0 ∧ b'.stats.detached = 0 := by
    simpa [InstrumentStats.changed] using hunchanged
  have huntouched := (instrument_admits hb.1 h).resolve_left (by
    rw [edits, edits, hidle.1, hidle.2]
    exact Nat.not_lt_zero _)
  exact ⟨huntouched.function, huntouched.active⟩

end Bench

/-! ## Rounds -/

namespace Round

variable {r r' : Round} {f : Function} {sources : Sources} {s : Snapshot} {b : Bench}

def statementBalance (r : Round) : Int :=
  Functions.syntheticTotal r.functions + r.stats.removed - r.stats.inserted

theorem InOrder.statementBalance_putBack (h : r.InOrder) (hf : f ∈ r.functions)
    (hok : (r.bench f).instrument sources s = .ok b) :
    (r.putBack b).statementBalance = r.statementBalance := by
  have hmoves := Bench.moves_of_instrument_eq_ok hok
  have hid : b.function.id = f.id := Bench.Moves.function_id hmoves
  have hbalance := (Bench.Moves.balanced hmoves (h.bench_sound hf)).statements
  have htotal := Functions.syntheticTotal_set (h.getElem? hf) (g := b.function)
  have hset : (r.putBack b).functions = r.functions.set f.id b.function := functions_putBack hid
  have hstats : (r.putBack b).stats = r.stats.merge b.stats := rfl
  simp only [Bench.statementBalance, bench, InstrumentStats.zero] at hbalance
  rw [statementBalance, statementBalance, hset, hstats]
  simp only [InstrumentStats.merge]
  omega

theorem InOrder.statementBalance_instrumentNext (h : r.InOrder)
    (hok : instrumentNext sources r s = .ok r') :
    r'.InOrder ∧ r'.statementBalance = r.statementBalance := by
  obtain ⟨f, b, t, hf, hb, rfl⟩ := instrumentNext_eq_ok hok
  have hmem := List.mem_of_getElem? hf
  exact ⟨(h.putBack_of_ok hmem hb).congr rfl rfl rfl rfl rfl, h.statementBalance_putBack hmem hb⟩

theorem InOrder.statementBalance_foldlM {ss : List Snapshot} (h : r.InOrder)
    (hok : ss.foldlM (instrumentNext sources) r = .ok r') :
    r'.InOrder ∧ r'.statementBalance = r.statementBalance := by
  refine Bench.foldlM_invariant (P := fun r' => r'.InOrder ∧ r'.statementBalance = r.statementBalance)
    ⟨h, rfl⟩ ?_ hok
  rintro q q' s ⟨hin, hbalance⟩ hq
  obtain ⟨hin', hone⟩ := hin.statementBalance_instrumentNext hq
  exact ⟨hin', hone.trans hbalance⟩

/-- Before the turns of a round the engine only learns what the functions release. -/
theorem InOrder.statementBalance_run (h : r.InOrder) (hok : r.run sources = .ok r') :
    r'.InOrder ∧ r'.statementBalance = r.statementBalance := by
  obtain ⟨observed, hlearned⟩ := r.exists_learned
  have hin : r.learned.InOrder := by
    rw [hlearned]
    exact h.congr rfl rfl rfl rfl rfl
  have hbalance : r.learned.statementBalance = r.statementBalance := by
    rw [hlearned]
    rfl
  obtain ⟨hin', hrest⟩ := hin.statementBalance_foldlM hok
  exact ⟨hin', hrest.trans hbalance⟩

end Round

/-! ## Runs -/

namespace Workspace

variable {w w₀ w₁ : Workspace} {sources : Sources} {r : Round} {stats : ScheduleStats}
variable {c : Configuration} {n : Nat} {done : Workspace × ScheduleStats}
variable {allowed : Snapshot → Prop}

/-- Of the `n` hook statements that were there and of those inserted since, all that have not been
counted as removed are still there. -/
def Tallies (w : Workspace) (stats : ScheduleStats) (n : Nat) : Prop :=
  ∃ sources r, w.round? = some (sources, r) ∧ r.InOrder ∧
    Functions.syntheticTotal r.functions + stats.instrument.removed + stats.deinstrumented =
      n + stats.instrument.inserted

theorem Tallies.functions (h : w.Tallies stats n) :
    ∃ fs, w.functions = some fs ∧
      Functions.syntheticTotal fs + stats.instrument.removed + stats.deinstrumented =
        n + stats.instrument.inserted := by
  obtain ⟨sources, r, hr, -, htotal⟩ := h
  exact ⟨r.functions, functions_of_round? hr, htotal⟩

theorem Tallies.putBack {q : Round} {converged : Bool} (h : w.Tallies stats n)
    (hr : w.round? = some (sources, r)) (hrun : r.run sources = .ok q) :
    (w.putBack q).Tallies (stats.after q.stats converged) n := by
  obtain ⟨sources', r', hr', hin, htotal⟩ := h
  obtain ⟨rfl, rfl⟩ := Prod.mk.inj (Option.some.inj (hr.symm.trans hr'))
  obtain ⟨hin', hbalance⟩ := hin.statementBalance_run hrun
  refine ⟨sources, _, round?_putBack hr q, hin'.congr rfl rfl rfl rfl rfl, ?_⟩
  simp only [Round.statementBalance, stats_of_round? hr, InstrumentStats.zero] at hbalance
  simp only [ScheduleStats.after, InstrumentStats.merge]
  omega

theorem Tallies.deinstrument {removed : Nat} (h : w.Tallies stats n)
    (hnone : stats.deinstrumented = 0) (hok : w.deinstrument = .ok (w₁, removed)) :
    w₁.Tallies { stats with deinstrumented := removed } n := by
  obtain ⟨sources, r, hr, hin, htotal⟩ := h
  obtain ⟨hfunctions, -, hremoved⟩ := hin.deinstrumentAll
  have hstripped := Round.deinstrumentEach_spec r.hooks.touched.keys hin
  have hin' : r.deinstrumentAll.InOrder := hstripped.1.inOrder
  simp only [Workspace.deinstrument, hr] at hok
  obtain ⟨rfl, rfl⟩ := Prod.mk.inj (Except.ok.inj hok)
  refine ⟨sources, _, round?_putBack hr _, hin'.congr rfl rfl rfl rfl rfl, ?_⟩
  have hkept := hstripped.1.removed
  rw [← Round.deinstrumentAll_eq, stats_of_round? hr] at hkept
  change Functions.syntheticTotal r.deinstrumentAll.functions + stats.instrument.removed +
    r.deinstrumentAll.stats.removed = n + stats.instrument.inserted
  simp only [InstrumentStats.zero] at hkept
  omega

theorem Tallies.finish (h : w.Tallies stats n) (hnone : stats.deinstrumented = 0)
    (hok : w.finish c stats = .ok done) : done.1.Tallies done.2 n := by
  have hemission : ∀ {w : Workspace} {stats : ScheduleStats}, w.Tallies stats n →
      w.emission c stats = .ok done → done.1.Tallies done.2 n := by
    rintro w stats ⟨sources, r, hr, hin, htotal⟩ hok
    obtain ⟨hround, hstats⟩ := round?_of_emission hok
    exact ⟨sources, r, hround.trans hr, hin, hstats ▸ htotal⟩
  rw [finish_eq] at hok
  split at hok
  · cases hd : w.deinstrument with
    | error e =>
      rw [hd] at hok
      cases hok
    | ok left =>
      rw [hd] at hok
      exact hemission (h.deinstrument hnone hd) hok
  · exact hemission h hok

theorem run_tallies (hprepare : w.prepare c = .ok w₁) (hr : w₁.round? = some (sources, r))
    (hin : r.InOrder) (hok : w.run c = .ok done) :
    done.1.Tallies done.2 (Functions.syntheticTotal r.functions) := by
  rw [run_of_prepare hprepare] at hok
  obtain ⟨⟨w₂, stats⟩, hrounds, hfinish⟩ := Bench.bind_eq_ok hok
  have hstart : w₁.Tallies .zero (Functions.syntheticTotal r.functions) :=
    ⟨sources, r, hr, hin, rfl⟩
  obtain ⟨htallies, hnone⟩ := runRounds_induction
    (P := fun w stats => w.Tallies stats _ ∧ stats.deinstrumented = 0) ⟨hstart, rfl⟩
    (fun w stats sources r q converged h hr hrun => ⟨h.1.putBack hr hrun, h.2⟩) hrounds
  exact htallies.finish hnone hfinish

/-- No hook has been built, and the functions, if there are any, are as they were lifted. -/
structure Pristine (w : Workspace) : Prop where
  hooks : ∀ e, w.engine = some e → e.hooks = .empty
  functions : ∀ fs, w.functions = some fs → (w.firstRound fs).Fresh

theorem Pristine.of_eq (h : w.Pristine) (hengine : w₁.engine = w.engine)
    (hfunctions : w₁.functions = w.functions) : w₁.Pristine where
  hooks e he := h.hooks e (hengine ▸ he)
  functions fs hfs := (h.functions fs (hfunctions ▸ hfs)).congr rfl rfl

theorem Pristine.fresh (h : w.Pristine) (hr : w.round? = some (sources, r)) : r.Fresh := by
  obtain ⟨e, fs, ss, he, hfs, -, -, rfl⟩ := round?_eq_some hr
  exact (h.functions fs hfs).congr (h.hooks e he) rfl

theorem Pristine.prepare (h : w.Pristine) (hok : w.prepare c = .ok w₁) :
    ∃ sources r, w₁.round? = some (sources, r) ∧ r.Fresh := by
  obtain ⟨fs, hfs, rfl⟩ := prepare_eq_ok hok
  obtain ⟨sources, r, hr, rfl, hengine⟩ := w.round?_filled c fs
  have hhooks : r.hooks = .empty := by
    rcases hengine with ⟨e, he, -, hhooks, -⟩ | ⟨-, -, hhooks, -⟩
    · rw [hhooks, h.hooks e he]
    · exact hhooks
  refine ⟨sources, r, hr, ?_⟩
  rcases hfs with hfs | ⟨p, hp⟩
  · exact (h.functions _ hfs).congr hhooks rfl
  · exact Program.buildFunctions_fresh hp rfl hhooks

/-- As long as there is no engine to speak of, a workspace stays pristine. -/
theorem Pristine.step (h : w.Pristine) (hs : Step allowed w w₁) :
    w₁.Pristine ∨ ∃ sources r, w₁.round? = some (sources, r) ∧ r.InOrder := by
  have hall : ∀ f s, Snapshot.Genuine s f → True := fun _ _ _ => trivial
  cases hround : w.round? with
  | some x =>
    have hin := (h.fresh hround).inOrder
    have hevolves : Evolves (fun _ _ => True) w w₁ := hs.evolves (fun _ _ _ _ _ _ _ => trivial) hall
    obtain ⟨sources, r, hr, hturns⟩ := hevolves x.1 x.2 hround hin
    exact .inr ⟨sources, r, hr, Round.Turns.inOrder hturns hin⟩
  | none =>
    cases hs with
    | register | assign | unassign | signFunction | signCall | setCancellation =>
      exact .inl (h.of_eq rfl rfl)
    | setDetector d =>
      refine .inl ⟨?_, fun fs hfs => (h.functions fs hfs).congr rfl rfl⟩
      intro e he
      obtain ⟨e', he', rfl⟩ := Option.map_eq_some_iff.mp he
      exact h.hooks e' he'
    | edit fs f g e hfs hf hl he =>
      have hedited := (h.functions fs hfs).inOrder.edit hf hl he
      refine .inl ⟨h.hooks, ?_⟩
      rintro fs' ⟨⟩
      exact (hedited.fresh rfl).congr rfl rfl
    | observe _ _ _ _ hr | instrument _ _ _ _ hr | deinstrument _ _ _ hr | deinstrumentAll _ _ hr =>
      rw [hround] at hr
      cases hr
    | run c =>
      cases hprepare : w.prepare c with
      | error e =>
        rw [run, hprepare]
        exact .inl h
      | ok w₂ =>
        obtain ⟨sources, r, hr, hfresh⟩ := h.prepare hprepare
        have hevolves : Evolves (fun _ _ => True) w₂ (left (w.run c)) :=
          run_evolves_of_prepare hprepare hall
        obtain ⟨sources', r', hr', hturns⟩ := hevolves sources r hr hfresh.inOrder
        exact .inr ⟨sources', r', hr', Round.Turns.inOrder hturns hfresh.inOrder⟩

theorem Pristine.inOrder (h : w₀.Pristine) (hs : Relation.ReflTransGen (Step allowed) w₀ w)
    (hr : w.round? = some (sources, r)) : r.InOrder := by
  have hstate : w.Pristine ∨ ∃ sources r, w.round? = some (sources, r) ∧ r.InOrder := by
    clear hr
    induction hs with
    | refl => exact .inl h
    | tail _ hs ih =>
      rcases ih with hw | ⟨sources, r, hr, hin⟩
      · exact hw.step hs
      · obtain ⟨sources', r', hr', hturns⟩ := steps_turns (.single hs) hr hin
        exact .inr ⟨sources', r', hr', Round.Turns.inOrder hturns hin⟩
  rcases hstate with hw | ⟨sources', r', hr', hin⟩
  · exact (hw.fresh hr).inOrder
  · obtain ⟨rfl, rfl⟩ := Prod.mk.inj (Option.some.inj (hr.symm.trans hr'))
    exact hin

/-- Whatever was done since the workspace was pristine, an instrumentation that succeeds has done
what it counts, and nothing to the function and the active hooks if it counts no hook; and a run of
the pristine workspace leaves the hook statements that it counts as inserted and not as removed. -/
theorem counts_are_exact (h : w₀.Pristine) :
    (∀ w, Relation.ReflTransGen (Step fun _ => True) w₀ w →
      ∀ sources r, w.round? = some (sources, r) → ∀ f ∈ r.functions, ∀ s b,
        (r.bench f).instrument sources s = .ok b → (r.bench f).Counted b) ∧
    ∀ c done, w₀.run c = .ok done → ∃ fs, done.1.functions = some fs ∧
      Functions.syntheticTotal fs + done.2.instrument.removed + done.2.deinstrumented =
        done.2.instrument.inserted := by
  constructor
  · intro w hsteps sources r hr f hf s b hok
    exact Bench.instrument_counted ((h.inOrder hsteps hr).bench_sound hf) rfl hok
  · intro c done hok
    cases hprepare : w₀.prepare c with
    | error e =>
      rw [run, hprepare] at hok
      cases hok
    | ok w₁ =>
      obtain ⟨sources, r, hr, hfresh⟩ := h.prepare hprepare
      obtain ⟨fs, hfs, htotal⟩ := (run_tallies hprepare hr hfresh.inOrder hok).functions
      rw [Functions.syntheticTotal_eq_zero hfresh.lifted, Nat.zero_add] at htotal
      exact ⟨fs, hfs, htotal⟩

theorem loaded_pristine : loaded.Pristine where
  hooks _ he := by cases he
  functions _ hfs := by cases hfs

/-- The sample program is run, and a callee of it loses its convention before the function is
instrumented again. -/
theorem loaded_counts :
    ∃ done fs sources r f b, loaded.run .standard = .ok done ∧ done.1.functions = some fs ∧
      0 < Functions.syntheticTotal fs ∧
      Functions.syntheticTotal fs + done.2.instrument.removed + done.2.deinstrumented =
        done.2.instrument.inserted ∧
      (done.1.modifyConventions fun cs => (cs.unassign (.address 0x2000)).2).round? =
        some (sources, r) ∧
      f ∈ r.functions ∧ (r.bench f).instrument sources (.take f) = .ok b ∧ 0 < b.stats.removed ∧
      (r.bench f).Counted b := by
  have hexists : (loaded.run .standard).toOption.any fun done =>
      decide (∀ fs ∈ done.1.functions, 0 < Functions.syntheticTotal fs) &&
        (done.1.modifyConventions fun cs =>
          (cs.unassign (.address 0x2000)).2).round?.any fun x =>
            x.2.functions.any fun f => ((x.2.bench f).instrument x.1 (.take f)).toOption.any fun b =>
              decide (0 < b.stats.removed) := by
    decide +kernel
  obtain ⟨done, hok, hdone⟩ := exists_of_any_toOption hexists
  rw [Bool.and_eq_true, decide_eq_true_eq] at hdone
  obtain ⟨hpos, hdone⟩ := hdone
  obtain ⟨⟨sources, r⟩, hr, hdone⟩ := (Option.any_eq_true _ _).mp hdone
  obtain ⟨f, hf, hdone⟩ := List.any_eq_true.mp hdone
  obtain ⟨b, hb, hremoved⟩ := exists_of_any_toOption hdone
  obtain ⟨hinstrument, hrun⟩ := counts_are_exact loaded_pristine
  obtain ⟨fs, hfs, htotal⟩ := hrun .standard done hok
  have hstep : Step (fun _ => True) loaded done.1 := by
    have hrun : Step (fun _ => True) loaded (left (loaded.run .standard)) := .run loaded .standard
    rwa [hok] at hrun
  have hcounted := hinstrument _ (.tail (.single hstep) (.unassign done.1 (.address 0x2000)))
    sources r hr f hf (.take f) b hb
  exact ⟨done, fs, sources, r, f, b, hok, hfs, hpos fs hfs, htotal, hr, hf, hb,
    of_decide_eq_true hremoved, hcounted⟩

end Workspace

end CallEffects
