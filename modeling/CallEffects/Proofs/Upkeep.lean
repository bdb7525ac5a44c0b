import CallEffects.Proofs.Fixpoint

/-!
# The stored snapshots are kept up to date

A turn that is completed takes a snapshot of the function it has instrumented and leaves the other
functions and their snapshots alone. So a snapshot that says what an analysis would find goes on
saying so, and a whole round leaves one for every function. Only between the edit of a function and
its snapshot is the stored one out of date, and no poll for a cancellation comes between these.
Taking all hooks off ends with new snapshots of everything.
-/

namespace CallEffects

open Std

namespace Bench

variable {b : Bench} {detector : Option Detector} {signatures : Signatures} {halt : Halt}

theorem error_of_bind {α β ε : Type} {x : Except ε α} {k : α → Except ε β} {e : ε}
    (h : x >>= k = .error e) : x = .error e ∨ ∃ a, x = .ok a ∧ k a = .error e := by
  cases x with
  | error e' => exact .inl (congrArg Except.error (Except.error.inj h))
  | ok a => exact .inr ⟨a, rfl, h⟩

/-! ## What stops the work on a bench -/

theorem settle_error {anchor : Anchor} {plan : Option Plan}
    (h : b.settle anchor plan = .error halt) : ∃ e, halt.cause = .ir e := by
  cases plan with
  | none => cases h
  | some p =>
    have h : (b.obtain p).2.attach (b.obtain p).1 = .error halt := h
    unfold attach at h
    split at h
    · cases h
    · dsimp only at h
      split at h
      · next e _ =>
        obtain rfl := Except.error.inj h
        exact ⟨e, rfl⟩
      · cases h

theorem foldlM_error {α : Type} {step : Bench → α → Except Halt Bench} {P : Halt → Prop}
    {as : List α} (hstep : ∀ b, ∀ a ∈ as, ∀ halt, step b a = .error halt → P halt)
    (h : as.foldlM step b = .error halt) : P halt := by
  induction as generalizing b with
  | nil => cases h
  | cons a as ih =>
    rw [List.foldlM_cons] at h
    rcases error_of_bind h with h | ⟨b₁, -, h⟩
    · exact hstep b a List.mem_cons_self halt h
    · exact ih (fun b a ha => hstep b a (List.mem_cons_of_mem _ ha)) h

theorem settleAll_error {s : Snapshot} {own : Option (ConventionId × Convention)}
    {signature : Option (Nat × FunctionSignature)}
    (h : b.settleAll detector signatures s own signature = .error halt) :
    ∃ e, halt.cause = .ir e := by
  rcases error_of_bind h with h | ⟨b₁, -, h⟩
  · exact settle_error h
  · rcases error_of_bind h with h | ⟨b₂, -, h⟩
    · exact foldlM_error (fun _ _ _ _ => settle_error) h
    · rcases error_of_bind h with h | ⟨b₃, -, h⟩
      · exact foldlM_error (fun _ _ _ _ => settle_error) h
      · cases h

theorem instrument_ne_cancelled {sources : Sources} {s : Snapshot}
    (h : b.instrument sources s = .error halt) : halt.cause ≠ .cancelled := by
  unfold instrument at h
  cases hm : s.mismatch? b.function with
  | some e =>
    rw [hm] at h
    obtain rfl := Except.error.inj h
    rintro rfl
    unfold Snapshot.mismatch? at hm
    split at hm
    · cases hm
    · split at hm <;> cases hm
  | none =>
    rw [hm] at h
    dsimp only at h
    split at h
    · obtain rfl := Except.error.inj h
      rintro ⟨⟩
    · split at h
      · obtain rfl := Except.error.inj h
        rintro ⟨⟩
      · obtain ⟨e, he⟩ := settleAll_error h
        rw [he]
        rintro ⟨⟩

end Bench

namespace Round

variable {r r' r'' : Round} {sources : Sources} {s : Snapshot} {ids ids' : List FunctionId}

/-- The snapshot stored for the function says what an analysis of it says now. -/
def UpToDate (r : Round) (id : FunctionId) : Prop :=
  ∃ f, r.functions[id]? = some f ∧ r.snapshots[id]? = some (.take f)

/-- The second round has the same functions, and their snapshots are no worse kept. -/
structure Upkeep (r r' : Round) : Prop where
  ids : r'.functions.map (·.id) = r.functions.map (·.id)
  upToDate : ∀ id, r.UpToDate id → r'.UpToDate id

theorem Upkeep.refl (r : Round) : r.Upkeep r := ⟨rfl, fun _ h => h⟩

theorem Upkeep.trans (h : r.Upkeep r') (h' : r'.Upkeep r'') : r.Upkeep r'' :=
  ⟨h'.ids.trans h.ids, fun id hid => h'.upToDate id (h.upToDate id hid)⟩

theorem Upkeep.of_eq (hf : r'.functions = r.functions) (hs : r'.snapshots = r.snapshots) :
    r.Upkeep r' := by
  refine ⟨by rw [hf], fun id hid => ?_⟩
  rw [UpToDate, hf, hs]
  exact hid

/-- The round gets through with the snapshots of these functions up to date, or if it is cancelled
it has still kept those that were. -/
def Maintains (r : Round) (ids : List FunctionId) : Except Stopped Round → Prop
  | .ok r' => r.Upkeep r' ∧ ∀ id ∈ ids, r'.UpToDate id
  | .error stopped => stopped.cause = .cancelled → r.Upkeep stopped.round

theorem Maintains.bind {x : Except Stopped Round} {k : Round → Except Stopped Round}
    (hx : r.Maintains ids x) (hk : ∀ r' : Round, r'.Maintains ids' (k r')) :
    r.Maintains (ids ++ ids') (x >>= k) := by
  cases x with
  | error stopped => exact hx
  | ok r₁ =>
    have hr₂ := hk r₁
    change r.Maintains (ids ++ ids') (k r₁)
    cases h : k r₁ with
    | error stopped =>
      rw [h] at hr₂
      exact fun hc => hx.1.trans (hr₂ hc)
    | ok r₂ =>
      rw [h] at hr₂
      refine ⟨hx.1.trans hr₂.1, fun id hid => ?_⟩
      rcases List.mem_append.mp hid with hid | hid
      · exact hr₂.1.upToDate id (hx.2 id hid)
      · exact hr₂.2 id hid

/-- A turn that finds the analysis cancelled has not begun: a turn that has is not asked again. -/
theorem round_of_cancelled {stopped : Stopped} (hturn : instrumentNext sources r s = .error stopped)
    (hcancelled : stopped.cause = .cancelled) : stopped.round = r := by
  unfold instrumentNext at hturn
  cases hpoll : r.cancellation.poll with
  | none =>
    rw [hpoll] at hturn
    obtain rfl := Except.error.inj hturn
    rfl
  | some t =>
    cases hf : r.functions[s.function]? with
    | none =>
      simp only [hpoll, hf] at hturn
      obtain rfl := Except.error.inj hturn
      cases hcancelled
    | some f =>
      simp only [hpoll, hf] at hturn
      rcases Bench.error_of_bind hturn with h | ⟨r₁, -, h⟩
      · unfold Round.instrument at h
        split at h
        · next halt hhalt =>
          obtain rfl := Except.error.inj h
          exact absurd hcancelled (Bench.instrument_ne_cancelled hhalt)
        · cases h
      · cases h

theorem instrumentNext_upToDate (hok : instrumentNext sources r s = .ok r') :
    r'.UpToDate s.function := by
  obtain ⟨f, g, hf, -, hset, hsnapshots⟩ := instrumentNext_replaces hok
  refine ⟨g, ?_, ?_⟩
  · rw [hset, List.getElem?_set_self (List.getElem?_eq_some_iff.mp hf).1]
  · rw [hsnapshots, ExtTreeMap.getElem?_insert_self]

theorem instrumentNext_upkeep (hok : instrumentNext sources r s = .ok r') : r.Upkeep r' := by
  obtain ⟨f, g, hf, hid, hset, hsnapshots⟩ := instrumentNext_replaces hok
  constructor
  · rw [hset]
    exact Functions.map_set_of_eq hf hid
  · intro id hupToDate
    by_cases heq : id = s.function
    · exact heq ▸ instrumentNext_upToDate hok
    · obtain ⟨f', hf', hsnapshot⟩ := hupToDate
      refine ⟨f', (instrumentNext_others hok heq).trans hf', ?_⟩
      rw [hsnapshots, Table.getElem?_insert_of_ne (Ne.symm heq), hsnapshot]

theorem instrumentNext_maintains (sources : Sources) (r : Round) (s : Snapshot) :
    r.Maintains [s.function] (instrumentNext sources r s) := by
  cases hturn : instrumentNext sources r s with
  | ok r' =>
    refine ⟨instrumentNext_upkeep hturn, fun id hmem => ?_⟩
    exact List.mem_singleton.mp hmem ▸ instrumentNext_upToDate hturn
  | error stopped =>
    intro hcancelled
    rw [round_of_cancelled hturn hcancelled]
    exact .refl r

theorem foldlM_instrumentNext_maintains (sources : Sources) (ss : List Snapshot) (r : Round) :
    r.Maintains (ss.map (·.function)) (ss.foldlM (instrumentNext sources) r) := by
  induction ss generalizing r with
  | nil => exact ⟨.refl r, by simp⟩
  | cons s ss ih =>
    rw [List.foldlM_cons]
    exact (instrumentNext_maintains sources r s).bind ih

/-- A round instruments every function. -/
theorem run_maintains (sources : Sources) (r : Round) :
    r.Maintains (r.functions.map (·.id)) (r.run sources) := by
  obtain ⟨observed, hlearned⟩ := r.exists_learned
  have hmaintains : r.learned.Maintains _ (r.run sources) :=
    foldlM_instrumentNext_maintains sources (takeAll r.functions) r.learned
  have hlearns : r.Upkeep r.learned := .of_eq (by rw [hlearned]) (by rw [hlearned])
  have hids : (takeAll r.functions).map (·.function) = r.functions.map (·.id) := by
    rw [takeAll, List.map_map]
    rfl
  rw [hids] at hmaintains
  cases hrun : r.run sources with
  | error stopped =>
    rw [hrun] at hmaintains
    exact fun hcancelled => hlearns.trans (hmaintains hcancelled)
  | ok r' =>
    rw [hrun] at hmaintains
    exact ⟨hlearns.trans hmaintains.1, hmaintains.2⟩

/-! ## Taking hooks off -/

theorem deinstrument_ids {f : Function} (r : Round) (hf : r.functions[f.id]? = some f) :
    (r.deinstrument f).functions.map (·.id) = r.functions.map (·.id) := by
  have hmoves : Bench.Moves none .empty (fun _ => False) (r.bench f) _ :=
    (r.bench f).deinstrument_moves
  have hid : (r.bench f).deinstrument.function.id = f.id := Bench.Moves.function_id hmoves
  change (r.functions.set (r.bench f).deinstrument.function.id _).map (·.id) = _
  rw [hid]
  exact Functions.map_set_of_eq hf hid

theorem ids_of_map_eq {fs fs' : Functions} (hmap : fs'.map (·.id) = fs.map (·.id))
    (h : ∀ {i : Nat} {f : Function}, fs[i]? = some f → f.id = i) {i : Nat} {f : Function}
    (hf : fs'[i]? = some f) : f.id = i := by
  have hi : (fs.map (·.id))[i]? = some f.id := by
    rw [← hmap, List.getElem?_map, hf, Option.map_some]
  rw [List.getElem?_map, Option.map_eq_some_iff] at hi
  obtain ⟨g, hg, hid⟩ := hi
  exact hid.symm.trans (h hg)

theorem deinstrumentEach_ids (ids : List FunctionId)
    (h : ∀ {i : Nat} {f : Function}, r.functions[i]? = some f → f.id = i) :
    (r.deinstrumentEach ids).functions.map (·.id) = r.functions.map (·.id) := by
  induction ids generalizing r with
  | nil => rfl
  | cons id ids ih =>
    simp only [deinstrumentEach, List.foldl_cons]
    cases hf : r.functions[id]? with
    | none => exact ih h
    | some f =>
      have hone := r.deinstrument_ids (f := f) (by rw [h hf, hf])
      exact (ih fun {i g} hg => ids_of_map_eq hone h hg).trans hone

theorem refreshSnapshots_upToDate
    (h : ∀ {i : Nat} {f : Function}, r.functions[i]? = some f → f.id = i) {id : FunctionId}
    (hid : id ∈ r.functions.map (·.id)) : r.refreshSnapshots.UpToDate id := by
  obtain ⟨f, hf, rfl⟩ := List.mem_map.mp hid
  refine ⟨f, Functions.getElem?_id h hf, ?_⟩
  have hdistinct : ((takeAll r.functions).map fun s => (s.function, s)).Pairwise
      fun x y => ¬compare x.1 y.1 = .eq := by
    rw [takeAll, List.map_map, List.pairwise_map]
    refine (List.pairwise_map.mp (Functions.nodup_ids h)).imp fun hne heq => ?_
    exact hne (LawfulEqCmp.eq_of_compare heq)
  refine ExtTreeMap.getElem?_ofList_of_mem ReflCmp.compare_self hdistinct ?_
  exact List.mem_map.mpr ⟨.take f, List.mem_map_of_mem hf, rfl⟩

end Round

/-! ## Whole runs -/

namespace Workspace

variable {w w' w'' : Workspace} {sources : Sources} {r r' : Round} {c : Configuration}
variable {stats stats' : ScheduleStats}

/-- The snapshot stored for the function says what an analysis of it says now. -/
def UpToDate (w : Workspace) (id : FunctionId) : Prop :=
  ∃ fs ss f, w.functions = some fs ∧ w.snapshots = some ss ∧ fs[id]? = some f ∧
    ss[id]? = some (.take f)

/-- Every function has a stored snapshot, and all these are up to date. -/
def AllUpToDate (w : Workspace) : Prop :=
  ∃ fs, w.functions = some fs ∧ ∀ f ∈ fs, w.UpToDate f.id

def Indexed (w : Workspace) : Prop :=
  ∀ fs ∈ w.functions, ∀ {i : Nat} {f : Function}, fs[i]? = some f → f.id = i

/-- The second workspace has the same functions, and their snapshots are no worse kept. -/
structure Upkeep (w w' : Workspace) : Prop where
  ids : w'.functions.map (·.map (·.id)) = w.functions.map (·.map (·.id))
  upToDate : ∀ id, w.UpToDate id → w'.UpToDate id

namespace Upkeep

theorem refl (w : Workspace) : w.Upkeep w := ⟨rfl, fun _ h => h⟩

theorem trans (h : w.Upkeep w') (h' : w'.Upkeep w'') : w.Upkeep w'' :=
  ⟨h'.ids.trans h.ids, fun id hid => h'.upToDate id (h.upToDate id hid)⟩

theorem of_eq (hf : w'.functions = w.functions) (hs : w'.snapshots = w.snapshots) :
    w.Upkeep w' := by
  refine ⟨by rw [hf], fun id hid => ?_⟩
  rw [UpToDate, hf, hs]
  exact hid

theorem indexed (h : w.Upkeep w') (hw : w.Indexed) : w'.Indexed := by
  intro fs' hfs' i f hf
  have hids := h.ids
  rw [hfs', Option.map_some, eq_comm, Option.map_eq_some_iff] at hids
  obtain ⟨fs, hfs, hmap⟩ := hids
  exact Round.ids_of_map_eq hmap.symm (hw fs hfs) hf

theorem all (h : w.Upkeep w') (hw : w.AllUpToDate) : w'.AllUpToDate := by
  obtain ⟨fs, hfs, hall⟩ := hw
  have hids := h.ids
  rw [hfs, Option.map_some, Option.map_eq_some_iff] at hids
  obtain ⟨fs', hfs', hmap⟩ := hids
  refine ⟨fs', hfs', fun f' hf' => ?_⟩
  have hid : f'.id ∈ fs.map (·.id) := by
    rw [← hmap]
    exact List.mem_map_of_mem hf'
  obtain ⟨f, hf, hid⟩ := List.mem_map.mp hid
  exact hid ▸ h.upToDate f.id (hall f hf)

end Upkeep

theorem upToDate_iff (hr : w.round? = some (sources, r)) {id : FunctionId} :
    w.UpToDate id ↔ r.UpToDate id := by
  obtain ⟨e, fs, ss, -, hfs, hss, -, rfl⟩ := round?_eq_some hr
  constructor
  · rintro ⟨fs', ss', f, hfs', hss', hf, hs⟩
    obtain rfl := Option.some.inj (hfs.symm.trans hfs')
    obtain rfl := Option.some.inj (hss.symm.trans hss')
    exact ⟨f, hf, hs⟩
  · rintro ⟨f, hf, hs⟩
    exact ⟨fs, ss, f, hfs, hss, hf, hs⟩

theorem upkeep_putBack (hr : w.round? = some (sources, r)) (h : r.Upkeep r') :
    w.Upkeep (w.putBack r') := by
  refine ⟨?_, fun id hid => ?_⟩
  · rw [functions_of_round? hr]
    exact congrArg some h.ids
  · rw [upToDate_iff (round?_putBack hr r')]
    exact h.upToDate id ((upToDate_iff hr).mp hid)

theorem all_putBack (hr : w.round? = some (sources, r))
    (h : ∀ id ∈ r'.functions.map (·.id), r'.UpToDate id) : (w.putBack r').AllUpToDate := by
  refine ⟨r'.functions, rfl, fun f hf => ?_⟩
  rw [upToDate_iff (round?_putBack hr r')]
  exact h f.id (List.mem_map_of_mem hf)

/-- What is done goes through, or if it is cancelled it has kept the snapshots up to date that
were. -/
def Maintains {α : Type} (w : Workspace) : Except Interrupted (Workspace × α) → Prop
  | .ok done => w.Upkeep done.1
  | .error interrupted => interrupted.cause = .cancelled → w.Upkeep interrupted.workspace

theorem Maintains.bind {α β : Type} {x : Except Interrupted (Workspace × α)}
    {k : Workspace × α → Except Interrupted (Workspace × β)} (hx : w.Maintains x)
    (hk : ∀ w' a, x = .ok (w', a) → w'.Maintains (k (w', a))) : w.Maintains (x >>= k) := by
  cases x with
  | error interrupted => exact hx
  | ok done =>
    have hdone := hk done.1 done.2 rfl
    change w.Maintains (k done)
    cases h : k done with
    | error interrupted =>
      rw [h] at hdone
      exact fun hcancelled => Upkeep.trans hx (hdone hcancelled)
    | ok done' =>
      rw [h] at hdone
      exact Upkeep.trans hx hdone

theorem Maintains.of_ok {α : Type} {a : α} {x : Except Interrupted (Workspace × α)}
    (h : w.Maintains x) (hok : x = .ok (w', a)) : w.Upkeep w' := by
  rw [hok] at h
  exact h

theorem runRound_maintains (w : Workspace) : w.Maintains w.runRound := by
  unfold runRound
  split
  · intro hcancelled
    cases hcancelled
  · next sources r hr =>
    have hmaintains := r.run_maintains sources
    split
    · next stopped hstopped =>
      rw [hstopped] at hmaintains
      exact fun hcancelled => upkeep_putBack hr (hmaintains hcancelled)
    · next r' hr' =>
      rw [hr'] at hmaintains
      exact upkeep_putBack hr hmaintains.1

theorem all_of_run (hr : w.round? = some (sources, r)) (hrun : r.run sources = .ok r') :
    (w.putBack r').AllUpToDate := by
  have hmaintains := r.run_maintains sources
  rw [hrun] at hmaintains
  exact all_putBack hr (hmaintains.1.ids ▸ hmaintains.2)

theorem runRounds_maintains (n : Nat) (w : Workspace) (stats : ScheduleStats) :
    w.Maintains (runRounds n w stats) := by
  induction n generalizing w stats with
  | zero => exact .refl w
  | succ n ih =>
    rw [runRounds]
    cases w.revisions with
    | error e => exact fun _ => .refl w
    | ok before =>
      refine w.runRound_maintains.bind fun w₁ done _ => ?_
      dsimp only
      cases w₁.revisions with
      | error e => exact fun _ => .refl w₁
      | ok after =>
        simp only [Except.mapError, bind, Except.bind]
        split
        · exact .refl w₁
        · exact ih w₁ _

theorem runRounds_all {n : Nat} (hok : runRounds n w stats = .ok (w', stats')) :
    stats'.iterations = stats.iterations ∨ w'.AllUpToDate :=
  runRounds_induction (P := fun w' stats' => stats'.iterations = stats.iterations ∨ w'.AllUpToDate)
    (.inl rfl) (fun _ _ _ _ _ _ _ hr hrun => .inr (all_of_run hr hrun)) hok

theorem deinstrument_all (hw : w.Indexed) (hr : w.round? = some (sources, r)) :
    ∃ w' removed, w.deinstrument = .ok (w', removed) ∧ w.Upkeep w' ∧ w'.AllUpToDate := by
  have hfunctions := functions_of_round? hr
  have hids : r.deinstrumentAll.functions.map (·.id) = r.functions.map (·.id) :=
    Round.deinstrumentEach_ids r.hooks.touched.keys (hw r.functions hfunctions)
  have hplaces : ∀ {i : Nat} {f : Function}, r.deinstrumentAll.functions[i]? = some f → f.id = i :=
    Round.ids_of_map_eq hids (hw r.functions hfunctions)
  have hall : ∀ id ∈ r.deinstrumentAll.functions.map (·.id),
      r.deinstrumentAll.refreshSnapshots.UpToDate id :=
    fun id hid => Round.refreshSnapshots_upToDate hplaces hid
  refine ⟨w.putBack r.deinstrumentAll.refreshSnapshots, r.deinstrumentAll.stats.removed, ?_,
    upkeep_putBack hr ⟨hids, fun id hid => ?_⟩, all_putBack hr hall⟩
  · simp only [deinstrument, hr]
  · obtain ⟨f, hf, -⟩ := hid
    refine hall id (hids ▸ List.mem_map.mpr ⟨f, List.mem_of_getElem? hf, ?_⟩)
    exact hw r.functions hfunctions hf

theorem deinstrument_spec {removed : Nat} (hw : w.Indexed)
    (hok : w.deinstrument = .ok (w', removed)) : w.Upkeep w' ∧ w'.AllUpToDate := by
  cases hr : w.round? with
  | none =>
    rw [deinstrument, hr] at hok
    cases hok
  | some x =>
    obtain ⟨w'', removed', hok', hspec⟩ := deinstrument_all hw hr
    obtain ⟨rfl, -⟩ := Prod.mk.inj (Except.ok.inj (hok.symm.trans hok'))
    exact hspec

theorem emission_maintains (w : Workspace) (c : Configuration) (stats : ScheduleStats) :
    w.Maintains (w.emission c stats) := by
  unfold emission
  split
  · split
    · exact fun _ => .refl w
    · next fs _ =>
      split
      · exact fun _ => .refl w
      · unfold emitTree
        cases PseudoSource.emit fs w.currentSignatures.value with
        | error e => exact fun _ => .refl w
        | ok tree => exact .of_eq rfl rfl
  · exact .refl w

theorem finish_maintains (hw : w.Indexed) (c : Configuration) (stats : ScheduleStats) :
    w.Maintains (w.finish c stats) := by
  rw [finish_eq]
  split
  · cases hr : w.round? with
    | none =>
      have hdeinstrument : w.deinstrument = .error (.missing .hooks) := by
        simp only [deinstrument, hr]
      rw [hdeinstrument]
      exact fun _ => .refl w
    | some x =>
      obtain ⟨w', removed, hdeinstrument, hupkeep, -⟩ := deinstrument_all hw hr
      rw [hdeinstrument]
      have hkept : w.Maintains (.ok (w', removed)) := hupkeep
      exact hkept.bind fun w₁ _ _ => w₁.emission_maintains c _
  · exact w.emission_maintains c stats

theorem functions_filled (w : Workspace) (c : Configuration) (fs : Functions) :
    (w.filled c fs).functions = some fs := by
  unfold filled
  dsimp only
  split <;> rfl

theorem snapshots_filled (w : Workspace) (c : Configuration) (fs : Functions) :
    (w.filled c fs).snapshots = some (w.snapshots.getD ∅) := by
  unfold filled
  dsimp only
  split <;> rfl

theorem prepare_indexed (hw : w.Indexed) (hok : w.prepare c = .ok w') :
    w'.Indexed ∧ ∀ id, w.UpToDate id → w'.UpToDate id := by
  constructor
  · obtain ⟨fs, hfs, rfl⟩ := prepare_eq_ok hok
    intro fs' hfs'
    obtain rfl := Option.some.inj ((w.functions_filled c fs).symm.trans hfs')
    rcases hfs with hfs | ⟨p, hp⟩
    · exact hw fs hfs
    · have hfresh : (w.firstRound fs).Fresh := Program.buildFunctions_fresh hp rfl rfl
      exact fun {i f} hf => hfresh.ids hf
  · rintro id ⟨fs, ss, f, hfs, hss, hf, hs⟩
    rw [prepare_of_functions hfs] at hok
    obtain rfl := Except.ok.inj hok
    refine ⟨fs, ss, f, w.functions_filled c fs, ?_, hf, hs⟩
    rw [snapshots_filled, hss, Option.getD_some]

/-- A run maintains the snapshots, and if it has taken a round it leaves all of them up to date. -/
theorem run_maintains (hw : w.Indexed) (c : Configuration) :
    (∀ i, w.run c = .error i → i.cause = .cancelled →
      ∀ id, w.UpToDate id → i.workspace.UpToDate id) ∧
    ∀ w' stats, w.run c = .ok (w', stats) →
      w'.Indexed ∧ (0 < stats.iterations → w'.AllUpToDate) := by
  cases hprepare : w.prepare c with
  | error e =>
    have hrun : w.run c = .error ⟨w, e⟩ := by
      rw [run, hprepare]
      rfl
    rw [hrun]
    refine ⟨fun i hi _ id hid => ?_, fun _ _ h => by cases h⟩
    obtain rfl := Except.error.inj hi
    exact hid
  | ok w₁ =>
    obtain ⟨hw₁, hkept⟩ := prepare_indexed hw hprepare
    rw [run_of_prepare hprepare]
    have hrounds := runRounds_maintains c.maxIterations w₁ .zero
    constructor
    · intro i hi hcancelled id hid
      have hwhole : w₁.Maintains (runRounds c.maxIterations w₁ .zero >>= fun done =>
          done.1.finish c done.2) := hrounds.bind fun w₂ stats₂ h₂ =>
        finish_maintains ((hrounds.of_ok h₂).indexed hw₁) c stats₂
      rw [hi] at hwhole
      exact (hwhole hcancelled).upToDate id (hkept id hid)
    · intro w' stats hok
      obtain ⟨⟨w₂, stats₂⟩, h₂, hfinish⟩ := Bench.bind_eq_ok hok
      have hw₂ := (hrounds.of_ok h₂).indexed hw₁
      have hupkeep := (finish_maintains hw₂ c stats₂).of_ok hfinish
      refine ⟨hupkeep.indexed hw₂, fun hpos => hupkeep.all ?_⟩
      obtain ⟨removed, hstats⟩ := finish_stats hfinish
      rw [show stats = _ from hstats] at hpos
      rcases runRounds_all h₂ with hnone | hall
      · exact absurd hpos (hnone ▸ Nat.lt_irrefl 0)
      · exact hall

/-- After a run that has taken a round, and after all hooks have been taken off, every function has
a stored snapshot that says what an analysis of it says then. A run that is cancelled, wherever it
is, leaves no snapshot out of date that was up to date before. -/
theorem stored_snapshots_upToDate (hw : w.Indexed) :
    (∀ c w' stats, w.run c = .ok (w', stats) → 0 < stats.iterations → w'.AllUpToDate) ∧
    (∀ w' removed, w.deinstrument = .ok (w', removed) → w'.AllUpToDate) ∧
    ∀ c i, w.run c = .error i → i.cause = .cancelled →
      ∀ id, w.UpToDate id → i.workspace.UpToDate id := by
  refine ⟨?_, ?_, fun c => (run_maintains hw c).1⟩
  · intro c w' stats hok
    exact ((run_maintains hw c).2 w' stats hok).2
  · intro w' removed hok
    exact (deinstrument_spec hw hok).2

/-- The sample program is run, loses its hooks, and is run again until the second poll, when one
function has its hooks back. -/
theorem loaded_upToDate :
    ∃ (w w₁ : Workspace) (stats : ScheduleStats) (removed : Nat) (i : Interrupted),
      loaded.run .sample = .ok (w, stats) ∧ 0 < stats.iterations ∧ w.AllUpToDate ∧
      w.deinstrument = .ok (w₁, removed) ∧ 0 < removed ∧ w₁.AllUpToDate ∧
      run { w₁ with cancellation := ⟨some 1⟩ } .sample = .error i ∧ i.cause = .cancelled ∧
      i.workspace.functions ≠ w₁.functions ∧ i.workspace.UpToDate 0 := by
  have hruns : (loaded.run .sample).toOption.any fun done => decide (0 < done.2.iterations) &&
      done.1.deinstrument.toOption.any fun left => decide (0 < left.2) &&
        (left.1.functions.any fun fs => (fs[0]?).isSome) &&
        match run { left.1 with cancellation := ⟨some 1⟩ } .sample with
        | .ok _ => false
        | .error i => i.cause == .cancelled && i.workspace.functions != left.1.functions := by
    decide +kernel
  obtain ⟨⟨w, stats⟩, hok, hdone⟩ := exists_of_any_toOption hruns
  simp only [Bool.and_eq_true, decide_eq_true_eq] at hdone
  obtain ⟨hpos, hdone⟩ := hdone
  obtain ⟨⟨w₁, removed⟩, hoff, hdone⟩ := exists_of_any_toOption hdone
  simp only [Bool.and_eq_true, decide_eq_true_eq] at hdone
  obtain ⟨⟨hremoved, hsome⟩, hdone⟩ := hdone
  have hloaded : loaded.Indexed := fun fs hfs => by cases hfs
  have hw : w.Indexed := ((run_maintains hloaded .sample).2 w stats hok).1
  have hall := (stored_snapshots_upToDate hloaded).1 .sample w stats hok hpos
  have hall₁ := (stored_snapshots_upToDate hw).2.1 w₁ removed hoff
  have hw₁ : w₁.Indexed := (deinstrument_spec hw hoff).1.indexed hw
  obtain ⟨fs, hfs, hcurrent⟩ := hall₁
  rw [hfs, Option.any_some, Option.isSome_iff_exists] at hsome
  obtain ⟨f, hf⟩ := hsome
  have hfirst : w₁.UpToDate 0 := hw₁ fs hfs hf ▸ hcurrent f (List.mem_of_getElem? hf)
  split at hdone
  · cases hdone
  · next i hi =>
    simp only [Bool.and_eq_true, beq_iff_eq, bne_iff_ne] at hdone
    have hkept := (stored_snapshots_upToDate (w := { w₁ with cancellation := ⟨some 1⟩ }) hw₁).2.2
      .sample i hi hdone.1 0 hfirst
    exact ⟨w, w₁, stats, removed, i, hok, hpos, hall, hoff, hremoved, ⟨fs, hfs, hcurrent⟩, hi,
      hdone.1, hdone.2, hkept⟩

end Workspace

end CallEffects
