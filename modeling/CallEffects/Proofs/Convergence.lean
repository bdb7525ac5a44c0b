import CallEffects.Proofs.Building
import CallEffects.Proofs.Passes
import CallEffects.Proofs.Removal

/-!
# Runs converge

A run starts from functions that have just been built and an engine that has built no hook. Its
first round instruments everything but the indirect calls with an unknown target. Every later round
that changes anything hooks one of these calls at least and takes no hook off, so their number
bounds the rounds it takes until nothing changes.
-/

namespace CallEffects

open Std

/-- The registry assigns conventions that it has registered, and assigns them to addresses. -/
def Conventions.AssignsAddresses (cs : Conventions) : Prop :=
  ∀ callee id, cs.assigned? callee = some id →
    (∃ a, callee = .address a) ∧ ∃ c, cs.get? id = some c

theorem Conventions.AssignsAddresses.unguessed {cs : Conventions} (h : cs.AssignsAddresses)
    {callee : Callee} (hc : callee.isIndirect) : cs.lookup? callee = none := by
  cases hl : cs.lookup? callee with
  | none => rfl
  | some x =>
    obtain ⟨⟨a, rfl⟩, -⟩ := h callee x.1 (lookup?_eq_some.mp hl).1
    cases hc

def Functions.indirectCalls (fs : Functions) : Nat :=
  (fs.map fun f => f.statements.countP (·.isIndirectCall)).sum

theorem countP_lt_countP {α : Type} {p q : α → Bool} {xs : List α} {a : α} (h : ∀ x, p x → q x)
    (ha : a ∈ xs) (hp : ¬p a) (hq : q a) : xs.countP p < xs.countP q := by
  obtain ⟨before, after, rfl⟩ := List.append_of_mem ha
  have hbefore : before.countP p ≤ before.countP q := List.countP_mono_left fun x _ => h x
  have hafter : after.countP p ≤ after.countP q := List.countP_mono_left fun x _ => h x
  rw [List.countP_append, List.countP_append, List.countP_cons_of_neg hp,
    List.countP_cons_of_pos hq]
  omega

namespace Round

variable {r r' : Round} {sources : Sources}

theorem length_indirectCalls (h : r.Fresh) :
    r.indirectCalls.length = Functions.indirectCalls r.functions := by
  rw [indirectCalls, List.length_flatMap, Functions.indirectCalls]
  congr 1
  apply List.map_congr_left
  intro f hf
  have hbare : f.code = f.blocks :=
    congrArg Function.blocks (Function.bare_of_lifted (h.lifted f hf))
  rw [Function.indirectCalls, hbare, List.length_map, List.countP_eq_length_filter,
    Function.statements]

def missing (r : Round) : Nat := r.indirectCalls.countP fun a => (r.hooks.active[a]?).isNone

theorem missing_le (r : Round) : r.missing ≤ r.indirectCalls.length := List.countP_le_length

theorem Advances.missing_lt (h : r.Advances sources r') {a : Anchor} {k : Hook}
    (ha : a ∈ r.indirectCalls) (hn : r.hooks.active[a]? = none)
    (hk : r'.hooks.active[a]? = some k) : r'.missing < r.missing := by
  rw [missing, missing, indirectCalls_eq h.same]
  refine countP_lt_countP (a := a) (fun x hx => ?_) ha (by simp [hk]) (by simp [hn])
  rw [Option.isNone_iff_eq_none] at hx ⊢
  exact h.gains.none_of_none hx

theorem Advances.unchanged (h : r.Advances sources r') (hz : r.stats = .zero)
    (hc : r'.stats.changed = false) : r'.conventions = r.conventions := by
  refine h.gains.idle ?_
  have hzero : r.tally.stats.attached = 0 := congrArg InstrumentStats.attached hz
  have hattached : r'.stats.attached = 0 ∧ r'.stats.detached = 0 := by
    simpa [InstrumentStats.changed] using hc
  exact hattached.1.trans hzero.symm

theorem Advances.none_detached (h : r.Advances sources r') (hz : r.stats = .zero) :
    r'.stats.detached = 0 ∧ r'.stats.removed = 0 :=
  ⟨h.gains.detached.trans (congrArg InstrumentStats.detached hz),
    h.gains.removed.trans (congrArg InstrumentStats.removed hz)⟩

/-- Once all functions are complete, only an indirect call can still get a hook. -/
theorem Advances.missing_lt_of_changed (h : r.Advances sources r') (hz : r.stats = .zero)
    (hcomplete : ∀ f ∈ r.functions, r.Complete sources.detector f) (hc : r'.stats.changed) :
    r'.missing < r.missing := by
  have hdetached := (h.none_detached hz).1
  have hattached : r.tally.stats.attached < r'.tally.stats.attached := by
    have hzero : r.tally.stats.attached = 0 := congrArg InstrumentStats.attached hz
    have hpos : 0 < r'.stats.attached := by simpa [InstrumentStats.changed, hdetached] using hc
    exact hzero ▸ hpos
  obtain ⟨a, hn, k, hk⟩ := h.gains.busy hattached
  exact h.missing_lt (h.opened hcomplete hn hk) hn hk

end Round

def ScheduleStats.after (stats : ScheduleStats) (done : InstrumentStats) (converged : Bool) :
    ScheduleStats :=
  { stats with
    iterations := stats.iterations + 1
    converged
    instrument := stats.instrument.merge done }

/-- No hook was taken off, and if `bound` of the rounds were allowed the last of them, or one before
it, changed nothing. -/
structure ScheduleStats.Settles (stats : ScheduleStats) (rounds bound : Nat) : Prop where
  detached : stats.instrument.detached = 0
  removed : stats.instrument.removed = 0
  converged : bound ≤ rounds → stats.converged ∧ stats.iterations ≤ bound

namespace Workspace

variable {w : Workspace} {sources : Sources} {r r' : Round} {stats : ScheduleStats}

structure Shares (w : Workspace) (sources : Sources) (r : Round) : Prop where
  round : w.round? = some (sources, r)
  shared : w.engine.all fun e => e.ownConventions.isNone
  conventions : w.currentConventions = r.conventions
  signatures : w.currentSignatures = sources.signatures

theorem Shares.putBack (h : w.Shares sources r) (r' : Round) :
    (w.putBack r').Shares sources { r' with stats := .zero } := by
  refine ⟨round?_putBack h.round r', ?_, ?_, h.signatures⟩
  · have hshared := h.shared
    cases he : w.engine with
    | none => simp [Workspace.putBack, he]
    | some e =>
      rw [he] at hshared
      simpa [Workspace.putBack, he] using hshared
  · have hput : (w.putBack r').conventions = some r'.conventions := if_pos h.shared
    rw [currentConventions, hput]
    rfl

theorem Shares.revisions (h : w.Shares sources r) (hc : r.conventions.poisoned = false)
    (hs : sources.signatures.poisoned = false) :
    w.revisions = .ok (r.conventions.value.revision, sources.signatures.value.revision) := by
  simp only [Workspace.revisions, h.conventions, h.signatures, hc, hs, Bool.false_eq_true, if_false]

theorem runRounds_of_error (h : w.Shares sources r) (hc : r.conventions.poisoned = false)
    (hs : sources.signatures.poisoned = false) {stopped : Stopped}
    (hrun : r.run sources = .error stopped) (rounds : Nat) :
    runRounds (rounds + 1) w stats = .error ⟨w.putBack stopped.round, stopped.cause⟩ := by
  simp only [runRounds, h.revisions hc hs, runRound, h.round, hrun]
  rfl

theorem runRounds_of_ok (h : w.Shares sources r) (hc : r.conventions.poisoned = false)
    (hs : sources.signatures.poisoned = false) (hrun : r.run sources = .ok r')
    (hc' : r'.conventions.poisoned = false) (rounds : Nat) :
    runRounds (rounds + 1) w stats =
      if !r'.stats.changed && r.conventions.value.revision == r'.conventions.value.revision then
        .ok (w.putBack r', stats.after r'.stats true)
      else runRounds rounds (w.putBack r') (stats.after r'.stats false) := by
  have hafter := (h.putBack r').revisions hc' hs
  have hsame : ∀ a b c : Nat, ((a, c) == (b, c)) = (a == b) := by
    intro a b c
    simp [BEq.beq]
  simp only [runRounds, h.revisions hc hs, runRound, h.round, hrun, Except.mapError, bind,
    Except.bind, hafter, hsame]
  split
  · next hconverged => rw [hconverged]; rfl
  · next hconverged => rw [Bool.eq_false_iff.mpr hconverged]; rfl

theorem runRounds_induction {P : Workspace → ScheduleStats → Prop} {n : Nat} {w' : Workspace}
    {stats' : ScheduleStats} (hP : P w stats)
    (hkept : ∀ w stats sources r q converged, P w stats → w.round? = some (sources, r) →
      r.run sources = .ok q → P (w.putBack q) (stats.after q.stats converged))
    (hok : runRounds n w stats = .ok (w', stats')) : P w' stats' := by
  induction n generalizing w stats with
  | zero =>
    obtain ⟨rfl, rfl⟩ := Prod.mk.inj (Except.ok.inj hok)
    exact hP
  | succ n ih =>
    rw [runRounds] at hok
    obtain ⟨before, -, hok⟩ := Bench.bind_eq_ok hok
    obtain ⟨⟨w₁, done⟩, hdone, hok⟩ := Bench.bind_eq_ok hok
    obtain ⟨after, -, hok⟩ := Bench.bind_eq_ok hok
    have hP₁ : ∀ converged, P w₁ (stats.after done converged) := by
      intro converged
      unfold runRound at hdone
      split at hdone
      · cases hdone
      · next sources r hr =>
        split at hdone
        · cases hdone
        · next q hrun =>
          obtain ⟨rfl, rfl⟩ := Prod.mk.inj (Except.ok.inj hdone)
          exact hkept w stats sources r q converged hP hr hrun
    dsimp only at hok
    split at hok
    · obtain ⟨rfl, rfl⟩ := Prod.mk.inj (Except.ok.inj hok)
      exact hP₁ _
    · exact ih (hP₁ _) hok

/-- What some more rounds come to: no hook is taken off, and `bound` rounds are enough. -/
structure Reached (sources : Sources) (stats : ScheduleStats) (rounds bound : Nat)
    (x : Workspace × ScheduleStats) : Prop where
  inOrder : ∃ r, x.1.Shares sources r ∧ r.InOrder
  detached : x.2.instrument.detached = stats.instrument.detached
  removed : x.2.instrument.removed = stats.instrument.removed
  converged : bound ≤ rounds → x.2.converged ∧ x.2.iterations ≤ stats.iterations + bound

variable {x : Workspace × ScheduleStats} {rounds bound bound' : Nat} {done : InstrumentStats}

theorem Reached.mono (h : Reached sources stats rounds bound x) (hb : bound ≤ bound') :
    Reached sources stats rounds bound' x := by
  refine ⟨h.inOrder, h.detached, h.removed, ?_⟩
  intro hle
  obtain ⟨hconverged, hiterations⟩ := h.converged (Nat.le_trans hb hle)
  exact ⟨hconverged, Nat.le_trans hiterations (Nat.add_le_add_left hb _)⟩

theorem Reached.after (h : Reached sources (stats.after done false) rounds bound x)
    (hd : done.detached = 0 ∧ done.removed = 0) :
    Reached sources stats (rounds + 1) (bound + 1) x := by
  refine ⟨h.inOrder, ?_, ?_, ?_⟩
  · rw [h.detached]
    exact congrArg (stats.instrument.detached + ·) hd.1
  · rw [h.removed]
    exact congrArg (stats.instrument.removed + ·) hd.2
  · intro hle
    obtain ⟨hconverged, hiterations⟩ := h.converged (Nat.le_of_succ_le_succ hle)
    have hafter : (stats.after done false).iterations = stats.iterations + 1 := rfl
    exact ⟨hconverged, by omega⟩

/-- One more round either ends the rounds or leaves the rest of them to those that follow. -/
theorem runRounds_succ (h : w.Shares sources r) (hcalm : r.learned.Calm sources.signatures.value)
    (hs : sources.Modest)
    (hnext : ∀ r', r.learned.Advances sources r' →
      (∀ f ∈ r'.functions, r'.Complete sources.detector f) → r'.stats.changed →
      Yields Interrupted.cause (runRounds rounds (w.putBack r') (stats.after r'.stats false))
        (Reached sources (stats.after r'.stats false) rounds bound)) :
    Yields Interrupted.cause (runRounds (rounds + 1) w stats)
      (Reached sources stats (rounds + 1) (bound + 1)) := by
  have hconventions := r.learned_conventions
  have hzero : r.learned.stats = .zero := r.learned_stats.trans (stats_of_round? h.round)
  have hsound : r.conventions.poisoned = false := hconventions ▸ hcalm.sound
  have hyields := Round.run_yields hcalm hs
  cases hrun : r.run sources with
  | error stopped =>
    rw [hrun] at hyields
    rw [runRounds_of_error h hsound hs.sound hrun]
    exact hyields
  | ok r' =>
    rw [hrun] at hyields
    obtain ⟨hadvances, hcomplete⟩ := hyields
    have hdetached := hadvances.none_detached hzero
    rw [runRounds_of_ok h hsound hs.sound hrun hadvances.calm.sound]
    split
    · refine ⟨⟨_, h.putBack r', hadvances.calm.inOrder.congr rfl rfl rfl rfl rfl⟩, ?_, ?_, ?_⟩
      · exact congrArg (stats.instrument.detached + ·) hdetached.1
      · exact congrArg (stats.instrument.removed + ·) hdetached.2
      · exact fun _ => ⟨rfl, Nat.add_le_add_left (Nat.le_add_left 1 bound) _⟩
    · next hagain =>
      refine (hnext r' hadvances hcomplete ?_).mono fun x hx => hx.after hdetached
      by_contra hchanged
      have hfalse := Bool.eq_false_iff.mpr hchanged
      refine hagain ?_
      rw [hadvances.unchanged hzero hfalse, hconventions, hfalse]
      simp

/-- A round that has been completed leaves one further round for every indirect call it missed. -/
theorem runRounds_complete (h : w.Shares sources r) (hcalm : r.Calm sources.signatures.value)
    (hs : sources.Modest) (hcomplete : ∀ f ∈ r.functions, r.Complete sources.detector f) :
    Yields Interrupted.cause (runRounds rounds w stats)
      (Reached sources stats rounds (r.missing + 1)) := by
  induction rounds generalizing w r stats with
  | zero => exact ⟨⟨r, h, hcalm.inOrder⟩, rfl, rfl, fun hle => absurd hle (Nat.not_succ_le_zero _)⟩
  | succ rounds ih =>
    have hlearned := hcalm.learned_eq
    refine runRounds_succ h (hlearned.symm ▸ hcalm) hs fun r' hadvances hcomplete' hchanged => ?_
    rw [hlearned] at hadvances
    have hlt := hadvances.missing_lt_of_changed (stats_of_round? h.round) hcomplete hchanged
    have hcalm' : Round.Calm sources.signatures.value { r' with stats := .zero } :=
      hadvances.calm.congr rfl rfl rfl
    exact (ih (h.putBack r') hcalm' hcomplete').mono fun x hx => hx.mono hlt

theorem runRounds_first (h : w.Shares sources r) (hin : r.InOrder)
    (hcalm : r.learned.Calm sources.signatures.value) (hs : sources.Modest) :
    Yields Interrupted.cause (runRounds rounds w stats)
      (Reached sources stats rounds (r.indirectCalls.length + 2)) := by
  cases rounds with
  | zero => exact ⟨⟨r, h, hin⟩, rfl, rfl, fun hle => absurd hle (Nat.not_succ_le_zero _)⟩
  | succ rounds =>
    refine runRounds_succ h hcalm hs fun r' hadvances hcomplete _ => ?_
    have hcalm' : Round.Calm sources.signatures.value { r' with stats := .zero } :=
      hadvances.calm.congr rfl rfl rfl
    have hfunctions := r.learned_functions
    have hsame := hadvances.same
    rw [hfunctions] at hsame
    have hle : r'.missing ≤ r.indirectCalls.length := by
      rw [← Round.indirectCalls_eq hsame]
      exact r'.missing_le
    exact (runRounds_complete (h.putBack r') hcalm' hs hcomplete).mono fun x hx =>
      hx.mono (Nat.succ_le_succ hle)

/-! ## The end of a run -/

variable {c : Configuration} {fs : Functions}

theorem emission_eq_ok {done : Workspace × ScheduleStats} (h : w.emission c stats = .ok done) :
    done.2 = stats ∧ (done.1 = w ∨ ∃ tree, done.1 = w.setTree tree) := by
  unfold emission at h
  split at h
  · split at h
    · cases h
    · next fs _ =>
      split at h
      · cases h
      · unfold emitTree at h
        cases he : PseudoSource.emit fs w.currentSignatures.value with
        | error e =>
          rw [he] at h
          cases h
        | ok tree =>
          rw [he] at h
          obtain rfl := Except.ok.inj h
          exact ⟨rfl, .inr ⟨tree, rfl⟩⟩
  · obtain rfl := Except.ok.inj h
    exact ⟨rfl, .inl rfl⟩

theorem round?_of_emission {done : Workspace × ScheduleStats} (h : w.emission c stats = .ok done) :
    done.1.round? = w.round? ∧ done.2 = stats := by
  obtain ⟨hstats, heq | ⟨tree, heq⟩⟩ := emission_eq_ok h
  · exact ⟨by rw [heq], hstats⟩
  · exact ⟨by rw [heq]; rfl, hstats⟩

theorem finish_stats {done : Workspace × ScheduleStats} (h : w.finish c stats = .ok done) :
    ∃ removed, done.2 = { stats with deinstrumented := removed } := by
  rw [finish_eq] at h
  split at h
  · cases hd : w.deinstrument with
    | error e =>
      rw [hd] at h
      cases h
    | ok left =>
      rw [hd] at h
      exact ⟨left.2, (emission_eq_ok h).1⟩
  · exact ⟨stats.deinstrumented, (emission_eq_ok h).1⟩

theorem emit_bare (fs : Functions) (ss : Signatures) :
    ∃ tree, PseudoSource.emit (fs.map Function.bare) ss = .ok tree := by
  have hnone : (fs.map Function.bare).findSome? PseudoSource.leak? = none := by
    rw [List.findSome?_eq_none_iff]
    intro f hf
    obtain ⟨g, -, rfl⟩ := List.mem_map.mp hf
    rw [PseudoSource.leak?, Option.map_eq_none_iff, List.find?_eq_none]
    intro s hs
    obtain ⟨block, hblock, hmem⟩ := List.mem_flatMap.mp hs
    have hlifted := (Function.mem_lifted_iff.mpr ⟨block, hblock, hmem⟩).2
    simp [hlifted]
  simp only [PseudoSource.emit, hnone]
  exact ⟨_, rfl⟩

theorem Shares.deinstrument (h : w.Shares sources r) (hin : r.InOrder) :
    ∃ w' removed, w.deinstrument = .ok (w', removed) ∧
      w'.functions = some (r.functions.map Function.bare) ∧
        w'.currentSignatures = sources.signatures := by
  have hround := h.round
  refine ⟨w.putBack r.deinstrumentAll.refreshSnapshots, r.deinstrumentAll.stats.removed, ?_,
    congrArg some hin.deinstrumentAll.1, h.signatures⟩
  simp only [Workspace.deinstrument, hround]

theorem emission_bare (stats : ScheduleStats) (hf : w.functions = some (fs.map Function.bare))
    (hs : w.currentSignatures.poisoned = false) (he : c.emitTree) :
    ∃ tree, PseudoSource.emit (fs.map Function.bare) w.currentSignatures.value = .ok tree ∧
      w.emission c stats = .ok (w.setTree tree, stats) := by
  obtain ⟨tree, htree⟩ := emit_bare fs w.currentSignatures.value
  refine ⟨tree, htree, ?_⟩
  simp only [emission, if_pos he, hf, hs, Bool.false_eq_true, if_false, emitTree, htree]
  rfl

theorem finish_ok (h : w.Shares sources r) (hin : r.InOrder)
    (hs : sources.signatures.poisoned = false) (hc : c.emitTree → c.deinstrumentAtEnd) :
    ∃ done, w.finish c stats = .ok done := by
  rw [finish_eq]
  split
  · obtain ⟨w', removed, hdeinstrument, hfunctions, hsignatures⟩ := h.deinstrument hin
    rw [hdeinstrument]
    by_cases he : c.emitTree
    · obtain ⟨tree, -, hok⟩ := emission_bare { stats with deinstrumented := removed }
        hfunctions (hsignatures ▸ hs) he
      exact ⟨_, hok⟩
    · exact ⟨_, if_neg he⟩
  · next hkept =>
    have hsilent : ¬c.emitTree := fun he => hkept (hc he)
    exact ⟨(w, stats), if_neg hsilent⟩

/-! ## Where a run starts -/

theorem configuredDetector_cases {d : Detector} (hd : d ∈ w.configuredDetector c) :
    (∃ convention, d = .fixed convention c.guessIndirectCalls) ∨ d = .silent := by
  unfold configuredDetector at hd
  split at hd
  · obtain ⟨convention, -, rfl⟩ := Option.map_eq_some_iff.mp hd
    exact .inl ⟨convention, rfl⟩
  · split at hd
    · obtain ⟨image, -, rfl⟩ := Option.map_eq_some_iff.mp hd
      unfold Detector.ofArchitecture
      split
      · exact .inl ⟨_, rfl⟩
      · exact .inr rfl
    · cases hd

theorem configuredDetector_isBuiltin (w : Workspace) (c : Configuration) :
    ∀ d ∈ w.configuredDetector c, d.IsBuiltin := by
  intro d hd
  rcases configuredDetector_cases hd with ⟨convention, rfl⟩ | rfl
  · exact .fixed convention _
  · exact .silent

theorem configuredDetector_modest (hg : c.guessIndirectCalls = false)
    (hs : w.currentSignatures.poisoned = false) :
    Sources.Modest ⟨w.configuredDetector c, w.currentSignatures⟩ := by
  refine ⟨w.configuredDetector_isBuiltin c, ?_, hs⟩
  intro callee hc d hd
  rcases configuredDetector_cases hd with ⟨convention, rfl⟩ | rfl
  · exact Detector.refuses_fixed (by simp [hc, hg]) _ rfl
  · exact Detector.refuses_silent callee _ rfl

def firstRound (w : Workspace) (fs : Functions) : Round where
  functions := fs
  hooks := .empty
  snapshots := w.snapshots.getD ∅
  conventions := w.currentConventions
  asked := w.asked
  cancellation := w.cancellation
  stats := .zero

theorem prepare_fresh {p : Program} {fs : Functions} (hf : w.functions = none) (he : w.engine = none)
    (hp : w.program = some p) (hb : p.buildFunctions = .ok fs) :
    ∃ w', w.prepare c = .ok w' ∧
      w'.Shares ⟨w.configuredDetector c, w.currentSignatures⟩ (w.firstRound fs) := by
  simp only [prepare, hf, hp, hb, he, Except.mapError, bind, Except.bind]
  exact ⟨_, rfl, rfl, rfl, rfl, rfl⟩

/-! ## Whole runs -/

/-- A run that is not cancelled takes no hook off in its rounds, and needs two rounds more than
there are indirect calls at most. -/
theorem run_converges {p : Program} {fs : Functions} (hf : w.functions = none)
    (he : w.engine = none) (hp : w.program = some p) (hb : p.buildFunctions = .ok fs)
    (hcs : w.currentConventions.poisoned = false) (hss : w.currentSignatures.poisoned = false)
    (ha : w.currentConventions.value.AssignsAddresses) (hg : c.guessIndirectCalls = false)
    (hcancel : ∀ i, w.run c = .error i → i.cause ≠ .cancelled) :
    (∃ w₁ w₂ stats, w.prepare c = .ok w₁ ∧ runRounds c.maxIterations w₁ .zero = .ok (w₂, stats) ∧
      stats.Settles c.maxIterations (fs.indirectCalls + 2)) ∧
    (∀ done, w.run c = .ok done → done.2.Settles c.maxIterations (fs.indirectCalls + 2)) ∧
    ((c.emitTree → c.deinstrumentAtEnd) → ∃ done, w.run c = .ok done) := by
  obtain ⟨w₁, hprepare, hshares⟩ := prepare_fresh (c := c) hf he hp hb
  have hfresh : (w.firstRound fs).Fresh := Program.buildFunctions_fresh hb rfl rfl
  have hmodest := configuredDetector_modest (c := c) hg hss
  have hcalm : (w.firstRound fs).learned.Calm w.currentSignatures.value :=
    hfresh.learned_calm (Program.buildFunctions_distinct hb) hcs
      (fun callee id hid => (ha callee id hid).2) fun callee hc => ha.unguessed hc
  have hrounds : Yields Interrupted.cause (runRounds c.maxIterations w₁ .zero)
      (Reached _ .zero _ _) := runRounds_first hshares hfresh.inOrder hcalm hmodest
  have hrun : w.run c = runRounds c.maxIterations w₁ .zero >>= fun x => x.1.finish c x.2 := by
    rw [run, hprepare]
    rfl
  cases hreached : runRounds c.maxIterations w₁ .zero with
  | error i =>
    rw [hreached] at hrounds hrun
    exact absurd hrounds (hcancel i hrun)
  | ok x =>
    rw [hreached] at hrounds hrun
    obtain ⟨⟨r, hshares', hin⟩, hdetached, hremoved, hconverged⟩ := hrounds
    rw [Round.length_indirectCalls hfresh, ScheduleStats.zero, Nat.zero_add] at hconverged
    have hfinish : w.run c = x.1.finish c x.2 := hrun
    refine ⟨⟨w₁, x.1, x.2, hprepare, hreached, hdetached, hremoved, hconverged⟩, ?_, ?_⟩
    · intro done hdone
      rw [hfinish] at hdone
      obtain ⟨removed, heq⟩ := finish_stats hdone
      rw [heq]
      exact ⟨hdetached, hremoved, hconverged⟩
    · intro hc
      rw [hfinish]
      exact finish_ok hshares' hin hss hc

end Workspace

/-- A call, and then one through a register that the first leaves alone. -/
def Program.sample : Program :=
  let statements : List ProgramStatement :=
    [⟨some 0x1000, .assign (.register 6) (.constant 0x3000)⟩,
      ⟨some 0x1005, .call (.direct 0x2000)⟩,
      ⟨some 0x100a, .call (.indirect (.register 6))⟩,
      ⟨some 0x100c, .ret 0⟩]
  { Program.empty.addEntry 0x1000 none with
    blocks := Program.empty.blocks.insert 0x1000 ⟨0x1000, statements, []⟩ }

/-- The sample program and the registries of the sample workspace. -/
def Workspace.loaded : Workspace :=
  { Workspace.empty with
    program := some .sample
    conventions := Workspace.sample.conventions }

/-- As many rounds as one indirect call may take. -/
def Configuration.sample : Configuration :=
  { Configuration.standard with maxIterations := 3, defaultConvention := some "cdecl" }

theorem Workspace.loaded_assignsAddresses : loaded.currentConventions.value.AssignsAddresses := by
  intro callee id hid
  rcases Table.getElem?_insert_eq_some hid with ⟨rfl, rfl⟩ | ⟨-, hid⟩
  · exact ⟨⟨_, rfl⟩, .cdecl, rfl⟩
  · rcases Table.getElem?_insert_eq_some hid with ⟨rfl, rfl⟩ | ⟨-, hid⟩
    · exact ⟨⟨_, rfl⟩, .cdecl, rfl⟩
    · cases hid

/-- The sample program takes all the rounds it may take. -/
theorem Workspace.loaded_converges :
    ∃ fs done, Program.sample.buildFunctions = .ok fs ∧ loaded.run .sample = .ok done ∧
      fs.indirectCalls = 1 ∧ done.2.converged ∧ done.2.iterations = 3 ∧
      done.2.instrument.detached = 0 := by
  have hbuild : (Program.sample.buildFunctions).toOption.any fun fs => fs.indirectCalls == 1 := by
    decide +kernel
  have hrun : (loaded.run .sample).toOption.any fun done => done.2.iterations == 3 := by
    decide +kernel
  obtain ⟨fs, hb, hcalls⟩ := exists_of_any_toOption hbuild
  obtain ⟨done, hok, hiterations⟩ := exists_of_any_toOption hrun
  rw [beq_iff_eq] at hcalls hiterations
  have hcancel : ∀ i, loaded.run .sample = .error i → i.cause ≠ .cancelled := by
    intro i hi
    rw [hok] at hi
    cases hi
  have hsettles := (run_converges rfl rfl rfl hb rfl rfl loaded_assignsAddresses rfl hcancel).2.1
    done hok
  rw [hcalls] at hsettles
  exact ⟨fs, done, hb, hok, hcalls, (hsettles.converged (Nat.le_refl 3)).1, hiterations,
    hsettles.detached⟩

end CallEffects
