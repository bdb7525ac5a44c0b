import CallEffects.Schedule
import CallEffects.Proofs.Turns

/-!
# Histories of a workspace

`Workspace.Step` lists what may happen to a workspace that has an engine: changes of the registries,
edits of lifted code, observing how a function returns, instrumenting it with a snapshot, removing
hooks, and whole runs of the schedule, whether these succeed, are refused or are cancelled half way.
`Workspace.History` also records the snapshots taken so far, the only ones its instruments may use.
Every step amounts to turns of the round that the workspace holds.
-/

namespace CallEffects

open Std

/-- Statements are numbered, and hooks put in kinds of statements that come from hooks only. -/
structure Function.Orderly (f : Function) : Prop where
  numbered : f.Numbered
  hook_only : ∀ s ∈ f.statements, s.isSynthetic → s.kind.isHookOnly

/-- If the snapshot serves the function at all, it was taken from a function with the same code. -/
def Snapshot.Genuine (s : Snapshot) (f : Function) : Prop :=
  s.mismatch? f = none → ∃ g : Function, s = .take g ∧ g.Orderly ∧ g.id = f.id ∧ g.code = f.code

theorem Snapshot.mismatch?_eq_none {s : Snapshot} {f : Function} :
    s.mismatch? f = none ↔ s.function = f.id ∧ s.revision = f.revision := by
  unfold mismatch?
  by_cases hid : s.function = f.id <;> by_cases hrev : s.revision = f.revision <;> simp [hid, hrev]

namespace Round

variable {r r₀ : Round} {sources : Sources} {f f₀ : Function} {serves : Function → Snapshot → Prop}

theorem InOrder.orderly (h : r.InOrder) (hf : f ∈ r.functions) : f.Orderly := by
  refine ⟨(h.accounts f hf).numbered, ?_⟩
  intro s hs hsyn
  obtain ⟨a, k, hk, -, hsk⟩ := ((h.accounts f hf).synthetic_iff s).mp ⟨hs, hsyn⟩
  have hbuilt := (h.consistent.active_built hk).1
  have hkind : s.kind ∈ k.effects.kinds := by
    rw [← h.consistent.kinds hbuilt]
    exact List.mem_map_of_mem hsk
  exact StatementKind.isHookOnly_of_fits (h.consistent.fitting hbuilt _ hkind)

theorem InOrder.genuine_take (h : r₀.InOrder) (hf : f₀ ∈ r₀.functions) (hs : f₀.SameCode f) :
    (Snapshot.take f₀).Genuine f :=
  fun _ => ⟨f₀, rfl, h.orderly hf, hs.id_eq.symm, hs.code_eq.symm⟩

theorem instrumentNext_turns (h₀ : r₀.InOrder) (h : r.InOrder)
    (hsame : Functions.Each Function.SameCode r₀.functions r.functions) (hf₀ : f₀ ∈ r₀.functions)
    (hserves : ∀ f s, Snapshot.Genuine s f → serves f s) :
    Turns serves (sources, r) (sources, left (instrumentNext sources r (.take f₀))) ∧
      Functions.Each Function.SameCode r₀.functions
        (left (instrumentNext sources r (.take f₀))).functions := by
  simp only [instrumentNext]
  cases r.cancellation.poll with
  | none => exact ⟨.refl, hsame⟩
  | some cancellation =>
    obtain ⟨f, hf, hff⟩ := hsame.related (h₀.getElem? hf₀)
    have hmem := List.mem_of_getElem? hf
    have hpoll : Turn serves (sources, r) (sources, { r with cancellation }) :=
      .note sources r r.snapshots cancellation r.asked r.stats
    have h' : InOrder { r with cancellation } := hpoll.inOrder h
    have hturn : Turn serves (sources, { r with cancellation }) _ :=
      .instrument sources { r with cancellation } f (.take f₀) hmem
        (hserves _ _ (h₀.genuine_take hf₀ hff))
    have hall : Functions.Each Function.SameCode r₀.functions
        (left (instrument { r with cancellation } sources f (.take f₀))).functions :=
      hsame.trans (h'.instrument_same hmem (.take f₀))
    have hplace : r.functions[(Snapshot.take f₀).function]? = some f := hf
    simp only [hplace]
    cases hi : instrument { r with cancellation } sources f (.take f₀) with
    | error stopped =>
      rw [hi] at hturn hall
      exact ⟨(Relation.ReflTransGen.single hpoll).tail hturn, hall⟩
    | ok done =>
      rw [hi] at hturn hall
      exact ⟨((Relation.ReflTransGen.single hpoll).tail hturn).tail (.note sources done
        (done.snapshots.insert _ _) done.cancellation done.asked done.stats), hall⟩

theorem foldlM_instrumentNext_turns (h₀ : r₀.InOrder) (fs : List Function)
    (hfs : ∀ f ∈ fs, f ∈ r₀.functions) (h : r.InOrder)
    (hsame : Functions.Each Function.SameCode r₀.functions r.functions)
    (hserves : ∀ f s, Snapshot.Genuine s f → serves f s) :
    Turns serves (sources, r)
      (sources, left ((fs.map Snapshot.take).foldlM (instrumentNext sources) r)) := by
  induction fs generalizing r with
  | nil => exact .refl
  | cons f fs ih =>
    have hf := hfs f List.mem_cons_self
    have hturns : Turns serves (sources, r)
        (sources, left (instrumentNext sources r (.take f))) :=
      (instrumentNext_turns h₀ h hsame hf hserves).1
    have hnext : Functions.Each Function.SameCode r₀.functions
        (left (instrumentNext sources r (.take f))).functions :=
      (instrumentNext_turns h₀ h hsame hf hserves).2
    rw [List.map_cons, List.foldlM_cons]
    cases hr : instrumentNext sources r (.take f) with
    | error stopped =>
      rw [hr] at hturns
      exact hturns
    | ok r' =>
      rw [hr] at hturns hnext
      exact hturns.trans (ih (fun g hg => hfs g (List.mem_cons_of_mem _ hg))
        (Turns.inOrder hturns h) hnext)

theorem observe_turns (r : Round) (s : Snapshot) :
    Turns serves (sources, r) (sources, r.observe s) := by
  unfold observe
  split
  · exact .refl
  · exact .single (.observe _ _ _ _)

theorem foldl_observe_turns (r : Round) (ss : List Snapshot) :
    Turns serves (sources, r) (sources, ss.foldl observe r) := by
  induction ss generalizing r with
  | nil => exact .refl
  | cons s ss ih => exact (r.observe_turns s).trans (ih (r.observe s))

theorem observe_functions (r : Round) (s : Snapshot) : (r.observe s).functions = r.functions := by
  unfold observe
  split <;> rfl

theorem foldl_observe_functions (r : Round) (ss : List Snapshot) :
    (ss.foldl observe r).functions = r.functions := by
  induction ss generalizing r with
  | nil => rfl
  | cons s ss ih => exact (ih (r.observe s)).trans (r.observe_functions s)

theorem run_turns (h : r.InOrder) (hserves : ∀ f s, Snapshot.Genuine s f → serves f s) :
    Turns serves (sources, r) (sources, left (r.run sources)) := by
  have hturns : Turns serves (sources, r) (sources, (takeAll r.functions).foldl observe r) :=
    foldl_observe_turns r _
  have hfunctions := foldl_observe_functions r (takeAll r.functions)
  refine hturns.trans (foldlM_instrumentNext_turns h r.functions (fun _ hf => hf)
    (Turns.inOrder hturns h) ?_ hserves)
  rw [hfunctions]
  exact .refl Function.SameCode.refl _

theorem deinstrumentAll_turns (h : r.InOrder) :
    Turns serves (sources, r) (sources, r.deinstrumentAll) := by
  unfold deinstrumentAll
  generalize r.hooks.touched.keys = ids
  induction ids generalizing r with
  | nil => exact .refl
  | cons id ids ih =>
    rw [List.foldl_cons]
    cases hf : r.functions[id]? with
    | none => exact ih h
    | some f =>
      have hturn : Turn serves (sources, r) (sources, r.deinstrument f) :=
        .deinstrument sources r f (List.mem_of_getElem? hf)
      exact (Relation.ReflTransGen.single hturn).trans (ih (hturn.inOrder h))

end Round

namespace Workspace

variable {w w' : Workspace} {sources : Sources} {r : Round} {serves : Function → Snapshot → Prop}

theorem round?_eq_some (h : w.round? = some (sources, r)) :
    ∃ e fs ss, w.engine = some e ∧ w.functions = some fs ∧ w.snapshots = some ss ∧
      sources = ⟨e.detector, w.engineSignatures e⟩ ∧
      r = ⟨fs, e.hooks, ss, w.engineConventions e, w.asked, w.cancellation, .zero⟩ := by
  simp only [round?, Option.bind_eq_bind, Option.bind_eq_some_iff] at h
  obtain ⟨e, he, fs, hfs, ss, hss, heq⟩ := h
  cases heq
  exact ⟨e, fs, ss, he, hfs, hss, rfl, rfl⟩

theorem functions_of_round? (h : w.round? = some (sources, r)) : w.functions = some r.functions := by
  obtain ⟨e, fs, ss, -, hfs, -, -, rfl⟩ := round?_eq_some h
  exact hfs

theorem stats_of_round? (h : w.round? = some (sources, r)) : r.stats = .zero := by
  obtain ⟨e, fs, ss, -, -, -, -, rfl⟩ := round?_eq_some h
  rfl

theorem round?_putBack (h : w.round? = some (sources, r)) (r' : Round) :
    (w.putBack r').round? = some (sources, { r' with stats := .zero }) := by
  obtain ⟨e, fs, ss, he, -, -, rfl, -⟩ := round?_eq_some h
  cases hown : e.ownConventions <;>
    simp [round?, putBack, he, hown, engineConventions, engineSignatures, currentConventions,
      currentSignatures]

/-- As far as its engine is concerned, a workspace in order changes by turns. -/
def Evolves (serves : Function → Snapshot → Prop) (w w' : Workspace) : Prop :=
  ∀ (sources : Sources) (r : Round), w.round? = some (sources, r) → r.InOrder →
    ∃ sources' r', w'.round? = some (sources', r') ∧ Round.Turns serves (sources, r) (sources', r')

theorem evolves_of_eq (h : w'.round? = w.round?) : Evolves serves w w' :=
  fun _ _ hr _ => ⟨_, _, h.trans hr, .refl⟩

theorem Evolves.trans {w'' : Workspace} (h : Evolves serves w w') (h' : Evolves serves w' w'') :
    Evolves serves w w'' := by
  intro sources r hr hin
  obtain ⟨sources₁, r₁, hr₁, hturns₁⟩ := h sources r hr hin
  obtain ⟨sources₂, r₂, hr₂, hturns₂⟩ := h' sources₁ r₁ hr₁ (Round.Turns.inOrder hturns₁ hin)
  exact ⟨sources₂, r₂, hr₂, hturns₁.trans hturns₂⟩

theorem evolves_putBack {r' : Round} (hr : w.round? = some (sources, r))
    (h : r.InOrder → Round.Turns serves (sources, r) (sources, r')) :
    Evolves serves w (w.putBack r') := by
  intro sources' r'' hr'' hin
  obtain ⟨rfl, rfl⟩ := Prod.mk.inj (Option.some.inj (hr.symm.trans hr''))
  exact ⟨sources, _, round?_putBack hr r',
    (h hin).tail (.note sources r' r'.snapshots r'.cancellation r'.asked .zero)⟩

def left {α : Type} : Except Interrupted (Workspace × α) → Workspace
  | .ok done => done.1
  | .error interrupted => interrupted.workspace

theorem evolves_bind {α β : Type} {x : Except Interrupted (Workspace × α)}
    {k : Workspace × α → Except Interrupted (Workspace × β)} (hx : Evolves serves w (left x))
    (hk : ∀ w' a, Evolves serves w' (left (k (w', a)))) : Evolves serves w (left (x >>= k)) := by
  cases x with
  | error interrupted => exact hx
  | ok done => exact hx.trans (hk done.1 done.2)

theorem runRound_evolves (w : Workspace) (hserves : ∀ f s, Snapshot.Genuine s f → serves f s) :
    Evolves serves w (left w.runRound) := by
  unfold runRound
  split
  · exact evolves_of_eq rfl
  · next sources r hr =>
    have hput : Evolves serves w (w.putBack (Round.left (r.run sources))) :=
      evolves_putBack hr fun hin => Round.run_turns hin hserves
    cases hrun : r.run sources with
    | error stopped =>
      rw [hrun] at hput
      exact hput
    | ok r' =>
      rw [hrun] at hput
      exact hput

theorem runRounds_evolves (n : Nat) (w : Workspace) (stats : ScheduleStats)
    (hserves : ∀ f s, Snapshot.Genuine s f → serves f s) :
    Evolves serves w (left (runRounds n w stats)) := by
  induction n generalizing w stats with
  | zero => exact evolves_of_eq rfl
  | succ n ih =>
    rw [runRounds]
    cases w.revisions with
    | error e => exact evolves_of_eq rfl
    | ok before =>
      refine evolves_bind (w.runRound_evolves hserves) ?_
      intro w' done
      simp only
      cases w'.revisions with
      | error e => exact evolves_of_eq rfl
      | ok after =>
        simp only [Except.mapError, bind, Except.bind]
        split
        · exact evolves_of_eq rfl
        · exact ih w' _

theorem round?_prepare {c : Configuration} (hr : w.round? = some (sources, r)) :
    ∃ w', w.prepare c = .ok w' ∧ w'.round? = some (sources, r) := by
  obtain ⟨e, fs, ss, he, hfs, hss, rfl, rfl⟩ := round?_eq_some hr
  simp only [prepare, hfs, he, ensureRegistries]
  refine ⟨_, rfl, ?_⟩
  simp [round?, hss, engineConventions, engineSignatures, currentConventions, currentSignatures]

theorem deinstrument_evolves (w : Workspace) :
    Evolves serves w (left (w.deinstrument.mapError fun e => ⟨w, e⟩)) := by
  unfold deinstrument
  split
  · exact evolves_of_eq rfl
  · next sources r hr =>
    refine evolves_putBack hr fun hin => (Round.deinstrumentAll_turns hin).tail ?_
    exact .note sources r.deinstrumentAll _ r.deinstrumentAll.cancellation
      r.deinstrumentAll.asked r.deinstrumentAll.stats

/-- What is left to do once the hooks are off, if they are to come off. -/
def emission (w : Workspace) (c : Configuration) (stats : ScheduleStats) :
    Except Interrupted (Workspace × ScheduleStats) := do
  if c.emitTree then
    match w.functions with
    | none => .error ⟨w, .missing .functions⟩
    | some fs =>
      if w.currentSignatures.poisoned then .error ⟨w, .poisoned .signatures⟩
      else
        let w ← (w.emitTree fs w.currentSignatures.value).mapError (⟨w, ·⟩)
        pure (w, stats)
  else pure (w, stats)

theorem finish_eq (w : Workspace) (c : Configuration) (stats : ScheduleStats) :
    w.finish c stats =
      if c.deinstrumentAtEnd then
        (w.deinstrument.mapError fun e => ⟨w, e⟩) >>= fun done =>
          emission done.1 c { stats with deinstrumented := done.2 }
      else w.emission c stats := by
  unfold finish
  cases c.deinstrumentAtEnd with
  | true => cases w.deinstrument <;> rfl
  | false => rfl

theorem run_of_prepare {w w₁ : Workspace} {c : Configuration} (h : w.prepare c = .ok w₁) :
    w.run c = runRounds c.maxIterations w₁ .zero >>= fun done => done.1.finish c done.2 := by
  rw [run, h]
  rfl

theorem emission_evolves (w : Workspace) (c : Configuration) (stats : ScheduleStats) :
    Evolves serves w (left (w.emission c stats)) := by
  unfold emission
  split
  · split
    · exact evolves_of_eq rfl
    · next fs _ =>
      split
      · exact evolves_of_eq rfl
      · unfold emitTree
        cases PseudoSource.emit fs w.currentSignatures.value <;> exact evolves_of_eq rfl
  · exact evolves_of_eq rfl

theorem finish_evolves (w : Workspace) (c : Configuration) (stats : ScheduleStats) :
    Evolves serves w (left (w.finish c stats)) := by
  rw [finish_eq]
  split
  · exact evolves_bind w.deinstrument_evolves fun w' _ => w'.emission_evolves c _
  · exact w.emission_evolves c stats

theorem run_evolves_of_prepare {w₁ : Workspace} {c : Configuration}
    (hprepare : w.prepare c = .ok w₁) (hserves : ∀ f s, Snapshot.Genuine s f → serves f s) :
    Evolves serves w₁ (left (w.run c)) := by
  rw [run_of_prepare hprepare]
  exact evolves_bind (runRounds_evolves _ w₁ _ hserves) fun w₂ stats => w₂.finish_evolves c stats

theorem run_evolves (w : Workspace) (c : Configuration)
    (hserves : ∀ f s, Snapshot.Genuine s f → serves f s) :
    Evolves serves w (left (w.run c)) := by
  intro sources r hr hin
  obtain ⟨w', hprepare, hr'⟩ := round?_prepare (c := c) hr
  exact run_evolves_of_prepare hprepare hserves sources r hr' hin

theorem round?_modifyConventions (h : w.round? = some (sources, r))
    (change : Conventions → Conventions) :
    (w.modifyConventions change).round? = some (sources, r) ∨
      (w.modifyConventions change).round? = some (sources,
        { r with conventions := { r.conventions with value := change r.conventions.value } }) := by
  obtain ⟨e, fs, ss, he, hfs, hss, rfl, rfl⟩ := round?_eq_some h
  cases hown : e.ownConventions with
  | none =>
    right
    simp [round?, modifyConventions, ensureRegistries, he, hfs, hss, hown, engineConventions,
      engineSignatures, currentConventions, currentSignatures]
  | some own =>
    left
    simp [round?, modifyConventions, ensureRegistries, he, hfs, hss, hown, engineConventions,
      engineSignatures, currentSignatures]

theorem round?_modifySignatures (h : w.round? = some (sources, r))
    (change : Signatures → Signatures) :
    (w.modifySignatures change).round? = some (sources, r) ∨
      (w.modifySignatures change).round? = some ({ sources with
        signatures := { sources.signatures with value := change sources.signatures.value } }, r) := by
  obtain ⟨e, fs, ss, he, hfs, hss, rfl, rfl⟩ := round?_eq_some h
  cases hown : e.ownSignatures with
  | none =>
    right
    simp [round?, modifySignatures, ensureRegistries, he, hfs, hss, hown, engineConventions,
      engineSignatures, currentConventions, currentSignatures]
  | some own =>
    left
    simp [round?, modifySignatures, ensureRegistries, he, hfs, hss, hown, engineConventions,
      engineSignatures, currentConventions]

/-- What may happen to a workspace with an engine; `allowed` says which snapshots are at hand. -/
inductive Step (allowed : Snapshot → Prop) : Workspace → Workspace → Prop
  | register (w : Workspace) (c : Convention) :
      Step allowed w (w.modifyConventions fun cs => (cs.register c).2)
  | assign (w : Workspace) (callee : Callee) (id : ConventionId) :
      Step allowed w (w.modifyConventions fun cs => cs.assign callee id)
  | unassign (w : Workspace) (callee : Callee) :
      Step allowed w (w.modifyConventions fun cs => (cs.unassign callee).2)
  | signFunction (w : Workspace) (callee : Callee) (s : FunctionSignature) :
      Step allowed w (w.modifySignatures fun ss => (ss.setFunction callee s).2)
  | signCall (w : Workspace) (call : StatementRef) (s : CallSignature) :
      Step allowed w (w.modifySignatures fun ss => (ss.setCall call s).2)
  | setDetector (w : Workspace) (d : Option Detector) :
      Step allowed w { w with engine := w.engine.map fun e => { e with detector := d } }
  | setCancellation (w : Workspace) (c : Cancellation) : Step allowed w { w with cancellation := c }
  | edit (w : Workspace) (fs : Functions) (f g : Function) (e : CodeEdit)
      (hfs : w.functions = some fs) (hf : f ∈ fs) (hl : e.Lifted f) (he : e.apply f = .ok g) :
      Step allowed w { w with functions := some (fs.set f.id g) }
  | observe (w : Workspace) (sources : Sources) (r : Round) (f : Function) (s : Snapshot)
      (hr : w.round? = some (sources, r)) :
      Step allowed w (w.putBack { r with hooks := r.hooks.observe f s })
  | instrument (w : Workspace) (sources : Sources) (r : Round) (f : Function) (s : Snapshot)
      (hr : w.round? = some (sources, r)) (hf : f ∈ r.functions) (hs : allowed s) :
      Step allowed w (w.putBack (Round.left (r.instrument sources f s)))
  | deinstrument (w : Workspace) (sources : Sources) (r : Round) (f : Function)
      (hr : w.round? = some (sources, r)) (hf : f ∈ r.functions) :
      Step allowed w (w.putBack (r.deinstrument f))
  | deinstrumentAll (w : Workspace) (sources : Sources) (r : Round)
      (hr : w.round? = some (sources, r)) : Step allowed w (w.putBack r.deinstrumentAll)
  | run (w : Workspace) (c : Configuration) : Step allowed w (left (w.run c))

/-- The workspaces reached from `w₀`, with the snapshots taken on the way. -/
inductive History (w₀ : Workspace) : List Snapshot → Workspace → Prop
  | start : History w₀ [] w₀
  | take {taken : List Snapshot} {w : Workspace} (h : History w₀ taken w) (fs : Functions)
      (f : Function) (hfs : w.functions = some fs) (hf : f ∈ fs) : History w₀ (.take f :: taken) w
  | step {taken : List Snapshot} {w w' : Workspace} (h : History w₀ taken w)
      (hs : Step (· ∈ taken) w w') : History w₀ taken w'

theorem modifyConventions_evolves (w : Workspace) {change : Conventions → Conventions}
    (h : ∀ cs : Conventions, cs.Extends (change cs)) :
    Evolves serves w (w.modifyConventions change) := by
  intro sources r hr _
  rcases round?_modifyConventions hr change with heq | heq
  · exact ⟨_, _, heq, .refl⟩
  · exact ⟨_, _, heq, .single (.conventions sources r _ (h _))⟩

theorem Step.evolves {allowed : Snapshot → Prop} (h : Step allowed w w')
    (hallowed : ∀ s, allowed s → ∀ sources r, w.round? = some (sources, r) →
      ∀ f ∈ r.functions, serves f s)
    (hserves : ∀ f s, Snapshot.Genuine s f → serves f s) : Evolves serves w w' := by
  cases h with
  | register c => exact w.modifyConventions_evolves fun cs => cs.extends_register c
  | assign callee id => exact w.modifyConventions_evolves fun cs => List.prefix_rfl
  | unassign callee => exact w.modifyConventions_evolves fun cs => List.prefix_rfl
  | signFunction callee s =>
    intro sources r hr _
    rcases round?_modifySignatures hr fun ss => (ss.setFunction callee s).2 with heq | heq
    · exact ⟨_, _, heq, .refl⟩
    · exact ⟨_, _, heq, .single (.signFunction sources r callee s)⟩
  | signCall call s =>
    intro sources r hr _
    rcases round?_modifySignatures hr fun ss => (ss.setCall call s).2 with heq | heq
    · exact ⟨_, _, heq, .refl⟩
    · exact ⟨_, _, heq, .single (.signCall sources r call s)⟩
  | setDetector d =>
    intro sources r hr _
    refine ⟨{ sources with detector := d }, r, ?_, .single (.detector sources r d)⟩
    obtain ⟨e, fs, ss, he, hfs, hss, rfl, rfl⟩ := round?_eq_some hr
    simp only [round?, he, hfs, hss, Option.map_some, Option.bind_eq_bind, Option.bind_some]
    rfl
  | setCancellation c =>
    intro sources r hr _
    refine ⟨sources, _, ?_, .single (.note sources r r.snapshots c r.asked r.stats)⟩
    obtain ⟨e, fs, ss, he, hfs, hss, rfl, rfl⟩ := round?_eq_some hr
    simp only [round?, he, hfs, hss, Option.bind_eq_bind, Option.bind_some]
    rfl
  | edit fs f g e hfs hf hl he =>
    intro sources r hr _
    obtain rfl := Option.some.inj ((functions_of_round? hr).symm.trans hfs)
    refine ⟨sources, _, ?_, .single (.edit sources r f g e hf hl he)⟩
    obtain ⟨e, fs, ss, he, hfs, hss, rfl, rfl⟩ := round?_eq_some hr
    simp only [round?, he, hss, Option.bind_eq_bind, Option.bind_some]
    rfl
  | observe sources r f s hr =>
    exact evolves_putBack hr fun _ => .single (.observe sources r f s)
  | instrument sources r f s hr hf hs =>
    exact evolves_putBack hr fun _ =>
      .single (.instrument sources r f s hf (hallowed s hs sources r hr f hf))
  | deinstrument sources r f hr hf =>
    exact evolves_putBack hr fun _ => .single (.deinstrument sources r f hf)
  | deinstrumentAll sources r hr =>
    exact evolves_putBack hr fun hin => Round.deinstrumentAll_turns hin
  | run c => exact w.run_evolves c hserves

end Workspace

/-- No hook has been built and all code is lifted. -/
structure Round.Fresh (r : Round) : Prop where
  hooks : r.hooks = .empty
  ids : ∀ {i : Nat} {f : Function}, r.functions[i]? = some f → f.id = i
  numbered : ∀ f ∈ r.functions, f.Numbered
  lifted : ∀ f ∈ r.functions, ∀ s ∈ f.statements, s.isSynthetic = false

theorem Round.Fresh.congr {r r' : Round} (h : r.Fresh) (hh : r'.hooks = r.hooks)
    (hf : r'.functions = r.functions) : r'.Fresh :=
  ⟨hh.trans h.hooks, hf ▸ h.ids, hf ▸ h.numbered, hf ▸ h.lifted⟩

theorem Round.Fresh.inOrder {r : Round} (h : r.Fresh) : r.InOrder := by
  constructor
  · rw [h.hooks]
    exact Hooks.consistent_empty
  · exact h.ids
  · intro f hf
    rw [h.hooks]
    exact Hooks.accounts_empty (h.numbered f hf) (h.lifted f hf)
  · intro a k hk
    simp [h.hooks, Hooks.empty] at hk
  · intro a k hk
    simp [h.hooks, Hooks.empty] at hk

theorem Round.InOrder.fresh {r : Round} (h : r.InOrder) (hh : r.hooks = .empty) : r.Fresh where
  hooks := hh
  ids := h.ids
  numbered f hf := (h.accounts f hf).numbered
  lifted f hf s hs := by
    by_contra hsyn
    obtain ⟨a, k, hk, -⟩ := ((h.accounts f hf).synthetic_iff s).mp ⟨hs, by simpa using hsyn⟩
    simp [hh, Hooks.empty] at hk

theorem exists_of_any_toOption {ε α : Type} {x : Except ε α} {p : α → Bool}
    (h : x.toOption.any p) : ∃ a, x = .ok a ∧ p a := by
  cases x with
  | error e => cases h
  | ok a => exact ⟨a, rfl, h⟩

/-- A function that calls `0x2000` and returns. -/
def Function.sample : Function :=
  let statements := [Statement.lifted 0 (some 0x1000) (.call (.direct 0x2000)),
    Statement.lifted 1 (some 0x1005) (.ret 0)]
  ⟨0, "sample", some 0x1000, [⟨some 0x1000, statements, []⟩], 2, 0⟩

/-- The sample function, with the same convention for it and for what it calls. -/
def Workspace.sample : Workspace :=
  let conventions := (Conventions.empty.register .cdecl).2
  { Workspace.empty with
    functions := some [Function.sample]
    conventions := some (.sound ((conventions.assign (.address 0x1000) 0).assign (.address 0x2000) 0))
    engine := some .fresh
    snapshots := some ∅ }

def Round.sample : Round where
  functions := [Function.sample]
  hooks := .empty
  snapshots := ∅
  conventions := Workspace.sample.currentConventions
  asked := []
  cancellation := .never
  stats := .zero

theorem Workspace.round?_sample :
    Workspace.sample.round? = some (⟨none, .sound .empty⟩, Round.sample) := rfl

theorem Round.fresh_of_singleton {r : Round} {f : Function} (hh : r.hooks = .empty)
    (hf : r.functions = [f]) (hid : f.id = 0) (hn : f.Numbered)
    (hl : ∀ s ∈ f.statements, s.isSynthetic = false) : r.Fresh where
  hooks := hh
  ids {i g} hg := by
    rw [hf] at hg
    cases i with
    | zero => rw [← Option.some.inj hg, hid]
    | succ i => cases hg
  numbered g hg := by
    rw [hf] at hg
    exact List.mem_singleton.mp hg ▸ hn
  lifted g hg := by
    rw [hf] at hg
    exact List.mem_singleton.mp hg ▸ hl

theorem Round.sample_fresh : Round.sample.Fresh :=
  fresh_of_singleton rfl rfl rfl ⟨by decide, by decide, by decide⟩ (by decide)

/-- The snapshot was taken from a function of the round, now or before some of its edits. -/
def Snapshot.Kept (s : Snapshot) (r : Round) : Prop :=
  ∃ g : Function, s = .take g ∧ g.Orderly ∧ ∃ f, r.functions[g.id]? = some f ∧ g.Later f

namespace Snapshot.Kept

variable {s : Snapshot} {r : Round} {serves : Function → Snapshot → Prop}

theorem genuine (h : s.Kept r) (hr : r.InOrder) {f : Function} (hf : f ∈ r.functions) :
    s.Genuine f := by
  obtain ⟨g, rfl, hg, f', hf', hlater⟩ := h
  intro hserves
  obtain ⟨hid, hrevision⟩ := mismatch?_eq_none.mp hserves
  have hid : g.id = f.id := hid
  have hrevision : g.revision = f.revision := hrevision
  rw [hid, hr.getElem? hf] at hf'
  obtain rfl := Option.some.inj hf'
  exact ⟨g, rfl, hg, hid, (hlater.code_eq hrevision.symm).symm⟩

theorem turns {x x' : Sources × Round} (h : s.Kept x.2) (hx : x.2.InOrder)
    (ht : Round.Turns serves x x') : s.Kept x'.2 := by
  obtain ⟨g, rfl, hg, f, hf, hlater⟩ := h
  obtain ⟨f', hf', hff'⟩ := (ht.later hx).related hf
  exact ⟨g, rfl, hg, f', hf', hlater.trans hff'⟩

end Snapshot.Kept

namespace Workspace

/-- A history is a sequence of turns, and each function is instrumented with its own snapshots. -/
theorem History.turns {w₀ w : Workspace} {taken : List Snapshot} (h : History w₀ taken w)
    {sources₀ : Sources} {r₀ : Round} (h₀ : w₀.round? = some (sources₀, r₀)) (hr₀ : r₀.InOrder) :
    ∃ sources r, w.round? = some (sources, r) ∧
      Round.Turns (fun f s => s.Genuine f) (sources₀, r₀) (sources, r) ∧ ∀ s ∈ taken, s.Kept r := by
  induction h with
  | start => exact ⟨sources₀, r₀, h₀, .refl, by simp⟩
  | take h fs f hfs hf ih =>
    obtain ⟨sources, r, hr, hturns, hkept⟩ := ih
    refine ⟨sources, r, hr, hturns, ?_⟩
    have hin := Round.Turns.inOrder hturns hr₀
    obtain rfl := Option.some.inj ((functions_of_round? hr).symm.trans hfs)
    intro s hs
    rcases List.mem_cons.mp hs with rfl | hs
    · exact ⟨f, rfl, hin.orderly hf, f, hin.getElem? hf, .refl f⟩
    · exact hkept s hs
  | @step taken w w' h hs ih =>
    obtain ⟨sources, r, hr, hturns, hkept⟩ := ih
    have hin := Round.Turns.inOrder hturns hr₀
    have hevolves : Evolves (fun f s => s.Genuine f) w w' := by
      refine hs.evolves (fun s hs sources' r' hr' f hf => ?_) fun _ _ h => h
      obtain ⟨rfl, rfl⟩ := Prod.mk.inj (Option.some.inj (hr.symm.trans hr'))
      exact (hkept s hs).genuine hin hf
    obtain ⟨sources', r', hr', hturns'⟩ := hevolves sources r hr hin
    exact ⟨sources', r', hr', hturns.trans hturns', fun s hs => (hkept s hs).turns hin hturns'⟩

theorem steps_turns {w₀ w : Workspace} {allowed : Snapshot → Prop}
    (h : Relation.ReflTransGen (Step allowed) w₀ w) {sources₀ : Sources} {r₀ : Round}
    (h₀ : w₀.round? = some (sources₀, r₀)) (hr₀ : r₀.InOrder) :
    ∃ sources r, w.round? = some (sources, r) ∧
      Round.Turns (fun _ _ => True) (sources₀, r₀) (sources, r) := by
  induction h with
  | refl => exact ⟨sources₀, r₀, h₀, .refl⟩
  | @tail w w' hs ht ih =>
    obtain ⟨sources, r, hr, hturns⟩ := ih
    have hevolves : Evolves (fun _ _ => True) w w' :=
      ht.evolves (fun _ _ _ _ _ _ _ => trivial) fun _ _ _ => trivial
    obtain ⟨sources', r', hr', hturns'⟩ := hevolves sources r hr (Round.Turns.inOrder hturns hr₀)
    exact ⟨sources', r', hr', hturns.trans hturns'⟩

end Workspace

end CallEffects
