import CallEffects.Proofs.Convergence

/-!
# What is emitted does not depend on hooks

With registries that can be read, instrumenting never fails: the anchors of a snapshot are there, so
that every hook finds its place. A run that is not cancelled therefore comes to its end, and what
`Function.source` keeps of each function is what the program says. Taking all hooks off leaves just
that, and nothing else is read when pseudo-source is emitted.
-/

namespace CallEffects

open Std

namespace Function

variable {f g : Function}

/-- The function without its hooks and without the numbers these have taken. -/
def source (f : Function) : Function := { f.bare with nextStatement := 0 }

theorem source_eq_iff : g.source = f.source ↔ f.SameCode g ∧ g.name = f.name := by
  constructor
  · intro h
    simp only [source, bare, Function.mk.injEq] at h
    obtain ⟨hid, hname, hentry, hcode, -, hrevision⟩ := h
    exact ⟨⟨hid, hentry, hrevision, hcode⟩, hname⟩
  · rintro ⟨h, hname⟩
    simp only [source, bare, h.id_eq, hname, h.entryAddress_eq, h.code_eq, h.revision_eq]

theorem bare_bare (f : Function) : f.bare.bare = f.bare := by
  have hcode : f.bare.code = f.code := by
    rw [code, bare, code, List.map_map]
    exact List.map_congr_left fun block _ => Block.bare_eq_self lifted_of_mem
  rw [bare, hcode]
  rfl

theorem source_bare (f : Function) : f.bare.source = f.source := by
  rw [source, bare_bare, source]

end Function

namespace Bench

variable {b b' : Bench} {detector : Option Detector} {signatures : Signatures}
variable {wanted : Anchor → Prop}

theorem Move.name_eq (h : Move detector signatures wanted b b') :
    b'.function.name = b.function.name := by
  cases h with
  | start | count | remember | forget => rfl
  | resolve callee =>
    obtain ⟨cs, asked, heq, -⟩ := b.resolve_snd detector callee
    rw [heq]
  | detach a =>
    cases hk : b.hooks.active[a]? with
    | none => rw [detach_of_none hk]
    | some hook =>
      rw [detach_of_some hk]
      rfl
  | obtain p =>
    cases hc : b.hooks.cached? p.key with
    | none => rw [obtain_of_none hc]
    | some hook => rw [obtain_of_cached hc]
  | place hook f ha hw hk hnone hf =>
    rw [(Function.insertSynthetic_fields hf).1]
    rfl

theorem Moves.source_eq (h : Moves detector signatures wanted b b') (hb : b.Sound) :
    b'.function.source = b.function.source := by
  refine Function.source_eq_iff.mpr ⟨Moves.sameCode h hb, ?_⟩
  induction h with
  | refl => rfl
  | tail _ hm ih => exact hm.name_eq.trans ih

end Bench

/-! ## Rounds keep what the program says -/

/-- Only a cancellation stops what happens, and nothing does if there `never` is one; otherwise the
outcome is good. -/
def Goes {ε α : Type} (cause : ε → AnalysisError) (never : Prop) (x : Except ε α)
    (good : α → Prop) : Prop :=
  Yields cause x good ∧ (never → ∃ a, x = .ok a)

namespace Goes

variable {ε α β : Type} {cause : ε → AnalysisError} {never never' : Prop} {x : Except ε α}
variable {k : α → Except ε β} {good : α → Prop} {good' : β → Prop}

theorem of_ok {a : α} (h : good a) : Goes cause never (.ok a) good := ⟨h, fun _ => ⟨a, rfl⟩⟩

theorem bind (hx : Goes cause never x good) (hk : ∀ a, good a → Goes cause never (k a) good') :
    Goes cause never (x >>= k) good' := by
  refine ⟨hx.1.bind fun a ha => (hk a ha).1, fun hn => ?_⟩
  obtain ⟨a, rfl⟩ := hx.2 hn
  exact (hk a hx.1).2 hn

theorem mono {good' : α → Prop} (hx : Goes cause never x good) (hn : never' → never)
    (h : ∀ a, good a → good' a) : Goes cause never' x good' :=
  ⟨hx.1.mono h, fun hn' => hx.2 (hn hn')⟩

end Goes

namespace Round

variable {r r' r'' : Round} {sources : Sources} {f g : Function}

/-- What a round that may have attached hooks leaves of another. -/
structure Keeps (r r' : Round) : Prop where
  inOrder : r'.InOrder
  poisoned : r'.conventions.poisoned = r.conventions.poisoned
  source : r'.functions.map Function.source = r.functions.map Function.source
  never : r.cancellation = .never → r'.cancellation = .never

theorem Keeps.of_inOrder (h : r.InOrder) : r.Keeps r := ⟨h, rfl, rfl, id⟩

theorem Keeps.trans (h : r.Keeps r') (h' : r'.Keeps r'') : r.Keeps r'' :=
  ⟨h'.inOrder, h'.poisoned.trans h.poisoned, h'.source.trans h.source,
    fun hn => h'.never (h.never hn)⟩

theorem Keeps.congr (h : r.Keeps r') (hf : r''.functions = r'.functions)
    (hh : r''.hooks = r'.hooks) (hc : r''.conventions = r'.conventions)
    (hn : r'.cancellation = .never → r''.cancellation = .never) : r.Keeps r'' :=
  ⟨h.inOrder.congr hf (by rw [hh]) (by rw [hh]) (by rw [hh]) (by rw [hh]), by rw [hc, h.poisoned],
    by rw [hf, h.source], fun h' => hn (h.never h')⟩

theorem instrument_keeps (sources : Sources) (h : r.InOrder) (hf : f ∈ r.functions) (hg : g.Orderly)
    (hsame : g.source = f.source) (hc : r.conventions.poisoned = false)
    (hss : sources.signatures.poisoned = false) :
    ∃ r', r.instrument sources f (.take g) = .ok r' ∧ r.Keeps r' := by
  have hcode := (Function.source_eq_iff.mp hsame.symm).1
  have hserves : (Snapshot.take g).mismatch? (r.bench f).function = none :=
    Snapshot.mismatch?_eq_none.mpr ⟨hcode.id_eq.symm, hcode.revision_eq.symm⟩
  have hoffers : ∀ a ∈ (Snapshot.take g).anchors f.id, f.Offers a := by
    intro a ha
    have hgoffers : g.Offers a := by
      rw [hcode.id_eq] at ha
      exact Snapshot.take_anchors hg ha
    exact hgoffers.same hcode
  obtain ⟨b, hb⟩ := Bench.instrument_total (h.bench_sound hf).firm hserves
    (fun a ha => (hoffers a ha).hosts) hc hss
  have hmoves := Bench.moves_of_instrument_eq_ok hb
  have hid : b.function.id = f.id := Bench.Moves.function_id hmoves
  refine ⟨_, instrument_of_ok hb, h.putBack_of_ok hf hb, (Bench.Moves.frame hmoves).conventions,
    ?_, id⟩
  rw [functions_putBack hid]
  exact Functions.map_set_of_eq (h.getElem? hf) (Bench.Moves.source_eq hmoves (h.bench_sound hf))

theorem instrumentNext_keeps (h : r.InOrder) (hc : r.conventions.poisoned = false)
    (hss : sources.signatures.poisoned = false) (hg : g.Orderly)
    (hmem : g.source ∈ r.functions.map Function.source) :
    Goes Stopped.cause (r.cancellation = .never) (instrumentNext sources r (.take g)) r.Keeps := by
  unfold instrumentNext
  cases hpoll : r.cancellation.poll with
  | none =>
    refine ⟨rfl, fun hn => ?_⟩
    rw [hn] at hpoll
    cases hpoll
  | some cancellation =>
    obtain ⟨f, hf, hsame⟩ := List.mem_map.mp hmem
    have hpolled : r.Keeps { r with cancellation } := by
      refine (Keeps.of_inOrder h).congr rfl rfl rfl fun hn => ?_
      rw [hn] at hpoll
      exact (Option.some.inj hpoll).symm
    obtain ⟨r', hok, hkeeps⟩ := instrument_keeps sources hpolled.inOrder hf hg hsame.symm
      hc hss
    have hid : g.id = f.id := (Function.source_eq_iff.mp hsame).1.id_eq.symm
    have hplace : r.functions[(Snapshot.take g).function]? = some f := by
      have hplace := h.getElem? hf
      rwa [← hid] at hplace
    simp only [hplace, hok]
    exact .of_ok ((hpolled.trans hkeeps).congr rfl rfl rfl id)

theorem instrumentEach_keeps (gs : List Function) (h : r.InOrder)
    (hc : r.conventions.poisoned = false) (hss : sources.signatures.poisoned = false)
    (hgs : ∀ g ∈ gs, g.Orderly ∧ g.source ∈ r.functions.map Function.source) :
    Goes Stopped.cause (r.cancellation = .never)
      ((gs.map Snapshot.take).foldlM (instrumentNext sources) r) r.Keeps := by
  induction gs generalizing r with
  | nil => exact .of_ok (.of_inOrder h)
  | cons g gs ih =>
    rw [List.map_cons, List.foldlM_cons]
    obtain ⟨hg, hmem⟩ := hgs g List.mem_cons_self
    refine (instrumentNext_keeps h hc hss hg hmem).bind fun r' hkeeps => ?_
    have hrest : ∀ g ∈ gs, g.Orderly ∧ g.source ∈ r'.functions.map Function.source := by
      rw [hkeeps.source]
      exact fun g hg => hgs g (List.mem_cons_of_mem _ hg)
    exact (ih hkeeps.inOrder (hkeeps.poisoned.trans hc) hrest).mono hkeeps.never
      fun _ h => hkeeps.trans h

theorem run_keeps (h : r.InOrder) (hc : r.conventions.poisoned = false)
    (hss : sources.signatures.poisoned = false) :
    Goes Stopped.cause (r.cancellation = .never) (r.run sources) r.Keeps := by
  obtain ⟨observed, hlearned⟩ := r.exists_learned
  have hkeeps : r.Keeps r.learned := by
    rw [hlearned]
    exact ⟨h.congr rfl rfl rfl rfl rfl, rfl, rfl, id⟩
  refine (instrumentEach_keeps r.functions hkeeps.inOrder (hkeeps.poisoned.trans hc) hss ?_).mono
    hkeeps.never fun _ h => hkeeps.trans h
  intro g hg
  rw [hkeeps.source]
  exact ⟨h.orderly hg, List.mem_map_of_mem hg⟩

end Round

/-! ## What a run emits -/

theorem PseudoSource.emit_renumbered (fs : Functions) (ss : Signatures) :
    emit (fs.map fun f => { f with nextStatement := 0 }) ss = emit fs ss := by
  have hnames : ∀ a : Address,
      (Functions.startingAt? (fs.map fun f => { f with nextStatement := 0 }) a).map (·.name) =
        (fs.startingAt? a).map (·.name) := by
    intro a
    rw [Functions.startingAt?, Functions.startingAt?, List.find?_map, Option.map_map]
    rfl
  have hcode : EmittedFunction.statementCode? (fs.map fun f => { f with nextStatement := 0 }) =
      EmittedFunction.statementCode? fs := by
    funext successors kind
    unfold EmittedFunction.statementCode?
    split <;> simp only [hnames]
  have hleak : (fs.map fun f => { f with nextStatement := 0 }).findSome? leak? =
      fs.findSome? leak? := by
    rw [List.findSome?_map]
    rfl
  have hof : (fs.map fun f => { f with nextStatement := 0 }).map
      (EmittedFunction.of (fs.map fun f => { f with nextStatement := 0 }) ss) =
        fs.map (EmittedFunction.of fs ss) := by
    rw [List.map_map]
    apply List.map_congr_left
    intro f _
    simp only [Function.comp_apply, EmittedFunction.of, hcode]
    rfl
  simp only [emit, hleak, hof]

theorem PseudoSource.emit_congr {fs fs' : Functions} (ss : Signatures)
    (h : fs'.map Function.source = fs.map Function.source) :
    emit (fs'.map Function.bare) ss = emit (fs.map Function.bare) ss := by
  have hsource : ∀ fs : Functions, emit (fs.map Function.source) ss = emit (fs.map Function.bare) ss := by
    intro fs
    rw [← emit_renumbered (fs.map Function.bare), List.map_map]
    rfl
  rw [← hsource, h, hsource]

namespace Workspace

variable {w w' : Workspace} {sources : Sources} {r : Round}
variable {p : Program} {ss : Signatures} {c c' : Configuration} {fs : Functions}

theorem runRounds_keeps (rounds : Nat) (stats : ScheduleStats) (h : w.Shares sources r)
    (hin : r.InOrder) (hc : r.conventions.poisoned = false) (hss : sources.signatures.poisoned = false) :
    Goes Interrupted.cause (r.cancellation = .never) (runRounds rounds w stats) fun x =>
      ∃ r', x.1.Shares sources r' ∧ r.Keeps r' := by
  induction rounds generalizing w r stats with
  | zero => exact .of_ok ⟨r, h, .of_inOrder hin⟩
  | succ rounds ih =>
    obtain ⟨hround, hnever⟩ := Round.run_keeps hin hc hss
    cases hrun : r.run sources with
    | error stopped =>
      rw [hrun] at hround hnever
      rw [runRounds_of_error h hc hss hrun]
      refine ⟨hround, fun hn => ?_⟩
      obtain ⟨r₁, hr₁⟩ := hnever hn
      cases hr₁
    | ok r₁ =>
      rw [hrun] at hround
      have hkeeps : r.Keeps { r₁ with stats := .zero } := Round.Keeps.congr hround rfl rfl rfl id
      have hc₁ := hkeeps.poisoned.trans hc
      rw [runRounds_of_ok h hc hss hrun hc₁]
      split
      · exact .of_ok ⟨_, h.putBack r₁, hkeeps⟩
      · refine (ih _ (h.putBack r₁) hkeeps.inOrder hc₁).mono hkeeps.never ?_
        rintro x ⟨r', hshares, hkeeps'⟩
        exact ⟨r', hshares, hkeeps.trans hkeeps'⟩

theorem finish_emits (stats : ScheduleStats) (h : w.Shares sources r) (hin : r.InOrder)
    (hss : sources.signatures.poisoned = false) (hc : c.deinstrumentAtEnd) (he : c.emitTree) :
    ∃ done tree, w.finish c stats = .ok done ∧ done.1.tree = some tree ∧
      PseudoSource.emit (r.functions.map Function.bare) sources.signatures.value = .ok tree := by
  obtain ⟨w₁, removed, hdeinstrument, hfunctions, hsignatures⟩ := h.deinstrument hin
  obtain ⟨tree, htree, hok⟩ := emission_bare { stats with deinstrumented := removed }
    hfunctions (hsignatures ▸ hss) he
  have hfinish : w.finish c stats =
      .ok (w₁.setTree tree, { stats with deinstrumented := removed }) := by
    rw [finish_eq, if_pos hc, hdeinstrument]
    exact hok
  exact ⟨_, tree, hfinish, rfl, hsignatures ▸ htree⟩

/-- The workspace has the program and the signatures, and nothing has been made of them yet. -/
structure StartsFrom (w : Workspace) (p : Program) (ss : Signatures) : Prop where
  program : w.program = some p
  functions : w.functions = none
  engine : w.engine = none
  signatures : w.currentSignatures = .sound ss
  conventions : w.currentConventions.poisoned = false

def Uncancelled (w : Workspace) (c : Configuration) : Prop :=
  ∀ i, w.run c = .error i → i.cause ≠ .cancelled

theorem StartsFrom.run_unbuilt (h : w.StartsFrom p ss) {e : IrError}
    (hb : p.buildFunctions = .error e) : ∃ i, w.run c = .error i ∧ i.cause = .ir e := by
  have hprepare : w.prepare c = .error (.ir e) := by
    simp only [prepare, h.functions, h.program, hb]
    rfl
  refine ⟨⟨w, .ir e⟩, ?_, rfl⟩
  rw [run, hprepare]
  rfl

theorem StartsFrom.run_built (h : w.StartsFrom p ss) (hb : p.buildFunctions = .ok fs)
    (hc : c.deinstrumentAtEnd) (he : c.emitTree) :
    Goes Interrupted.cause (w.cancellation = .never) (w.run c) fun done =>
      ∃ tree, done.1.tree = some tree ∧ PseudoSource.emit fs ss = .ok tree := by
  obtain ⟨w₁, hprepare, hshares⟩ := prepare_fresh (c := c) h.functions h.engine h.program hb
  rw [h.signatures] at hshares
  have hfresh : (w.firstRound fs).Fresh := Program.buildFunctions_fresh hb rfl rfl
  have hrounds := runRounds_keeps c.maxIterations .zero hshares
    hfresh.inOrder h.conventions rfl
  rw [run_of_prepare hprepare]
  refine hrounds.bind ?_
  rintro x ⟨r, hshares', hkeeps⟩
  obtain ⟨done, tree, hok, htree, hemit⟩ :=
    finish_emits x.2 hshares' hkeeps.inOrder rfl hc he
  have hbare : fs.map Function.bare = fs := by
    conv_rhs => rw [← List.map_id fs]
    exact List.map_congr_left fun f hf => Function.bare_of_lifted (hfresh.lifted f hf)
  rw [PseudoSource.emit_congr _ hkeeps.source] at hemit
  rw [hok]
  exact .of_ok ⟨tree, htree, by rw [← hbare]; exact hemit⟩

theorem StartsFrom.uncancelled (h : w.StartsFrom p ss) (hn : w.cancellation = .never)
    (hc : c.deinstrumentAtEnd) (he : c.emitTree) : w.Uncancelled c := by
  intro i hi hcancelled
  cases hb : p.buildFunctions with
  | error e =>
    obtain ⟨i', hi', hcause⟩ := h.run_unbuilt (c := c) hb
    obtain rfl := Except.error.inj (hi.symm.trans hi')
    rw [hcause] at hcancelled
    cases hcancelled
  | ok fs =>
    obtain ⟨done, hdone⟩ := (h.run_built hb hc he).2 hn
    rw [hi] at hdone
    cases hdone

/-- A run fails for want of functions or because it is cancelled, not for a hook statement left. -/
theorem StartsFrom.cause_ne_leak (h : w.StartsFrom p ss) (hc : c.deinstrumentAtEnd)
    (he : c.emitTree) {i : Interrupted} (hi : w.run c = .error i) (f : FunctionId)
    (s : StatementId) : i.cause ≠ .syntheticLeak f s := by
  intro hleak
  cases hb : p.buildFunctions with
  | error e =>
    obtain ⟨i', hi', hcause⟩ := h.run_unbuilt (c := c) hb
    obtain rfl := Except.error.inj (hi.symm.trans hi')
    rw [hcause] at hleak
    cases hleak
  | ok fs =>
    have hrun := (h.run_built hb hc he).1
    rw [hi] at hrun
    have hcancelled : i.cause = .cancelled := hrun
    rw [hcancelled] at hleak
    cases hleak

theorem StartsFrom.run_emits (h : w.StartsFrom p ss) (hb : p.buildFunctions = .ok fs)
    (hc : c.deinstrumentAtEnd) (he : c.emitTree) (hu : w.Uncancelled c) :
    ∃ done tree, w.run c = .ok done ∧ done.1.tree = some tree ∧
      PseudoSource.emit fs ss = .ok tree := by
  have hrun := (h.run_built hb hc he).1
  cases hw : w.run c with
  | error i =>
    rw [hw] at hrun
    exact absurd hrun (hu i hw)
  | ok done =>
    rw [hw] at hrun
    obtain ⟨tree, htree, hemit⟩ := hrun
    exact ⟨done, tree, rfl, htree, hemit⟩

/-- Runs of one program with the same signatures emit the same, whatever conventions, image and
configuration they have: what the program itself says. They never fail for a hook statement that
was left, and if they are not cancelled only because no functions can be built. -/
theorem runs_emit_alike (h : w.StartsFrom p ss) (h' : w'.StartsFrom p ss)
    (hc : c.deinstrumentAtEnd ∧ c.emitTree) (hc' : c'.deinstrumentAtEnd ∧ c'.emitTree) :
    (∀ i, w.run c = .error i ∨ w'.run c' = .error i → ∀ f s, i.cause ≠ .syntheticLeak f s) ∧
    (w.Uncancelled c → w'.Uncancelled c' →
      (∃ e i i', p.buildFunctions = .error e ∧ w.run c = .error i ∧ w'.run c' = .error i' ∧
        i.cause = .ir e ∧ i'.cause = .ir e) ∨
      ∃ fs tree done done', p.buildFunctions = .ok fs ∧ PseudoSource.emit fs ss = .ok tree ∧
        w.run c = .ok done ∧ w'.run c' = .ok done' ∧
          done.1.tree = some tree ∧ done'.1.tree = some tree) := by
  constructor
  · rintro i (hi | hi)
    · exact h.cause_ne_leak hc.1 hc.2 hi
    · exact h'.cause_ne_leak hc'.1 hc'.2 hi
  · intro hu hu'
    cases hb : p.buildFunctions with
    | error e =>
      obtain ⟨i, hi, hcause⟩ := h.run_unbuilt (c := c) hb
      obtain ⟨i', hi', hcause'⟩ := h'.run_unbuilt (c := c') hb
      exact .inl ⟨e, i, i', rfl, hi, hi', hcause, hcause'⟩
    | ok fs =>
      obtain ⟨done, tree, hok, htree, hemit⟩ := h.run_emits hb hc.1 hc.2 hu
      obtain ⟨done', tree', hok', htree', hemit'⟩ := h'.run_emits hb hc'.1 hc'.2 hu'
      obtain rfl := Except.ok.inj (hemit.symm.trans hemit')
      exact .inr ⟨fs, tree, done, done', rfl, hemit, hok, hok', htree, htree'⟩

def unassigned : Workspace := { Workspace.empty with program := some .sample }

/-- One of the runs attaches hooks in three rounds, the other attaches none. -/
theorem loaded_emits_alike :
    ∃ tree done done', loaded.run Configuration.sample.forEmission = .ok done ∧
      unassigned.run Configuration.standard.forEmission = .ok done' ∧
        0 < done.2.deinstrumented ∧ done'.2.deinstrumented = 0 ∧
          done.1.tree = some tree ∧ done'.1.tree = some tree := by
  have hrun : (loaded.run Configuration.sample.forEmission).toOption.any fun done =>
      0 < done.2.deinstrumented := by decide +kernel
  have hrun' : (unassigned.run Configuration.standard.forEmission).toOption.any fun done =>
      done.2.deinstrumented == 0 := by decide +kernel
  obtain ⟨done, hok, hpos⟩ := exists_of_any_toOption hrun
  obtain ⟨done', hok', hzero⟩ := exists_of_any_toOption hrun'
  have hstarts : loaded.StartsFrom .sample .empty := ⟨rfl, rfl, rfl, rfl, rfl⟩
  have hstarts' : unassigned.StartsFrom .sample .empty := ⟨rfl, rfl, rfl, rfl, rfl⟩
  have hnever : loaded.Uncancelled _ :=
    hstarts.uncancelled (c := Configuration.sample.forEmission) rfl rfl rfl
  have hnever' : unassigned.Uncancelled _ :=
    hstarts'.uncancelled (c := Configuration.standard.forEmission) rfl rfl rfl
  have halike := (runs_emit_alike hstarts hstarts' ⟨rfl, rfl⟩ ⟨rfl, rfl⟩).2 hnever hnever'
  rcases halike with ⟨e, i, i', -, hi, -⟩ | ⟨fs, tree, d, d', -, -, hd, hd', ht, ht'⟩
  · rw [hok] at hi
    cases hi
  · obtain rfl := Except.ok.inj (hok.symm.trans hd)
    obtain rfl := Except.ok.inj (hok'.symm.trans hd')
    exact ⟨tree, done, done', hok, hok', of_decide_eq_true hpos, beq_iff_eq.mp hzero, ht, ht'⟩

end Workspace

end CallEffects
