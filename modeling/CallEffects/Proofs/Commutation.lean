import CallEffects.Proofs.Mirrors
import CallEffects.Proofs.Validity

/-!
# The order of instrumenting

Two functions may call each other and common callees, and whoever is instrumented first builds hooks
and puts questions to the detector before the other one does. It makes no difference but to the ids
of hooks, as long as an instrumentation observes nothing that is not on record. What is on record
for a function is what was observed last of any function with its callee; if a third function with
the same entry address has been observed since, instrumenting puts the function's own release back
on record, and callers are treated according to who comes first.
-/

namespace CallEffects

open Std

namespace Bench

variable {b b' : Bench} {detector : Option Detector} {signatures : Signatures}
variable {wanted : Anchor → Prop} {i : FunctionId}

theorem left_instrument_moves (b : Bench) (sources : Sources) (s : Snapshot) :
    Moves sources.detector sources.signatures.value (· ∈ s.anchors b.function.id) b
      (left (b.instrument sources s)) := by
  cases hs : s.mismatch? b.function with
  | some e =>
    rw [instrument_of_mismatch hs]
    exact .refl
  | none => exact .head (.start b s) (instrument_moves hs fun _ ha => ha)

theorem Frame.agrees (h : Frame b b') (hi : i ≠ b.function.id) : b.hooks.Agrees i b'.hooks := by
  obtain ⟨new, hnew, hown⟩ := h.built
  refine ⟨fun a ha => ?_, fun key hkey => ?_⟩
  · rw [Hooks.shown?, h.active a (ha ▸ hi), Hooks.shown?]
  · have hnone : new.find? (·.key == key) = none := by
      refine List.find?_eq_none.mpr fun k hk heq => hi ?_
      rw [← hkey, ← beq_iff_eq.mp heq]
      exact hown k hk
    rw [Hooks.said?, Hooks.cached?, hnew, List.find?_append, hnone, Option.or_none]
    rfl

end Bench

namespace Round

variable {r r' : Round} {f g : Function} {i j : FunctionId} {sources : Sources}
variable {df dg : Snapshot}

/-- The bench of a function as instrumenting leaves it. -/
def worked (r : Round) (sources : Sources) (f : Function) (s : Snapshot) : Bench :=
  Bench.left ((r.bench f).instrument sources s)

theorem worked_moves (r : Round) (sources : Sources) (f : Function) (s : Snapshot) :
    Bench.Moves sources.detector sources.signatures.value (· ∈ s.anchors f.id) (r.bench f)
      (r.worked sources f s) := (r.bench f).left_instrument_moves sources s

theorem worked_id (r : Round) (sources : Sources) (f : Function) (s : Snapshot) :
    (r.worked sources f s).function.id = f.id :=
  Bench.Moves.function_id (r.worked_moves sources f s)

theorem worked_frame (r : Round) (sources : Sources) (f : Function) (s : Snapshot) :
    Bench.Frame (r.bench f) (r.worked sources f s) :=
  Bench.Moves.frame (r.worked_moves sources f s)

theorem worked_observed (hc : r.hooks.Consistent) (hd : ∀ d ∈ sources.detector, d.IsBuiltin)
    (hreg : r.conventions.value.AllRegistered) (hk : r.hooks.Knows f df) :
    (r.worked sources f df).hooks.observed = r.hooks.observed := by
  let o : Outset :=
    ⟨sources, f.id, r.hooks.observed, r.conventions.value, r.conventions.value⟩
  have ho : o.Fair := ⟨hd, hreg, .refl hreg⟩
  have hself : Bench.Mirrors o (r.bench f) (r.bench f) :=
    ⟨rfl, rfl, rfl, rfl, .refl _ _, rfl, ⟨[], rfl, rfl⟩, hc, hc⟩
  exact (hself.instrument ho hk).left.observed

/-- Where a function sets out once another one has been instrumented. -/
def outset (r : Round) (sources : Sources) (f : Function) (df : Snapshot) (j : FunctionId) :
    Outset :=
  ⟨sources, j, r.hooks.observed, r.conventions.value, (r.worked sources f df).conventions.value⟩

theorem worked_mirrors (hc : r.hooks.Consistent) (hd : ∀ d ∈ sources.detector, d.IsBuiltin)
    (hreg : r.conventions.value.AllRegistered) (hne : g.id ≠ f.id) (hkf : r.hooks.Knows f df)
    (hkg : r.hooks.Knows g dg) :
    Bench.Mirrors (r.outset sources f df g.id) (r.worked sources g dg)
      ((r.putBack (r.worked sources f df)).worked sources g dg) := by
  have hmoves := r.worked_moves sources f df
  have hframe := r.worked_frame sources f df
  have hc' : (r.worked sources f df).hooks.Consistent := Bench.Moves.consistent hmoves hc
  have ho : (r.outset sources f df g.id).Fair :=
    ⟨hd, hreg, Bench.Moves.asked hmoves hd (.refl hreg)⟩
  have hstart : Bench.Mirrors (r.outset sources f df g.id) (r.bench g)
      ((r.putBack (r.worked sources f df)).bench g) :=
    ⟨rfl, rfl, rfl, worked_observed hc hd hreg hkf, hframe.agrees hne, hframe.conventions,
      ⟨[], rfl, rfl⟩, hc, hc'⟩
  exact (hstart.instrument ho hkg).left

structure SameButIds (r r' : Round) : Prop where
  functions : r'.functions = r.functions
  conventions : r'.conventions = r.conventions
  observed : r'.hooks.observed = r.hooks.observed
  hooks : ∀ i, r.hooks.Agrees i r'.hooks

theorem putBack_worked_comm (hc : r.hooks.Consistent) (hd : ∀ d ∈ sources.detector, d.IsBuiltin)
    (hreg : r.conventions.value.AllRegistered) (hne : g.id ≠ f.id) (hkf : r.hooks.Knows f df)
    (hkg : r.hooks.Knows g dg) :
    SameButIds
      ((r.putBack (r.worked sources f df)).putBack
        ((r.putBack (r.worked sources f df)).worked sources g dg))
      ((r.putBack (r.worked sources g dg)).putBack
        ((r.putBack (r.worked sources g dg)).worked sources f df)) := by
  have hf := worked_mirrors hc hd hreg hne.symm hkg hkf
  have hg := worked_mirrors hc hd hreg hne hkf hkg
  have hfirst := r.worked_frame sources f df
  have hfirst' := r.worked_frame sources g dg
  have hthen := (r.putBack (r.worked sources f df)).worked_frame sources g dg
  have hthen' := (r.putBack (r.worked sources g dg)).worked_frame sources f df
  have hidf := r.worked_id sources f df
  have hidg := r.worked_id sources g dg
  generalize (r.putBack (r.worked sources f df)).worked sources g dg = g₂ at hg hthen ⊢
  generalize (r.putBack (r.worked sources g dg)).worked sources f df = f₂ at hf hthen' ⊢
  refine ⟨?_, ?_, hf.observed'.trans hg.observed'.symm, fun i => ?_⟩
  · change (r.functions.set (r.worked sources g dg).function.id _).set f₂.function.id f₂.function =
      (r.functions.set (r.worked sources f df).function.id _).set g₂.function.id g₂.function
    rw [hf.function, hg.function, hidf, hidg]
    exact List.set_comm _ _ hne
  · obtain ⟨callees, hcallees, hcallees'⟩ := hf.asked
    obtain ⟨callees', hvalue, hvalue'⟩ := hg.asked
    have hsame : f₂.conventions.value = g₂.conventions.value := by
      rw [hcallees', hvalue']
      change callees.foldl _ (r.worked sources g dg).conventions.value =
        callees'.foldl _ (r.worked sources f df).conventions.value
      rw [hcallees, hvalue]
      exact Conventions.foldl_ask_comm hreg hd callees' callees
    have hpoisoned : f₂.conventions.poisoned = g₂.conventions.poisoned :=
      hf.poisoned.trans hthen.conventions.symm
    calc f₂.conventions = ⟨f₂.conventions.value, f₂.conventions.poisoned⟩ := rfl
      _ = ⟨g₂.conventions.value, g₂.conventions.poisoned⟩ := by rw [hsame, hpoisoned]
      _ = g₂.conventions := rfl
  · change g₂.hooks.Agrees i f₂.hooks
    by_cases hif : i = f.id
    · subst hif
      exact (hthen.agrees hne.symm).symm.trans hf.hooks
    by_cases hig : i = g.id
    · subst hig
      exact hg.hooks.symm.trans (hthen'.agrees hne)
    -- Neither of them.
    have hbefore := (hfirst.agrees hif).trans (hthen.agrees hig)
    exact hbefore.symm.trans ((hfirst'.agrees hig).trans (hthen'.agrees hif))

end Round

namespace Act

variable {x : Sources × Round} {f g : Function} {i j : FunctionId} {df dg : Snapshot}

theorem perform_instrument (hf : x.2.functions[i]? = some f) (s : Snapshot) :
    perform x (.instrument i s) = (x.1, x.2.putBack (x.2.worked x.1 f s)) := by
  simp only [perform, onFunction, hf, Round.left_instrument]
  rfl

theorem perform_instrument_both (hx : x.2.Placed) (hf : x.2.functions[i]? = some f)
    (hg : x.2.functions[j]? = some g) (hij : i ≠ j) (df dg : Snapshot) :
    performAll x [.instrument i df, .instrument j dg] = (x.1,
      (x.2.putBack (x.2.worked x.1 f df)).putBack
        ((x.2.putBack (x.2.worked x.1 f df)).worked x.1 g dg)) := by
  have hid : (x.2.worked x.1 f df).function.id = i :=
    (x.2.worked_id x.1 f df).trans (hx.ids hf)
  have hg' : (x.2.putBack (x.2.worked x.1 f df)).functions[j]? = some g := by
    change (x.2.functions.set (x.2.worked x.1 f df).function.id _)[j]? = some g
    rw [hid, List.getElem?_set_ne hij, hg]
  simp only [performAll, List.foldl_cons, List.foldl_nil, perform_instrument hf]
  exact perform_instrument hg' dg

/-! ## Functions that are observed -/

def blank (detector : Option Detector) (conventions : Conventions) : Sources × Round :=
  (⟨detector, .sound .empty⟩,
    ⟨[], .empty, ∅, .sound conventions, [], .never, .zero⟩)

theorem blank_fresh (detector : Option Detector) (conventions : Conventions) :
    (blank detector conventions).2.Fresh := by
  refine ⟨rfl, fun hf => ?_, fun f hf => absurd hf List.not_mem_nil,
    fun f hf => absurd hf List.not_mem_nil⟩
  simp [blank] at hf

/-- Functions of one block each are made, with the given entry addresses and statements. -/
def making (bodies : List (Address × List StatementKind)) : List Act :=
  bodies.zipIdx.flatMap fun x =>
    .create "" (some x.1.1) :: x.1.2.map fun kind => .edit x.2 (.push 0 none kind)

def observeAll (x : Sources × Round) : Sources × Round :=
  performAll x ((Round.takeAll x.2.functions).map fun s => .observe s.function s)

theorem performAll_observe (x : Sources × Round) (ss : List Snapshot) :
    performAll x (ss.map fun s => .observe s.function s) = (x.1, ss.foldl Round.observe x.2) := by
  induction ss generalizing x with
  | nil => rfl
  | cons s ss ih =>
    have hone : perform x (.observe s.function s) = (x.1, x.2.observe s) := by
      refine congrArg (Prod.mk x.1) ?_
      unfold onFunction Round.observe
      cases x.2.functions[s.function]? <;> rfl
    rw [List.map_cons, performAll, List.foldl_cons, hone]
    exact ih (x.1, x.2.observe s)

theorem observeAll_functions (x : Sources × Round) :
    (observeAll x).2.functions = x.2.functions := by
  rw [observeAll, performAll_observe]
  exact x.2.learned_functions

/-- If no two functions share a callee, all that they release is on record then. -/
theorem observeAll_knows (hx : x.2.Placed) (hd : (x.2.functions.map Callee.ofFunction).Nodup)
    (hf : f ∈ x.2.functions) : (observeAll x).2.hooks.Knows f (.take f) := by
  intro pop hpop
  rw [observeAll, performAll_observe]
  exact Round.getElem?_observed (fun g hg => Functions.getElem?_id hx.ids hg) hd hf hpop

def inTurn (i j : FunctionId) (f g : Function) : List Act :=
  [.instrument i (.take f), .instrument j (.take g)]

theorem making_arises (fits : Hooks → Function → Statement → Prop) (detector : Option Detector)
    (conventions : Conventions) (bodies : List (Address × List StatementKind)) :
    Arises fits (performAll (blank detector conventions) (making bodies)) :=
  (Arises.start _ _ (blank_fresh detector conventions)).performAll _

/-- Two functions that call each other and a third one, which is not there. -/
def crossed : Sources × Round :=
  performAll (blank (some (.fixed .cdecl false)) .empty) (making
    [(0x1000, [.call (.direct 0x2000), .call (.direct 0x3000), .ret 4]),
      (0x2000, [.call (.direct 0x1000), .call (.direct 0x3000), .ret 8])])

/-- A function, one that calls it, and another one with the entry address of the first. -/
def doubled : Sources × Round :=
  performAll (blank none Round.sample.conventions.value) (making
    [(0x1000, [.ret 4]), (0x2000, [.call (.direct 0x1000)]), (0x1000, [.ret 8])])

/-! ## Either order -/

/-- Two functions may be instrumented in one order or in the other, if what their returns release is
on record: but for the ids of hooks it comes to the same. -/
theorem instruments_commute {fits : Hooks → Function → Statement → Prop} (hx : Arises fits x)
    (hd : ∀ d ∈ x.1.detector, d.IsBuiltin) (hr : x.2.conventions.value.AllRegistered)
    (hf : x.2.functions[i]? = some f) (hg : x.2.functions[j]? = some g)
    (hne : Callee.ofFunction f ≠ Callee.ofFunction g) (hkf : x.2.hooks.Knows f df)
    (hkg : x.2.hooks.Knows g dg) :
    (performAll x [.instrument i df, .instrument j dg]).2.SameButIds
      (performAll x [.instrument j dg, .instrument i df]).2 := by
  have hplaced := hx.placed
  have hij : i ≠ j := by
    rintro rfl
    exact hne (congrArg Callee.ofFunction (Option.some.inj (hf.symm.trans hg)))
  have hid : g.id ≠ f.id := by
    rw [hplaced.ids hf, hplaced.ids hg]
    exact hij.symm
  rw [perform_instrument_both hplaced hf hg hij, perform_instrument_both hplaced hg hf hij.symm]
  exact Round.putBack_worked_comm hplaced.consistent hd hr hid hkf hkg

/-- The hooks of the two functions change their numbers and nothing else. -/
theorem crossed_instruments_commute : ∃ x f g r r', x = observeAll crossed ∧
    x.2.functions[0]? = some f ∧ x.2.functions[1]? = some g ∧
    r = (performAll x (inTurn 0 1 f g)).2 ∧ r' = (performAll x (inTurn 1 0 g f)).2 ∧
    r.SameButIds r' ∧ (r.hooks.active[Anchor.entry 0]?).map Hook.id = some ⟨.entry, 0⟩ ∧
    (r'.hooks.active[Anchor.entry 0]?).map Hook.id = some ⟨.entry, 1⟩ := by
  have hall : (crossed.2.functions[0]?).any fun f => (crossed.2.functions[1]?).any fun g =>
      decide (Callee.ofFunction f ≠ Callee.ofFunction g ∧
        ((performAll (observeAll crossed) (inTurn 0 1 f g)).2.hooks.active[
          Anchor.entry 0]?).map Hook.id = some ⟨.entry, 0⟩ ∧
        ((performAll (observeAll crossed) (inTurn 1 0 g f)).2.hooks.active[
          Anchor.entry 0]?).map Hook.id = some ⟨.entry, 1⟩) := by
    decide +kernel
  obtain ⟨f, hf, hall⟩ := (Option.any_eq_true _ _).mp hall
  obtain ⟨g, hg, hall⟩ := (Option.any_eq_true _ _).mp hall
  obtain ⟨hne, hid, hid'⟩ := of_decide_eq_true hall
  have hx : Arises (fun _ _ _ => False) crossed := making_arises _ _ _ _
  have hsources : (observeAll crossed).1 = crossed.1 := by rw [observeAll, performAll_observe]
  have hd : ∀ d ∈ (observeAll crossed).1.detector, d.IsBuiltin := by
    rw [hsources]
    rintro d ⟨⟩
    exact .fixed .cdecl false
  have hregistry : (observeAll crossed).2.conventions.value = .empty := by decide +kernel
  have hr : (observeAll crossed).2.conventions.value.AllRegistered := by
    rw [hregistry]
    exact fun callee id hid => by cases hid
  have hdistinct : (crossed.2.functions.map Callee.ofFunction).Nodup := by decide +kernel
  have hkf := observeAll_knows hx.placed hdistinct (List.mem_of_getElem? hf)
  have hkg := observeAll_knows hx.placed hdistinct (List.mem_of_getElem? hg)
  rw [← observeAll_functions] at hf hg
  exact ⟨_, f, g, _, _, rfl, hf, hg, rfl, rfl,
    instruments_commute (hx.performAll _) hd hr hf hg hne hkf hkg, hid, hid'⟩

/-- All functions have been observed, and yet one can tell from the call which one was first. -/
theorem doubled_instruments_differ : ∃ x f g, x = observeAll doubled ∧
    Arises (fun _ _ _ => False) x ∧ x.1.detector = none ∧ x.2.conventions.value.AllRegistered ∧
    x.2.functions[0]? = some f ∧ x.2.functions[1]? = some g ∧
    Callee.ofFunction f ≠ Callee.ofFunction g ∧
    (performAll x (inTurn 0 1 f g)).2.functions ≠ (performAll x (inTurn 1 0 g f)).2.functions := by
  have hall : ((observeAll doubled).2.functions[0]?).any fun f =>
      ((observeAll doubled).2.functions[1]?).any fun g =>
        decide (Callee.ofFunction f ≠ Callee.ofFunction g ∧
          (performAll (observeAll doubled) (inTurn 0 1 f g)).2.functions ≠
            (performAll (observeAll doubled) (inTurn 1 0 g f)).2.functions) := by
    decide +kernel
  obtain ⟨f, hf, hall⟩ := (Option.any_eq_true _ _).mp hall
  obtain ⟨g, hg, hall⟩ := (Option.any_eq_true _ _).mp hall
  obtain ⟨hne, hdiffer⟩ := of_decide_eq_true hall
  have hx : Arises (fun _ _ _ => False) (observeAll doubled) := (making_arises _ _ _ _).performAll _
  have hregistry : (observeAll doubled).2.conventions = Round.sample.conventions := by
    decide +kernel
  exact ⟨_, f, g, rfl, hx, rfl, hregistry ▸ Round.sample_registered, hf, hg, hne, hdiffer⟩

end Act

end CallEffects
