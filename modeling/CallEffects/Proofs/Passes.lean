import CallEffects.Proofs.Gains

/-!
# Rounds only gain hooks

In a calm round the active hooks of every function are those that its own fresh snapshot asks for.
Instrumenting a function keeps a round calm: the hooks it gains resolve more of its calls, but what
was resolved before stays as it was. Once a function has been instrumented, an anchor without a hook
gets one only if it is an indirect call whose target has become known.
-/

namespace CallEffects

open Std

/-- The result has the property, unless a cancellation came in between. -/
def Yields {ε α : Type} (cause : ε → AnalysisError) (x : Except ε α) (good : α → Prop) : Prop :=
  match x with
  | .ok a => good a
  | .error e => cause e = .cancelled

theorem Yields.bind {ε α β : Type} {cause : ε → AnalysisError} {x : Except ε α}
    {k : α → Except ε β} {good : α → Prop} {good' : β → Prop} (hx : Yields cause x good)
    (hk : ∀ a, good a → Yields cause (k a) good') : Yields cause (x >>= k) good' := by
  cases x with
  | error e => exact hx
  | ok a => exact hk a hx

theorem Yields.mono {ε α : Type} {cause : ε → AnalysisError} {x : Except ε α}
    {good good' : α → Prop} (hx : Yields cause x good) (h : ∀ a, good a → good' a) :
    Yields cause x good' := by
  cases x with
  | error e => exact hx
  | ok a => exact h a hx

/-- A built-in detector that leaves indirect calls alone, and signatures that can be read. -/
structure Sources.Modest (sources : Sources) : Prop where
  builtin : ∀ d ∈ sources.detector, d.IsBuiltin
  refuses : ∀ callee : Callee, callee.isIndirect → Detector.Refuses sources.detector callee
  sound : sources.signatures.poisoned = false

namespace Function

variable {f g : Function} {a : Anchor} {callee : Callee}

def indirectCalls (f : Function) : List Anchor :=
  ((f.code.flatMap (·.statements)).filter (·.isIndirectCall)).map fun s => .call ⟨f.id, s.id⟩

theorem SameCode.indirectCalls_eq (h : f.SameCode g) : g.indirectCalls = f.indirectCalls := by
  rw [indirectCalls, indirectCalls, h.code_eq, h.id_eq]

theorem Asks.mem_indirectCalls (hf : f.Orderly) (h : f.Asks a callee) (hc : callee.isIndirect) :
    a ∈ f.indirectCalls := by
  obtain ⟨s, hs, hl, hcall, rfl⟩ := h.indirect hf hc
  refine List.mem_map.mpr ⟨s, List.mem_filter.mpr ⟨?_, hcall⟩, rfl⟩
  obtain ⟨block, hblock, hmem⟩ := mem_lifted_iff.mp ⟨hs, hl⟩
  exact List.mem_flatMap.mpr ⟨block, hblock, hmem⟩

theorem reads_of_weave {h : Hooks} {ever : List (List Statement)} {gone : List StatementId}
    (hw : h.Weave f ever gone) (hc : h.Consistent)
    (ho : ∀ {a : Anchor} {k : Hook}, h.active[a]? = some k → a.function = f.id → f.Offers a) :
    f.Reads h := by
  intro b block hb
  refine hw.reads hc (fun hk ha => ?_) hb
  rcases ho hk ha with he | ⟨s, hs, hl, hsa⟩
  · exact .inl he
  · obtain ⟨hever, hgone⟩ := hw.ever_of_mem hc hs hl
    exact .inr ⟨s, hever, hgone, hsa⟩

end Function

namespace Round

variable {r r' r'' : Round} {sources : Sources} {f g : Function} {ss : Signatures}

structure Calm (ss : Signatures) (r : Round) : Prop where
  inOrder : r.InOrder
  woven : r.Woven
  sound : r.conventions.poisoned = false
  registered : r.conventions.value.AllRegistered
  unguessed : ∀ callee : Callee, callee.isIndirect → r.conventions.value.lookup? callee = none
  observed : ∀ f ∈ r.functions, ∀ pop ∈ Hooks.popOf? f (.take f),
    r.hooks.observed[Callee.ofFunction f]? = some pop
  stands : ∀ f ∈ r.functions, ∀ {a : Anchor} {callee : Callee}, f.Asks a callee →
    r.hooks.Stands a (Plan.for? r.conventions.value ss r.hooks.observed a callee)
  anchored : ∀ f ∈ r.functions, ∀ {a : Anchor} {k : Hook}, r.hooks.active[a]? = some k →
    a.function = f.id → ∃ callee, f.Asks a callee

/-- Every anchor of the function has a hook or will never get one, but for its indirect calls. -/
def Complete (detector : Option Detector) (r : Round) (f : Function) : Prop :=
  ∀ a callee, f.Asks a callee → a ∉ f.indirectCalls → r.tally.Closed detector a callee

def indirectCalls (r : Round) : List Anchor := r.functions.flatMap Function.indirectCalls

theorem indirectCalls_eq (h : Functions.Each Function.SameCode r.functions r'.functions) :
    r'.indirectCalls = r.indirectCalls := by
  have hmap : r'.functions.map Function.indirectCalls = r.functions.map Function.indirectCalls :=
    h.map_eq fun _ _ hsame => hsame.indirectCalls_eq
  rw [indirectCalls, indirectCalls, List.flatMap, List.flatMap, hmap]

namespace Calm

theorem bench (h : r.Calm ss) (hf : f ∈ r.functions) : Bench.Calm f ss (r.bench f) :=
  ⟨h.inOrder.bench_sound hf, .refl f, h.registered, h.stands f hf, h.anchored f hf⟩

theorem reads (h : r.Calm ss) (hf : f ∈ r.functions) : f.Reads r.hooks := by
  obtain ⟨ever, gone, hweave⟩ := h.woven f hf
  refine Function.reads_of_weave hweave h.inOrder.consistent fun hk ha => ?_
  obtain ⟨callee, hcallee⟩ := h.anchored f hf hk ha
  exact hcallee.offers (h.inOrder.orderly hf)

theorem congr (h : r.Calm ss) (hf : r'.functions = r.functions) (hh : r'.hooks = r.hooks)
    (hc : r'.conventions = r.conventions) : r'.Calm ss := by
  constructor
  · exact h.inOrder.congr hf (by rw [hh]) (by rw [hh]) (by rw [hh]) (by rw [hh])
  · rw [Woven, hf, hh]
    exact h.woven
  · rw [hc]
    exact h.sound
  · rw [hc]
    exact h.registered
  · rw [hc]
    exact h.unguessed
  · rw [hf, hh]
    exact h.observed
  · rw [hf, hh, hc]
    exact h.stands
  · rw [hf, hh]
    exact h.anchored

end Calm

/-- What comes of a calm round in which some functions have been instrumented. -/
structure Advances (sources : Sources) (r r' : Round) : Prop where
  calm : r'.Calm sources.signatures.value
  gains : r.tally.Gains sources.detector r'.tally
  same : Functions.Each Function.SameCode r.functions r'.functions
  complete : ∀ {i : Nat} {f g : Function}, r.functions[i]? = some f → r'.functions[i]? = some g →
    r.Complete sources.detector f → r'.Complete sources.detector g
  opened : (∀ f ∈ r.functions, r.Complete sources.detector f) →
    ∀ {a : Anchor} {k : Hook}, r.hooks.active[a]? = none → r'.hooks.active[a]? = some k →
      a ∈ r.indirectCalls

theorem Advances.of_eq (h : r.Calm sources.signatures.value) (hf : r'.functions = r.functions)
    (ht : r'.tally = r.tally) : r.Advances sources r' := by
  have hhooks : r'.hooks = r.hooks := congrArg Tally.hooks ht
  have hcomplete : ∀ f, r'.Complete sources.detector f ↔ r.Complete sources.detector f := by
    intro f
    rw [Complete, Complete, ht]
  refine ⟨h.congr hf hhooks (congrArg Tally.conventions ht), ?_, ?_, ?_, ?_⟩
  · rw [ht]
    exact .refl h.registered
  · rw [hf]
    exact .refl Function.SameCode.refl _
  · intro i f g hi hg hc
    rw [hf] at hg
    obtain rfl := Option.some.inj (hi.symm.trans hg)
    exact (hcomplete f).mpr hc
  · intro _ a k hn hk
    rw [hhooks, hn] at hk
    cases hk

theorem Advances.complete_all (h : r.Advances sources r')
    (hc : ∀ f ∈ r.functions, r.Complete sources.detector f) :
    ∀ g ∈ r'.functions, r'.Complete sources.detector g := by
  intro g hg
  obtain ⟨i, f, hf, hi, -⟩ := h.same.of_mem hg
  exact h.complete hf hi (hc f (List.mem_of_getElem? hf))

theorem Advances.trans (h : r.Advances sources r') (h' : r'.Advances sources r'') :
    r.Advances sources r'' := by
  refine ⟨h'.calm, h.gains.trans h'.gains, h.same.trans h'.same, ?_, ?_⟩
  · intro i f g hf hg hc
    obtain ⟨f', hf', -⟩ := h.same.related hf
    exact h'.complete hf' hg (h.complete hf hf' hc)
  · intro hc a k hn hk
    cases hmid : r'.hooks.active[a]? with
    | some k' => exact h.opened hc hn hmid
    | none =>
      rw [← indirectCalls_eq h.same]
      exact h'.opened (h.complete_all hc) hmid hk

/-! ## One function -/

namespace Calm

variable {b : Bench}

theorem hooked (h : r.Calm ss) (hf : f ∈ r.functions) (hb : Bench.Calm f ss b)
    (hg : (r.bench f).tally.Gains sources.detector b.tally)
    (hw : ∃ ever gone, b.hooks.Weave b.function ever gone) :
    f.Hooked b.function r.hooks b.hooks := by
  obtain ⟨ever, gone, hweave⟩ := hw
  refine ⟨⟨hb.same, h.inOrder.consistent, hb.sound.1, h.reads hf, ?_⟩, fun a k _ hk => hg.kept hk⟩
  refine Function.reads_of_weave hweave hb.sound.1 fun hk ha => ?_
  obtain ⟨callee, hcallee⟩ := hb.anchored hk (ha.trans hb.same.id_eq)
  exact (hcallee.offers (h.inOrder.orderly hf)).same hb.same

theorem gains_putBack (hg : (r.bench f).tally.Gains sources.detector b.tally) :
    r.tally.Gains sources.detector (r.putBack b).tally := by
  have hzero : (r.bench f).tally.stats = .zero := rfl
  have hdetached : b.stats.detached = 0 := by
    have heq := hg.detached
    rwa [hzero] at heq
  have hremoved : b.stats.removed = 0 := by
    have heq := hg.removed
    rwa [hzero] at heq
  refine ⟨hg.answered, hg.poisoned, hg.observed, hg.kept, ?_, ?_, ?_, ?_, ?_⟩
  · exact congrArg (r.stats.detached + ·) hdetached
  · exact congrArg (r.stats.removed + ·) hremoved
  · exact Nat.le_add_right _ _
  · intro heq
    exact hg.idle (Nat.add_left_cancel (m := b.stats.attached) heq)
  · intro hlt
    have hpos : 0 < b.stats.attached := Nat.pos_of_lt_add_right hlt
    exact hg.busy hpos

theorem putBack (h : r.Calm ss) (hs : sources.Modest) (hf : f ∈ r.functions)
    (hb : Bench.Calm f ss b) (hg : (r.bench f).tally.Gains sources.detector b.tally)
    (hframe : Bench.Frame (r.bench f) b) (hin : (r.putBack b).InOrder) (hw : (r.putBack b).Woven)
    (hh : f.Hooked b.function r.hooks b.hooks) : (r.putBack b).Calm ss := by
  have hgains : r.tally.Gains sources.detector (r.putBack b).tally := gains_putBack hg
  have hid := hb.same.id_eq
  have hplace : ∀ g ∈ (r.putBack b).functions, g = b.function ∨ g ∈ r.functions ∧ g.id ≠ f.id := by
    intro g hg
    obtain ⟨i, hi⟩ := List.mem_iff_getElem?.mp hg
    rcases getElem?_putBack_cases hid hi with ⟨-, rfl⟩ | ⟨hne, hi⟩
    · exact .inl rfl
    · exact .inr ⟨List.mem_of_getElem? hi, h.inOrder.ids hi ▸ hne⟩
  have hothers : ∀ {a : Anchor}, a.function ≠ f.id →
      (r.putBack b).hooks.active[a]? = r.hooks.active[a]? := fun ha => hframe.active _ ha
  have hobserved : (r.putBack b).hooks.observed = r.hooks.observed := hg.observed
  have hunguessed : ∀ callee : Callee, callee.isIndirect →
      (r.putBack b).conventions.value.lookup? callee = none := by
    intro callee hc
    exact (hg.answered.refused callee (hs.refuses callee hc)).trans (h.unguessed callee hc)
  refine ⟨hin, hw, hg.poisoned.trans h.sound, hb.registered, hunguessed, ?_, ?_, ?_⟩
  · intro g hg pop hpop
    rw [hobserved]
    rcases hplace g hg with rfl | ⟨hg, -⟩
    · rw [hh.same.popOf?_take (h.inOrder.orderly hf).numbered hb.sound.2.numbered] at hpop
      rw [hh.same.ofFunction_eq]
      exact h.observed f hf pop hpop
    · exact h.observed g hg pop hpop
  · intro g hg a callee ha
    rcases hplace g hg with rfl | ⟨hg, hne⟩
    · obtain ⟨callee', hasked, rfl | hc⟩ := hh.asked ha
      · exact hb.stands hasked
      · intro k hk
        have hsome := (hb.stands hasked).isSome hk
        rw [show b.conventions.value.lookup? callee' = none from hunguessed callee' hc] at hsome
        cases hsome
    · rw [hobserved]
      refine ((h.stands g hg ha).answered hgains.answered).congr (hothers ?_)
      rw [ha.function_eq]
      exact hne
  · intro g hg a k hk ha
    rcases hplace g hg with rfl | ⟨hg, hne⟩
    · obtain ⟨callee, hcallee⟩ := hb.anchored hk (ha.trans hid)
      exact hh.asks hcallee
    · exact h.anchored g hg ((hothers (ha ▸ hne)).symm.trans hk) ha

theorem instrument (h : r.Calm sources.signatures.value) (hs : sources.Modest)
    (hf : f ∈ r.functions) :
    ∃ r', r.instrument sources f (.take f) = .ok r' ∧ r.Advances sources r' ∧
      (∀ g, r'.functions[f.id]? = some g → r'.Complete sources.detector g) ∧
      ∀ i, i ≠ f.id → r'.functions[i]? = r.functions[i]? := by
  have horderly := h.inOrder.orderly hf
  have hbench : Bench.Calm (r.bench f).function sources.signatures.value (r.bench f) := h.bench hf
  have hobserved : ∀ pop ∈ Hooks.popOf? (r.bench f).function (.take (r.bench f).function),
      (r.bench f).hooks.observed[Callee.ofFunction (r.bench f).function]? = some pop :=
    h.observed f hf
  obtain ⟨b, hinstrument, hb, hg, hclosed⟩ := hbench.instrument horderly hs.builtin h.sound
    hs.sound hobserved
  have hok : r.instrument sources f (.take f) = .ok (r.putBack b) := instrument_of_ok hinstrument
  have hmoves := Bench.moves_of_instrument_eq_ok hinstrument
  have hid : b.function.id = f.id := hb.same.id_eq
  have hin : (r.putBack b).InOrder := h.inOrder.putBack_of_ok hf hinstrument
  have hturn : Turn (fun f s => s.Genuine f) (sources, r) (sources, _) :=
    .instrument sources r f (.take f) hf (h.inOrder.genuine_take hf (.refl f))
  have hwoven := hturn.woven h.inOrder h.woven
  rw [hok, left_ok] at hwoven
  have hplace := h.inOrder.getElem?_putBack hf hid
  have hh := h.hooked hf hb hg (hwoven _ (List.mem_of_getElem? hplace))
  have hgains : r.tally.Gains sources.detector (r.putBack b).tally := gains_putBack hg
  have hcomplete : (r.putBack b).Complete sources.detector b.function := by
    intro a callee ha hout
    obtain ⟨callee', hasked, rfl | hc⟩ := hh.asked ha
    · exact hclosed a callee' hasked
    · rw [hb.same.indirectCalls_eq] at hout
      exact absurd (hasked.mem_indirectCalls horderly hc) hout
  refine ⟨_, hok, ⟨h.putBack hs hf hb hg (Bench.Moves.frame hmoves) hin hwoven hh, hgains,
    h.inOrder.putBack_same hf hmoves, ?_, ?_⟩, ?_, ?_⟩
  · intro i g g' hg hg' hold
    rcases getElem?_putBack_cases hid hg' with ⟨-, rfl⟩ | ⟨-, hg''⟩
    · exact hcomplete
    · obtain rfl := Option.some.inj (hg.symm.trans hg'')
      exact fun a callee ha hout => (hold a callee ha hout).gains hgains
  · intro hall a k hn hk
    have ha : a.function = f.id := by
      by_contra hne
      have hsame : (r.putBack b).hooks.active[a]? = r.hooks.active[a]? :=
        (Bench.Moves.frame hmoves).active a hne
      rw [hsame, hn] at hk
      cases hk
    obtain ⟨callee, hcallee⟩ := hb.anchored hk ha
    refine List.mem_flatMap.mpr ⟨f, hf, ?_⟩
    by_contra hout
    obtain ⟨hlookup, hrefuses⟩ := hall f hf a callee hcallee hout hn
    have hsome := (hb.stands hcallee).isSome hk
    have hnone := (hgains.answered.refused callee hrefuses).trans hlookup
    rw [show b.conventions.value.lookup? callee = none from hnone] at hsome
    cases hsome
  · intro g hg'
    obtain rfl := Option.some.inj (hplace.symm.trans hg')
    exact hcomplete
  · intro i hi
    rw [functions_putBack hid, List.getElem?_set_ne fun he => hi he.symm]

theorem instrumentNext (h : r.Calm sources.signatures.value) (hs : sources.Modest)
    (hf : r.functions[f.id]? = some f) :
    Yields Stopped.cause (Round.instrumentNext sources r (.take f)) fun r' =>
      r.Advances sources r' ∧ (∀ g, r'.functions[f.id]? = some g → r'.Complete sources.detector g) ∧
        ∀ i, i ≠ f.id → r'.functions[i]? = r.functions[i]? := by
  unfold Round.instrumentNext
  cases r.cancellation.poll with
  | none => exact rfl
  | some cancellation =>
    have hpolled : r.Advances sources { r with cancellation } := .of_eq h rfl rfl
    obtain ⟨r', hok, hadvances, hcomplete, hothers⟩ :=
      hpolled.calm.instrument hs (List.mem_of_getElem? hf)
    have hplace : r.functions[(Snapshot.take f).function]? = some f := hf
    simp only [hplace, hok]
    exact ⟨hpolled.trans (hadvances.trans (.of_eq hadvances.calm rfl rfl)), hcomplete, hothers⟩

theorem instrumentEach (fs : List Function) (h : r.Calm sources.signatures.value)
    (hs : sources.Modest) (hfs : ∀ f ∈ fs, r.functions[f.id]? = some f)
    (hids : (fs.map (·.id)).Nodup) :
    Yields Stopped.cause ((fs.map Snapshot.take).foldlM (Round.instrumentNext sources) r) fun r' =>
      r.Advances sources r' ∧
        ∀ f ∈ fs, ∀ g, r'.functions[f.id]? = some g → r'.Complete sources.detector g := by
  induction fs generalizing r with
  | nil => exact ⟨.of_eq h rfl rfl, by simp⟩
  | cons f fs ih =>
    rw [List.map_cons, List.nodup_cons] at hids
    rw [List.map_cons, List.foldlM_cons]
    refine (h.instrumentNext hs (hfs f List.mem_cons_self)).bind ?_
    rintro r' ⟨hadvances, hcomplete, hothers⟩
    have hrest : ∀ g ∈ fs, r'.functions[g.id]? = some g := by
      intro g hg
      have hne : g.id ≠ f.id := fun he => hids.1 (he ▸ List.mem_map_of_mem hg)
      rw [hothers g.id hne]
      exact hfs g (List.mem_cons_of_mem _ hg)
    refine (ih hadvances.calm hrest hids.2).mono ?_
    rintro r'' ⟨hadvances', hcomplete'⟩
    refine ⟨hadvances.trans hadvances', ?_⟩
    intro g hg g'' hg''
    rcases List.mem_cons.mp hg with rfl | hg
    · obtain ⟨g', hg', -⟩ := hadvances.same.related (hfs g List.mem_cons_self)
      exact hadvances'.complete hg' hg'' (hcomplete g' hg')
    · exact hcomplete' g hg g'' hg''

end Calm

/-! ## A whole round -/

/-- What a round learns before it instruments anything. -/
def learned (r : Round) : Round := (takeAll r.functions).foldl observe r

theorem foldl_observe_fields (r : Round) (snapshots : List Snapshot) :
    ∃ observed, snapshots.foldl observe r = { r with hooks := { r.hooks with observed } } := by
  induction snapshots generalizing r with
  | nil => exact ⟨r.hooks.observed, rfl⟩
  | cons s snapshots ih =>
    obtain ⟨observed, heq⟩ := ih (r.observe s)
    refine ⟨observed, heq.trans ?_⟩
    unfold observe
    split
    · rfl
    · rw [Hooks.observe_fields]

theorem exists_learned (r : Round) :
    ∃ observed, r.learned = { r with hooks := { r.hooks with observed } } :=
  foldl_observe_fields r (takeAll r.functions)

theorem learned_functions (r : Round) : r.learned.functions = r.functions := by
  obtain ⟨observed, heq⟩ := r.exists_learned
  rw [heq]

theorem learned_conventions (r : Round) : r.learned.conventions = r.conventions := by
  obtain ⟨observed, heq⟩ := r.exists_learned
  rw [heq]

theorem learned_stats (r : Round) : r.learned.stats = r.stats := by
  obtain ⟨observed, heq⟩ := r.exists_learned
  rw [heq]

theorem observe_take (hf : r.functions[f.id]? = some f) :
    r.observe (.take f) = { r with hooks := r.hooks.observe f (.take f) } := by
  have hplace : r.functions[(Snapshot.take f).function]? = some f := hf
  simp only [observe, hplace]

/-- A round that is calm once it has learned what it can instruments every function. -/
theorem run_yields (h : r.learned.Calm sources.signatures.value) (hs : sources.Modest) :
    Yields Stopped.cause (r.run sources) fun r' => r.learned.Advances sources r' ∧
      ∀ f ∈ r'.functions, r'.Complete sources.detector f := by
  have hfunctions := r.learned_functions
  have hfs : ∀ f ∈ r.functions, r.learned.functions[f.id]? = some f := by
    intro f hf
    exact h.inOrder.getElem? (hfunctions ▸ hf)
  have hids := Functions.nodup_ids (hfunctions ▸ h.inOrder.ids)
  refine (h.instrumentEach r.functions hs hfs hids).mono ?_
  rintro r' ⟨hadvances, hcomplete⟩
  refine ⟨hadvances, ?_⟩
  intro g hg
  obtain ⟨i, f, hf, hi, -⟩ := hadvances.same.of_mem hg
  refine hcomplete f (hfunctions ▸ List.mem_of_getElem? hf) g ?_
  rw [h.inOrder.ids hf, hi]

theorem Calm.learned_eq (h : r.Calm ss) : r.learned = r := by
  have hall : ∀ fs : List Function, (∀ f ∈ fs, f ∈ r.functions) →
      (fs.map Snapshot.take).foldl observe r = r := by
    intro fs hfs
    induction fs with
    | nil => rfl
    | cons f fs ih =>
      have hf := hfs f List.mem_cons_self
      rw [List.map_cons, List.foldl_cons, observe_take (h.inOrder.getElem? hf),
        Hooks.observe_eq_self (h.observed f hf)]
      exact ih fun g hg => hfs g (List.mem_cons_of_mem _ hg)
  exact hall r.functions fun _ hf => hf

/-! ## The first round -/

theorem getElem?_observed_of_not_mem {fs : List Function} {callee : Callee}
    (hfs : ∀ f ∈ fs, r.functions[f.id]? = some f) (hc : callee ∉ fs.map Callee.ofFunction) :
    ((fs.map Snapshot.take).foldl observe r).hooks.observed[callee]? =
      r.hooks.observed[callee]? := by
  induction fs generalizing r with
  | nil => rfl
  | cons f fs ih =>
    rw [List.map_cons, List.mem_cons, not_or] at hc
    have hrest : ∀ g ∈ fs, (r.observe (.take f)).functions[g.id]? = some g := by
      intro g hg
      rw [observe_functions]
      exact hfs g (List.mem_cons_of_mem _ hg)
    rw [List.map_cons, List.foldl_cons, ih hrest hc.2, observe_take (hfs f List.mem_cons_self)]
    exact Hooks.getElem?_observe_of_ne (Ne.symm hc.1)

theorem getElem?_observed {fs : List Function} (hfs : ∀ f ∈ fs, r.functions[f.id]? = some f)
    (hd : (fs.map Callee.ofFunction).Nodup) (hf : f ∈ fs) {pop : Nat}
    (hpop : pop ∈ Hooks.popOf? f (.take f)) :
    ((fs.map Snapshot.take).foldl observe r).hooks.observed[Callee.ofFunction f]? = some pop := by
  induction fs generalizing r with
  | nil => cases hf
  | cons g fs ih =>
    rw [List.map_cons, List.nodup_cons] at hd
    have hrest : ∀ k ∈ fs, (r.observe (.take g)).functions[k.id]? = some k := by
      intro k hk
      rw [observe_functions]
      exact hfs k (List.mem_cons_of_mem _ hk)
    rw [List.map_cons, List.foldl_cons]
    rcases List.mem_cons.mp hf with rfl | hf
    · rw [getElem?_observed_of_not_mem hrest hd.1, observe_take (hfs f List.mem_cons_self)]
      exact Hooks.getElem?_observe_self hpop
    · exact ih hrest hd.2 hf

theorem Fresh.learned_calm (h : r.Fresh) (hd : (r.functions.map Callee.ofFunction).Nodup)
    (hsound : r.conventions.poisoned = false) (hregistered : r.conventions.value.AllRegistered)
    (hunguessed : ∀ callee : Callee, callee.isIndirect → r.conventions.value.lookup? callee = none) :
    r.learned.Calm ss := by
  have hin := h.inOrder
  have hfunctions := r.learned_functions
  obtain ⟨observed, hlearned⟩ := r.exists_learned
  have hconventions := r.learned_conventions
  have hactive : ∀ a : Anchor, r.learned.hooks.active[a]? = none := by
    intro a
    rw [hlearned, h.hooks]
    exact ExtTreeMap.getElem?_empty
  constructor
  · rw [hlearned]
    exact hin.congr rfl rfl rfl rfl rfl
  · have hturns : Turns (fun f s => s.Genuine f) (⟨none, .sound ss⟩, r)
        (⟨none, .sound ss⟩, r.learned) := foldl_observe_turns r _
    exact Turns.woven hturns hin h.woven
  · rw [hconventions]
    exact hsound
  · rw [hconventions]
    exact hregistered
  · rw [hconventions]
    exact hunguessed
  · intro f hf pop hpop
    rw [hfunctions] at hf
    exact getElem?_observed (fun g hg => hin.getElem? hg) hd hf hpop
  · intro f hf a callee _ k hk
    rw [hactive a] at hk
    cases hk
  · intro f hf a k hk
    rw [hactive a] at hk
    cases hk

end Round

end CallEffects
