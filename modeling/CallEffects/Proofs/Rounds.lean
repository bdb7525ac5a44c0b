import CallEffects.Proofs.Answers
import CallEffects.Proofs.Locality

/-!
# What a round leaves behind

Each turn of a round leaves its function at rest, and the turns that follow do not disturb it. So
after a round every function is at rest as far as the snapshot goes that the round took of it when
it began, and it reads as its code with the hooks that the snapshot called for. All this is said of
rounds that have nothing left to observe; from the second round of a run on that is so if no two
functions are the same callee.
-/

namespace CallEffects

open Std

namespace Bench

variable {b b' : Bench} {sources : Sources} {f : Function} {ever : List (List Statement)}
variable {gone : List StatementId}

theorem Rests.reads (h : b.Rests sources (.take f)) (hf : f.Orderly)
    (hsame : f.SameCode b.function) (hw : b.hooks.Weave b.function ever gone) :
    b.function.Reads b.hooks := by
  refine Function.reads_of_weave hw h.consistent fun {a k} hk ha => ?_
  have hlisted : a ∈ (Snapshot.take f).anchors f.id := by
    rw [← hsame.id_eq]
    by_contra hnot
    have hnone : b.hooks.active[a]? = none := (h.only a ha hnot).1
    rw [hnone] at hk
    cases hk
  have hoffers : f.Offers a := Snapshot.take_anchors hf hlisted
  exact hoffers.same hsame

theorem instrument_observed (hb : b.Sound)
    (hok : b.instrument sources (.take b.function) = .ok b') :
    b'.hooks.observed = (b.hooks.observe b.function (.take b.function)).observed := by
  obtain ⟨b₁, b₂, hcourse⟩ := instrument_course hb hok
  rw [hcourse.observed_start, start_eq]
  have htouch : (b.hooks.touch b.function.id).observed = b.hooks.observed := rfl
  exact Hooks.observe_congr htouch b.function

end Bench

namespace Round

variable {r r' r'' : Round} {sources : Sources} {f g : Function} {fs fs' : List Function}

/-- The turns of the functions have led from one round to the other. -/
structure Visits (sources : Sources) (r r' : Round) (fs : List Function) : Prop where
  inOrder : r'.InOrder
  asked : ∀ {cs}, Conventions.Asked sources.detector cs r.conventions.value →
    Conventions.Asked sources.detector cs r'.conventions.value
  source : r'.functions.map Function.source = r.functions.map Function.source
  observed : r'.hooks.observed = (r.hooks.observeAll fs).observed
  others : ∀ id, id ∉ fs.map (·.id) → r'.functions[id]? = r.functions[id]?

theorem Visits.trans (h : r.Visits sources r' fs) (h' : r'.Visits sources r'' fs') :
    r.Visits sources r'' (fs ++ fs') where
  inOrder := h'.inOrder
  asked ha := h'.asked (h.asked ha)
  source := h'.source.trans h.source
  observed := by
    have happend : r.hooks.observeAll (fs ++ fs') = (r.hooks.observeAll fs).observeAll fs' :=
      List.foldl_append
    rw [h'.observed, happend]
    exact Hooks.observeAll_congr h.observed fs'
  others := by
    intro id hid
    rw [List.map_append, List.mem_append, not_or] at hid
    rw [h'.others id hid.2, h.others id hid.1]

theorem instrumentNext_visits (h : r.InOrder) (hd : ∀ d ∈ sources.detector, d.IsBuiltin)
    (hf : r.functions[f.id]? = some f) (hok : instrumentNext sources r (.take f) = .ok r') :
    r.Visits sources r' [f] := by
  have hothers : ∀ id, id ∉ [f].map (·.id) → r'.functions[id]? = r.functions[id]? := by
    intro id hne
    have hne : id ≠ f.id := by simpa using hne
    exact instrumentNext_others hok hne
  obtain ⟨g, b, t, hg, hb, rfl⟩ := instrumentNext_eq_ok hok
  obtain rfl : f = g := Option.some.inj (hf.symm.trans hg)
  have hmem := List.mem_of_getElem? hf
  have hsound := h.bench_sound hmem
  have hmoves := Bench.moves_of_instrument_eq_ok hb
  have hid : b.function.id = f.id := Bench.Moves.function_id hmoves
  refine ⟨(h.putBack_of_ok hmem hb).congr rfl rfl rfl rfl rfl, Bench.Moves.asked hmoves hd, ?_,
    Bench.instrument_observed hsound hb, hothers⟩
  change (r.putBack b).functions.map Function.source = _
  rw [functions_putBack hid]
  exact Functions.map_set_of_eq hf (Bench.Moves.source_eq hmoves hsound)

theorem instrumentEach_visits (h : r.InOrder) (hd : ∀ d ∈ sources.detector, d.IsBuiltin)
    (hfs : ∀ f ∈ fs, r.functions[f.id]? = some f) (hids : (fs.map (·.id)).Nodup)
    (hok : (fs.map Snapshot.take).foldlM (instrumentNext sources) r = .ok r') :
    r.Visits sources r' fs := by
  refine instrumentEach_induction (motive := fun r fs => r.InOrder → r.Visits sources r' fs)
    ?nil ?cons hfs hids hok h
  case nil => exact fun h => ⟨h, id, rfl, rfl, fun _ _ => rfl⟩
  case cons =>
    intro r r₁ f fs hf _ h₁ _ ih h
    have hone := instrumentNext_visits h hd hf h₁
    exact hone.trans (ih hone.inOrder)

/-- What every function releases has been observed. -/
def Observes (r : Round) : Prop :=
  ∀ f ∈ r.functions, ∀ pop ∈ Hooks.popOf? f (.take f),
    r.hooks.observed[Callee.ofFunction f]? = some pop

/-- What has become of the function has nothing left to do for a snapshot of it. -/
def RestsFrom (sources : Sources) (r : Round) (f : Function) : Prop :=
  ∃ g, r.functions[f.id]? = some g ∧ f.SameCode g ∧ (r.bench g).Rests sources (.take f) ∧
    r.snapshots[f.id]? = some (.take g)

/-- A round in which nothing is left to observe, and which can be relied on in any other respect. -/
structure Steady (r : Round) : Prop where
  inOrder : r.InOrder
  woven : r.Woven
  registered : r.conventions.value.AllRegistered
  observes : r.Observes

/-- The second round comes after the turns of some functions of the first one. -/
structure Follows (sources : Sources) (r r' : Round) (fs : List Function) : Prop where
  steady : r'.Steady
  same : Functions.Each Function.SameCode r.functions r'.functions
  built : r.hooks.built <+: r'.hooks.built
  observed : r'.hooks.observed = r.hooks.observed
  touched : ∀ id ∈ r.hooks.touched, id ∈ r'.hooks.touched
  poisoned : r'.conventions.poisoned = r.conventions.poisoned
  answered : Conventions.Answered sources.detector r.conventions.value r'.conventions.value
  others : ∀ a : Anchor, a.function ∉ fs.map (·.id) →
    r'.hooks.active[a]? = r.hooks.active[a]? ∧ r'.hooks.last[a]? = r.hooks.last[a]?
  untouched : ∀ id, id ∉ fs.map (·.id) →
    r'.functions[id]? = r.functions[id]? ∧ r'.snapshots[id]? = r.snapshots[id]?
  rests : ∀ f ∈ fs, r'.RestsFrom sources f

namespace Follows

theorem refl (h : r.Steady) : r.Follows sources r [] where
  steady := h
  same := .refl Function.SameCode.refl _
  built := List.prefix_rfl
  observed := rfl
  touched _ := id
  poisoned := rfl
  answered := .refl h.registered
  others _ _ := ⟨rfl, rfl⟩
  untouched _ _ := ⟨rfl, rfl⟩
  rests := by simp

theorem restsFrom (h : r.Follows sources r' fs) (hf : r.RestsFrom sources f)
    (hfs : f.id ∉ fs.map (·.id)) : r'.RestsFrom sources f := by
  obtain ⟨g, hg, hsame, hrests, hs⟩ := hf
  obtain ⟨hfunction, hsnapshot⟩ := h.untouched f.id hfs
  refine ⟨g, hfunction.trans hg, hsame, ?_, hsnapshot.trans hs⟩
  have hid : g.id = f.id := hsame.id_eq
  have htouched : g.id ∈ r.hooks.touched := by
    have hmem := (r.bench g).start_touched (.take f)
    rw [hrests.started] at hmem
    exact hmem
  have hothers : ∀ a : Anchor, a.function = g.id →
      r'.hooks.active[a]? = r.hooks.active[a]? ∧ r'.hooks.last[a]? = r.hooks.last[a]? :=
    fun a ha => h.others a (by rwa [ha, hid])
  exact hrests.later rfl h.steady.inOrder.consistent (fun a ha => (hothers a ha).1) h.observed
    (h.touched _ htouched) (fun a ha => (hothers a ha).2) h.poisoned h.answered

theorem trans (h : r.Follows sources r' fs) (h' : r'.Follows sources r'' fs')
    (hfs : ∀ f ∈ fs, f.id ∉ fs'.map (·.id)) : r.Follows sources r'' (fs ++ fs') where
  steady := h'.steady
  same := h.same.trans h'.same
  built := h.built.trans h'.built
  observed := h'.observed.trans h.observed
  touched id hid := h'.touched id (h.touched id hid)
  poisoned := h'.poisoned.trans h.poisoned
  answered := h.answered.trans h'.answered
  others := by
    intro a ha
    rw [List.map_append, List.mem_append, not_or] at ha
    obtain ⟨hactive, hlast⟩ := h.others a ha.1
    obtain ⟨hactive', hlast'⟩ := h'.others a ha.2
    exact ⟨hactive'.trans hactive, hlast'.trans hlast⟩
  untouched := by
    intro id hid
    rw [List.map_append, List.mem_append, not_or] at hid
    obtain ⟨hfunction, hsnapshot⟩ := h.untouched id hid.1
    obtain ⟨hfunction', hsnapshot'⟩ := h'.untouched id hid.2
    exact ⟨hfunction'.trans hfunction, hsnapshot'.trans hsnapshot⟩
  rests := by
    intro f hf
    rcases List.mem_append.mp hf with hf | hf
    · exact h'.restsFrom (h.rests f hf) (hfs f hf)
    · exact h'.rests f hf

end Follows

theorem Observes.same (ho : r.Observes) (hr : r.InOrder) (hr' : r'.InOrder)
    (hsame : Functions.Each Function.SameCode r.functions r'.functions)
    (hobserved : r'.hooks.observed = r.hooks.observed) : r'.Observes := by
  intro g hg pop hpop
  obtain ⟨i, f, hf, -, hcode⟩ := hsame.of_mem hg
  have hmem := List.mem_of_getElem? hf
  rw [hcode.popOf?_take (hr.orderly hmem).numbered (hr'.orderly hg).numbered] at hpop
  rw [hobserved, hcode.ofFunction_eq]
  exact ho _ hmem pop hpop

theorem instrumentNext_follows (h : r.Steady) (hd : ∀ d ∈ sources.detector, d.IsBuiltin)
    (hf : r.functions[f.id]? = some f) (hok : instrumentNext sources r (.take f) = .ok r') :
    r.Follows sources r' [f] := by
  obtain ⟨g, b, t, hg, hb, rfl⟩ := instrumentNext_eq_ok hok
  obtain rfl : f = g := Option.some.inj (hf.symm.trans hg)
  have hmem := List.mem_of_getElem? hf
  have hvisits := instrumentNext_visits h.inOrder hd hf hok
  have hsound := h.inOrder.bench_sound hmem
  have hgenuine : (Snapshot.take f).Genuine f :=
    fun _ => ⟨f, rfl, h.inOrder.orderly hmem, rfl, rfl⟩
  have hmoves := Bench.moves_of_instrument_eq_ok hb
  have hid : b.function.id = f.id := Bench.Moves.function_id hmoves
  have hcode : f.SameCode b.function := Bench.Moves.sameCode hmoves hsound
  have hframe := Bench.Moves.frame hmoves
  obtain ⟨hrests, -⟩ := Bench.instrument_rests hsound hd h.registered hgenuine hb
  have hsettles := Bench.instrument_settles_anchors hsound
    (Snapshot.take_distinct (h.inOrder.orderly hmem).numbered) hb
  have hobserved : b.hooks.observed = r.hooks.observed := by
    rw [Bench.instrument_observed hsound hb]
    exact congrArg Hooks.observed (Hooks.observe_eq_self (h.observes f hmem))
  have hsame := h.inOrder.putBack_same hmem hmoves
  have hwoven : (r.putBack b).Woven := h.woven.putBack h.inOrder hmem hmoves fun hweave =>
    hgenuine.offers (Bench.readable_of_instrument_eq_ok hb).1 h.inOrder.consistent hweave
  have hanswered := (hvisits.asked (.refl h.registered)).answered
  obtain ⟨new, hnew, -⟩ := hframe.built
  have hplace := h.inOrder.getElem?_putBack hmem hid
  refine ⟨⟨hvisits.inOrder, hwoven, hanswered.registered,
    h.observes.same h.inOrder hvisits.inOrder hsame hobserved⟩, hsame, ⟨new, hnew.symm⟩, hobserved,
    hframe.touched, hframe.conventions, hanswered, ?_, ?_, ?_⟩
  · intro a ha
    have ha : a.function ≠ f.id := by simpa using ha
    have hlisted : a ∉ (Snapshot.take f).anchors f.id :=
      fun hmem => ha (Snapshot.function_of_mem_anchors hmem)
    exact ⟨hsettles.active a hlisted fun hgone => ha hgone.1,
      hsettles.last a hlisted fun hgone => ha hgone.1⟩
  · intro id hne
    refine ⟨hvisits.others id hne, Table.getElem?_insert_of_ne ?_⟩
    rintro rfl
    exact hne List.mem_cons_self
  · intro g hg
    obtain rfl := List.mem_singleton.mp hg
    exact ⟨b.function, hplace, hcode, hrests.recount .zero, ExtTreeMap.getElem?_insert_self⟩

theorem instrumentEach_follows (h : r.Steady) (hd : ∀ d ∈ sources.detector, d.IsBuiltin)
    (hfs : ∀ f ∈ fs, r.functions[f.id]? = some f) (hids : (fs.map (·.id)).Nodup)
    (hok : (fs.map Snapshot.take).foldlM (instrumentNext sources) r = .ok r') :
    r.Follows sources r' fs := by
  refine instrumentEach_induction (motive := fun r fs => r.Steady → r.Follows sources r' fs)
    ?nil ?cons hfs hids hok h
  case nil => exact fun h => .refl h
  case cons =>
    intro r r₁ f fs hf hnot h₁ _ ih h
    have hone := instrumentNext_follows h hd hf h₁
    refine hone.trans (ih hone.steady) ?_
    intro g hg
    obtain rfl := List.mem_singleton.mp hg
    exact hnot

theorem Observes.observeAll (h : r.Observes) (hfs : ∀ f ∈ fs, f ∈ r.functions) :
    r.hooks.observeAll fs = r.hooks := by
  induction fs with
  | nil => rfl
  | cons f fs ih =>
    have hcons : r.hooks.observeAll (f :: fs) = (r.hooks.observe f (.take f)).observeAll fs := rfl
    rw [hcons, Hooks.observe_eq_self (h f (hfs f List.mem_cons_self))]
    exact ih fun g hg => hfs g (List.mem_cons_of_mem _ hg)

theorem Steady.learned_eq (h : r.Steady) : r.learned = r := by
  have hregular : r.Regular := ⟨h.inOrder.consistent, h.inOrder.ids, h.registered⟩
  rw [hregular.learned_eq, h.observes.observeAll fun _ hf => hf]

/-- A round that is steady once it has learned what it can leaves every function at rest. -/
theorem run_follows (h : r.learned.Steady) (hd : ∀ d ∈ sources.detector, d.IsBuiltin)
    (hok : r.run sources = .ok r') : r.learned.Follows sources r' r.functions := by
  have hids : ∀ {i : Nat} {f : Function}, r.functions[i]? = some f → f.id = i := by
    rw [← r.learned_functions]
    exact h.inOrder.ids
  refine instrumentEach_follows h hd (fun f hf => ?_) (Functions.nodup_ids hids) hok
  rw [r.learned_functions]
  exact Functions.getElem?_id hids hf

end Round

end CallEffects
