import CallEffects.Proofs.Emission
import CallEffects.Proofs.Quiet

/-!
# A converged run has come to rest

A run stops when a pass attaches and detaches no hook and the revisions of the registries stay. Such
a pass has instrumented every function to no effect and has left every bench at rest. What happens
on the other benches does not disturb it: they leave its anchors alone, the answers that registries
have given stand, and what has been observed when the turn of a function comes is the same in every
pass. So one more pass changes nothing, whatever the engine had been used for before the run.
-/

namespace CallEffects

open Std

/-! ## What is observed -/

namespace Hooks

variable {h h' : Hooks} {f : Function} {fs : List Function}

def release? (callee : Callee) (f : Function) : Option Nat :=
  if Callee.ofFunction f = callee then popOf? f (.take f) else none

def observeAll (h : Hooks) (fs : List Function) : Hooks :=
  fs.foldl (fun h f => h.observe f (.take f)) h

theorem getElem?_observe (h : Hooks) (f : Function) (callee : Callee) :
    (h.observe f (.take f)).observed[callee]? =
      (release? callee f).or h.observed[callee]? := by
  unfold release?
  split
  · next heq =>
    subst heq
    cases hpop : popOf? f (.take f) with
    | none => simp only [observe, hpop, Option.none_or]
    | some pop =>
      rw [getElem?_observe_self hpop]
      rfl
  · next hne => rw [getElem?_observe_of_ne hne, Option.none_or]

/-- The last of the functions that is the callee and releases something says how much. -/
theorem getElem?_observeAll (h : Hooks) (fs : List Function) (callee : Callee) :
    (h.observeAll fs).observed[callee]? =
      (fs.reverse.findSome? (release? callee)).or h.observed[callee]? := by
  induction fs generalizing h with
  | nil => rfl
  | cons f fs ih =>
    have hcons : h.observeAll (f :: fs) = (h.observe f (.take f)).observeAll fs := rfl
    have hsingle : [f].findSome? (release? callee) = release? callee f := by
      cases hf : release? callee f <;> simp [hf]
    rw [hcons, ih, getElem?_observe, List.reverse_cons, List.findSome?_append, hsingle,
      Option.or_assoc]

theorem observe_congr (ho : h'.observed = h.observed) (f : Function) :
    (h'.observe f (.take f)).observed = (h.observe f (.take f)).observed := by
  apply ExtTreeMap.ext_getElem?
  intro callee
  rw [getElem?_observe, getElem?_observe, ho]

theorem observeAll_congr (ho : h'.observed = h.observed) (fs : List Function) :
    (h'.observeAll fs).observed = (h.observeAll fs).observed := by
  apply ExtTreeMap.ext_getElem?
  intro callee
  rw [getElem?_observeAll, getElem?_observeAll, ho]

theorem observeAll_fields (h : Hooks) (fs : List Function) :
    h.observeAll fs = { h with observed := (h.observeAll fs).observed } := by
  induction fs generalizing h with
  | nil => rfl
  | cons f fs ih =>
    have hcons : h.observeAll (f :: fs) = (h.observe f (.take f)).observeAll fs := rfl
    rw [hcons, ih, observe_fields h f]

theorem observeAll_twice (h : Hooks) (fs : List Function) :
    (h.observeAll fs).observeAll fs = h.observeAll fs := by
  have hobserved : ((h.observeAll fs).observeAll fs).observed = (h.observeAll fs).observed := by
    apply ExtTreeMap.ext_getElem?
    intro callee
    rw [getElem?_observeAll, getElem?_observeAll]
    cases fs.reverse.findSome? (release? callee) <;> rfl
  rw [observeAll_fields (h.observeAll fs), hobserved]

end Hooks

/-! ## Benches at rest -/

namespace Bench

variable {b b' : Bench} {sources : Sources} {s : Snapshot}

/-- A bench stays at rest if the anchors of its function keep their hooks, those last active on them
are remembered, and what has been answered so far stands. -/
theorem Rests.later (h : b.Rests sources s) (hf : b'.function = b.function)
    (hconsistent : b'.hooks.Consistent)
    (hactive : ∀ a : Anchor, a.function = b.function.id →
      b'.hooks.active[a]? = b.hooks.active[a]?)
    (hobserved : b'.hooks.observed = b.hooks.observed)
    (htouched : b.function.id ∈ b'.hooks.touched)
    (hlast : ∀ a : Anchor, a.function = b.function.id → b'.hooks.last[a]? = b.hooks.last[a]?)
    (hpoisoned : b'.conventions.poisoned = b.conventions.poisoned)
    (hanswered : Conventions.Answered sources.detector b.conventions.value b'.conventions.value) :
    b'.Rests sources s where
  consistent := hconsistent
  serves := by
    rw [hf]
    exact h.serves
  conventions := hpoisoned.trans h.conventions
  signatures := h.signatures
  started := by
    apply start_eq_self
    · rw [hf]
      exact htouched
    · intro pop hpop
      rw [hf] at hpop
      rw [hobserved, hf, ← h.started]
      exact b.start_observed hpop
  own := by
    rw [hf]
    exact h.own.answered hanswered
  entry := by
    have hplan : b'.entryPlan sources.signatures.value = b.entryPlan sources.signatures.value := by
      rw [entryPlan, hf, h.own.lookup?_eq hanswered, entryPlan]
    rw [hplan, hf]
    exact h.entry.congr (hactive _ rfl)
  returns := by
    intro ret hret
    have hplan : b'.returnPlan sources.signatures.value ret =
        b.returnPlan sources.signatures.value ret := by
      rw [returnPlan, hf, h.own.lookup?_eq hanswered, returnPlan]
    rw [hplan, hf]
    exact (h.returns ret hret).congr (hactive _ rfl)
  calls := by
    intro site hsite
    obtain ⟨hbears, hdecided⟩ := h.calls site hsite
    have hcall : b'.callAt site = b.callAt site := by rw [callAt, hf, callAt]
    rw [hcall, callPlan_congr (congrArg Function.id hf) (hdecided.lookup?_eq hanswered) hobserved]
    exact ⟨hbears.congr (hactive _ rfl), hdecided.answered hanswered⟩
  recalls := by
    intro a ha k hk
    rw [hf] at ha
    have hid := s.function_of_mem_anchors ha
    rw [hactive a hid] at hk
    rw [hlast a hid]
    exact h.recalls a ha k hk
  only := by
    intro a ha hnot
    rw [hf] at ha hnot
    rw [hactive a ha, hlast a ha]
    exact h.only a ha hnot

theorem instrument_start (hs : s.mismatch? b.function = none)
    (hc : b.conventions.poisoned = false) (hss : sources.signatures.poisoned = false) :
    (b.start s).instrument sources s = b.instrument sources s := by
  have hstart : (b.start s).start s = b.start s :=
    start_eq_self (b.start_touched s) fun pop => b.start_observed
  rw [instrument_eq hs hc hss, instrument_eq (b := b.start s) hs hc hss, informed, hstart]
  rfl

end Bench

/-! ## Passes without an edit -/

namespace Round

variable {r r' r'' : Round} {sources : Sources} {f : Function} {fs fs' : List Function}
variable {h h' : Hooks} {s : Snapshot}

/-- What every pass relies on. -/
structure Regular (r : Round) : Prop where
  consistent : r.hooks.Consistent
  ids : ∀ {i : Nat} {f : Function}, r.functions[i]? = some f → f.id = i
  registered : r.conventions.value.AllRegistered

namespace Regular

theorem congr (h : r.Regular) (hf : r'.functions = r.functions)
    (hb : r'.hooks.built = r.hooks.built) (ha : r'.hooks.active = r.hooks.active)
    (hl : r'.hooks.last = r.hooks.last) (hc : r'.conventions = r.conventions) : r'.Regular :=
  ⟨h.consistent.congr hb ha hl, hf ▸ h.ids, hc ▸ h.registered⟩

theorem getElem? (h : r.Regular) (hf : f ∈ r.functions) : r.functions[f.id]? = some f :=
  Functions.getElem?_id h.ids hf

theorem instrument (h : r.Regular) (hd : ∀ d ∈ sources.detector, d.IsBuiltin)
    (hok : r.instrument sources f s = .ok r') : r'.Regular := by
  obtain ⟨b, hb, rfl⟩ := instrument_eq_ok hok
  have hmoves := Bench.moves_of_instrument_eq_ok hb
  refine ⟨Bench.Moves.consistent hmoves h.consistent, ?_,
    (Bench.Moves.answered hmoves hd h.registered).registered⟩
  intro i g hg
  have hid : b.function.id = f.id := Bench.Moves.function_id hmoves
  rcases getElem?_putBack_cases hid hg with ⟨rfl, rfl⟩ | ⟨-, hg⟩
  · exact hid
  · exact h.ids hg

end Regular

def edits (r : Round) : Nat := r.stats.attached + r.stats.detached

theorem edits_putBack (r : Round) (b : Bench) : (r.putBack b).edits = r.edits + b.edits := by
  simp only [edits, putBack, InstrumentStats.merge, Bench.edits]
  omega

theorem instrumentNext_eq_ok (hok : instrumentNext sources r s = .ok r') :
    ∃ f b t, r.functions[s.function]? = some f ∧ (r.bench f).instrument sources s = .ok b ∧
      r' = { r.putBack b with
        cancellation := t
        snapshots := r.snapshots.insert s.function (.take b.function) } := by
  unfold instrumentNext at hok
  cases hpoll : r.cancellation.poll with
  | none =>
    rw [hpoll] at hok
    cases hok
  | some t =>
    cases hf : r.functions[s.function]? with
    | none =>
      simp only [hpoll, hf] at hok
      cases hok
    | some f =>
      simp only [hpoll, hf] at hok
      obtain ⟨r₁, h₁, hok⟩ := Bench.bind_eq_ok hok
      obtain ⟨b, hb, rfl⟩ := instrument_eq_ok h₁
      have hb : (r.bench f).instrument sources s = .ok b := hb
      refine ⟨f, b, t, rfl, hb, ?_⟩
      have hid : b.function.id = s.function :=
        (Bench.Moves.function_id (Bench.moves_of_instrument_eq_ok hb)).trans
          (Snapshot.mismatch?_eq_none.mp (Bench.readable_of_instrument_eq_ok hb).1).1.symm
      have hset : ({ r with cancellation := t }.putBack b).functions[s.function]? =
          some b.function := by
        rw [← hid]
        exact List.getElem?_set_self (hid ▸ (List.getElem?_eq_some_iff.mp hf).1)
      rw [hset, Option.getD_some] at hok
      exact (Except.ok.inj hok).symm

theorem instrumentNext_of_ok {t : Cancellation} (ht : r.cancellation.poll = some t)
    (hf : r.functions[s.function]? = some f)
    (hok : { r with cancellation := t }.instrument sources f s = .ok r') :
    instrumentNext sources r s = .ok { r' with
      snapshots := r'.snapshots.insert s.function
        (.take ((r'.functions[s.function]?).getD f)) } := by
  simp only [instrumentNext, ht, hf, hok]
  rfl

theorem Regular.instrumentNext (h : r.Regular) (hd : ∀ d ∈ sources.detector, d.IsBuiltin)
    (hok : instrumentNext sources r s = .ok r') : r'.Regular := by
  obtain ⟨f, b, t, -, hb, rfl⟩ := instrumentNext_eq_ok hok
  exact (h.instrument hd (instrument_of_ok hb)).congr rfl rfl rfl rfl rfl

theorem edits_le_instrumentNext (hok : instrumentNext sources r s = .ok r') :
    r.edits ≤ r'.edits := by
  obtain ⟨f, b, t, -, -, rfl⟩ := instrumentNext_eq_ok hok
  have hput := r.edits_putBack b
  change r.edits ≤ (r.putBack b).edits
  omega

theorem instrumentNext_replaces (hok : instrumentNext sources r s = .ok r') :
    ∃ f g, r.functions[s.function]? = some f ∧ g.id = f.id ∧
      r'.functions = r.functions.set s.function g ∧
      r'.snapshots = r.snapshots.insert s.function (.take g) := by
  obtain ⟨f, b, t, hf, hb, rfl⟩ := instrumentNext_eq_ok hok
  have hplace : s.function = f.id :=
    (Snapshot.mismatch?_eq_none.mp (Bench.readable_of_instrument_eq_ok hb).1).1
  have hid : b.function.id = f.id := Bench.Moves.function_id (Bench.moves_of_instrument_eq_ok hb)
  exact ⟨f, b.function, hf, hid, functions_putBack (hid.trans hplace.symm), rfl⟩

theorem instrumentNext_others (hok : instrumentNext sources r s = .ok r') {i : FunctionId}
    (hi : i ≠ s.function) : r'.functions[i]? = r.functions[i]? := by
  obtain ⟨f, g, -, -, hset, -⟩ := instrumentNext_replaces hok
  rw [hset, List.getElem?_set_ne hi.symm]

/-- An induction along the turns of some functions of a round. A turn leaves the other functions in
their places, so each is still there as it was listed when its turn comes. -/
theorem instrumentEach_induction {motive : Round → List Function → Prop} (nil : motive r' [])
    (cons : ∀ {r₀ r₁ f fs}, r₀.functions[f.id]? = some f → f.id ∉ fs.map (·.id) →
      instrumentNext sources r₀ (.take f) = .ok r₁ →
      (fs.map Snapshot.take).foldlM (instrumentNext sources) r₁ = .ok r' →
      motive r₁ fs → motive r₀ (f :: fs))
    (hfs : ∀ f ∈ fs, r.functions[f.id]? = some f) (hids : (fs.map (·.id)).Nodup)
    (hok : (fs.map Snapshot.take).foldlM (instrumentNext sources) r = .ok r') : motive r fs := by
  induction fs generalizing r with
  | nil =>
    obtain rfl := Except.ok.inj hok
    exact nil
  | cons f fs ih =>
    rw [List.map_cons, List.foldlM_cons] at hok
    obtain ⟨r₁, h₁, hok⟩ := Bench.bind_eq_ok hok
    rw [List.map_cons, List.nodup_cons] at hids
    refine cons (hfs f List.mem_cons_self) hids.1 h₁ hok (ih (fun g hg => ?_) hids.2 hok)
    have hne : g.id ≠ f.id := fun heq => hids.1 (heq ▸ List.mem_map_of_mem hg)
    rw [instrumentNext_others h₁ hne]
    exact hfs g (List.mem_cons_of_mem _ hg)

/-- The round at a time when something else had been observed. -/
def seeing (r : Round) (h : Hooks) : Round :=
  { r with hooks := { r.hooks with observed := h.observed } }

/-- Each of the functions is at rest on its bench when its turn comes, if `h` says what is observed
before the first of them. -/
def RestsAll (sources : Sources) (r : Round) : Hooks → List Function → Prop
  | _, [] => True
  | h, f :: fs =>
    ((r.seeing (h.observe f (.take f))).bench f).Rests sources (.take f) ∧
      r.RestsAll sources (h.observe f (.take f)) fs

theorem RestsAll.congr (hr : r.RestsAll sources h fs) (ho : h'.observed = h.observed) :
    r.RestsAll sources h' fs := by
  induction fs generalizing h h' with
  | nil => trivial
  | cons f fs ih =>
    have hobserve := Hooks.observe_congr ho f
    refine ⟨?_, ih hr.2 hobserve⟩
    rw [seeing, hobserve]
    exact hr.1

theorem RestsAll.append (hr : r.RestsAll sources h fs)
    (hr' : r.RestsAll sources (h.observeAll fs) fs') : r.RestsAll sources h (fs ++ fs') := by
  induction fs generalizing h with
  | nil => exact hr'
  | cons f fs ih => exact ⟨hr.1, ih hr.2 hr'⟩

/-- A pass over some of the functions has found nothing to attach or to detach. -/
structure Idles (sources : Sources) (r r' : Round) (fs : List Function) : Prop where
  regular : r'.Regular
  functions : r'.functions = r.functions
  hooks : r'.hooks =
    { r.hooks.observeAll fs with last := r'.hooks.last, touched := r'.hooks.touched }
  touched : ∀ id ∈ r.hooks.touched, id ∈ r'.hooks.touched
  last : ∀ a : Anchor, a.function ∉ fs.map (·.id) → r'.hooks.last[a]? = r.hooks.last[a]?
  poisoned : r'.conventions.poisoned = r.conventions.poisoned
  answered : Conventions.Answered sources.detector r.conventions.value r'.conventions.value
  snapshots : ∀ id, id ∉ fs.map (·.id) → r'.snapshots[id]? = r.snapshots[id]?
  current : ∀ f ∈ fs, r'.snapshots[f.id]? = some (.take f)
  rests : r'.RestsAll sources r.hooks fs

namespace Idles

theorem refl (h : r.Regular) : r.Idles sources r [] where
  regular := h
  functions := rfl
  hooks := rfl
  touched _ := id
  last _ _ := rfl
  poisoned := rfl
  answered := .refl h.registered
  snapshots _ _ := rfl
  current := by simp
  rests := trivial

theorem observed (hi : r.Idles sources r' fs) :
    r'.hooks.observed = (r.hooks.observeAll fs).observed := by
  rw [hi.hooks]

/-- What a pass leaves at rest is not disturbed by the turns of other functions. -/
theorem restsAll (hi : r.Idles sources r' fs') (hr : r.RestsAll sources h fs)
    (hfs : ∀ f ∈ fs, f.id ∉ fs'.map (·.id)) : r'.RestsAll sources h fs := by
  induction fs generalizing h with
  | nil => trivial
  | cons f fs ih =>
    refine ⟨?_, ih hr.2 fun g hg => hfs g (List.mem_cons_of_mem _ hg)⟩
    have htouched : f.id ∈ r.hooks.touched := by
      have hmem := ((r.seeing (h.observe f (.take f))).bench f).start_touched (.take f)
      rw [hr.1.started] at hmem
      exact hmem
    have hactive : r'.hooks.active = r.hooks.active := by rw [hi.hooks, Hooks.observeAll_fields]
    refine hr.1.later rfl (hi.regular.consistent.congr rfl rfl rfl)
      (fun a _ => congrArg (·[a]?) hactive) rfl (hi.touched _ htouched) ?_ hi.poisoned hi.answered
    intro a ha
    have ha : a.function = f.id := ha
    exact hi.last a (ha ▸ hfs f List.mem_cons_self)

theorem trans (hi : r.Idles sources r' fs) (hi' : r'.Idles sources r'' fs')
    (hfs : ∀ f ∈ fs, f.id ∉ fs'.map (·.id)) : r.Idles sources r'' (fs ++ fs') where
  regular := hi'.regular
  functions := hi'.functions.trans hi.functions
  hooks := by
    have happend : r.hooks.observeAll (fs ++ fs') = (r.hooks.observeAll fs).observeAll fs' :=
      List.foldl_append
    have hobserved : (r'.hooks.observeAll fs').observed =
        ((r.hooks.observeAll fs).observeAll fs').observed :=
      Hooks.observeAll_congr hi.observed fs'
    rw [hi'.hooks, Hooks.observeAll_fields r'.hooks, hobserved, happend,
      Hooks.observeAll_fields (r.hooks.observeAll fs), hi.hooks]
  touched id hid := hi'.touched id (hi.touched id hid)
  last := by
    intro a ha
    rw [List.map_append, List.mem_append, not_or] at ha
    rw [hi'.last a ha.2, hi.last a ha.1]
  poisoned := hi'.poisoned.trans hi.poisoned
  answered := hi.answered.trans hi'.answered
  snapshots := by
    intro id hid
    rw [List.map_append, List.mem_append, not_or] at hid
    rw [hi'.snapshots id hid.2, hi.snapshots id hid.1]
  current := by
    intro f hf
    rcases List.mem_append.mp hf with hf | hf
    · rw [hi'.snapshots _ (hfs f hf), hi.current f hf]
    · exact hi'.current f hf
  rests := (hi'.restsAll hi.rests hfs).append (hi'.rests.congr hi.observed.symm)

end Idles

theorem instrumentNext_idles (hr : r.Regular) (hd : ∀ d ∈ sources.detector, d.IsBuiltin)
    (hf : r.functions[f.id]? = some f) (hok : instrumentNext sources r (.take f) = .ok r')
    (hq : r'.edits ≤ r.edits) : r.Idles sources r' [f] := by
  obtain ⟨g, b, t, hg, hb, rfl⟩ := instrumentNext_eq_ok hok
  obtain rfl : f = g := Option.some.inj (hf.symm.trans hg)
  have hedits : b.edits ≤ (r.bench f).edits := by
    have hput : (r.putBack b).edits ≤ r.edits := hq
    rw [edits_putBack] at hput
    omega
  obtain ⟨hidles, hrests⟩ := Bench.instrument_idles hd hr.consistent hr.registered hb hedits
  have hfunction : b.function = f := hidles.function
  have hset : r.functions.set b.function.id b.function = r.functions := by
    rw [hfunction]
    exact congrArg Round.functions (putBack_bench hf)
  have hstart := (r.bench f).start_eq (.take f)
  rw [hstart] at hidles
  have htouch : (r.hooks.touch f.id).observed = r.hooks.observed := rfl
  have hobserve := Hooks.observe_congr htouch f
  have hobserved : b.hooks.observed = (r.hooks.observe f (.take f)).observed := by
    rw [hidles.hooks]
    exact hobserve
  refine ⟨⟨hidles.consistent, ?_, hidles.answered.registered⟩, hset, ?_, ?_, ?_, hidles.poisoned,
    hidles.answered, ?_, ?_, ?_, trivial⟩
  · exact fun hg => hr.ids (hset ▸ hg)
  · have hall : r.hooks.observeAll [f] =
        { r.hooks with observed := (r.hooks.observe f (.take f)).observed } :=
      r.hooks.observe_fields f (.take f)
    change b.hooks = { r.hooks.observeAll [f] with
      last := b.hooks.last, touched := b.hooks.touched }
    rw [hall, ← hobserve, hidles.hooks]
    rfl
  · intro id hid
    have hmem : id ∈ b.hooks.touched := by
      rw [hidles.hooks]
      exact ExtTreeMap.mem_insert.mpr (.inr hid)
    exact hmem
  · intro a ha
    have ha : a.function ≠ f.id := by simpa using ha
    refine hidles.last a (fun hmem => ha (Snapshot.function_of_mem_anchors hmem)) ?_
    exact fun hdropped => ha hdropped.1
  · intro id hid
    have hid : id ≠ f.id := by simpa using hid
    exact Table.getElem?_insert_of_ne hid.symm
  · intro g hg
    obtain rfl := List.mem_singleton.mp hg
    change (r.snapshots.insert g.id (.take b.function))[g.id]? = _
    rw [ExtTreeMap.getElem?_insert_self, hfunction]
  · rw [seeing, ← hobserved]
    refine hrests.later hfunction.symm (hidles.consistent.congr rfl rfl rfl) (fun _ _ => rfl) rfl
      ?_ (fun _ _ => rfl) rfl (.refl hidles.answered.registered)
    have hmem := b.start_touched (.take f)
    rw [hrests.started] at hmem
    exact hmem

theorem edits_le_foldlM {snapshots : List Snapshot}
    (hok : snapshots.foldlM (instrumentNext sources) r = .ok r') : r.edits ≤ r'.edits :=
  Bench.foldlM_invariant (P := fun r' => r.edits ≤ r'.edits) (Nat.le_refl _)
    (fun _ hle h => hle.trans (edits_le_instrumentNext h)) hok

theorem instrumentEach_idles (hr : r.Regular) (hd : ∀ d ∈ sources.detector, d.IsBuiltin)
    (hfs : ∀ f ∈ fs, r.functions[f.id]? = some f) (hids : (fs.map (·.id)).Nodup)
    (hok : (fs.map Snapshot.take).foldlM (instrumentNext sources) r = .ok r')
    (hq : r'.edits ≤ r.edits) : r.Idles sources r' fs := by
  refine instrumentEach_induction (motive := fun r fs => r.Regular → r'.edits ≤ r.edits →
    r.Idles sources r' fs) ?nil ?cons hfs hids hok hr hq
  case nil => exact fun hr _ => .refl hr
  case cons =>
    intro r r₁ f fs hf hnot h₁ hok ih hr hq
    have hone := instrumentNext_idles hr hd hf h₁ ((edits_le_foldlM hok).trans hq)
    refine hone.trans (ih hone.regular (hq.trans (edits_le_instrumentNext h₁))) ?_
    intro g hg
    obtain rfl := List.mem_singleton.mp hg
    exact hnot

theorem foldl_observe_take (hfs : ∀ f ∈ fs, r.functions[f.id]? = some f) :
    (fs.map Snapshot.take).foldl observe r = { r with hooks := r.hooks.observeAll fs } := by
  induction fs generalizing r with
  | nil => rfl
  | cons f fs ih =>
    rw [List.map_cons, List.foldl_cons, observe_take (hfs f List.mem_cons_self)]
    exact ih fun g hg => hfs g (List.mem_cons_of_mem _ hg)

theorem Regular.learned_eq (h : r.Regular) :
    r.learned = { r with hooks := r.hooks.observeAll r.functions } :=
  foldl_observe_take fun _ => h.getElem?

theorem Regular.learned (h : r.Regular) : r.learned.Regular := by
  rw [h.learned_eq, Hooks.observeAll_fields]
  exact h.congr rfl rfl rfl rfl rfl

theorem run_idles (h : r.Regular) (hd : ∀ d ∈ sources.detector, d.IsBuiltin)
    (hok : r.run sources = .ok r') (hq : r'.edits ≤ r.edits) :
    r.learned.Idles sources r' r.functions := by
  have hfunctions := r.learned_functions
  have hedits : r.learned.edits = r.edits := by rw [edits, r.learned_stats, edits]
  refine instrumentEach_idles h.learned hd (fun f hf => ?_) (Functions.nodup_ids h.ids) hok
    (hedits ▸ hq)
  rw [hfunctions]
  exact h.getElem? hf

theorem Regular.run (h : r.Regular) (hd : ∀ d ∈ sources.detector, d.IsBuiltin)
    (hok : r.run sources = .ok r') : r'.Regular :=
  Bench.foldlM_invariant h.learned (fun _ hr h => hr.instrumentNext hd h) hok

/-! ## One more pass -/

/-- The round in the middle of another pass. -/
def resume (r : Round) (h : Hooks) (t : Cancellation) (stats : InstrumentStats) : Round :=
  { r.seeing h with cancellation := t, stats }

theorem start_resume
    (hr : ((r.seeing (h.observe f (.take f))).bench f).Rests sources (.take f))
    (t : Cancellation) (stats : InstrumentStats) :
    ((r.resume h t stats).bench f).start (.take f) =
      (r.seeing (h.observe f (.take f))).bench f := by
  have htouched : r.hooks.touched.insert f.id () = r.hooks.touched := by
    have hmem := congrArg (·.hooks.touched) hr.started
    rwa [Bench.start_eq] at hmem
  have hsame : (((r.resume h t stats).hooks).touch f.id).observed = h.observed := rfl
  have hobserved := Hooks.observe_congr hsame f
  rw [Bench.start_eq]
  change (⟨f, ⟨r.hooks.built, r.hooks.active, r.hooks.last,
    (((r.resume h t stats).hooks.touch f.id).observe f (.take f)).observed,
    r.hooks.touched.insert f.id ()⟩, r.conventions, r.asked, .zero⟩ : Bench) = _
  rw [hobserved, htouched]
  rfl

theorem instrument_resume (hd : ∀ d ∈ sources.detector, d.IsBuiltin)
    (hr : ((r.seeing (h.observe f (.take f))).bench f).Rests sources (.take f))
    (hf : r.functions[f.id]? = some f) (t : Cancellation) (stats : InstrumentStats) :
    ∃ n, (r.resume h t stats).instrument sources f (.take f) =
      .ok (r.resume (h.observe f (.take f)) t
        { stats with unresolved := stats.unresolved + n }) := by
  have hagain := hr.instrument hd
  rw [← start_resume hr t stats,
    Bench.instrument_start (b := (r.resume h t stats).bench f) hr.serves hr.conventions
      hr.signatures, start_resume hr t stats] at hagain
  generalize Hooks.vacant _ _ = n at hagain
  refine ⟨n, ?_⟩
  have hset : r.functions.set f.id f = r.functions := congrArg Round.functions (putBack_bench hf)
  have hmerge : stats.merge { InstrumentStats.zero with unresolved := 0 + n } =
      { stats with unresolved := stats.unresolved + n } := by
    simp [InstrumentStats.merge, InstrumentStats.zero]
  rw [Round.instrument, hagain]
  change Except.ok (ε := Stopped) (⟨r.functions.set f.id f, (r.seeing (h.observe f (.take f))).hooks,
    r.snapshots, r.conventions, r.asked, t,
    stats.merge { InstrumentStats.zero with unresolved := 0 + n }⟩ : Round) = _
  rw [hset, hmerge]
  rfl

/-- What another pass over functions at rest comes to, unless it is cancelled. -/
def Again (r : Round) (h : Hooks) (stats : InstrumentStats) (q : Round) : Prop :=
  ∃ n, q = r.resume h q.cancellation { stats with unresolved := stats.unresolved + n }

theorem instrumentNext_resume (hd : ∀ d ∈ sources.detector, d.IsBuiltin)
    (hr : ((r.seeing (h.observe f (.take f))).bench f).Rests sources (.take f))
    (hf : r.functions[f.id]? = some f) (hs : r.snapshots[f.id]? = some (.take f))
    (t : Cancellation) (stats : InstrumentStats) :
    Goes Stopped.cause (t = .never) (instrumentNext sources (r.resume h t stats) (.take f))
      fun q => (t = .never → q.cancellation = .never) ∧
        r.Again (h.observe f (.take f)) stats q := by
  cases hpoll : t.poll with
  | none =>
    have hstop : instrumentNext sources (r.resume h t stats) (.take f) =
        .error ⟨r.resume h t stats, .cancelled⟩ := by
      have hpoll : (r.resume h t stats).cancellation.poll = none := hpoll
      simp only [instrumentNext, hpoll]
    rw [hstop]
    refine ⟨rfl, fun hn => ?_⟩
    rw [hn] at hpoll
    cases hpoll
  | some t' =>
    obtain ⟨n, hn⟩ := instrument_resume hd hr hf t' stats
    have hsnapshots : r.snapshots.insert f.id (.take f) = r.snapshots := Table.insert_eq_self hs
    have hpoll' : (r.resume h t stats).cancellation.poll = some t' := hpoll
    have hplace : (r.resume h t stats).functions[(Snapshot.take f).function]? = some f := hf
    have hplace' : (r.resume (h.observe f (.take f)) t' { stats with
        unresolved := stats.unresolved + n }).functions[(Snapshot.take f).function]? = some f := hf
    have hkept : (r.resume (h.observe f (.take f)) t' { stats with
        unresolved := stats.unresolved + n }).snapshots.insert (Snapshot.take f).function
          (.take f) = r.snapshots := hsnapshots
    rw [instrumentNext_of_ok hpoll' hplace hn, hplace', Option.getD_some, hkept]
    refine .of_ok ⟨fun hnever => ?_, n, rfl⟩
    rw [hnever] at hpoll
    exact (Option.some.inj hpoll).symm

theorem RestsAll.instrumentEach (hd : ∀ d ∈ sources.detector, d.IsBuiltin)
    (hr : r.RestsAll sources h fs) (hfs : ∀ f ∈ fs, r.functions[f.id]? = some f)
    (hs : ∀ f ∈ fs, r.snapshots[f.id]? = some (.take f)) (t : Cancellation)
    (stats : InstrumentStats) :
    Goes Stopped.cause (t = .never)
      ((fs.map Snapshot.take).foldlM (instrumentNext sources) (r.resume h t stats)) fun q =>
        (t = .never → q.cancellation = .never) ∧ r.Again (h.observeAll fs) stats q := by
  induction fs generalizing h t stats with
  | nil => exact .of_ok ⟨id, 0, rfl⟩
  | cons f fs ih =>
    rw [List.map_cons, List.foldlM_cons]
    refine (instrumentNext_resume hd hr.1 (hfs f List.mem_cons_self) (hs f List.mem_cons_self) t
      stats).bind ?_
    rintro q ⟨hnever, n, hq⟩
    rw [hq]
    refine (ih hr.2 (fun g hg => hfs g (List.mem_cons_of_mem _ hg))
      (fun g hg => hs g (List.mem_cons_of_mem _ hg)) q.cancellation _).mono hnever ?_
    rintro q' ⟨hnever', m, hq'⟩
    refine ⟨fun hn => hnever' (hnever hn), n + m, ?_⟩
    rw [← Nat.add_assoc]
    exact hq'

theorem run_again (hr : r.Regular) (hd : ∀ d ∈ sources.detector, d.IsBuiltin)
    (hok : r.run sources = .ok r') (hq : r'.edits ≤ r.edits) :
    Goes Stopped.cause (r'.cancellation = .never) ({ r' with stats := .zero }.run sources) fun q =>
      (r'.cancellation = .never → q.cancellation = .never) ∧ r'.Again r'.hooks .zero q := by
  have hidles := run_idles hr hd hok hq
  have hobserved : (r.learned.hooks.observeAll r.functions).observed = r'.hooks.observed :=
    hidles.observed.symm
  have htwice : r.learned.hooks.observeAll r.functions = r.learned.hooks := by
    rw [hr.learned_eq]
    exact r.hooks.observeAll_twice r.functions
  have hfunctions : r'.functions = r.functions := hidles.functions.trans r.learned_functions
  have hregular : Regular { r' with stats := .zero } := hidles.regular.congr rfl rfl rfl rfl rfl
  -- What is observed before the first turn is what was observed at the end.
  have hlearned : Round.learned { r' with stats := .zero } =
      r'.resume r.learned.hooks r'.cancellation .zero := by
    have hall : r'.hooks.observeAll r'.functions = { r'.hooks with
        observed := r.learned.hooks.observed } := by
      rw [hfunctions, Hooks.observeAll_fields, Hooks.observeAll_congr hobserved.symm, htwice,
        htwice]
    rw [hregular.learned_eq]
    change { r' with stats := .zero, hooks := r'.hooks.observeAll r'.functions } = _
    rw [hall]
    rfl
  have hrounds := hidles.rests.instrumentEach hd (fun f hf => by
    rw [hfunctions]
    exact hr.getElem? hf) hidles.current r'.cancellation .zero
  rw [← hlearned, ← hfunctions] at hrounds
  refine hrounds.mono id ?_
  rintro q ⟨hnever, hagain⟩
  refine ⟨hnever, ?_⟩
  rw [hfunctions] at hagain
  obtain ⟨n, hq⟩ := hagain
  refine ⟨n, ?_⟩
  rw [resume, seeing, hobserved] at hq
  exact hq

end Round

/-! ## What an engine can remember -/

/-- An engine starts with no hook, and from then on it looks at functions, instruments them and
takes their hooks off, whatever the functions and the snapshots are. -/
inductive Hooks.Reachable : Hooks → Prop
  | empty : Reachable .empty
  | observe {h : Hooks} (hr : Reachable h) (f : Function) (s : Snapshot) :
      Reachable (h.observe f s)
  | instrument {b : Bench} (hr : Reachable b.hooks) (sources : Sources) (s : Snapshot) :
      Reachable (Bench.left (b.instrument sources s)).hooks
  | deinstrument {b : Bench} (hr : Reachable b.hooks) : Reachable b.deinstrument.hooks

theorem Hooks.Reachable.consistent {h : Hooks} (hr : h.Reachable) : h.Consistent := by
  induction hr with
  | empty => exact consistent_empty
  | @observe h hr f s ih =>
    rw [observe_fields]
    exact ih.congr rfl rfl rfl
  | @instrument b hr sources s ih =>
    cases hm : s.mismatch? b.function with
    | some e =>
      rw [Bench.instrument_of_mismatch hm]
      exact ih
    | none =>
      have hmoves : Bench.Moves sources.detector sources.signatures.value (fun _ => True) b
          (Bench.left (b.instrument sources s)) :=
        .head (.start b s) (Bench.instrument_moves hm fun _ _ => trivial)
      exact Bench.Moves.consistent hmoves ih
  | @deinstrument b hr ih =>
    have hmoves : Bench.Moves none .empty (fun _ => True) b b.deinstrument := b.deinstrument_moves
    exact Bench.Moves.consistent hmoves ih

/-! ## Whole runs -/

namespace Workspace

variable {w w' : Workspace} {c : Configuration} {sources : Sources} {r q : Round}
variable {stats stats' : ScheduleStats}

/-- The functions are where their numbers say, the registries assign conventions that they have
registered, and the engine, if there is one, has been used as engines can be and has no detector or
a built-in one. -/
structure Proper (w : Workspace) : Prop where
  ids : ∀ fs ∈ w.functions, ∀ {i : Nat} {f : Function}, fs[i]? = some f → f.id = i
  registered : w.currentConventions.value.AllRegistered
  reachable : ∀ e ∈ w.engine, e.hooks.Reachable
  detector : ∀ e ∈ w.engine, ∀ d ∈ e.detector, d.IsBuiltin
  own : ∀ e ∈ w.engine, ∀ cs ∈ e.ownConventions, cs.value.AllRegistered

/-- Nothing is lacking that a run would fill in. -/
structure Prepared (w : Workspace) : Prop where
  functions : w.functions.isSome
  owners : w.owners.isSome
  snapshots : w.snapshots.isSome
  conventions : w.conventions.isSome
  signatures : w.signatures.isSome
  engine : w.engine.isSome

def filled (w : Workspace) (c : Configuration) (fs : Functions) : Workspace :=
  let w := ensureRegistries { w with
    functions := some fs
    owners := some (w.owners.getD (.ofFunctions fs))
    snapshots := some (w.snapshots.getD ∅) }
  if w.engine.isSome then w else w.installEngine (w.configuredDetector c)

theorem prepare_of_functions {fs : Functions} (hfs : w.functions = some fs) (c : Configuration) :
    w.prepare c = .ok (w.filled c fs) := by
  simp only [prepare, hfs]
  rfl

theorem prepare_eq_ok (hok : w.prepare c = .ok w') :
    ∃ fs, (w.functions = some fs ∨ ∃ p : Program, p.buildFunctions = .ok fs) ∧
      w' = w.filled c fs := by
  cases hfs : w.functions with
  | some fs =>
    rw [prepare_of_functions hfs] at hok
    exact ⟨fs, .inl rfl, (Except.ok.inj hok).symm⟩
  | none =>
    cases hp : w.program with
    | none =>
      simp only [prepare, hfs, hp] at hok
      cases hok
    | some p =>
      simp only [prepare, hfs, hp] at hok
      obtain ⟨fs, hbuilt, hok⟩ := Bench.bind_eq_ok hok
      cases hb : p.buildFunctions with
      | error e =>
        rw [hb] at hbuilt
        cases hbuilt
      | ok gs =>
        rw [hb] at hbuilt
        obtain rfl := Except.ok.inj hbuilt
        refine ⟨gs, .inr ⟨p, hb⟩, ?_⟩
        rw [← Except.ok.inj hok, filled]
        simp only [← hp]

theorem filled_of_engine {e : Engine} (he : w.engine = some e) (c : Configuration)
    (fs : Functions) : w.filled c fs = ensureRegistries { w with
      functions := some fs
      owners := some (w.owners.getD (.ofFunctions fs))
      snapshots := some (w.snapshots.getD ∅) } :=
  if_pos (by simp [ensureRegistries, he])

theorem filled_prepared (w : Workspace) (c : Configuration) (fs : Functions) :
    (w.filled c fs).Prepared := by
  unfold filled
  dsimp only
  split
  · next hengine => exact ⟨rfl, rfl, rfl, rfl, rfl, hengine⟩
  · exact ⟨rfl, rfl, rfl, rfl, rfl, rfl⟩

theorem Prepared.prepare (h : w.Prepared) (c : Configuration) : w.prepare c = .ok w := by
  obtain ⟨fs, hfs⟩ := Option.isSome_iff_exists.mp h.functions
  obtain ⟨os, hos⟩ := Option.isSome_iff_exists.mp h.owners
  obtain ⟨ss, hss⟩ := Option.isSome_iff_exists.mp h.snapshots
  obtain ⟨cs, hcs⟩ := Option.isSome_iff_exists.mp h.conventions
  obtain ⟨sigs, hsigs⟩ := Option.isSome_iff_exists.mp h.signatures
  obtain ⟨e, he⟩ := Option.isSome_iff_exists.mp h.engine
  rw [prepare_of_functions hfs, filled_of_engine he]
  simp only [ensureRegistries, hos, hss, hcs, hsigs, Option.getD_some]
  rw [← hfs, ← hos, ← hss, ← hcs, ← hsigs]

theorem Prepared.putBack (h : w.Prepared) (r : Round) : (w.putBack r).Prepared where
  functions := rfl
  owners := h.owners
  snapshots := rfl
  conventions := by
    change (if _ then some r.conventions else w.conventions).isSome
    split
    · rfl
    · exact h.conventions
  signatures := h.signatures
  engine := by
    change (w.engine.map _).isSome
    rw [Option.isSome_map]
    exact h.engine

theorem round?_filled (w : Workspace) (c : Configuration) (fs : Functions) :
    ∃ sources r, (w.filled c fs).round? = some (sources, r) ∧ r.functions = fs ∧
      ((∃ e, w.engine = some e ∧ sources.detector = e.detector ∧ r.hooks = e.hooks ∧
          r.conventions = w.engineConventions e) ∨
        w.engine = none ∧ sources.detector = w.configuredDetector c ∧ r.hooks = .empty ∧
          r.conventions = w.currentConventions) := by
  cases he : w.engine with
  | some e =>
    rw [filled_of_engine he]
    refine ⟨⟨e.detector, w.engineSignatures e⟩, { w.firstRound fs with
      hooks := e.hooks, conventions := w.engineConventions e }, ?_, rfl,
      .inl ⟨e, rfl, rfl, rfl, rfl⟩⟩
    simp [round?, ensureRegistries, he, engineConventions, engineSignatures, currentConventions,
      currentSignatures, firstRound]
  | none =>
    have hnew : w.filled c fs = installEngine (ensureRegistries { w with
        functions := some fs
        owners := some (w.owners.getD (.ofFunctions fs))
        snapshots := some (w.snapshots.getD ∅) }) (w.configuredDetector c) :=
      if_neg (by simp [ensureRegistries, he])
    rw [hnew]
    exact ⟨⟨w.configuredDetector c, w.currentSignatures⟩, w.firstRound fs, rfl, rfl,
      .inr ⟨rfl, rfl, rfl, rfl⟩⟩

theorem Proper.filled (h : w.Proper) (c : Configuration) {fs : Functions}
    (hids : ∀ {i : Nat} {f : Function}, fs[i]? = some f → f.id = i) :
    ∃ sources r, (w.filled c fs).round? = some (sources, r) ∧ r.Regular ∧
      ∀ d ∈ sources.detector, d.IsBuiltin := by
  obtain ⟨sources, r, hr, hfunctions, hengine⟩ := w.round?_filled c fs
  rw [← hfunctions] at hids
  refine ⟨sources, r, hr, ?_⟩
  rcases hengine with ⟨e, he, hdetector, hhooks, hconventions⟩ |
    ⟨-, hdetector, hhooks, hconventions⟩
  · refine ⟨⟨hhooks ▸ (h.reachable e he).consistent, hids, ?_⟩, hdetector ▸ h.detector e he⟩
    rw [hconventions, engineConventions]
    cases hown : e.ownConventions with
    | none => exact h.registered
    | some cs => exact h.own e he cs hown
  · refine ⟨⟨hhooks ▸ Hooks.consistent_empty, hids, hconventions ▸ h.registered⟩, ?_⟩
    rw [hdetector]
    exact w.configuredDetector_isBuiltin c

theorem Proper.prepare (h : w.Proper) (hok : w.prepare c = .ok w') :
    w'.Prepared ∧ ∃ sources r, w'.round? = some (sources, r) ∧ r.Regular ∧
      ∀ d ∈ sources.detector, d.IsBuiltin := by
  obtain ⟨fs, hfs, rfl⟩ := prepare_eq_ok hok
  refine ⟨w.filled_prepared c fs, h.filled c ?_⟩
  rcases hfs with hfs | ⟨p, hp⟩
  · exact h.ids fs hfs
  · have hfresh : (w.firstRound fs).Fresh := Program.buildFunctions_fresh hp rfl rfl
    intro i f hf
    exact hfresh.ids hf

theorem runRounds_last {P : Round → Prop} {n : Nat} (h : w.Prepared)
    (hround : w.round? = some (sources, r)) (hr : P r)
    (hkept : ∀ q q', P q → q.run sources = .ok q' → P { q' with stats := .zero })
    (hstats : stats.converged = false) (hok : runRounds n w stats = .ok (w', stats'))
    (hconverged : stats'.converged) :
    0 < n ∧ ∃ (w₀ : Workspace) (r₀ r₁ : Round), w₀.Prepared ∧ w₀.round? = some (sources, r₀) ∧
      P r₀ ∧ r₀.run sources = .ok r₁ ∧ r₁.edits ≤ r₀.edits ∧ w' = w₀.putBack r₁ ∧
        ∃ v, w'.revisions = .ok v := by
  induction n generalizing w r stats with
  | zero =>
    obtain ⟨rfl, rfl⟩ := Prod.mk.inj (Except.ok.inj hok)
    rw [hstats] at hconverged
    cases hconverged
  | succ n ih =>
    refine ⟨Nat.succ_pos n, ?_⟩
    rw [runRounds] at hok
    obtain ⟨before, hbefore, hok⟩ := Bench.bind_eq_ok hok
    obtain ⟨⟨w₁, done⟩, hdone, hok⟩ := Bench.bind_eq_ok hok
    obtain ⟨after, hafter, hok⟩ := Bench.bind_eq_ok hok
    cases hrun : r.run sources with
    | error stopped =>
      simp only [runRound, hround, hrun] at hdone
      cases hdone
    | ok r₁ =>
      simp only [runRound, hround, hrun] at hdone
      obtain ⟨rfl, rfl⟩ := Prod.mk.inj (Except.ok.inj hdone)
      dsimp only at hok
      split at hok
      · next hsame =>
        obtain ⟨rfl, rfl⟩ := Prod.mk.inj (Except.ok.inj hok)
        have hidle : r₁.stats.attached = 0 ∧ r₁.stats.detached = 0 := by
          have hsame := (Bool.and_eq_true _ _ ▸ hsame).1
          simpa [InstrumentStats.changed] using hsame
        refine ⟨w, r, r₁, h, hround, hr, hrun, ?_, rfl, ?_⟩
        · rw [Round.edits, hidle.1, hidle.2]
          exact Nat.zero_le _
        · cases hv : (w.putBack r₁).revisions with
          | error e =>
            rw [hv] at hafter
            cases hafter
          | ok v => exact ⟨v, rfl⟩
      · next hmore =>
        exact (ih (h.putBack r₁) (round?_putBack hround r₁) (hkept r r₁ hr hrun)
          (Bool.eq_false_iff.mpr hmore) hok).2

theorem runRounds_converged {n : Nat} (h : w.Prepared) (hround : w.round? = some (sources, r))
    (hr : r.Regular) (hd : ∀ d ∈ sources.detector, d.IsBuiltin) (hstats : stats.converged = false)
    (hok : runRounds n w stats = .ok (w', stats')) (hconverged : stats'.converged) :
    0 < n ∧ ∃ (w₀ : Workspace) (r₀ r₁ : Round), w₀.Prepared ∧ w₀.round? = some (sources, r₀) ∧
      r₀.Regular ∧ r₀.run sources = .ok r₁ ∧ r₁.edits ≤ r₀.edits ∧ w' = w₀.putBack r₁ ∧
        ∃ v, w'.revisions = .ok v :=
  runRounds_last h hround hr (fun _ _ hq hrun => (hq.run hd hrun).congr rfl rfl rfl rfl rfl) hstats
    hok hconverged

/-- Only the poll of another pass is seen in the workspace. -/
theorem putBack_again (h : w.Prepared) {r' : Round}
    (hq : ∃ n, q = r'.resume r'.hooks q.cancellation
      { InstrumentStats.zero with unresolved := n }) :
    (w.putBack r').putBack q = { w.putBack r' with cancellation := q.cancellation } := by
  obtain ⟨n, hq⟩ := hq
  obtain ⟨e, he⟩ := Option.isSome_iff_exists.mp h.engine
  rw [hq]
  cases hown : e.ownConventions <;>
    simp [putBack, Round.resume, Round.seeing, he, hown]

theorem runRounds_again {n : Nat} {v : Nat × Nat} (hround : w.round? = some (sources, r))
    (hv : w.revisions = .ok v) (hrun : r.run sources = .ok q)
    (hput : w.putBack q = { w with cancellation := q.cancellation })
    (hq : q.stats.changed = false) :
    runRounds (n + 1) w stats =
      .ok ({ w with cancellation := q.cancellation }, stats.after q.stats true) := by
  have hv' : Workspace.revisions { w with cancellation := q.cancellation } = .ok v := hv
  simp only [runRounds, hv, runRound, hround, hrun, hput, hv', Except.mapError, bind, Except.bind,
    hq]
  simp [ScheduleStats.after]

theorem run_eq (hp : w.prepare c = .ok w') (hend : c.deinstrumentAtEnd = false)
    (hemit : c.emitTree = false) :
    w.run c = runRounds c.maxIterations w' .zero := by
  have hfinish : ∀ done : Workspace × ScheduleStats, done.1.finish c done.2 = .ok done := by
    intro done
    simp only [finish, hend, hemit, Bool.false_eq_true, if_false]
    rfl
  rw [run_of_prepare hp]
  cases runRounds c.maxIterations w' .zero with
  | error i => rfl
  | ok done => exact hfinish done

theorem run_putBack (h : w.Prepared) (hround : w.round? = some (sources, r)) (hr : r.Regular)
    (hd : ∀ d ∈ sources.detector, d.IsBuiltin) {r' : Round} (hok : r.run sources = .ok r')
    (hq : r'.edits ≤ r.edits) {v : Nat × Nat} (hv : (w.putBack r').revisions = .ok v)
    (hend : c.deinstrumentAtEnd = false) (hemit : c.emitTree = false) (hn : 0 < c.maxIterations) :
    Goes Interrupted.cause (r'.cancellation = .never) ((w.putBack r').run c) fun done =>
      (r'.cancellation = .never → done.1.cancellation = .never) ∧
        done.1 = { w.putBack r' with cancellation := done.1.cancellation } ∧
          ∃ n, done.2 = ⟨1, true, { InstrumentStats.zero with unresolved := n }, 0⟩ := by
  have hround' := round?_putBack hround r'
  obtain ⟨n, hn⟩ := Nat.exists_eq_succ_of_ne_zero hn.ne'
  rw [run_eq ((h.putBack r').prepare c) hend hemit, hn]
  obtain ⟨hagain, hnever⟩ := Round.run_again hr hd hok hq
  cases hrun : Round.run { r' with stats := .zero } sources with
  | error stopped =>
    rw [hrun] at hagain hnever
    have hstop : runRounds (n + 1) (w.putBack r') .zero =
        .error ⟨(w.putBack r').putBack stopped.round, stopped.cause⟩ := by
      simp only [runRounds, hv, runRound, hround', hrun]
      rfl
    rw [hstop]
    refine ⟨hagain, fun hn => ?_⟩
    obtain ⟨q, hq⟩ := hnever hn
    cases hq
  | ok q =>
    rw [hrun] at hagain
    obtain ⟨hkept, m, hm⟩ := hagain
    rw [InstrumentStats.zero, Nat.zero_add] at hm
    have hstats : q.stats = { InstrumentStats.zero with unresolved := m } := congrArg Round.stats hm
    have hchanged : q.stats.changed = false := by
      rw [hstats]
      rfl
    rw [runRounds_again hround' hv hrun (putBack_again h ⟨m, hm⟩) hchanged]
    refine .of_ok ⟨hkept, rfl, m, ?_⟩
    rw [hstats]
    simp [ScheduleStats.after, ScheduleStats.zero]

/-- A run that has converged is a fixpoint: run again, the workspace stays as it is, and the one
round that it takes counts nothing but the anchors without a hook. Only a cancellation stops it, and
apart from how often that is still polled nothing differs afterwards. -/
theorem run_twice (h : w.Proper) (hend : c.deinstrumentAtEnd = false)
    (hemit : c.emitTree = false) (hok : w.run c = .ok (w', stats)) (hconverged : stats.converged) :
    (w'.cancellation = .never → ∃ n, w'.run c =
      .ok (w', ⟨1, true, { InstrumentStats.zero with unresolved := n }, 0⟩)) ∧
    (∀ i, w'.run c = .error i → i.cause = .cancelled) ∧
    ∀ w'' stats', w'.run c = .ok (w'', stats') →
      w'' = { w' with cancellation := w''.cancellation } ∧
        ∃ n, stats' = ⟨1, true, { InstrumentStats.zero with unresolved := n }, 0⟩ := by
  cases hprepare : w.prepare c with
  | error e =>
    rw [run, hprepare] at hok
    cases hok
  | ok w₁ =>
    obtain ⟨hprepared, sources, r, hround, hr, hd⟩ := h.prepare hprepare
    rw [run_eq hprepare hend hemit] at hok
    obtain ⟨hn, w₀, r₀, r₁, h₀, hround₀, hr₀, hrun₀, hedits, rfl, v, hv⟩ :=
      runRounds_converged hprepared hround hr hd rfl hok hconverged
    obtain ⟨hyields, hnever⟩ := run_putBack h₀ hround₀ hr₀ hd hrun₀ hedits hv hend hemit hn
    refine ⟨?_, ?_, ?_⟩
    · intro htoken
      have htoken : r₁.cancellation = .never := htoken
      obtain ⟨done, hdone⟩ := hnever htoken
      rw [hdone] at hyields ⊢
      obtain ⟨hkept, hsame, n, hstats⟩ := hyields
      refine ⟨n, congrArg Except.ok (Prod.ext ?_ hstats)⟩
      rw [hkept htoken, ← htoken] at hsame
      exact hsame
    · intro i hi
      rw [hi] at hyields
      exact hyields
    · intro w'' stats' hdone
      rw [hdone] at hyields
      exact hyields.2

/-- The sample program has all its anchors hooked after two rounds, which a third one finds out. -/
theorem loaded_run_twice :
    ∃ w stats n, loaded.run .sample = .ok (w, stats) ∧ stats.iterations = 3 ∧
      stats.instrument.attached = 4 ∧
        w.run .sample = .ok (w, ⟨1, true, { InstrumentStats.zero with unresolved := n }, 0⟩) := by
  have hexists : (loaded.run .sample).toOption.any fun done => done.2.iterations == 3 &&
      done.2.instrument.attached == 4 && done.2.converged &&
        done.1.cancellation == .never := by decide +kernel
  obtain ⟨⟨w, stats⟩, hok, hdone⟩ := exists_of_any_toOption hexists
  simp only [Bool.and_eq_true, beq_iff_eq] at hdone
  obtain ⟨⟨⟨hiterations, hattached⟩, hconverged⟩, hnever⟩ := hdone
  have hproper : loaded.Proper := by
    refine ⟨?_, ?_, ?_, ?_, ?_⟩
    · intro fs hfs
      cases hfs
    · exact fun callee id hid => (loaded_assignsAddresses callee id hid).2
    all_goals
      intro e he
      cases he
  obtain ⟨n, hagain⟩ := (run_twice hproper rfl rfl hok hconverged).1 hnever
  exact ⟨w, stats, n, hok, hiterations, hattached, hagain⟩

end Workspace

end CallEffects
