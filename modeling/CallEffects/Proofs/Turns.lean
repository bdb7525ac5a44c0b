import CallEffects.Round
import CallEffects.Proofs.Frames

/-!
# Turns of a round

Between two rounds, and within one, the engine, the registries and the functions change by turns: a
registry or a function is edited, a callee is observed, one function is instrumented or loses its
hooks. `Round.InOrder` is what every turn keeps, whatever snapshot it is taken with. `Each` compares
two lists of functions position by position.
-/

namespace CallEffects

open Std

namespace Functions

/-- The lists are equally long, and a function is related to the one that takes its place. -/
structure Each (rel : Function → Function → Prop) (fs fs' : Functions) : Prop where
  length_eq : fs'.length = fs.length
  related : ∀ {i : Nat} {f : Function}, fs[i]? = some f → ∃ f', fs'[i]? = some f' ∧ rel f f'

variable {rel : Function → Function → Prop} {fs fs' fs'' : Functions}

theorem Each.refl (h : ∀ f, rel f f) (fs : Functions) : Each rel fs fs :=
  ⟨rfl, fun {_} f hf => ⟨f, hf, h f⟩⟩

theorem Each.trans [IsTrans Function rel] (h : Each rel fs fs') (h' : Each rel fs' fs'') :
    Each rel fs fs'' := by
  refine ⟨h'.length_eq.trans h.length_eq, ?_⟩
  intro i f hf
  obtain ⟨g, hg, hfg⟩ := h.related hf
  obtain ⟨k, hk, hgk⟩ := h'.related hg
  exact ⟨k, hk, IsTrans.trans f g k hfg hgk⟩

theorem getElem?_set_cases {i j : Nat} {f g : Function} (h : (fs.set i g)[j]? = some f) :
    (j = i ∧ f = g) ∨ (j ≠ i ∧ fs[j]? = some f) := by
  by_cases hij : i = j
  · subst hij
    have hlt := (List.getElem?_eq_some_iff.mp h).1
    rw [List.length_set] at hlt
    rw [List.getElem?_set_self hlt] at h
    exact .inl ⟨rfl, (Option.some.inj h).symm⟩
  · rw [List.getElem?_set_ne hij] at h
    exact .inr ⟨fun he => hij he.symm, h⟩

theorem Each.set (hr : ∀ f, rel f f) {i : Nat} {f g : Function} (hf : fs[i]? = some f)
    (hg : rel f g) : Each rel fs (fs.set i g) := by
  refine ⟨List.length_set, ?_⟩
  intro j k hk
  by_cases hij : i = j
  · subst hij
    obtain rfl := Option.some.inj (hf.symm.trans hk)
    exact ⟨g, by rw [List.getElem?_set_self (List.getElem?_eq_some_iff.mp hf).1], hg⟩
  · exact ⟨k, by rw [List.getElem?_set_ne hij, hk], hr k⟩

theorem Each.mono {rel' : Function → Function → Prop} (hr : ∀ f g, rel f g → rel' f g)
    (h : Each rel fs fs') : Each rel' fs fs' := by
  refine ⟨h.length_eq, ?_⟩
  intro i f hf
  obtain ⟨g, hg, hfg⟩ := h.related hf
  exact ⟨g, hg, hr f g hfg⟩

theorem Each.map_eq {α : Type} {F : Function → α} (h : Each rel fs fs')
    (hr : ∀ f g, rel f g → F g = F f) : fs'.map F = fs.map F := by
  apply List.ext_getElem?
  intro i
  rw [List.getElem?_map, List.getElem?_map]
  cases hf : fs[i]? with
  | none =>
    rw [List.getElem?_eq_none_iff, ← h.length_eq, ← List.getElem?_eq_none_iff] at hf
    rw [hf]
  | some f =>
    obtain ⟨g, hg, hfg⟩ := h.related hf
    rw [hg, Option.map_some, Option.map_some, hr f g hfg]

theorem Each.of_mem (h : Each rel fs fs') {g : Function} (hg : g ∈ fs') :
    ∃ (i : Nat) (f : Function), fs[i]? = some f ∧ fs'[i]? = some g ∧ rel f g := by
  obtain ⟨i, hi⟩ := List.mem_iff_getElem?.mp hg
  have hlt := (List.getElem?_eq_some_iff.mp hi).1
  rw [h.length_eq] at hlt
  have hf : fs[i]? = some fs[i] := List.getElem?_eq_getElem hlt
  obtain ⟨g', hg', hrel⟩ := h.related hf
  obtain rfl := Option.some.inj (hi.symm.trans hg')
  exact ⟨i, fs[i], hf, hi, hrel⟩

theorem getElem?_id (h : ∀ {i : Nat} {f : Function}, fs[i]? = some f → f.id = i) {f : Function}
    (hf : f ∈ fs) : fs[f.id]? = some f := by
  obtain ⟨i, hi⟩ := List.mem_iff_getElem?.mp hf
  rw [h hi, hi]

theorem nodup_ids (h : ∀ {i : Nat} {f : Function}, fs[i]? = some f → f.id = i) :
    (fs.map (·.id)).Nodup := by
  refine List.pairwise_map.mpr (List.pairwise_iff_getElem.mpr ?_)
  intro i j hi hj hlt he
  rw [h (List.getElem?_eq_getElem hi), h (List.getElem?_eq_getElem hj)] at he
  exact absurd he (Nat.ne_of_lt hlt)

theorem map_set_of_eq {α : Type} {F : Function → α} {i : Nat} {f g : Function}
    (hf : fs[i]? = some f) (hg : F g = F f) : (fs.set i g).map F = fs.map F := by
  have heach : Each (fun f g => F g = F f) fs (fs.set i g) := by
    refine .set ?_ hf ?_
    · exact fun _ => rfl
    · exact hg
  exact heach.map_eq fun _ _ h => h

end Functions

/-- The function in the past or the present of another: its revision says whether it was edited. -/
structure Function.Later (f g : Function) : Prop where
  id_eq : g.id = f.id
  entryAddress_eq : g.entryAddress = f.entryAddress
  revision_le : f.revision ≤ g.revision
  code_eq : g.revision = f.revision → g.code = f.code

namespace Function.Later

variable {f g k : Function}

theorem refl (f : Function) : f.Later f := ⟨rfl, rfl, Nat.le_refl _, fun _ => rfl⟩

theorem trans (h : f.Later g) (h' : g.Later k) : f.Later k := by
  refine ⟨h'.id_eq.trans h.id_eq, h'.entryAddress_eq.trans h.entryAddress_eq,
    Nat.le_trans h.revision_le h'.revision_le, ?_⟩
  intro heq
  have hle := h'.revision_le
  rw [heq] at hle
  have hfg := Nat.le_antisymm hle h.revision_le
  exact (h'.code_eq (heq.trans hfg.symm)).trans (h.code_eq hfg)

instance : IsTrans Function Function.Later := ⟨fun _ _ _ => trans⟩

end Function.Later

theorem Function.SameCode.later {f g : Function} (h : f.SameCode g) : f.Later g :=
  ⟨h.id_eq, h.entryAddress_eq, Nat.le_of_eq h.revision_eq.symm, fun _ => h.code_eq⟩

theorem CodeEdit.apply_later {f g : Function} {e : CodeEdit} (h : e.apply f = .ok g) :
    f.Later g := by
  obtain ⟨hid, hentry, hrevision⟩ := apply_fields h
  refine ⟨hid, hentry, hrevision ▸ Nat.le_succ _, ?_⟩
  intro heq
  exact absurd (hrevision.symm.trans heq) (Nat.succ_ne_self _)

namespace Round

structure InOrder (r : Round) : Prop where
  consistent : r.hooks.Consistent
  ids : ∀ {i : Nat} {f : Function}, r.functions[i]? = some f → f.id = i
  accounts : ∀ f ∈ r.functions, r.hooks.Accounts f
  touched : ∀ {a : Anchor} {k : Hook}, r.hooks.active[a]? = some k → a.function ∈ r.hooks.touched
  present : ∀ {a : Anchor} {k : Hook}, r.hooks.active[a]? = some k →
    a.function < r.functions.length

def left : Except Stopped Round → Round
  | .ok r => r
  | .error stopped => stopped.round

@[simp] theorem left_ok (r : Round) : left (.ok r) = r := rfl

@[simp] theorem left_error (stopped : Stopped) : left (.error stopped) = stopped.round := rfl

variable {r r' : Round} {sources sources' : Sources} {f : Function} {b : Bench}
variable {detector : Option Detector} {signatures : Signatures} {wanted : Anchor → Prop}

theorem left_instrument (r : Round) (sources : Sources) (f : Function) (s : Snapshot) :
    left (r.instrument sources f s) = r.putBack (Bench.left ((r.bench f).instrument sources s)) := by
  unfold instrument
  cases (r.bench f).instrument sources s <;> rfl

theorem instrument_eq_ok {s : Snapshot} (h : r.instrument sources f s = .ok r') :
    ∃ b, (r.bench f).instrument sources s = .ok b ∧ r' = r.putBack b := by
  unfold instrument at h
  split at h
  · cases h
  · next b hb => exact ⟨b, hb, (Except.ok.inj h).symm⟩

theorem instrument_of_ok {s : Snapshot} (hb : (r.bench f).instrument sources s = .ok b) :
    r.instrument sources f s = .ok (r.putBack b) := by
  simp only [instrument, hb]

theorem putBack_bench (hf : r.functions[f.id]? = some f) : r.putBack (r.bench f) = r := by
  obtain ⟨hlt, hget⟩ := List.getElem?_eq_some_iff.mp hf
  have hset : r.functions.set f.id f = r.functions := by
    conv_lhs => arg 3; rw [← hget]
    exact List.set_getElem_self _
  simp only [putBack, bench, hset, InstrumentStats.merge_zero]

theorem functions_putBack {i : FunctionId} (hid : b.function.id = i) :
    (r.putBack b).functions = r.functions.set i b.function := by
  rw [← hid]
  rfl

theorem getElem?_putBack_cases (hid : b.function.id = f.id) {i : Nat} {g : Function}
    (hg : (r.putBack b).functions[i]? = some g) :
    (i = f.id ∧ g = b.function) ∨ (i ≠ f.id ∧ r.functions[i]? = some g) :=
  Functions.getElem?_set_cases (functions_putBack hid ▸ hg)

namespace InOrder

theorem getElem? (h : r.InOrder) (hf : f ∈ r.functions) : r.functions[f.id]? = some f :=
  Functions.getElem?_id h.ids hf

theorem bench_sound (h : r.InOrder) (hf : f ∈ r.functions) : (r.bench f).Sound :=
  ⟨h.consistent, h.accounts f hf⟩

theorem putBack (h : r.InOrder) (hf : f ∈ r.functions)
    (hm : Bench.Moves detector signatures wanted (r.bench f) b)
    (ht : ∀ {a : Anchor} {k : Hook}, b.hooks.active[a]? = some k → a.function ∈ b.hooks.touched) :
    (r.putBack b).InOrder := by
  have hsound := Bench.Moves.sound hm (h.bench_sound hf)
  have hframe := Bench.Moves.frame hm
  have hid : b.function.id = f.id := Bench.Moves.function_id hm
  obtain ⟨hlt, hget⟩ := List.getElem?_eq_some_iff.mp (h.getElem? hf)
  have hplace : ∀ {i : Nat} {g : Function}, (r.putBack b).functions[i]? = some g →
      (i = f.id ∧ g = b.function) ∨ (i ≠ f.id ∧ r.functions[i]? = some g) :=
    fun hg => getElem?_putBack_cases hid hg
  constructor
  · exact hsound.1
  · intro i g hg
    rcases hplace hg with ⟨rfl, rfl⟩ | ⟨-, hg⟩
    · exact hid
    · exact h.ids hg
  · intro g hg
    obtain ⟨i, hi⟩ := List.mem_iff_getElem?.mp hg
    rcases hplace hi with ⟨-, rfl⟩ | ⟨hne, hi⟩
    · exact hsound.2
    · obtain ⟨new, hnew, hown⟩ := hframe.built
      have hgi := h.ids hi
      refine (h.accounts g (List.mem_of_getElem? hi)).frame hnew (fun k hk hkg => ?_) fun a ha => ?_
      · exact hne (hgi.symm.trans (hkg.symm.trans (hown k hk)))
      · exact hframe.active a fun he => hne (hgi.symm.trans (ha.symm.trans he))
  · exact ht
  · intro a k hk
    rw [functions_putBack hid, List.length_set]
    by_cases ha : a.function = f.id
    · rwa [ha]
    · exact h.present ((hframe.active a ha).symm.trans hk)

theorem congr (h : r.InOrder) (hf : r'.functions = r.functions) (hb : r'.hooks.built = r.hooks.built)
    (ha : r'.hooks.active = r.hooks.active) (hl : r'.hooks.last = r.hooks.last)
    (ht : r'.hooks.touched = r.hooks.touched) : r'.InOrder where
  consistent := h.consistent.congr hb ha hl
  ids hi := h.ids (hf ▸ hi)
  accounts f hf' := (h.accounts f (hf ▸ hf')).congr hb ha
  touched hk := ht ▸ h.touched (ha ▸ hk)
  present hk := hf ▸ h.present (ha ▸ hk)

theorem edit (h : r.InOrder) {g : Function} {e : CodeEdit} (hf : f ∈ r.functions)
    (hl : e.Lifted f) (he : e.apply f = .ok g) :
    { r with functions := r.functions.set f.id g }.InOrder := by
  have hid := (CodeEdit.apply_fields he).1
  constructor
  · exact h.consistent
  · intro i k hk
    rcases Functions.getElem?_set_cases hk with ⟨rfl, rfl⟩ | ⟨-, hk⟩
    · exact hid
    · exact h.ids hk
  · intro k hk
    obtain ⟨i, hi⟩ := List.mem_iff_getElem?.mp hk
    rcases Functions.getElem?_set_cases hi with ⟨-, rfl⟩ | ⟨-, hi⟩
    · exact (h.accounts f hf).codeEdit hl he
    · exact h.accounts k (List.mem_of_getElem? hi)
  · exact h.touched
  · intro a k hk
    simpa using h.present hk

end InOrder

/-- One change at a time; `serves` says which snapshots a function may be instrumented with. -/
inductive Turn (serves : Function → Snapshot → Prop) : Sources × Round → Sources × Round → Prop
  | conventions (sources : Sources) (r : Round) (cs : Conventions)
      (h : r.conventions.value.Extends cs) :
      Turn serves (sources, r) (sources, { r with conventions := { r.conventions with value := cs } })
  | signFunction (sources : Sources) (r : Round) (callee : Callee) (s : FunctionSignature) :
      Turn serves (sources, r) ({ sources with signatures := { sources.signatures with
        value := (sources.signatures.value.setFunction callee s).2 } }, r)
  | signCall (sources : Sources) (r : Round) (call : StatementRef) (s : CallSignature) :
      Turn serves (sources, r) ({ sources with signatures := { sources.signatures with
        value := (sources.signatures.value.setCall call s).2 } }, r)
  | detector (sources : Sources) (r : Round) (d : Option Detector) :
      Turn serves (sources, r) ({ sources with detector := d }, r)
  | edit (sources : Sources) (r : Round) (f g : Function) (e : CodeEdit) (hf : f ∈ r.functions)
      (hl : e.Lifted f) (he : e.apply f = .ok g) :
      Turn serves (sources, r) (sources, { r with functions := r.functions.set f.id g })
  | observe (sources : Sources) (r : Round) (f : Function) (s : Snapshot) :
      Turn serves (sources, r) (sources, { r with hooks := r.hooks.observe f s })
  | instrument (sources : Sources) (r : Round) (f : Function) (s : Snapshot) (hf : f ∈ r.functions)
      (hs : serves f s) :
      Turn serves (sources, r) (sources, left (r.instrument sources f s))
  | deinstrument (sources : Sources) (r : Round) (f : Function) (hf : f ∈ r.functions) :
      Turn serves (sources, r) (sources, r.deinstrument f)
  | note (sources : Sources) (r : Round) (snapshots : Snapshots) (cancellation : Cancellation)
      (asked : List Callee) (stats : InstrumentStats) :
      Turn serves (sources, r) (sources, { r with snapshots, cancellation, asked, stats })

abbrev Turns (serves : Function → Snapshot → Prop) : Sources × Round → Sources × Round → Prop :=
  Relation.ReflTransGen (Turn serves)

variable {serves : Function → Snapshot → Prop} {x x' : Sources × Round}

theorem Turn.mono {serves' : Function → Snapshot → Prop}
    (hserves : ∀ f s, serves f s → serves' f s) (h : Turn serves x x') : Turn serves' x x' := by
  cases h with
  | conventions sources r cs h => exact .conventions sources r cs h
  | signFunction sources r callee s => exact .signFunction sources r callee s
  | signCall sources r call s => exact .signCall sources r call s
  | detector sources r d => exact .detector sources r d
  | edit sources r f g e hf hl he => exact .edit sources r f g e hf hl he
  | observe sources r f s => exact .observe sources r f s
  | instrument sources r f s hf hs => exact .instrument sources r f s hf (hserves f s hs)
  | deinstrument sources r f hf => exact .deinstrument sources r f hf
  | note sources r snapshots cancellation asked stats =>
    exact .note sources r snapshots cancellation asked stats

/-- A refused snapshot changes nothing; otherwise instrumenting starts and goes on in moves. -/
theorem instrument_cases (r : Round) (sources : Sources) {f : Function} (s : Snapshot)
    (hf : r.functions[f.id]? = some f) :
    left (r.instrument sources f s) = r ∨
      s.mismatch? f = none ∧
        Bench.Moves sources.detector sources.signatures.value (· ∈ s.anchors f.id)
          ((r.bench f).start s) (Bench.left ((r.bench f).instrument sources s)) := by
  rw [left_instrument]
  cases hm : s.mismatch? f with
  | some e =>
    have hstop : (r.bench f).instrument sources s = .error ⟨r.bench f, e⟩ :=
      Bench.instrument_of_mismatch hm
    rw [hstop]
    exact .inl (putBack_bench hf)
  | none => exact .inr ⟨rfl, Bench.instrument_moves hm fun a ha => ha⟩

theorem InOrder.instrument (h : r.InOrder) (hf : f ∈ r.functions) (s : Snapshot) :
    (left (r.instrument sources f s)).InOrder := by
  rcases instrument_cases r sources s (h.getElem? hf) with heq | ⟨-, hm⟩
  · rwa [heq]
  · rw [left_instrument]
    refine h.putBack hf (.head (.start _ s) hm) (Bench.Moves.active_touched hm ?_ ?_)
    · intro a _
      rw [Bench.start_eq]
      exact ExtTreeMap.mem_insert_self
    · intro a k hk
      rw [Bench.start_eq] at hk ⊢
      exact ExtTreeMap.mem_insert.mpr (.inr (h.touched hk))

theorem InOrder.putBack_of_ok {s : Snapshot} (h : r.InOrder) (hf : f ∈ r.functions)
    (hb : (r.bench f).instrument sources s = .ok b) : (r.putBack b).InOrder := by
  have hin : (left (r.instrument sources f s)).InOrder := h.instrument hf s
  rwa [instrument_of_ok hb] at hin

theorem InOrder.deinstrument (h : r.InOrder) (hf : f ∈ r.functions) :
    (r.deinstrument f).InOrder := by
  have hm : Bench.Moves none .empty (fun _ => False) (r.bench f) _ := (r.bench f).deinstrument_moves
  exact h.putBack hf hm (Bench.Moves.active_touched hm (fun a ha => ha.elim) h.touched)

theorem Turn.inOrder (h : Turn serves x x') (hx : x.2.InOrder) : x'.2.InOrder := by
  cases h with
  | conventions | signFunction | signCall | detector | note => exact hx.congr rfl rfl rfl rfl rfl
  | edit sources r f g e hf hl he => exact hx.edit hf hl he
  | observe sources r f s =>
    rw [Hooks.observe_fields]
    exact hx.congr rfl rfl rfl rfl rfl
  | instrument sources r f s hf => exact hx.instrument hf s
  | deinstrument sources r f hf => exact hx.deinstrument hf

theorem Turns.inOrder (h : Turns serves x x') (hx : x.2.InOrder) : x'.2.InOrder := by
  induction h with
  | refl => exact hx
  | tail _ ht ih => exact ht.inOrder ih

/-! ## What becomes of the functions -/

theorem InOrder.getElem?_putBack (h : r.InOrder) (hf : f ∈ r.functions)
    (hid : b.function.id = f.id) : (r.putBack b).functions[f.id]? = some b.function := by
  have hlt := (List.getElem?_eq_some_iff.mp (h.getElem? hf)).1
  rw [← hid] at hlt ⊢
  exact List.getElem?_set_self hlt

theorem InOrder.putBack_same (h : r.InOrder) (hf : f ∈ r.functions)
    (hm : Bench.Moves detector signatures wanted (r.bench f) b) :
    Functions.Each Function.SameCode r.functions (r.putBack b).functions := by
  have hid : b.function.id = f.id := Bench.Moves.function_id hm
  have hsame : f.SameCode b.function := Bench.Moves.sameCode hm (h.bench_sound hf)
  rw [functions_putBack hid]
  exact .set Function.SameCode.refl (h.getElem? hf) hsame

theorem InOrder.instrument_same (h : r.InOrder) (hf : f ∈ r.functions) (s : Snapshot) :
    Functions.Each Function.SameCode r.functions (left (r.instrument sources f s)).functions := by
  rcases instrument_cases r sources s (h.getElem? hf) with heq | ⟨-, hm⟩
  · rw [heq]
    exact .refl Function.SameCode.refl _
  · rw [left_instrument]
    exact h.putBack_same hf (.head (.start _ s) hm)

theorem Turn.later (h : Turn serves x x') (hx : x.2.InOrder) :
    Functions.Each Function.Later x.2.functions x'.2.functions := by
  cases h with
  | conventions | signFunction | signCall | detector | observe | note => exact .refl .refl _
  | edit sources r f g e hf hl he => exact .set .refl (hx.getElem? hf) (CodeEdit.apply_later he)
  | instrument sources r f s hf =>
    exact (hx.instrument_same hf s).mono fun _ _ => Function.SameCode.later
  | deinstrument sources r f hf =>
    have hm : Bench.Moves none .empty (fun _ => False) (r.bench f) _ :=
      (r.bench f).deinstrument_moves
    exact (hx.putBack_same hf hm).mono fun _ _ => Function.SameCode.later

theorem Turns.later (h : Turns serves x x') (hx : x.2.InOrder) :
    Functions.Each Function.Later x.2.functions x'.2.functions := by
  induction h with
  | refl => exact .refl .refl _
  | tail hts ht ih => exact ih.trans (ht.later (Turns.inOrder hts hx))

end Round

end CallEffects
