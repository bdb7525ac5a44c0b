import CallEffects.Proofs.Coherence
import CallEffects.Proofs.Reading

/-!
# What instrumenting settles

A built-in detector gives a callee a convention or leaves it for good, and takes back nothing it has
given. So each anchor of an instrumented function ends up with the hook that the registries ask for
as they stand at the end, and since cached hooks are what their keys ask for, with the effects that
would be worked out for it now.
-/

namespace CallEffects

open Std

/-- The detectors that assign one convention, or none at all. -/
inductive Detector.IsBuiltin : Detector → Prop
  | fixed (c : Convention) (guess : Bool) : (fixed c guess).IsBuiltin
  | silent : silent.IsBuiltin

/-- What a built-in detector answers does not depend on what it was asked before. -/
theorem Detector.IsBuiltin.detect_eq {d : Detector} (hd : d.IsBuiltin) (asked : List Callee) :
    d.detect asked = d.detect [] := by
  cases hd <;> rfl

theorem Detector.IsBuiltin.remembers_eq {d : Detector} (hd : d.IsBuiltin) :
    d.remembers = false := by
  cases hd <;> rfl

/-- The detector, if there is one, never has a convention for the callee. -/
def Detector.Refuses (detector : Option Detector) (callee : Callee) : Prop :=
  ∀ d ∈ detector, ∀ asked cs, d.detect asked callee cs = cs

theorem Detector.refuses_fixed {c : Convention} {guess : Bool} {callee : Callee}
    (hg : callee.isIndirect && !guess) : Refuses (some (.fixed c guess)) callee := by
  rintro d ⟨⟩ asked cs
  exact if_pos hg

theorem Detector.refuses_silent (callee : Callee) : Refuses (some .silent) callee := by
  rintro d ⟨⟩ asked cs
  rfl

theorem Detector.detect_fixed_of {c : Convention} {guess : Bool} {callee : Callee}
    (hg : ¬(callee.isIndirect && !guess)) (asked : List Callee) (cs : Conventions) :
    (fixed c guess).detect asked callee cs =
      (cs.register c).2.assign callee (cs.register c).1 :=
  if_neg hg

namespace Conventions

def AllRegistered (cs : Conventions) : Prop :=
  ∀ callee id, cs.assigned? callee = some id → ∃ c, cs.get? id = some c

variable {cs cs' cs'' : Conventions} {detector : Option Detector} {callee callee' : Callee}

theorem lookup?_eq_some {x : ConventionId × Convention} :
    cs.lookup? callee = some x ↔ cs.assigned? callee = some x.1 ∧ cs.get? x.1 = some x.2 := by
  simp only [lookup?, Option.bind_eq_bind, Option.bind_eq_some_iff]
  constructor
  · rintro ⟨id, hid, c, hc, heq⟩
    cases heq
    exact ⟨hid, hc⟩
  · rintro ⟨hid, hc⟩
    exact ⟨x.1, hid, x.2, hc, rfl⟩

theorem AllRegistered.lookup?_eq_none (h : cs.AllRegistered) :
    cs.lookup? callee = none ↔ cs.assigned? callee = none := by
  constructor
  · intro hn
    cases hid : cs.assigned? callee with
    | none => rfl
    | some id =>
      obtain ⟨c, hc⟩ := h callee id hid
      rw [(lookup?_eq_some (x := (id, c))).mpr ⟨hid, hc⟩] at hn
      cases hn
  · intro hn
    cases hl : cs.lookup? callee with
    | none => rfl
    | some x =>
      rw [(lookup?_eq_some.mp hl).1] at hn
      cases hn

theorem AllRegistered.isSome_lookup? (h : cs.AllRegistered) :
    (cs.lookup? callee).isSome ↔ (cs.assigned? callee).isSome := by
  rw [← not_iff_not, Option.not_isSome_iff_eq_none, Option.not_isSome_iff_eq_none]
  exact h.lookup?_eq_none

/-- What answers of a detector may do to the registry. -/
structure Answered (detector : Option Detector) (cs cs' : Conventions) : Prop where
  extended : cs.Extends cs'
  registered : cs'.AllRegistered
  kept : ∀ callee x, cs.lookup? callee = some x → cs'.lookup? callee = some x
  refused : ∀ callee, Detector.Refuses detector callee → cs'.lookup? callee = cs.lookup? callee

theorem Answered.refl (h : cs.AllRegistered) : Answered detector cs cs :=
  ⟨List.prefix_rfl, h, fun _ _ h => h, fun _ _ => rfl⟩

theorem Answered.trans (h : Answered detector cs cs') (h' : Answered detector cs' cs'') :
    Answered detector cs cs'' :=
  ⟨h.extended.trans h'.extended, h'.registered,
    fun callee x hx => h'.kept callee x (h.kept callee x hx),
    fun callee hr => (h'.refused callee hr).trans (h.refused callee hr)⟩

theorem get?_register (cs : Conventions) (c : Convention) :
    ∃ c', (cs.register c).2.get? (cs.register c).1 = some c' := by
  unfold register
  split
  · next id hid =>
    have hlt := (List.findIdx?_eq_some_iff_getElem.mp hid).1
    exact ⟨cs.registered[id], List.getElem?_eq_getElem hlt⟩
  · exact ⟨c, by simp [get?]⟩

theorem assigned?_register (cs : Conventions) (c : Convention) (callee : Callee) :
    (cs.register c).2.assigned? callee = cs.assigned? callee := by
  unfold register
  split <;> rfl

theorem AllRegistered.register (h : cs.AllRegistered) (c : Convention) :
    (cs.register c).2.AllRegistered := by
  intro callee id hid
  rw [assigned?_register] at hid
  obtain ⟨d, hd⟩ := h callee id hid
  exact ⟨d, (cs.extends_register c).get? hd⟩

theorem AllRegistered.assign {id : ConventionId} (h : cs.AllRegistered)
    (hid : ∃ c, cs.get? id = some c) : (cs.assign callee id).AllRegistered := by
  intro callee' id' hid'
  rcases Table.getElem?_insert_eq_some hid' with ⟨-, rfl⟩ | ⟨-, hid'⟩
  · exact hid
  · exact h callee' id' hid'

theorem AllRegistered.lookup?_register (h : cs.AllRegistered) (c : Convention) (callee : Callee) :
    (cs.register c).2.lookup? callee = cs.lookup? callee := by
  rw [lookup?, assigned?_register, lookup?]
  cases hid : cs.assigned? callee with
  | none => rfl
  | some id =>
    obtain ⟨d, hd⟩ := h callee id hid
    simp only [Option.bind_eq_bind, Option.bind_some, (cs.extends_register c).get? hd, hd]

/-- A callee whose convention is known or refused. -/
def Decided (detector : Option Detector) (cs : Conventions) (callee : Callee) : Prop :=
  (cs.lookup? callee).isSome ∨ Detector.Refuses detector callee

theorem Decided.lookup?_eq (h : Decided detector cs callee) (ha : Answered detector cs cs') :
    cs'.lookup? callee = cs.lookup? callee := by
  rcases h with h | h
  · obtain ⟨x, hx⟩ := Option.isSome_iff_exists.mp h
    rw [hx, ha.kept callee x hx]
  · exact ha.refused callee h

theorem Decided.answered (h : Decided detector cs callee) (ha : Answered detector cs cs') :
    Decided detector cs' callee := by
  unfold Decided
  rw [h.lookup?_eq ha]
  exact h

theorem assigned?_enlisted (c : Convention) (hne : callee ≠ callee') :
    ((cs.register c).2.assign callee (cs.register c).1).assigned? callee' = cs.assigned? callee' :=
  (Table.getElem?_insert_of_ne hne).trans (cs.assigned?_register c callee')

theorem AllRegistered.lookup?_enlisted (h : cs.AllRegistered) (c : Convention)
    (hne : callee ≠ callee') :
    ((cs.register c).2.assign callee (cs.register c).1).lookup? callee' = cs.lookup? callee' := by
  rw [← h.lookup?_register c callee', lookup?, assigned?_enlisted c hne, ← assigned?_register]
  rfl

theorem AllRegistered.enlisted (h : cs.AllRegistered) (c : Convention) (callee : Callee) :
    ((cs.register c).2.assign callee (cs.register c).1).AllRegistered :=
  (h.register c).assign (cs.get?_register c)

theorem detect_fixed {c : Convention} {guess : Bool} (h : cs.AllRegistered)
    (hn : cs.lookup? callee = none) (hg : ¬(callee.isIndirect && !guess)) (asked : List Callee) :
    Answered (some (.fixed c guess)) cs ((Detector.fixed c guess).detect asked callee cs) ∧
      (((Detector.fixed c guess).detect asked callee cs).lookup? callee).isSome := by
  obtain ⟨c', hc'⟩ := cs.get?_register c
  have hlookup : ((cs.register c).2.assign callee (cs.register c).1).lookup? callee =
      some ((cs.register c).1, c') :=
    lookup?_eq_some.mpr ⟨ExtTreeMap.getElem?_insert_self, hc'⟩
  rw [Detector.detect_fixed_of hg]
  refine ⟨⟨cs.extends_register c, h.enlisted c callee, ?_, ?_⟩, by rw [hlookup]; rfl⟩
  · intro callee' x hx
    have hne : callee ≠ callee' := by
      rintro rfl
      rw [hn] at hx
      cases hx
    rw [h.lookup?_enlisted c hne]
    exact hx
  · intro callee' hrefuses
    have hne : callee ≠ callee' := by
      rintro rfl
      have hsame := hrefuses _ rfl asked cs
      rw [Detector.detect_fixed_of hg] at hsame
      rw [hsame, hn] at hlookup
      cases hlookup
    exact h.lookup?_enlisted c hne

theorem detect_answered {d : Detector} (hd : d.IsBuiltin) (h : cs.AllRegistered)
    (hn : cs.lookup? callee = none) (asked : List Callee) :
    Answered (some d) cs (d.detect asked callee cs) ∧
      Decided (some d) (d.detect asked callee cs) callee := by
  cases hd with
  | fixed c guess =>
    by_cases hg : callee.isIndirect && !guess
    · have hrefuses := Detector.refuses_fixed (c := c) hg
      rw [hrefuses _ rfl asked cs]
      exact ⟨.refl h, .inr hrefuses⟩
    · obtain ⟨hanswered, hsome⟩ := detect_fixed h hn hg asked
      exact ⟨hanswered, .inl hsome⟩
  | silent => exact ⟨.refl h, .inr (Detector.refuses_silent callee)⟩

end Conventions

namespace Bench

variable {b b' : Bench} {detector : Option Detector} {signatures : Signatures}
  {wanted : Anchor → Prop}

theorem resolve_answered (hd : ∀ d ∈ detector, d.IsBuiltin) (h : b.conventions.value.AllRegistered)
    (callee : Callee) :
    Conventions.Answered detector b.conventions.value
        (b.resolve detector callee).2.conventions.value ∧
      Conventions.Decided detector (b.resolve detector callee).2.conventions.value callee := by
  unfold resolve
  split
  · next known hknown => exact ⟨.refl h, .inl (by rw [hknown]; rfl)⟩
  · exact ⟨.refl h, .inr fun d hd => by cases hd⟩
  · next d hn => exact Conventions.detect_answered (hd d rfl) h hn _

theorem Move.answered (h : Move detector signatures wanted b b') (hd : ∀ d ∈ detector, d.IsBuiltin)
    (hr : b.conventions.value.AllRegistered) :
    Conventions.Answered detector b.conventions.value b'.conventions.value := by
  cases h with
  | resolve callee => exact (resolve_answered hd hr callee).1
  | detach a =>
    rw [detach_conventions]
    exact .refl hr
  | obtain p =>
    rw [obtain_conventions]
    exact .refl hr
  | start | count | place | remember | forget => exact .refl hr

theorem Moves.answered (h : Moves detector signatures wanted b b')
    (hd : ∀ d ∈ detector, d.IsBuiltin) (hr : b.conventions.value.AllRegistered) :
    Conventions.Answered detector b.conventions.value b'.conventions.value := by
  induction h with
  | refl => exact .refl hr
  | tail _ hm ih => exact ih.trans (hm.answered hd ih.registered)

theorem callPlan_of_target {x y : CallSite} (b : Bench) (signatures : Signatures)
    (hs : y.statement = x.statement) (ht : y.target = x.target) :
    b.callPlan signatures y = b.callPlan signatures x := by
  simp only [callPlan, callAt, hs, ht]

theorem callPlan_congr {site : CallSite} (hid : b'.function.id = b.function.id)
    (hl : b'.conventions.value.lookup? (.ofCall (b.callAt site) site.target) =
      b.conventions.value.lookup? (.ofCall (b.callAt site) site.target))
    (ho : b'.hooks.observed = b.hooks.observed) :
    b'.callPlan signatures site = b.callPlan signatures site := by
  have hcall : b'.callAt site = b.callAt site := by rw [callAt, hid, callAt]
  simp only [callPlan, hcall, hl, ho]

/-- Every call of the snapshot ends up with what the registries ask for in the end, and its callee
with an answer that stands. -/
theorem foldlM_settleCall_bears {sites : List CallSite} (hb : b.Sound)
    (hd : ∀ d ∈ detector, d.IsBuiltin) (hr : b.conventions.value.AllRegistered)
    (hnodup : (sites.map (·.statement)).Nodup)
    (h : sites.foldlM (settleCall detector signatures) b = .ok b') :
    Conventions.Answered detector b.conventions.value b'.conventions.value ∧
      ∀ site ∈ sites, b'.Bears (.call (b.callAt site)) (b'.callPlan signatures site) ∧
        Conventions.Decided detector b'.conventions.value
          (.ofCall (b.callAt site) site.target) := by
  induction sites generalizing b with
  | nil =>
    obtain rfl := Except.ok.inj h
    exact ⟨.refl hr, by simp⟩
  | cons site sites ih =>
    rw [List.foldlM_cons] at h
    obtain ⟨b₁, h₁, h⟩ := bind_eq_ok h
    rw [List.map_cons, List.nodup_cons] at hnodup
    obtain ⟨hbears, hone, hconventions, hsound⟩ := settleCall_ok hb h₁
    obtain ⟨hanswered, hdecided⟩ :=
      resolve_answered hd hr (Callee.ofCall (b.callAt site) site.target)
    rw [← hconventions] at hanswered hdecided
    obtain ⟨hanswered', hbears'⟩ := ih hsound hanswered.registered hnodup.2 h
    have hrest := (foldlM_settleCall_ok hsound h).1
    refine ⟨hanswered.trans hanswered', ?_⟩
    intro site' hsite'
    rcases List.mem_cons.mp hsite' with rfl | hsite'
    · have hcall : b₁.callAt site' = b.callAt site' := by rw [callAt, hone.function_id, callAt]
      have hplan : b'.callPlan signatures site' = b₁.callPlan signatures site' := by
        refine callPlan_congr hrest.function_id ?_ hrest.observed
        rw [hcall]
        exact hdecided.lookup?_eq hanswered'
      rw [hplan]
      refine ⟨hbears.congr (hrest.active _ ?_), hdecided.answered hanswered'⟩
      rintro ⟨other, hother, heq⟩
      have hid : site'.statement = other.statement := by
        simpa [callAt, hone.function_id] using heq
      exact hnodup.1 (hid ▸ List.mem_map_of_mem hother)
    · have hcall : b₁.callAt site' = b.callAt site' := by rw [callAt, hone.function_id, callAt]
      exact hcall ▸ hbears' site' hsite'

theorem Course.answers {sources : Sources} {s : Snapshot} {b₁ b₂ : Bench}
    (h : Course b b' sources s b₁ b₂) (hd : ∀ d ∈ sources.detector, d.IsBuiltin)
    (hr : b.conventions.value.AllRegistered) (hnodup : (s.calls.map (·.statement)).Nodup) :
    Conventions.Answered sources.detector (b.informed sources.detector s).conventions.value
        b'.conventions.value ∧
      Conventions.Decided sources.detector (b.informed sources.detector s).conventions.value
        (.ofFunction b.function) ∧
      ∀ site ∈ s.calls, b₂.Bears (.call (b₁.callAt site))
          (b₂.callPlan sources.signatures.value site) ∧
        Conventions.Decided sources.detector b'.conventions.value
          (.ofCall (b₁.callAt site) site.target) := by
  obtain ⟨hanswered, hdecided⟩ :=
    resolve_answered (b := b.start s) hd hr (Callee.ofFunction b.function)
  have hregistered : b₁.conventions.value.AllRegistered := by
    rw [h.entry_conventions]
    exact hanswered.registered
  obtain ⟨hcalls, hbears⟩ := foldlM_settleCall_bears h.entry_sound hd hregistered hnodup h.calls
  rw [← h.conventions] at hcalls hbears
  exact ⟨h.entry_conventions ▸ hcalls, hdecided, hbears⟩

theorem Course.entry_function_id {sources : Sources} {s : Snapshot} {b₁ b₂ : Bench}
    (h : Course b b' sources s b₁ b₂) : b₁.function.id = b.function.id :=
  h.entry_spares.function_id.trans (by rw [informed_function])

theorem Course.bears {sources : Sources} {s : Snapshot} {b₁ b₂ : Bench}
    (h : Course b b' sources s b₁ b₂) (hb : b.Sound) (hok : b.instrument sources s = .ok b')
    (hd : ∀ d ∈ sources.detector, d.IsBuiltin) (hr : b.conventions.value.AllRegistered)
    (hnodup : (s.calls.map (·.statement)).Nodup) :
    b'.Bears (.entry b.function.id) (b'.entryPlan sources.signatures.value) ∧
      (∀ ret ∈ s.returns, b'.Bears (.ret ⟨b.function.id, ret⟩)
        (b'.returnPlan sources.signatures.value ret)) ∧
      ∀ site ∈ s.calls, b'.Bears (.call ⟨b.function.id, site.statement⟩)
        (b'.callPlan sources.signatures.value site) := by
  have hsame : b.function.SameCode b'.function :=
    Moves.sameCode (moves_of_instrument_eq_ok hok) hb
  have hown := hsame.ofFunction_eq
  obtain ⟨hanswered, hdecided, hbears⟩ := h.answers hd hr hnodup
  have hlookup := hdecided.lookup?_eq hanswered
  have hspares := (foldlM_settleCall_ok h.entry_sound h.calls).1
  have hfunction : (b.informed sources.detector s).function = b.function := b.informed_function s
  have hid : b₁.function.id = b.function.id := h.entry_function_id
  refine ⟨?_, ?_, ?_⟩
  · have hplan : b'.entryPlan sources.signatures.value =
        (b.informed sources.detector s).entryPlan sources.signatures.value := by
      simp only [entryPlan, hown, hlookup, hsame.id_eq, hfunction]
    rw [hplan]
    refine h.entry_bears.congr ?_
    rw [h.active _ (by simp), if_neg fun hc => hc.2 (s.entry_mem_anchors _)]
    refine hspares.active _ ?_
    rintro ⟨site, -, he⟩
    cases he
  · intro ret hret
    have hplan : b'.returnPlan sources.signatures.value ret =
        (b.informed sources.detector s).returnPlan sources.signatures.value ret := by
      simp only [returnPlan, hown, hlookup, hsame.id_eq, hfunction]
    rw [hplan]
    exact h.return_bears ret hret
  · intro site hsite
    have hcall : b₁.callAt site = ⟨b.function.id, site.statement⟩ := by rw [callAt, hid]
    have hplan : b'.callPlan sources.signatures.value site =
        b₂.callPlan sources.signatures.value site := by
      refine callPlan_congr ?_ (by rw [h.conventions]) h.observed
      rw [hsame.id_eq, hspares.function_id, hid]
    rw [hplan]
    refine Bears.congr (hcall ▸ (hbears site hsite).1) ?_
    rw [h.active _ (by simp), if_neg]
    exact fun hc => hc.2 (Snapshot.call_mem_anchors.mpr ⟨site, hsite, rfl⟩)

end Bench

/-! ## Snapshots name a call once -/

theorem map_filterMap_sublist {α β γ : Type} {f : α → Option β} {g : β → γ} {h : α → γ}
    (hf : ∀ x y, f x = some y → g y = h x) (xs : List α) :
    ((xs.filterMap f).map g).Sublist (xs.map h) := by
  induction xs with
  | nil => exact .slnil
  | cons x xs ih =>
    cases hx : f x with
    | none =>
      rw [List.filterMap_cons_none hx, List.map_cons]
      exact ih.cons _
    | some y =>
      rw [List.filterMap_cons_some hx, List.map_cons, List.map_cons, hf x y hx]
      exact ih.cons_cons _

theorem Snapshot.calls_nodup {g : Function} (hg : g.Numbered) :
    ((Snapshot.take g).calls.map (·.statement)).Nodup := by
  have hsite : ∀ (x : Statement × Option Statement × Constants) site,
      callSite? x.1 x.2.1 x.2.2 = some site → site.statement = x.1.id := by
    intro x site hsite
    obtain ⟨-, -, hid, -⟩ := callSite?_some hsite
    exact hid
  have hsublist := map_filterMap_sublist hsite (g.reachableStates g.blockFacts)
  have hstates := (g.reachableStates_sublist g.blockFacts).map (·.id)
  rw [List.map_map] at hstates
  exact (hg.nodup.sublist hstates).sublist hsublist

theorem Convention.callEffects_filter (c : Convention) (s : Option CallSignature)
    (adjustment : Option Nat) :
    c.callEffects s (adjustment.filter (· != c.impliedCleanup (c.callArity s))) =
      c.callEffects s adjustment := by
  have hcleanup : (adjustment.filter (· != c.impliedCleanup (c.callArity s))).getD
      (c.impliedCleanup (c.callArity s)) = adjustment.getD (c.impliedCleanup (c.callArity s)) := by
    cases adjustment with
    | none => rfl
    | some n =>
      by_cases hn : n = c.impliedCleanup (c.callArity s)
      · simp [Option.filter, hn]
      · simp [Option.filter, hn]
  simp only [callEffects, hcleanup]

namespace Round

/-- What is active on the anchors of a function once it has been instrumented with a snapshot, in
terms of the registries as they are then. -/
structure Settled (before after : Round) (ss : Signatures) (f : Function) (s : Snapshot) : Prop where
  entry_iff : (after.hooks.active[Anchor.entry f.id]?).isSome ↔
    (after.conventions.value.assigned? (.ofFunction f)).isSome
  ret_iff : ∀ ret ∈ s.returns, (after.hooks.active[Anchor.ret ⟨f.id, ret⟩]?).isSome ↔
    (after.conventions.value.assigned? (.ofFunction f)).isSome
  call_iff : ∀ site ∈ s.calls, (after.hooks.active[Anchor.call ⟨f.id, site.statement⟩]?).isSome ↔
    (after.conventions.value.assigned? (.ofCall ⟨f.id, site.statement⟩ site.target)).isSome
  only : ∀ (a : Anchor) (k : Hook), after.hooks.active[a]? = some k → a.function = f.id →
    a ∈ s.anchors f.id
  others : ∀ a : Anchor, a.function ≠ f.id → after.hooks.active[a]? = before.hooks.active[a]?
  entry_hook : ∀ k, after.hooks.active[Anchor.entry f.id]? = some k →
    ∃ c, after.conventions.value.lookup? (.ofFunction f) = some (k.key.convention, c) ∧
      k.key.signature = (ss.function? (.ofFunction f)).map (.callee ·.1) ∧
      k.effects = c.entryEffects ((ss.function? (.ofFunction f)).map (·.2))
  ret_hook : ∀ ret ∈ s.returns, ∀ k, after.hooks.active[Anchor.ret ⟨f.id, ret⟩]? = some k →
    ∃ c, after.conventions.value.lookup? (.ofFunction f) = some (k.key.convention, c) ∧
      k.key.signature = (ss.function? (.ofFunction f)).map (.callee ·.1) ∧
      k.effects = c.returnEffects ((ss.function? (.ofFunction f)).map (·.2))
  /-- The callee releases what the signature of the call says, else what its returns were seen to
  pop, else what the convention implies. -/
  call_hook : ∀ site ∈ s.calls, ∀ k,
    after.hooks.active[Anchor.call ⟨f.id, site.statement⟩]? = some k →
      let call : StatementRef := ⟨f.id, site.statement⟩
      let callee := Callee.ofCall call site.target
      let signature := ss.forCall? call callee
      ∃ c, after.conventions.value.lookup? callee = some (k.key.convention, c) ∧
        k.key.signature = signature.map (·.1) ∧
        k.effects = c.callEffects (signature.map (·.2))
          ((signature.bind (·.2.stackAdjustment)) <|> after.hooks.observed[callee]?) ∧
        k.effects.cleanup =
          ((signature.bind (·.2.stackAdjustment)) <|> after.hooks.observed[callee]?).getD
            (c.impliedCleanup (c.callArity (signature.map (·.2))))
  kinds : ∀ (a : Anchor) (k : Hook), after.hooks.active[a]? = some k →
    k.statements.map (·.kind) = k.effects.kinds

end Round

namespace Bench

variable {b : Bench} {a : Anchor} {plan : Option Plan} {cs : Conventions} {ss : Signatures}

theorem Bears.isSome_iff (h : b.Bears a plan) : (b.hooks.active[a]?).isSome ↔ plan.isSome := by
  cases plan with
  | none =>
    have hn : b.hooks.active[a]? = none := h
    simp [hn]
  | some p =>
    obtain ⟨k, hk, -⟩ := h
    simp [hk]

/-- The active hook has the key of its plan and the effects that belong to it. -/
theorem Bears.hook (h : b.Bears a plan) (hc : b.hooks.Coherent cs ss) (hs : b.Sound)
    (hp : ∀ p ∈ plan, p.Possible cs ss) {k : Hook} (hk : b.hooks.active[a]? = some k) :
    ∃ p ∈ plan, p.key = k.key ∧ p.effects = k.effects := by
  cases plan with
  | none =>
    have hn : b.hooks.active[a]? = none := h
    rw [hn] at hk
    cases hk
  | some p =>
    obtain ⟨k', hk', hkey⟩ := h
    obtain rfl := Option.some.inj (hk'.symm.trans hk)
    exact ⟨p, rfl, hkey.symm, hc.effects (hs.1.active_built hk').1 p (hp p rfl) hkey.symm⟩

theorem callPlan_possible (b : Bench) (signatures : Signatures) (site : CallSite) :
    ∀ p ∈ b.callPlan signatures site, p.Possible b.conventions.value signatures := by
  intro p hp
  obtain ⟨c, hc, rfl⟩ := Option.map_eq_some_iff.mp hp
  exact Plan.possible_ofCall hc _

end Bench

theorem Round.sample_registered : Round.sample.conventions.value.AllRegistered := by
  intro callee id hid
  have hzero : id = 0 := by
    rcases Table.getElem?_insert_eq_some hid with ⟨-, rfl⟩ | ⟨-, hid⟩
    · rfl
    · rcases Table.getElem?_insert_eq_some hid with ⟨-, rfl⟩ | ⟨-, hid⟩
      · rfl
      · cases hid
  subst hzero
  exact ⟨.cdecl, rfl⟩

namespace Workspace

variable {w₀ w : Workspace} {sources₀ sources : Sources} {r₀ r r' : Round} {f : Function}
  {s : Snapshot}

/-- Whatever was done since the workspace was fresh, instrumenting a function with a snapshot of its
own settles all its anchors as the registries ask for in the end. -/
theorem instrument_settles {taken : List Snapshot} (h₀ : w₀.round? = some (sources₀, r₀))
    (hfresh : r₀.Fresh) (hn : sources₀.signatures.value.Numbered) (h : History w₀ taken w)
    (hr : w.round? = some (sources, r)) (hf : f ∈ r.functions) (hs : s ∈ taken)
    (hd : ∀ d ∈ sources.detector, d.IsBuiltin) (hreg : r.conventions.value.AllRegistered)
    (hok : r.instrument sources f s = .ok r') : r.Settled r' sources.signatures.value f s := by
  obtain ⟨sources', r', hr', hturns, hkept⟩ := h.turns h₀ hfresh.inOrder
  obtain ⟨rfl, rfl⟩ := Prod.mk.inj (Option.some.inj (hr.symm.trans hr'))
  have hin : r.InOrder := Round.Turns.inOrder hturns hfresh.inOrder
  obtain ⟨hnumbered, hcoherent⟩ := Round.Turns.coherent hturns hfresh.inOrder (hfresh.coherent hn)
  obtain ⟨b, hb, rfl⟩ := Round.instrument_eq_ok hok
  have hsound := hin.bench_sound hf
  obtain ⟨b₁, b₂, hcourse⟩ := Bench.instrument_course hsound hb
  have hnodup : (s.calls.map (·.statement)).Nodup := by
    obtain ⟨g, rfl, hg, -⟩ := hkept s hs
    exact Snapshot.calls_nodup hg.numbered
  obtain ⟨hentry, hret, hcall⟩ := hcourse.bears hsound hb hd hreg hnodup
  have hmoves : Bench.Moves sources.detector sources.signatures.value
      (· ∈ s.anchors f.id) (r.bench f) b := Bench.moves_of_instrument_eq_ok hb
  have hsame : f.SameCode b.function := Bench.Moves.sameCode hmoves hsound
  have hown : Callee.ofFunction b.function = Callee.ofFunction f := by
    simp only [Callee.ofFunction, hsame.entryAddress_eq, hsame.id_eq]
  have hregistered : b.conventions.value.AllRegistered :=
    (Bench.Moves.answered hmoves hd hreg).registered
  have hdone := Bench.Moves.coherent hmoves hnumbered hcoherent
  constructor
  · refine (hentry.isSome_iff.trans ?_).trans hregistered.isSome_lookup?
    rw [Bench.entryPlan, hown, Option.isSome_map]
  · intro ret hmem
    refine ((hret ret hmem).isSome_iff.trans ?_).trans hregistered.isSome_lookup?
    rw [Bench.returnPlan, hown, Option.isSome_map]
  · intro site hmem
    refine ((hcall site hmem).isSome_iff.trans ?_).trans hregistered.isSome_lookup?
    rw [Bench.callPlan, Option.isSome_map, Bench.callAt, hsame.id_eq]
  · exact fun a k hk ha => hcourse.anchors hk ha
  · exact fun a ha => (Bench.Moves.frame hmoves).active a ha
  · intro k hk
    obtain ⟨p, hp, hkey, heffects⟩ :=
      hentry.hook hdone hcourse.sound (fun p hp => (Bench.entryPlan_possible _ p hp).2) hk
    obtain ⟨c, hc, rfl⟩ := Option.map_eq_some_iff.mp hp
    rw [hown] at hc hkey heffects
    exact ⟨c.2, hkey ▸ hc, hkey ▸ rfl, heffects.symm⟩
  · intro ret hmem k hk
    obtain ⟨p, hp, hkey, heffects⟩ :=
      (hret ret hmem).hook hdone hcourse.sound
        (fun p hp => (Bench.returnPlan_possible _ ret p hp).2) hk
    obtain ⟨c, hc, rfl⟩ := Option.map_eq_some_iff.mp hp
    rw [hown] at hc hkey heffects
    exact ⟨c.2, hkey ▸ hc, hkey ▸ rfl, heffects.symm⟩
  · intro site hmem k hk
    obtain ⟨p, hp, hkey, heffects⟩ :=
      (hcall site hmem).hook hdone hcourse.sound (b.callPlan_possible _ site) hk
    obtain ⟨c, hc, rfl⟩ := Option.map_eq_some_iff.mp hp
    simp only [Bench.callAt, hsame.id_eq] at hc hkey heffects
    simp only [Plan.ofCall, Convention.callEffects_filter, Option.bind_map] at heffects
    refine ⟨c.2, hkey ▸ hc, hkey ▸ rfl, heffects.symm, ?_⟩
    rw [← heffects]
    rfl
  · intro a k hk
    exact hcourse.sound.1.kinds (hcourse.sound.1.active_built hk).1

/-- The sample function is left with a hook on its call. -/
theorem sample_settles :
    ∃ r', Round.sample.instrument ⟨none, .sound .empty⟩ Function.sample (.take Function.sample) =
        .ok r' ∧
      (r'.hooks.active[Anchor.call ⟨0, 0⟩]?).isSome ∧
      Round.sample.Settled r' .empty Function.sample (.take Function.sample) := by
  have hexists : (Round.sample.instrument ⟨none, .sound .empty⟩ Function.sample
      (.take Function.sample)).toOption.any fun r' =>
        (r'.hooks.active[Anchor.call ⟨0, 0⟩]?).isSome := by
    decide +kernel
  obtain ⟨r', hok, hactive⟩ := exists_of_any_toOption hexists
  have hhistory : History sample [.take Function.sample] sample :=
    .take .start [Function.sample] Function.sample rfl (List.mem_singleton_self _)
  refine ⟨r', hok, hactive, ?_⟩
  exact instrument_settles round?_sample Round.sample_fresh Signatures.numbered_empty hhistory
    round?_sample (List.mem_singleton_self _) (List.mem_singleton_self _) (by simp)
    Round.sample_registered hok

end Workspace

end CallEffects
