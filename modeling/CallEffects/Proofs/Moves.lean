import CallEffects.Instrumentation
import CallEffects.Proofs.Body
import Mathlib.Logic.Relation

/-!
# Moves of a bench

`Move` lists everything that may happen to a bench while a function is instrumented, one elementary
move at a time, and `Moves` are its finite sequences. Instrumenting and removing all hooks are
sequences of moves, however they end; what every move keeps is therefore kept by both.
-/

namespace CallEffects

open Std

/-- The plans that registries can ask for, whoever is assigned to what. -/
inductive Plan.Possible (cs : Conventions) (ss : Signatures) : Plan → Prop
  | entry (f : FunctionId) (c : ConventionId × Convention) (s : Option (Nat × FunctionSignature))
      (hc : cs.get? c.1 = some c.2) (hs : ∀ x ∈ s, ∃ callee, ss.function? callee = some x) :
      Possible cs ss (.ofEntry f c s)
  | ret (r : StatementRef) (c : ConventionId × Convention) (s : Option (Nat × FunctionSignature))
      (hc : cs.get? c.1 = some c.2) (hs : ∀ x ∈ s, ∃ callee, ss.function? callee = some x) :
      Possible cs ss (.ofReturn r c s)
  | call (r : StatementRef) (c : ConventionId × Convention) (s : Option (SignatureRef × CallSignature))
      (observed : Option Nat) (hc : cs.get? c.1 = some c.2)
      (hs : ∀ x ∈ s, ∃ callee, ss.forCall? r callee = some x) :
      Possible cs ss (.ofCall r c s observed)

theorem Conventions.get?_of_lookup? {cs : Conventions} {callee : Callee}
    {c : ConventionId × Convention}
    (h : cs.lookup? callee = some c) : cs.get? c.1 = some c.2 := by
  simp only [lookup?, Option.bind_eq_bind, Option.bind_eq_some_iff] at h
  obtain ⟨id, -, conv, hget, heq⟩ := h
  cases heq
  exact hget

/-- The anchors that instrumenting a function with the snapshot may attach hooks to. -/
def Snapshot.anchors (s : Snapshot) (f : FunctionId) : List Anchor :=
  .entry f :: (s.calls.map fun site => .call ⟨f, site.statement⟩) ++
    s.returns.map fun r => .ret ⟨f, r⟩

theorem Snapshot.function_of_mem_anchors {s : Snapshot} {f : FunctionId} {a : Anchor}
    (h : a ∈ s.anchors f) : a.function = f := by
  simp only [anchors, List.cons_append, List.mem_cons, List.mem_append, List.mem_map] at h
  rcases h with rfl | ⟨site, -, rfl⟩ | ⟨r, -, rfl⟩ <;> rfl

theorem Snapshot.entry_mem_anchors (s : Snapshot) (f : FunctionId) : .entry f ∈ s.anchors f :=
  List.mem_cons_self

theorem Snapshot.call_mem_anchors {s : Snapshot} {f : FunctionId} {id : StatementId} :
    .call ⟨f, id⟩ ∈ s.anchors f ↔ ∃ site ∈ s.calls, site.statement = id := by
  simp [anchors]

theorem Snapshot.ret_mem_anchors {s : Snapshot} {f : FunctionId} {id : StatementId} :
    .ret ⟨f, id⟩ ∈ s.anchors f ↔ id ∈ s.returns := by
  simp [anchors]

namespace Bench

variable {b b' : Bench} {detector : Option Detector} {signatures : Signatures}
  {wanted : Anchor → Prop}

/-- The bench after the statements of a hook have gone into `function`. -/
def place (b : Bench) (hook : Hook) (function : Function) : Bench :=
  { b with
    function
    hooks := { b.hooks with active := b.hooks.active.insert hook.anchor hook }
    stats := { b.stats with
      attached := b.stats.attached + 1
      inserted := b.stats.inserted + hook.statements.length } }

def countUnresolved (b : Bench) : Bench :=
  { b with stats := { b.stats with unresolved := b.stats.unresolved + 1 } }

def forget (b : Bench) (gone : Anchor → Bool) : Bench :=
  { b with hooks := { b.hooks with last := b.hooks.last.filter fun a _ => !gone a } }

def start (b : Bench) (s : Snapshot) : Bench :=
  { b with hooks := (b.hooks.touch b.function.id).observe b.function s }

inductive Move (detector : Option Detector) (signatures : Signatures) (wanted : Anchor → Prop) :
    Bench → Bench → Prop
  | start (b : Bench) (s : Snapshot) : Move detector signatures wanted b (b.start s)
  | resolve (b : Bench) (callee : Callee) :
      Move detector signatures wanted b (b.resolve detector callee).2
  | count (b : Bench) : Move detector signatures wanted b b.countUnresolved
  | detach (b : Bench) (a : Anchor) (ha : a.function = b.function.id) :
      Move detector signatures wanted b (b.detach a)
  | obtain (b : Bench) (p : Plan) (ha : p.key.anchor.function = b.function.id)
      (hw : wanted p.key.anchor) (hp : p.Possible b.conventions.value signatures) :
      Move detector signatures wanted b (b.obtain p).2
  | place (b : Bench) (hook : Hook) (f : Function) (ha : hook.anchor.function = b.function.id)
      (hw : wanted hook.anchor) (hk : hook ∈ b.hooks.built)
      (hnone : b.hooks.active[hook.anchor]? = none)
      (hf : b.function.insertSynthetic hook.anchor.position hook.statements = .ok f) :
      Move detector signatures wanted b (b.place hook f)
  | remember (b : Bench) (hook : Hook) (ha : hook.anchor.function = b.function.id)
      (hk : hook ∈ b.hooks.built)
      (hactive : (b.hooks.active[hook.anchor]?).any fun active => active.id == hook.id) :
      Move detector signatures wanted b (b.remember hook)
  | forget (b : Bench) (gone : Anchor → Bool) (hg : ∀ a, gone a → a.function = b.function.id) :
      Move detector signatures wanted b (b.forget gone)

abbrev Moves (detector : Option Detector) (signatures : Signatures) (wanted : Anchor → Prop) :
    Bench → Bench → Prop :=
  Relation.ReflTransGen (Move detector signatures wanted)

def left : Except Halt Bench → Bench
  | .ok b => b
  | .error halt => halt.bench

@[simp] theorem left_ok (b : Bench) : left (.ok b) = b := rfl

@[simp] theorem left_error (halt : Halt) : left (.error halt) = halt.bench := rfl

/-! ## What single moves leave alone -/

theorem resolve_fst (b : Bench) (detector : Option Detector) (callee : Callee) :
    (b.resolve detector callee).1 =
      (b.resolve detector callee).2.conventions.value.lookup? callee := by
  unfold resolve
  split
  · next h => exact h.symm
  · next h => exact h.symm
  · rfl

theorem resolve_snd (b : Bench) (detector : Option Detector) (callee : Callee) :
    ∃ cs asked, (b.resolve detector callee).2 =
        { b with conventions := { b.conventions with value := cs }, asked := asked } ∧
      (cs = b.conventions.value ∨ ∃ d, detector = some d ∧
        b.conventions.value.lookup? callee = none ∧
          cs = d.detect b.asked callee b.conventions.value) := by
  unfold resolve
  split
  · exact ⟨b.conventions.value, b.asked, rfl, .inl rfl⟩
  · exact ⟨b.conventions.value, b.asked, rfl, .inl rfl⟩
  · next d h => exact ⟨_, _, rfl, .inr ⟨d, rfl, h, rfl⟩⟩

theorem detach_of_none {a : Anchor} (h : b.hooks.active[a]? = none) : b.detach a = b := by
  simp only [detach, h]

theorem detach_of_some {a : Anchor} {hook : Hook} (h : b.hooks.active[a]? = some hook) :
    b.detach a =
      { b with
        function := b.function.removeSynthetic hook.statementIds
        hooks := { b.hooks with active := b.hooks.active.erase a }
        stats := { b.stats with
          detached := b.stats.detached + 1
          removed := b.stats.removed + (b.function.syntheticCount -
            (b.function.removeSynthetic hook.statementIds).syntheticCount) } } := by
  simp only [detach, h]

theorem detach_active (b : Bench) (a : Anchor) :
    (b.detach a).hooks.active = b.hooks.active.erase a := by
  cases h : b.hooks.active[a]? with
  | none =>
    rw [detach_of_none h]
    apply ExtTreeMap.ext_getElem?
    intro k
    rw [ExtTreeMap.getElem?_erase]
    split
    · next heq => rw [← LawfulEqCmp.eq_of_compare heq, h]
    · rfl
  | some hook => rw [detach_of_some h]

theorem detach_conventions (b : Bench) (a : Anchor) : (b.detach a).conventions = b.conventions := by
  unfold detach
  split <;> rfl

theorem foldl_detach_conventions (as : List Anchor) (b : Bench) :
    (as.foldl detach b).conventions = b.conventions := by
  induction as generalizing b with
  | nil => rfl
  | cons a as ih => exact (ih (b.detach a)).trans (b.detach_conventions a)

theorem detach_function_id (b : Bench) (a : Anchor) : (b.detach a).function.id = b.function.id := by
  unfold detach
  split <;> rfl

theorem detach_built (b : Bench) (a : Anchor) : (b.detach a).hooks.built = b.hooks.built := by
  unfold detach
  split <;> rfl

theorem foldl_detach_built (as : List Anchor) (b : Bench) :
    (as.foldl detach b).hooks.built = b.hooks.built := by
  induction as generalizing b with
  | nil => rfl
  | cons a as ih => exact (ih (b.detach a)).trans (b.detach_built a)

theorem obtain_of_cached {p : Plan} {hook : Hook} (h : b.hooks.cached? p.key = some hook) :
    b.obtain p = (hook, b) := by
  simp only [obtain, h]

/-- The hook that a plan without a cached hook gets. -/
def built (b : Bench) (p : Plan) : Hook :=
  (Hook.build ⟨p.key.anchor.kind, (b.hooks.ofKind p.key.anchor.kind).length⟩ p b.function).1

theorem obtain_of_none {p : Plan} (h : b.hooks.cached? p.key = none) :
    b.obtain p = (b.built p,
      { b with
        function := { b.function with
          nextStatement := b.function.nextStatement + p.effects.kinds.length }
        hooks := { b.hooks with built := b.hooks.built ++ [b.built p] }
        stats := { b.stats with synthesized := b.stats.synthesized + 1 } }) := by
  simp only [obtain, h]
  rfl

theorem obtain_mem_built (b : Bench) (p : Plan) :
    (b.obtain p).1 ∈ (b.obtain p).2.hooks.built ∧ (b.obtain p).1.key = p.key := by
  cases h : b.hooks.cached? p.key with
  | none =>
    rw [obtain_of_none h]
    exact ⟨by simp, rfl⟩
  | some hook =>
    rw [obtain_of_cached h]
    exact ⟨List.mem_of_find?_eq_some h, by simpa using List.find?_some h⟩

theorem obtain_active (b : Bench) (p : Plan) : (b.obtain p).2.hooks.active = b.hooks.active := by
  cases h : b.hooks.cached? p.key with
  | none => rw [obtain_of_none h]
  | some hook => rw [obtain_of_cached h]

theorem obtain_function_id (b : Bench) (p : Plan) : (b.obtain p).2.function.id = b.function.id := by
  cases h : b.hooks.cached? p.key with
  | none => rw [obtain_of_none h]
  | some hook => rw [obtain_of_cached h]

theorem obtain_conventions (b : Bench) (p : Plan) : (b.obtain p).2.conventions = b.conventions := by
  cases h : b.hooks.cached? p.key with
  | none => rw [obtain_of_none h]
  | some hook => rw [obtain_of_cached h]

theorem Move.function_id (h : Move detector signatures wanted b b') :
    b'.function.id = b.function.id := by
  cases h with
  | start | count | remember | forget => rfl
  | resolve callee =>
    obtain ⟨cs, asked, heq, -⟩ := b.resolve_snd detector callee
    rw [heq]
  | detach a => exact b.detach_function_id a
  | obtain p => exact b.obtain_function_id p
  | place hook f ha hw hk hnone hf =>
    rw [(Function.insertSynthetic_fields hf).1]
    rfl

theorem Move.extends (h : Move detector signatures wanted b b') :
    b.conventions.value.Extends b'.conventions.value := by
  cases h with
  | start | count | remember | forget | place => exact List.prefix_rfl
  | resolve callee =>
    obtain ⟨cs, asked, heq, hcs⟩ := b.resolve_snd detector callee
    rw [heq]
    rcases hcs with rfl | ⟨d, -, -, rfl⟩
    · exact List.prefix_rfl
    · exact d.extends_detect _ callee _
  | detach a =>
    rw [detach_conventions]
    exact List.prefix_rfl
  | obtain p =>
    rw [obtain_conventions]
    exact List.prefix_rfl

theorem Moves.function_id (h : Moves detector signatures wanted b b') :
    b'.function.id = b.function.id := by
  induction h with
  | refl => rfl
  | tail _ hm ih => exact hm.function_id.trans ih

theorem Moves.extends (h : Moves detector signatures wanted b b') :
    b.conventions.value.Extends b'.conventions.value := by
  induction h with
  | refl => exact List.prefix_rfl
  | tail _ hm ih => exact ih.trans hm.extends

/-! ## Instrumenting as a sequence of moves -/

theorem attach_of_active {hook : Hook}
    (h : (b.hooks.active[hook.anchor]?).any fun active => active.id == hook.id) :
    b.attach hook = .ok (b.remember hook) := by
  rw [attach, if_pos h]

theorem attach_of_error {hook : Hook} {e : IrError}
    (h : ¬(b.hooks.active[hook.anchor]?).any fun active => active.id == hook.id)
    (hf : (b.detach hook.anchor).function.insertSynthetic hook.anchor.position hook.statements =
      .error e) : b.attach hook = .error ⟨b.detach hook.anchor, .ir e⟩ := by
  simp only [attach, if_neg h, hf]

theorem attach_of_ok {hook : Hook} {f : Function}
    (h : ¬(b.hooks.active[hook.anchor]?).any fun active => active.id == hook.id)
    (hf : (b.detach hook.anchor).function.insertSynthetic hook.anchor.position hook.statements =
      .ok f) : b.attach hook = .ok (((b.detach hook.anchor).place hook f).remember hook) := by
  simp only [attach, if_neg h, hf]
  rfl

theorem attach_built (b : Bench) (hook : Hook) :
    (left (b.attach hook)).hooks.built = b.hooks.built := by
  by_cases hactive : (b.hooks.active[hook.anchor]?).any fun active => active.id == hook.id
  · rw [attach_of_active hactive]
    rfl
  · cases hf : (b.detach hook.anchor).function.insertSynthetic hook.anchor.position
        hook.statements with
    | error e =>
      rw [attach_of_error hactive hf]
      exact b.detach_built hook.anchor
    | ok f =>
      rw [attach_of_ok hactive hf]
      exact b.detach_built hook.anchor

theorem attach_moves {hook : Hook} (ha : hook.anchor.function = b.function.id)
    (hw : wanted hook.anchor) (hk : hook ∈ b.hooks.built) :
    Moves detector signatures wanted b (left (b.attach hook)) := by
  by_cases hactive : (b.hooks.active[hook.anchor]?).any fun active => active.id == hook.id
  · rw [attach_of_active hactive]
    exact .single (.remember b hook ha hk hactive)
  · have hdetach : Move detector signatures wanted b (b.detach hook.anchor) := .detach b _ ha
    have hid := b.detach_function_id hook.anchor
    have hnone : (b.detach hook.anchor).hooks.active[hook.anchor]? = none := by
      rw [detach_active, ExtTreeMap.getElem?_erase_self]
    have hk' : hook ∈ (b.detach hook.anchor).hooks.built := by rwa [detach_built]
    cases hf : (b.detach hook.anchor).function.insertSynthetic hook.anchor.position
        hook.statements with
    | error e =>
      rw [attach_of_error hactive hf]
      exact .single hdetach
    | ok f =>
      rw [attach_of_ok hactive hf]
      have hplace : Move detector signatures wanted (b.detach hook.anchor)
          ((b.detach hook.anchor).place hook f) := .place _ hook f (ha.trans hid.symm) hw hk' hnone hf
      have hremember : Move detector signatures wanted ((b.detach hook.anchor).place hook f)
          (((b.detach hook.anchor).place hook f).remember hook) :=
        .remember _ hook (ha.trans (hid.symm.trans hplace.function_id.symm)) hk' (by simp [place])
      exact ((Relation.ReflTransGen.single hdetach).tail hplace).tail hremember

theorem settle_some (b : Bench) (a : Anchor) (p : Plan) :
    b.settle a (some p) = (b.obtain p).2.attach (b.obtain p).1 := rfl

theorem settle_moves {a : Anchor} {plan : Option Plan} (ha : a.function = b.function.id)
    (hw : plan.isSome → wanted a)
    (hp : ∀ p ∈ plan, p.key.anchor = a ∧ p.Possible b.conventions.value signatures) :
    Moves detector signatures wanted b (left (b.settle a plan)) := by
  cases plan with
  | none => exact (Relation.ReflTransGen.single (.detach b a ha)).tail (.count _)
  | some p =>
    obtain ⟨hanchor, hpossible⟩ := hp p rfl
    obtain ⟨hmem, hkey⟩ := b.obtain_mem_built p
    subst hanchor
    have hobtain : Move detector signatures wanted b (b.obtain p).2 :=
      .obtain b p ha (hw rfl) hpossible
    have hsame : (b.obtain p).1.anchor = p.key.anchor := by rw [Hook.anchor, hkey]
    have hmine : (b.obtain p).1.anchor.function = (b.obtain p).2.function.id := by
      rw [hsame, hobtain.function_id, ha]
    have hwanted : wanted (b.obtain p).1.anchor := hsame ▸ hw rfl
    rw [settle_some]
    exact (Relation.ReflTransGen.single hobtain).trans (attach_moves hmine hwanted hmem)

theorem Plan.possible_ofCall {cs : Conventions} {call : StatementRef} {callee : Callee}
    {c : ConventionId × Convention} (h : cs.lookup? callee = some c) (observed : Option Nat) :
    (Plan.ofCall call c (signatures.forCall? call callee) observed).Possible cs signatures :=
  .call call c _ observed (Conventions.get?_of_lookup? h) fun _ hx => ⟨callee, hx⟩

theorem settleCall_moves {site : CallSite} (hw : wanted (.call ⟨b.function.id, site.statement⟩)) :
    Moves detector signatures wanted b (left (settleCall detector signatures b site)) := by
  have hresolve := b.resolve_fst detector (Callee.ofCall ⟨b.function.id, site.statement⟩ site.target)
  have hmove : Move detector signatures wanted b _ :=
    .resolve b (Callee.ofCall ⟨b.function.id, site.statement⟩ site.target)
  refine (Relation.ReflTransGen.single hmove).trans
    (settle_moves hmove.function_id.symm (fun _ => hw) ?_)
  intro p hp
  obtain ⟨c, hc, rfl⟩ := Option.map_eq_some_iff.mp hp
  exact ⟨rfl, Plan.possible_ofCall (hresolve.symm.trans hc) _⟩

theorem foldl_detach_moves (as : List Anchor) (ha : ∀ a ∈ as, a.function = b.function.id) :
    Moves detector signatures wanted b (as.foldl detach b) := by
  induction as generalizing b with
  | nil => exact .refl
  | cons a as ih =>
    have hmove : Move detector signatures wanted b (b.detach a) :=
      .detach b a (ha a List.mem_cons_self)
    refine (Relation.ReflTransGen.single hmove).trans (ih ?_)
    intro a' ha'
    exact (ha a' (List.mem_cons_of_mem _ ha')).trans hmove.function_id.symm

theorem dropUnseen_moves (b : Bench) (kind : HookKind) (seen : List Anchor) :
    Moves detector signatures wanted b (b.dropUnseen kind seen) := by
  have hdetach : Moves detector signatures wanted b
      ((b.hooks.active.keys.filter fun a =>
        a.kind == kind && a.function == b.function.id && !seen.contains a).foldl detach b) := by
    apply foldl_detach_moves
    intro a ha
    simp only [List.mem_filter, Bool.and_eq_true, beq_iff_eq] at ha
    exact ha.2.1.2
  refine hdetach.tail (.forget _ _ ?_)
  intro a ha
  simp only [Bool.and_eq_true, beq_iff_eq] at ha
  exact ha.1.2.trans hdetach.function_id.symm

theorem bind_moves {r : Except Halt Bench} {k : Bench → Except Halt Bench}
    (hr : Moves detector signatures wanted b (left r))
    (hk : ∀ b', Moves detector signatures wanted b b' →
      Moves detector signatures wanted b' (left (k b'))) :
    Moves detector signatures wanted b (left (r >>= k)) := by
  cases r with
  | error halt => exact hr
  | ok b' => exact hr.trans (hk b' hr)

theorem foldlM_moves {α : Type} {act : Bench → α → Except Halt Bench} (xs : List α) {b₀ : Bench}
    (hb : Moves detector signatures wanted b₀ b)
    (hact : ∀ b', ∀ x ∈ xs, Moves detector signatures wanted b₀ b' →
      Moves detector signatures wanted b' (left (act b' x))) :
    Moves detector signatures wanted b (left (xs.foldlM act b)) := by
  induction xs generalizing b with
  | nil => exact .refl
  | cons x xs ih =>
    rw [List.foldlM_cons]
    refine bind_moves (hact b x List.mem_cons_self hb) ?_
    intro b' hb'
    exact ih (hb.trans hb') fun b x hx => hact b x (List.mem_cons_of_mem _ hx)

theorem settleAll_moves {s : Snapshot} {own : Option (ConventionId × Convention)}
    {signature : Option (Nat × FunctionSignature)}
    (hw : ∀ a ∈ s.anchors b.function.id, wanted a)
    (hown : ∀ c ∈ own, b.conventions.value.get? c.1 = some c.2)
    (hsig : ∀ x ∈ signature, ∃ callee, signatures.function? callee = some x) :
    Moves detector signatures wanted b (left (b.settleAll detector signatures s own signature)) := by
  have hentry : Moves detector signatures wanted b
      (left (b.settle (.entry b.function.id)
        (own.map fun c => .ofEntry b.function.id c signature))) := by
    apply settle_moves rfl (fun _ => hw _ (s.entry_mem_anchors _))
    intro p hp
    obtain ⟨c, hc, rfl⟩ := Option.map_eq_some_iff.mp hp
    exact ⟨rfl, .entry _ c signature (hown c hc) hsig⟩
  have hcalls : ∀ b', Moves detector signatures wanted b b' →
      Moves detector signatures wanted b'
        (left (s.calls.foldlM (settleCall detector signatures) b')) := by
    intro b₁ hb₁
    apply foldlM_moves s.calls hb₁
    intro b' site hsite hb'
    apply settleCall_moves
    rw [hb'.function_id]
    exact hw _ (Snapshot.call_mem_anchors.mpr ⟨site, hsite, rfl⟩)
  have hreturns : ∀ b', Moves detector signatures wanted b b' →
      Moves detector signatures wanted b' (left (s.returns.foldlM (fun b' r =>
        b'.settle (.ret ⟨b.function.id, r⟩)
          (own.map fun c => .ofReturn ⟨b.function.id, r⟩ c signature)) b')) := by
    intro b₁ hb₁
    apply foldlM_moves s.returns hb₁
    intro b' r hr hb'
    have hr' : Anchor.ret ⟨b.function.id, r⟩ ∈ s.anchors b.function.id :=
      Snapshot.ret_mem_anchors.mpr hr
    apply settle_moves (a := .ret ⟨b.function.id, r⟩) hb'.function_id.symm
    · exact fun _ => hw _ hr'
    · intro p hp
      obtain ⟨c, hc, rfl⟩ := Option.map_eq_some_iff.mp hp
      exact ⟨rfl, .ret _ c signature (hb'.extends.get? (hown c hc)) hsig⟩
  unfold settleAll
  refine bind_moves hentry fun b₁ hb₁ => bind_moves (hcalls b₁ hb₁) fun b₂ hb₂ => ?_
  have hdrop : Moves detector signatures wanted b₂ _ :=
    b₂.dropUnseen_moves .call (s.calls.map fun site => .call ⟨b.function.id, site.statement⟩)
  refine hdrop.trans (bind_moves (hreturns _ ((hb₁.trans hb₂).trans hdrop)) fun b₃ _ => ?_)
  exact b₃.dropUnseen_moves .ret _

theorem instrument_of_mismatch {sources : Sources} {s : Snapshot} {e : AnalysisError}
    (h : s.mismatch? b.function = some e) : b.instrument sources s = .error ⟨b, e⟩ := by
  simp only [instrument, h]

/-- However it ends, instrumenting with a snapshot that serves the function is a sequence of moves
from the bench once it has started, and attaches hooks to anchors of the snapshot only. -/
theorem instrument_moves {sources : Sources} {s : Snapshot} (h : s.mismatch? b.function = none)
    (hw : ∀ a ∈ s.anchors b.function.id, wanted a) :
    Moves sources.detector sources.signatures.value wanted (b.start s)
      (left (b.instrument sources s)) := by
  simp only [instrument, h]
  change Moves _ _ _ (b.start s) (left (if (b.start s).conventions.poisoned then _ else _))
  split
  · exact .refl
  · have hresolve : Move sources.detector sources.signatures.value wanted (b.start s) _ :=
      .resolve _ (Callee.ofFunction b.function)
    refine (Relation.ReflTransGen.single hresolve).trans ?_
    have hfst := (b.start s).resolve_fst sources.detector (Callee.ofFunction b.function)
    have hid := hresolve.function_id
    change Moves _ _ _ ((b.start s).resolve sources.detector (Callee.ofFunction b.function)).2
      (left (if sources.signatures.poisoned then _ else _))
    split
    · exact .refl
    · refine settleAll_moves ?_ ?_ fun x hx => ⟨_, hx⟩
      · rw [hid]
        exact hw
      · intro c hc
        exact Conventions.get?_of_lookup? (hfst.symm.trans hc)

theorem moves_of_instrument_eq_ok {sources : Sources} {s : Snapshot}
    (h : b.instrument sources s = .ok b') :
    Moves sources.detector sources.signatures.value (· ∈ s.anchors b.function.id) b b' := by
  cases hm : s.mismatch? b.function with
  | some e =>
    rw [instrument_of_mismatch hm] at h
    cases h
  | none =>
    have hmoves : Moves sources.detector sources.signatures.value (· ∈ s.anchors b.function.id)
        (b.start s) (left (b.instrument sources s)) := instrument_moves hm fun _ ha => ha
    rw [h] at hmoves
    exact .head (.start _ s) hmoves

theorem deinstrument_moves (b : Bench) :
    Moves detector signatures wanted b b.deinstrument := by
  apply foldl_detach_moves
  intro a ha
  simpa using (List.mem_filter.mp ha).2

end Bench

end CallEffects
