import CallEffects.Proofs.Commutation
import CallEffects.Proofs.Listing
import CallEffects.Proofs.Removal
import CallEffects.Proofs.Upkeep

/-!
# What the engine recalls

`Hooks.last` is what the engine answers when it is asked for the hook of an anchor. It is kept apart
from the table of active hooks: a hook that is taken off stays there, and an anchor is forgotten if
an instrumentation of its function does not find it in the snapshot. Since calls are forgotten
before the returns are settled, an instrumentation that fails at a return has forgotten calls.

So over any sequence of acts the engine answers with the hook that was active on the anchor last,
unless the anchor has been forgotten since. Between the two tables this is one equation, which holds
of every step because a snapshot lists each of its anchors once. With snapshots of the functions
themselves an anchor is forgotten by an instrumentation that succeeds and by nothing else.
-/

namespace CallEffects

open Std

/-! ## The two tables -/

namespace Hooks

variable {h h' : Hooks} {a : Anchor}

/-- Whatever is active is recalled. -/
structure Mindful (h : Hooks) : Prop where
  consistent : h.Consistent
  recalls : ∀ {a : Anchor} {k : Hook}, h.active[a]? = some k → h.last[a]? = some k

theorem Mindful.last_eq (hm : h.Mindful) (a : Anchor) :
    h.last[a]? = (h.active[a]?).or h.last[a]? := by
  cases hk : h.active[a]? with
  | none => rfl
  | some k => exact hm.recalls hk

/-- What is recalled for the anchor after something that may have dropped it: the hook that is
active then, or else what was recalled before. -/
def Recollects (h h' : Hooks) (a : Anchor) (dropped : Prop) [Decidable dropped] : Prop :=
  h'.last[a]? = (h'.active[a]?).or (if dropped then none else h.last[a]?)

theorem Recollects.congr {dropped dropped' : Prop} [Decidable dropped] [Decidable dropped']
    (hr : h.Recollects h' a dropped) (hd : dropped' ↔ dropped) : h.Recollects h' a dropped' := by
  unfold Recollects at hr ⊢
  rw [hr]
  simp only [hd]

theorem Mindful.recollects {dropped : Prop} [Decidable dropped] (hm : h.Mindful)
    (ha : h'.active = h.active) (hl : h'.last = h.last) (hd : ¬dropped) (a : Anchor) :
    h.Recollects h' a dropped := by
  rw [Recollects, if_neg hd, ha, hl]
  exact hm.last_eq a

end Hooks

/-! ## What stops the work on an anchor -/

/-- The statement that the error could not find. -/
def AnalysisError.notFound? : AnalysisError → Option StatementId
  | .ir (.statementNotFound _ id) => some id
  | _ => none

def Anchor.statement? : Anchor → Option StatementId
  | .entry _ => none
  | .call r | .ret r => some r.statement

/-- Whether an instrumentation of the function that uses the snapshot, and is stopped by this if by
anything, drops the anchor: if the snapshot does not list it, and nothing stops the instrumentation,
or nothing before the returns when the anchor is a call. -/
def Snapshot.drops (s : Snapshot) (f : FunctionId) (a : Anchor) : Option AnalysisError → Bool
  | none => a.function == f && !(s.anchors f).contains a
  | some cause => a.function == f && !(s.anchors f).contains a && a.kind == .call &&
    cause.notFound?.any s.returns.contains

namespace Snapshot

variable {s : Snapshot} {f : FunctionId} {a : Anchor} {cause : AnalysisError}

theorem drops_none_iff :
    s.drops f a none = true ↔ a.function = f ∧ a ∉ s.anchors f := by
  simp [drops]

theorem drops_entry (s : Snapshot) (f i : FunctionId) (stop : Option AnalysisError) :
    s.drops f (.entry i) stop = false := by
  by_cases hi : i = f
  · cases stop <;> simp [drops, hi, s.entry_mem_anchors f]
  · cases stop <;> simp [drops, hi, Anchor.function]

theorem drops_some_of_return {ret : StatementId} (h : cause.notFound? = some ret)
    (hret : ret ∈ s.returns) :
    s.drops f a (some cause) = true ↔
      a.kind = .call ∧ a.function = f ∧ a ∉ s.calls.map fun site => .call ⟨f, site.statement⟩ := by
  cases a with
  | entry g => simp [drops, Anchor.kind]
  | call r => simp [drops, Anchor.kind, h, hret, anchors]
  | ret r => simp [drops, Anchor.kind]

theorem drops_some_of_not_return (h : ∀ id ∈ cause.notFound?, id ∉ s.returns) :
    s.drops f a (some cause) = false := by
  cases hid : cause.notFound? with
  | none => simp [drops, hid]
  | some id => simp [drops, hid, h id hid]

end Snapshot

theorem Function.notFound?_insertSynthetic {f : Function} {a : Anchor} {ss : List Statement}
    {e : IrError} (h : f.insertSynthetic a.position ss = .error e) :
    (AnalysisError.ir e).notFound? = a.statement? := by
  have hplace : f.resolvePosition a.position = .error e := by
    unfold insertSynthetic at h
    cases hp : f.resolvePosition a.position with
    | ok place =>
      rw [hp] at h
      cases h
    | error e' =>
      rw [hp] at h
      exact congrArg Except.error (Except.error.inj h)
  cases a with
  | entry g =>
    simp only [resolvePosition, Anchor.position] at hplace
    split at hplace
    · cases hplace
    · obtain rfl := Except.error.inj hplace
      rfl
  | call r | ret r =>
    simp only [resolvePosition, Anchor.position] at hplace
    split at hplace
    · cases hplace
    · obtain rfl := Except.error.inj hplace
      rfl

namespace Bench

variable {b b' b'' : Bench} {a : Anchor} {hook : Hook} {plan : Option Plan} {halt : Halt}
variable {detector : Option Detector} {signatures : Signatures} {sources : Sources} {s : Snapshot}
variable {as as' : List Anchor}

theorem attach_notFound? (h : b.attach hook = .error halt) :
    halt.cause.notFound? = hook.anchor.statement? := by
  by_cases hactive : (b.hooks.active[hook.anchor]?).any fun active => active.id == hook.id
  · rw [attach_of_active hactive] at h
    cases h
  · cases hf : (b.detach hook.anchor).function.insertSynthetic hook.anchor.position
        hook.statements with
    | ok f =>
      rw [attach_of_ok hactive hf] at h
      cases h
    | error e =>
      rw [attach_of_error hactive hf] at h
      obtain rfl := Except.error.inj h
      exact Function.notFound?_insertSynthetic hf

theorem settle_notFound? (hp : ∀ p ∈ plan, p.key.anchor = a)
    (h : b.settle a plan = .error halt) : halt.cause.notFound? = a.statement? := by
  cases plan with
  | none => cases h
  | some p =>
    have hkey := (b.obtain_mem_built p).2
    have hanchor : (b.obtain p).1.anchor = a := by rw [Hook.anchor, hkey, hp p rfl]
    rw [settle_some] at h
    rw [← hanchor]
    exact attach_notFound? h

/-! ## Settling anchors -/

/-- Work on these anchors, each once. Where a hook is active in the end, it is the one recalled;
elsewhere what was recalled still is. -/
structure Tends (detector : Option Detector) (signatures : Signatures) (b b' : Bench)
    (as : List Anchor) : Prop where
  moves : Moves detector signatures (fun _ => True) b b'
  others : ∀ a : Anchor, a ∉ as → b'.hooks.active[a]? = b.hooks.active[a]? ∧
    b'.hooks.last[a]? = b.hooks.last[a]?
  last_eq : ∀ a : Anchor, b'.hooks.last[a]? = (b'.hooks.active[a]?).or b.hooks.last[a]?

namespace Tends

theorem mindful (h : Tends detector signatures b b' as) (hb : b.hooks.Mindful) :
    b'.hooks.Mindful := by
  refine ⟨Moves.consistent h.moves hb.consistent, fun {a k} hk => ?_⟩
  rw [h.last_eq a, hk, Option.some_or]

theorem of_eq (hm : Moves detector signatures (fun _ => True) b b') (hb : b.hooks.Mindful)
    (ha : b'.hooks.active = b.hooks.active) (hl : b'.hooks.last = b.hooks.last) :
    Tends detector signatures b b' [] := by
  refine ⟨hm, fun a _ => ⟨by rw [ha], by rw [hl]⟩, fun a => ?_⟩
  rw [ha, hl]
  exact hb.last_eq a

theorem of_one (hm : Moves detector signatures (fun _ => True) b b') (hb : b.hooks.Mindful)
    (ho : ∀ a' : Anchor, a' ≠ a → b'.hooks.active[a']? = b.hooks.active[a']? ∧
      b'.hooks.last[a']? = b.hooks.last[a']?)
    (h : b'.hooks.last[a]? = (b'.hooks.active[a]?).or b.hooks.last[a]?) :
    Tends detector signatures b b' [a] := by
  refine ⟨hm, fun a' ha' => ho a' (by simpa using ha'), fun a' => ?_⟩
  by_cases ha' : a' = a
  · rw [ha']
    exact h
  · obtain ⟨hactive, hlast⟩ := ho a' ha'
    rw [hactive, hlast]
    exact hb.last_eq a'

theorem trans (h : Tends detector signatures b b' as) (h' : Tends detector signatures b' b'' as')
    (hd : as.Disjoint as') : Tends detector signatures b b'' (as ++ as') := by
  refine ⟨h.moves.trans h'.moves, fun a ha => ?_, fun a => ?_⟩
  · obtain ⟨ha, ha'⟩ := not_or.mp (mt List.mem_append.mpr ha)
    obtain ⟨hactive, hlast⟩ := h.others a ha
    obtain ⟨hactive', hlast'⟩ := h'.others a ha'
    exact ⟨hactive'.trans hactive, hlast'.trans hlast⟩
  · by_cases ha' : a ∈ as'
    · rw [h'.last_eq a, (h.others a fun ha => hd ha ha').2]
    · obtain ⟨hactive', hlast'⟩ := h'.others a ha'
      rw [hactive', hlast']
      exact h.last_eq a

end Tends

theorem attach_tends (hb : b.hooks.Mindful) (ha : hook.anchor.function = b.function.id)
    (hk : hook ∈ b.hooks.built) :
    Tends detector signatures b (left (b.attach hook)) [hook.anchor] := by
  have hmoves : Moves detector signatures (fun _ => True) b (left (b.attach hook)) :=
    attach_moves ha trivial hk
  have hlast : (b.detach hook.anchor).hooks.last = b.hooks.last := (b.detach_last hook.anchor).1
  have herase : (b.detach hook.anchor).hooks.active = b.hooks.active.erase hook.anchor :=
    b.detach_active hook.anchor
  by_cases hactive : (b.hooks.active[hook.anchor]?).any fun active => active.id == hook.id
  · rw [attach_of_active hactive] at hmoves ⊢
    -- No two hooks have one id, so the active hook is the one that is remembered.
    obtain ⟨k, hk', hid⟩ := (Option.any_eq_true _ _).mp hactive
    obtain rfl : k = hook :=
      hb.consistent.id_inj (hb.consistent.active_built hk').1 hk (by simpa using hid)
    refine .of_one hmoves hb (fun a ha => ⟨rfl, Table.getElem?_insert_of_ne ha.symm⟩) ?_
    simp [remember, hk']
  · cases hf : (b.detach hook.anchor).function.insertSynthetic hook.anchor.position
        hook.statements with
    | error e =>
      rw [attach_of_error hactive hf] at hmoves ⊢
      refine .of_one hmoves hb (fun a ha => ?_) ?_
      · rw [left_error, herase, hlast]
        exact ⟨Table.getElem?_erase_of_ne ha.symm, rfl⟩
      · rw [left_error, herase, hlast, ExtTreeMap.getElem?_erase_self, Option.none_or]
    | ok f =>
      rw [attach_of_ok hactive hf] at hmoves ⊢
      refine .of_one hmoves hb (fun a ha => ?_) ?_
      · simp only [left_ok, remember, place, herase, hlast]
        rw [Table.getElem?_insert_of_ne ha.symm, Table.getElem?_erase_of_ne ha.symm,
          Table.getElem?_insert_of_ne ha.symm]
        exact ⟨rfl, rfl⟩
      · simp [remember, place]

theorem settle_tends (hb : b.hooks.Mindful) (ha : a.function = b.function.id)
    (hp : ∀ p ∈ plan, p.key.anchor = a ∧ p.Possible b.conventions.value signatures) :
    Tends detector signatures b (left (b.settle a plan)) [a] := by
  cases plan with
  | none =>
    have hlast : (left (b.settle a none)).hooks.last = b.hooks.last := (b.detach_last a).1
    have hactive : (left (b.settle a none)).hooks.active = b.hooks.active.erase a :=
      b.detach_active a
    refine .of_one (settle_moves ha (fun _ => trivial) hp) hb (fun a' ha' => ?_) ?_
    · rw [hactive, hlast]
      exact ⟨Table.getElem?_erase_of_ne ha'.symm, rfl⟩
    · rw [hactive, hlast, ExtTreeMap.getElem?_erase_self, Option.none_or]
  | some p =>
    obtain ⟨hanchor, hpossible⟩ := hp p rfl
    obtain ⟨hmem, hkey⟩ := b.obtain_mem_built p
    have hobtain : Tends detector signatures b (b.obtain p).2 [] := by
      refine .of_eq (.single (.obtain b p ?_ trivial hpossible)) hb (b.obtain_active p)
        (b.obtain_last p)
      rw [hanchor, ha]
    have hhook : (b.obtain p).1.anchor = a := by rw [Hook.anchor, hkey, hanchor]
    have hmine : (b.obtain p).1.anchor.function = (b.obtain p).2.function.id := by
      rw [hhook, ha, obtain_function_id]
    have hattach : Tends detector signatures (b.obtain p).2
        (left ((b.obtain p).2.attach (b.obtain p).1)) [(b.obtain p).1.anchor] :=
      attach_tends (hobtain.mindful hb) hmine hmem
    rw [settle_some]
    rw [hhook] at hattach
    exact hobtain.trans hattach (List.disjoint_nil_left _)

theorem settleCall_tends (hb : b.hooks.Mindful) (site : CallSite) :
    Tends detector signatures b (left (settleCall detector signatures b site))
      [.call (b.callAt site)] := by
  have hfst := b.resolve_fst detector (Callee.ofCall (b.callAt site) site.target)
  have hresolve : Tends detector signatures b
      (b.resolve detector (Callee.ofCall (b.callAt site) site.target)).2 [] := by
    obtain ⟨cs, asked, heq, -⟩ :=
      b.resolve_snd detector (Callee.ofCall (b.callAt site) site.target)
    refine .of_eq (.single (.resolve b _)) hb ?_ ?_ <;> rw [heq]
  have hid : (b.callAt site).function = b.function.id := rfl
  have hsettle : Tends detector signatures
      (b.resolve detector (Callee.ofCall (b.callAt site) site.target)).2
      (left (settleCall detector signatures b site)) [.call (b.callAt site)] := by
    apply settle_tends (hresolve.mindful hb)
    · exact hid.trans (Moves.function_id hresolve.moves).symm
    · intro p hp
      obtain ⟨c, hc, rfl⟩ := Option.map_eq_some_iff.mp hp
      exact ⟨rfl, Plan.possible_ofCall (hfst.symm.trans hc) _⟩
  exact hresolve.trans hsettle (List.disjoint_nil_left _)

theorem foldlM_tends {α : Type} {act : Bench → α → Except Halt Bench} (anchor : α → Anchor)
    {b₀ : Bench} {xs : List α} (hb : b.hooks.Mindful)
    (hm : Moves detector signatures (fun _ => True) b₀ b) (hnodup : (xs.map anchor).Nodup)
    (hact : ∀ (b' : Bench) (x : α), Moves detector signatures (fun _ => True) b₀ b' →
      b'.hooks.Mindful → Tends detector signatures b' (left (act b' x)) [anchor x]) :
    Tends detector signatures b (left (xs.foldlM act b)) (xs.map anchor) := by
  induction xs generalizing b with
  | nil => exact .of_eq .refl hb rfl rfl
  | cons x xs ih =>
    rw [List.map_cons, List.nodup_cons] at hnodup
    obtain ⟨hx, hnodup⟩ := hnodup
    have hone := hact b x hm hb
    rw [List.foldlM_cons, List.map_cons]
    cases hr : act b x with
    | error halt =>
      rw [hr] at hone
      refine ⟨hone.moves, fun a ha => hone.others a ?_, hone.last_eq⟩
      exact fun hmem => ha (List.mem_cons.mpr (.inl (List.mem_singleton.mp hmem)))
    | ok b' =>
      rw [hr] at hone
      exact hone.trans (ih (hone.mindful hb) (hm.trans hone.moves) hnodup) (by simpa using hx)

/-! ## Dropping anchors -/

theorem dropUnseen_mindful (hb : b.hooks.Mindful) (kind : HookKind) (seen : List Anchor) :
    (b.dropUnseen kind seen).hooks.Mindful := by
  have hmoves : Moves none .empty (fun _ => True) b _ := b.dropUnseen_moves kind seen
  refine ⟨Moves.consistent hmoves hb.consistent, fun {a k} hk => ?_⟩
  rw [dropUnseen_active] at hk
  rw [dropUnseen_last]
  split at hk
  · cases hk
  · next ha =>
    rw [if_neg ha]
    exact hb.recalls hk

def halted? : Except Halt Bench → Option AnalysisError
  | .ok _ => none
  | .error halt => some halt.cause

theorem Tends.recollects (h : Tends detector signatures b b' as) (a : Anchor) :
    b.hooks.Recollects b'.hooks a False := by
  rw [Hooks.Recollects, if_neg id]
  exact h.last_eq a

theorem Tends.recollects_halt (h : Tends detector signatures b halt.bench as)
    (hcause : ∀ id ∈ halt.cause.notFound?, id ∉ s.returns) (f : FunctionId) (a : Anchor) :
    b.hooks.Recollects (left (.error halt)).hooks a (s.drops f a (halted? (.error halt)) = true) := by
  refine (h.recollects a).congr ?_
  rw [halted?, Snapshot.drops_some_of_not_return hcause]
  exact iff_of_false Bool.false_ne_true id

theorem recollects_dropUnseen {kind : HookKind} {seen : List Anchor}
    (h : Tends detector signatures b b' as)
    (h' : Tends detector signatures (b'.dropUnseen kind seen) b'' as') (hd : as.Disjoint as')
    (hseen : ∀ a ∈ as', ¬b'.Unseen kind seen a) (a : Anchor) :
    b.hooks.Recollects b''.hooks a (b'.Unseen kind seen a) := by
  have hactive := b'.dropUnseen_active kind seen a
  have hlast := b'.dropUnseen_last kind seen a
  unfold Hooks.Recollects
  by_cases ha : b'.Unseen kind seen a
  · rw [if_pos ha] at hactive hlast
    obtain ⟨hactive', hlast'⟩ := h'.others a fun hmem => hseen a hmem ha
    rw [hactive', hlast', hactive, hlast, if_pos ha, Option.none_or]
  · rw [if_neg ha] at hactive hlast ⊢
    by_cases hmem : a ∈ as'
    · rw [h'.last_eq a, hlast, (h.others a fun ha => hd ha hmem).2]
    · obtain ⟨hactive', hlast'⟩ := h'.others a hmem
      rw [hactive', hlast', hactive, hlast]
      exact h.last_eq a

theorem recollects_of_dropUnseen {dropped dropped' : Prop} [Decidable dropped] [Decidable dropped']
    {kind : HookKind} {seen : List Anchor} (h : b.hooks.Recollects b'.hooks a dropped)
    (hd : dropped' ↔ dropped ∨ b'.Unseen kind seen a) :
    b.hooks.Recollects (b'.dropUnseen kind seen).hooks a dropped' := by
  by_cases ha : b'.Unseen kind seen a
  · rw [Hooks.Recollects, dropUnseen_active, dropUnseen_last, if_pos ha, if_pos ha,
      if_pos (hd.mpr (.inr ha))]
    rfl
  · have h' := h.congr (hd.trans (or_iff_left ha))
    rw [Hooks.Recollects, dropUnseen_active, dropUnseen_last, if_neg ha, if_neg ha]
    exact h'

/-! ## A whole instrumentation -/

theorem informed_tends (hb : b.hooks.Mindful) (s : Snapshot) :
    Tends detector signatures b (b.informed detector s) [] := by
  obtain ⟨cs, asked, heq, -⟩ := (b.start s).resolve_snd detector (.ofFunction b.function)
  refine .of_eq (b.informed_moves s) hb ?_ ?_
  · rw [informed, heq, start_eq]
    rfl
  · rw [informed, heq, start_eq]
    rfl

/-- A refused snapshot, or a registry that cannot be read, stops everything before any anchor. -/
theorem instrument_refused (hb : b.hooks.Mindful)
    (h : ¬(s.mismatch? b.function = none ∧ b.conventions.poisoned = false ∧
      sources.signatures.poisoned = false)) :
    ∃ halt, b.instrument sources s = .error halt ∧ halt.cause.notFound? = none ∧
      Tends sources.detector sources.signatures.value b halt.bench [] := by
  cases hs : s.mismatch? b.function with
  | some e =>
    refine ⟨⟨b, e⟩, instrument_of_mismatch hs, ?_, .of_eq .refl hb rfl rfl⟩
    unfold Snapshot.mismatch? at hs
    split at hs
    · obtain rfl := Option.some.inj hs
      rfl
    · split at hs
      · obtain rfl := Option.some.inj hs
        rfl
      · cases hs
  | none =>
    cases hc : b.conventions.poisoned with
    | true =>
      refine ⟨_, instrument_of_poisoned hs hc, rfl, .of_eq (.single (.start b s)) hb ?_ ?_⟩
      · rw [start_eq]
        rfl
      · rw [start_eq]
        rfl
    | false =>
      cases hss : sources.signatures.poisoned with
      | true => exact ⟨_, instrument_of_poisoned_signatures hs hc hss, rfl, informed_tends hb s⟩
      | false => exact absurd ⟨hs, hc, hss⟩ h

theorem settleCalls_tends {f : FunctionId} (hb : b.hooks.Mindful) (hf : b.function.id = f)
    (hs : s.Distinct) :
    Tends detector signatures b (left (s.calls.foldlM (settleCall detector signatures) b))
      (s.calls.map fun site => .call ⟨f, site.statement⟩) := by
  refine foldlM_tends (fun site : CallSite => .call ⟨f, site.statement⟩) hb .refl
    (hs.calls_nodup f) fun b' site hm hb' => ?_
  have htends : Tends detector signatures b' (left (settleCall detector signatures b' site))
      [.call (b'.callAt site)] := settleCall_tends hb' site
  rwa [callAt, Moves.function_id hm, hf] at htends

theorem settleCalls_notFound? (h : s.calls.foldlM (settleCall detector signatures) b = .error halt) :
    ∃ site ∈ s.calls, halt.cause.notFound? = some site.statement := by
  apply foldlM_error (P := fun halt => ∃ site ∈ s.calls, halt.cause.notFound? = some site.statement)
    _ h
  intro b' site hsite halt' h'
  refine ⟨site, hsite, settle_notFound? (a := .call (b'.callAt site)) (fun p hp => ?_) h'⟩
  obtain ⟨c, -, rfl⟩ := Option.map_eq_some_iff.mp hp
  rfl

theorem settleReturns_tends {f : FunctionId} (hb : b.hooks.Mindful) (hf : b.function.id = f)
    (hs : s.Distinct) {plan : StatementId → Option Plan}
    (hp : ∀ ret, ∀ p ∈ plan ret, p.key.anchor = .ret ⟨f, ret⟩ ∧
      p.Possible b.conventions.value signatures) :
    Tends detector signatures b
      (left (s.returns.foldlM (fun b' ret => b'.settle (.ret ⟨f, ret⟩) (plan ret)) b))
      (s.returns.map fun ret => .ret ⟨f, ret⟩) := by
  refine foldlM_tends (fun ret => .ret ⟨f, ret⟩) hb .refl (hs.returns_nodup f)
    fun b' ret hm hb' => ?_
  apply settle_tends hb'
  · exact hf.symm.trans (Moves.function_id hm).symm
  · intro p hmem
    exact ⟨(hp ret p hmem).1, (hp ret p hmem).2.extends (Moves.extends hm)⟩

theorem settleReturns_notFound? {f : FunctionId} {plan : StatementId → Option Plan}
    (hp : ∀ ret, ∀ p ∈ plan ret, p.key.anchor = .ret ⟨f, ret⟩)
    (h : s.returns.foldlM (fun b' ret => b'.settle (.ret ⟨f, ret⟩) (plan ret)) b = .error halt) :
    ∃ ret ∈ s.returns, halt.cause.notFound? = some ret := by
  apply foldlM_error (P := fun halt => ∃ ret ∈ s.returns, halt.cause.notFound? = some ret) _ h
  intro b' ret hret halt' h'
  exact ⟨ret, hret, settle_notFound? (a := .ret ⟨f, ret⟩) (hp ret) h'⟩

/-- From the calls on: those that the snapshot does not list are dropped first, then the returns are
settled, and at last the returns that it does not list are dropped. -/
theorem settleReturns_recollects {f : FunctionId} (hb' : b'.hooks.Mindful) (hf : b'.function.id = f)
    (hs : s.Distinct) (h : Tends detector signatures b b' as)
    (hd : as.Disjoint (s.returns.map fun ret => .ret ⟨f, ret⟩))
    {plan : StatementId → Option Plan}
    (hp : ∀ ret, ∀ p ∈ plan ret, p.key.anchor = .ret ⟨f, ret⟩ ∧
      p.Possible b'.conventions.value signatures) {r : Except Halt Bench}
    (hr : r = do
      let b₃ ← s.returns.foldlM (fun b' ret => b'.settle (.ret ⟨f, ret⟩) (plan ret))
        (b'.dropUnseen .call (s.calls.map fun site => .call ⟨f, site.statement⟩))
      .ok (b₃.dropUnseen .ret (s.returns.map fun ret => .ret ⟨f, ret⟩))) (a : Anchor) :
    b.hooks.Recollects (left r).hooks a (s.drops f a (halted? r) = true) := by
  have hdrop := dropUnseen_mindful hb' .call (s.calls.map fun site => .call ⟨f, site.statement⟩)
  have hid : (b'.dropUnseen .call
      (s.calls.map fun site => .call ⟨f, site.statement⟩)).function.id = f :=
    (b'.dropUnseen_spares .call _).function_id.trans hf
  have hreturns : Tends detector signatures (b'.dropUnseen .call _) _ _ :=
    settleReturns_tends hdrop hid hs fun ret p hmem => by
      rw [dropUnseen_conventions]
      exact hp ret p hmem
  have hseen : ∀ a ∈ s.returns.map fun ret => Anchor.ret ⟨f, ret⟩,
      ¬b'.Unseen .call (s.calls.map fun site => .call ⟨f, site.statement⟩) a := by
    rintro a ha ⟨hkind, -⟩
    obtain ⟨ret, -, rfl⟩ := List.mem_map.mp ha
    cases hkind
  have hrecollects := recollects_dropUnseen h hreturns hd hseen a
  cases hfold : s.returns.foldlM (fun b' ret => b'.settle (.ret ⟨f, ret⟩) (plan ret))
      (b'.dropUnseen .call (s.calls.map fun site => .call ⟨f, site.statement⟩)) with
  | error halt =>
    rw [hfold] at hr hrecollects
    obtain ⟨ret, hret, hcause⟩ := settleReturns_notFound? (fun ret p hp' => (hp ret p hp').1) hfold
    subst hr
    refine hrecollects.congr ((Snapshot.drops_some_of_return hcause hret).trans ?_)
    rw [Unseen, hf]
  | ok b₃ =>
    rw [hfold] at hr hrecollects hreturns
    subst hr
    refine recollects_of_dropUnseen hrecollects (Snapshot.drops_none_iff.trans ?_)
    exact (unseen_iff hf ((Moves.function_id hreturns.moves).trans hid)).symm

theorem settleAll_recollects (hb : b.hooks.Mindful) (hs : s.listed.Nodup)
    {own : Option (ConventionId × Convention)} {signature : Option (Nat × FunctionSignature)}
    (hown : ∀ c ∈ own, b.conventions.value.get? c.1 = some c.2)
    (hsig : ∀ x ∈ signature, ∃ callee, signatures.function? callee = some x) (a : Anchor) :
    b.hooks.Recollects (left (b.settleAll detector signatures s own signature)).hooks a
      (s.drops b.function.id a
        (halted? (b.settleAll detector signatures s own signature)) = true) := by
  have hdistinct := Snapshot.distinct_of_listed hs
  have hentryplan : ∀ p ∈ own.map fun c => Plan.ofEntry b.function.id c signature,
      p.key.anchor = .entry b.function.id ∧ p.Possible b.conventions.value signatures := by
    intro p hp
    obtain ⟨c, hc, rfl⟩ := Option.map_eq_some_iff.mp hp
    exact ⟨rfl, .entry _ c signature (hown c hc) hsig⟩
  have hentry : Tends detector signatures b _ [.entry b.function.id] :=
    settle_tends hb rfl hentryplan
  cases hr₁ : b.settle (.entry b.function.id)
      (own.map fun c => .ofEntry b.function.id c signature) with
  | error halt =>
    rw [hr₁, left_error] at hentry
    have heq : b.settleAll detector signatures s own signature = .error halt := by
      rw [settleAll, hr₁]
      rfl
    have hcause : halt.cause.notFound? = none :=
      settle_notFound? (fun p hp => (hentryplan p hp).1) hr₁
    rw [heq]
    exact hentry.recollects_halt (by simp [hcause]) b.function.id a
  | ok b₁ =>
    rw [hr₁, left_ok] at hentry
    have hid₁ : b₁.function.id = b.function.id := Moves.function_id hentry.moves
    have hcalls := hentry.trans (settleCalls_tends (hentry.mindful hb) hid₁ hdistinct) (by simp)
    cases hr₂ : s.calls.foldlM (settleCall detector signatures) b₁ with
    | error halt =>
      rw [hr₂, left_error] at hcalls
      have heq : b.settleAll detector signatures s own signature = .error halt := by
        rw [settleAll, hr₁]
        change (s.calls.foldlM (settleCall detector signatures) b₁ >>= _) = _
        rw [hr₂]
        rfl
      obtain ⟨site, hsite, hcause⟩ := settleCalls_notFound? hr₂
      have hnot := Snapshot.not_mem_returns hs hsite
      rw [heq]
      exact hcalls.recollects_halt (by simp [hcause, hnot]) b.function.id a
    | ok b₂ =>
      rw [hr₂, left_ok] at hcalls
      have hplans : ∀ ret, ∀ p ∈ own.map fun c => Plan.ofReturn ⟨b.function.id, ret⟩ c signature,
          p.key.anchor = .ret ⟨b.function.id, ret⟩ ∧
            p.Possible b₂.conventions.value signatures := by
        intro ret p hp
        obtain ⟨c, hc, rfl⟩ := Option.map_eq_some_iff.mp hp
        exact ⟨rfl, .ret _ c signature ((Moves.extends hcalls.moves).get? (hown c hc)) hsig⟩
      refine settleReturns_recollects (hcalls.mindful hb) (Moves.function_id hcalls.moves) hdistinct
        hcalls ?_ hplans ?_ a
      · simp [List.disjoint_left]
      · rw [settleAll, hr₁]
        change (s.calls.foldlM (settleCall detector signatures) b₁ >>= _) = _
        rw [hr₂]
        rfl

/-- However an instrumentation ends, it has dropped the anchors it came to that the snapshot does
not list, and has worked once at most on any other. -/
theorem instrument_recollects (hb : b.hooks.Mindful) (hs : s.listed.Nodup) (a : Anchor) :
    b.hooks.Recollects (left (b.instrument sources s)).hooks a
      (s.drops b.function.id a (halted? (b.instrument sources s)) = true) := by
  by_cases hready : s.mismatch? b.function = none ∧ b.conventions.poisoned = false ∧
      sources.signatures.poisoned = false
  · obtain ⟨hserves, hc, hss⟩ := hready
    have hinformed : Tends sources.detector sources.signatures.value b
        (b.informed sources.detector s) [] := informed_tends hb s
    obtain ⟨-, hlast⟩ := hinformed.others a List.not_mem_nil
    have hall : (b.informed sources.detector s).hooks.Recollects
        (left (b.instrument sources s)).hooks a
          (s.drops (b.informed sources.detector s).function.id a
            (halted? (b.instrument sources s)) = true) := by
      rw [instrument_eq_settleAll hserves hc hss]
      exact settleAll_recollects (hinformed.mindful hb) hs
        (fun c hc => Conventions.get?_of_lookup? hc) (fun x hx => ⟨_, hx⟩) a
    rwa [Hooks.Recollects, hlast, informed_function] at hall
  · obtain ⟨halt, hhalt, hcause, htends⟩ := instrument_refused hb hready
    rw [hhalt]
    exact htends.recollects_halt (by simp [hcause]) b.function.id a

end Bench

/-! ## Acts -/

theorem Round.obstacle?_instrument (r : Round) (sources : Sources) (f : Function) (s : Snapshot) :
    obstacle? (r.instrument sources f s) =
      Bench.halted? ((r.bench f).instrument sources s) := by
  unfold instrument
  cases (r.bench f).instrument sources s <;> rfl

namespace Act

variable {x : Sources × Round} {act : Act} {acts : List Act} {i : FunctionId} {f : Function}

def drops (x : Sources × Round) (a : Anchor) : Act → Bool
  | .instrument i s => (x.2.functions[i]?).any fun f =>
    s.drops i a (Round.obstacle? (x.2.instrument x.1 f s))
  | _ => false

/-- The hook that was active on the anchor after the last of the acts after which one was, if the
anchor has not been dropped since. What is active before the acts, if anything, is `m`. -/
def recollect (a : Anchor) (x : Sources × Round) (m : Option Hook) : List Act → Option Hook
  | [] => m
  | act :: acts =>
    recollect a (perform x act)
      (((perform x act).2.hooks.active[a]?).or (if act.drops x a then none else m)) acts

theorem perform_deinstrument_last (x : Sources × Round) (i : FunctionId) :
    (perform x (.deinstrument i)).2.hooks.last = x.2.hooks.last := by
  simp only [perform, onFunction]
  cases x.2.functions[i]? with
  | none => rfl
  | some f => exact (Bench.foldl_detach_last _ (x.2.bench f)).1

theorem perform_recollects (hx : x.2.Placed) (hm : x.2.hooks.Mindful)
    (hs : ∀ i s, act = .instrument i s → s.listed.Nodup) (a : Anchor) :
    x.2.hooks.Recollects (perform x act).2.hooks a (act.drops x a = true) := by
  cases act with
  | create | edit | exchange => exact hm.recollects rfl rfl Bool.false_ne_true a
  | instrument i s =>
    cases hf : x.2.functions[i]? with
    | none =>
      simp only [perform, onFunction, drops, hf, Option.any_none]
      exact hm.recollects rfl rfl Bool.false_ne_true a
    | some f =>
      have hid : f.id = i := hx.ids hf
      have hbench : x.2.hooks.Recollects (Bench.left ((x.2.bench f).instrument x.1 s)).hooks a
          (s.drops f.id a (Bench.halted? ((x.2.bench f).instrument x.1 s)) = true) :=
        Bench.instrument_recollects hm (hs i s rfl) a
      simp only [perform, onFunction, drops, hf, Option.any_some, Round.left_instrument,
        Round.obstacle?_instrument]
      rw [← hid]
      exact hbench
  | deinstrument i =>
    have hdrops : drops x a (.deinstrument i) = false := rfl
    rw [Hooks.Recollects, perform_deinstrument_last, hdrops, if_neg Bool.false_ne_true]
    cases hf : x.2.functions[i]? with
    | none =>
      simp only [perform, onFunction, hf]
      exact hm.last_eq a
    | some f =>
      simp only [perform, onFunction, hf, Round.deinstrument_active]
      by_cases ha : a.function = f.id
      · rw [if_pos ha, Option.none_or]
      · rw [if_neg ha]
        exact hm.last_eq a
  | observe i s =>
    cases hf : x.2.functions[i]? with
    | none =>
      simp only [perform, onFunction, hf]
      exact hm.recollects rfl rfl Bool.false_ne_true a
    | some f =>
      simp only [perform, onFunction, hf]
      rw [Hooks.observe_fields]
      exact hm.recollects rfl rfl Bool.false_ne_true a

theorem perform_mindful (hx : x.2.Placed) (hm : x.2.hooks.Mindful)
    (hs : ∀ i s, act = .instrument i s → s.listed.Nodup) : (perform x act).2.hooks.Mindful := by
  refine ⟨(perform_placed hx act).consistent, fun {a k} hk => ?_⟩
  rw [perform_recollects hx hm hs a, hk, Option.some_or]

theorem performAll_recollects (hx : x.2.Placed) (hm : x.2.hooks.Mindful)
    (hs : ∀ i s, Act.instrument i s ∈ acts → s.listed.Nodup) :
    (performAll x acts).2.hooks.Mindful ∧
      ∀ a : Anchor, (performAll x acts).2.hooks.last[a]? = recollect a x x.2.hooks.last[a]? acts := by
  induction acts generalizing x with
  | nil => exact ⟨hm, fun a => rfl⟩
  | cons act acts ih =>
    have hact : ∀ i s, act = .instrument i s → s.listed.Nodup :=
      fun i s he => hs i s (he ▸ List.mem_cons_self)
    obtain ⟨hmindful, hlast⟩ := ih (perform_placed hx act) (perform_mindful hx hm hact)
      fun i s hmem => hs i s (List.mem_cons_of_mem _ hmem)
    refine ⟨hmindful, fun a => (hlast a).trans ?_⟩
    rw [recollect, perform_recollects hx hm hact a]

theorem fresh_recollects (hx : x.2.Fresh)
    (hs : ∀ i s, Act.instrument i s ∈ acts → s.listed.Nodup) :
    (performAll x acts).2.hooks.Mindful ∧
      ∀ a : Anchor, (performAll x acts).2.hooks.last[a]? = recollect a x none acts := by
  have hempty : x.2.hooks.Mindful := by
    rw [hx.hooks]
    exact ⟨Hooks.consistent_empty, fun hk => by simp [Hooks.empty] at hk⟩
  obtain ⟨hmindful, hlast⟩ := performAll_recollects hx.placed hempty hs
  refine ⟨hmindful, fun a => ?_⟩
  have hnone : x.2.hooks.last[a]? = none := by rw [hx.hooks]; simp [Hooks.empty]
  rw [hlast a, hnone]

theorem recollect_of_inactive {a : Anchor}
    (h : ∀ before, before <+: acts → (performAll x before).2.hooks.active[a]? = none) :
    recollect a x none acts = none := by
  induction acts generalizing x with
  | nil => rfl
  | cons act acts ih =>
    have hnone : (perform x act).2.hooks.active[a]? = none := h [act] (by simp)
    rw [recollect, hnone, Option.none_or, ite_self]
    exact ih fun before hbefore => h (act :: before) (by simpa using hbefore)

theorem performAll_firm (hx : x.2.Firm) (acts : List Act) : (performAll x acts).2.Firm := by
  induction acts generalizing x with
  | nil => exact hx
  | cons act acts ih => exact ih (perform_firm hx act)

/-- With a snapshot of the function itself an anchor is dropped by a success only. -/
theorem succeeds_of_drops {a : Anchor} (hx : x.2.Firm) (hf : x.2.functions[i]? = some f)
    (hm : (performAll x acts).2.hooks.Mindful)
    (h : (Act.instrument i (.take f)).drops (performAll x acts) a = true) :
    ∃ g r, (performAll x acts).2.functions[i]? = some g ∧
      (performAll x acts).2.instrument (performAll x acts).1 g (.take f) = .ok r := by
  obtain ⟨hfirm, g, hg, hrevision, hendures⟩ := performAll_spec hx hf acts
  generalize performAll x acts = y at *
  simp only [drops, hg, Option.any_some, Round.obstacle?_instrument] at h
  by_cases hready : (Snapshot.take f).mismatch? g = none ∧ y.2.conventions.poisoned = false ∧
      y.1.signatures.poisoned = false
  · obtain ⟨hserves, hc, hss⟩ := hready
    have hsame : f.revision = g.revision := (Snapshot.mismatch?_eq_none.mp hserves).2
    obtain ⟨r, hr⟩ := Round.instrument_total hfirm hg (hendures (by omega)) hc hss
    exact ⟨g, r, hg, hr⟩
  · obtain ⟨halt, hhalt, hcause, -⟩ := Bench.instrument_refused (b := y.2.bench g) hm hready
    rw [hhalt, Bench.halted?, Snapshot.drops_some_of_not_return (by simp [hcause])] at h
    cases h

/-! ## A call and a return -/

/-- An engine without functions, with a convention for what is at `0x2000` only. -/
def onlyCallee : Sources × Round :=
  blank none (Round.sample.conventions.value.unassign (.address 0x1000)).2

/-- A function with a call is made. -/
def calling : List Act :=
  making [(0x1000, [.call (.direct 0x2000)])] ++ [.edit 0 (.addBlock (some 0x1005))]

/-- A function with a return is made, by as many edits. -/
def returning : List Act := making [(0x1000, [.nop, .ret 0])]

def madeBy (acts : List Act) : Function :=
  ((performAll onlyCallee acts).2.functions[0]?).getD (.empty 0 "" none)

def hooking : List Act := calling ++ [.instrument 0 (.take (madeBy calling))]

def unhooking : List Act := hooking ++ [.deinstrument 0]

/-! ## What the engine recalls -/

/-- Whatever is done to a new engine, with snapshots that list no statement twice: asked for the
hook of an anchor it answers with the one that was active there last, unless an instrumentation of
the function has come past the anchor since and not found it in its snapshot. It answers with
nothing where nothing was ever active, and with the active hook where one is active. Entries are
never dropped, nor is anything when hooks are taken off; and with a snapshot of the function itself
only an instrumentation that succeeds drops anything. While lifted code is all that is edited, any
snapshot that is taken lists no statement twice.

That snapshots list no statement twice is asked for because `recollect` looks at the active hooks
after whole acts only: a call that is listed twice is settled twice, and a hook that the first time
attaches and the second time takes off is recalled without having been active after any act. -/
theorem hooks_recalled (hx : x.2.Fresh) (hs : ∀ i s, Act.instrument i s ∈ acts → s.listed.Nodup) :
    (∀ a : Anchor, (performAll x acts).2.hooks.last[a]? = recollect a x none acts) ∧
    (∀ a : Anchor,
      (∀ before, before <+: acts → (performAll x before).2.hooks.active[a]? = none) →
        (performAll x acts).2.hooks.last[a]? = none) ∧
    (∀ (a : Anchor) (k : Hook), (performAll x acts).2.hooks.active[a]? = some k →
      (performAll x acts).2.hooks.last[a]? = some k) ∧
    (∀ i, (perform (performAll x acts) (.deinstrument i)).2.hooks.last =
      (performAll x acts).2.hooks.last) ∧
    (∀ y act i, drops y (.entry i) act = false) ∧
    (∀ before, before <+: acts → ∀ i f a, (performAll x before).2.functions[i]? = some f →
      (Act.instrument i (.take f)).drops (performAll x acts) a = true →
        ∃ g r, (performAll x acts).2.functions[i]? = some g ∧
          (performAll x acts).2.instrument (performAll x acts).1 g (.take f) = .ok r) ∧
    (AllLifted x acts →
      ∀ f ∈ (performAll x acts).2.functions, (Snapshot.take f).listed.Nodup) := by
  obtain ⟨hmindful, hrecall⟩ := fresh_recollects hx hs
  refine ⟨hrecall, fun a ha => (hrecall a).trans (recollect_of_inactive ha),
    fun a k hk => hmindful.recalls hk, fun i => perform_deinstrument_last _ i, ?_, ?_,
    fun hacts f hf => taken_listed_nodup hx hacts hf⟩
  · intro y act i
    cases act with
    | instrument j s =>
      rw [drops]
      cases y.2.functions[j]? with
      | none => rfl
      | some f => exact s.drops_entry j i _
    | create | edit | deinstrument | observe | exchange => rfl
  · rintro before ⟨after, rfl⟩ i f a hf hdrops
    have happend : performAll x (before ++ after) = performAll (performAll x before) after :=
      List.foldl_append
    rw [happend] at hmindful hdrops ⊢
    exact succeeds_of_drops (performAll_firm hx.firm before) hf hmindful hdrops

/-- The hook of the call is recalled when it has been taken off. -/
theorem caller_recalled :
    onlyCallee.2.Fresh ∧ (Snapshot.take (madeBy calling)).listed.Nodup ∧ ∃ k,
      (performAll onlyCallee hooking).2.hooks.active[Anchor.call ⟨0, 0⟩]? = some k ∧
      (performAll onlyCallee unhooking).2.hooks.active[Anchor.call ⟨0, 0⟩]? = none ∧
      (performAll onlyCallee unhooking).2.hooks.last[Anchor.call ⟨0, 0⟩]? = some k := by
  have hnumbered : (madeBy calling).Numbered :=
    ⟨by decide +kernel, by decide +kernel, by decide +kernel⟩
  have hlisted : ∀ i s, Act.instrument i s ∈ unhooking → s.listed.Nodup := by
    intro i s hmem
    obtain ⟨-, rfl⟩ : i = 0 ∧ s = .take (madeBy calling) := by
      simpa [unhooking, hooking, calling, making] using hmem
    exact Snapshot.take_listed_nodup hnumbered
  have hfresh : onlyCallee.2.Fresh := blank_fresh none _
  obtain ⟨hlast, -⟩ := hooks_recalled hfresh hlisted
  have hrecall : recollect (.call ⟨0, 0⟩) onlyCallee none unhooking =
      (performAll onlyCallee hooking).2.hooks.active[Anchor.call ⟨0, 0⟩]? := by
    decide +kernel
  have hactive : ((performAll onlyCallee hooking).2.hooks.active[Anchor.call ⟨0, 0⟩]?).isSome := by
    decide +kernel
  obtain ⟨k, hk⟩ := Option.isSome_iff_exists.mp hactive
  exact ⟨hfresh, Snapshot.take_listed_nodup hnumbered, k, hk, by decide +kernel,
    (hlast _).trans (hrecall.trans hk)⟩

/-- The caller is instrumented, and what has no convention yet gets one. -/
def failing : Sources × Round :=
  performAll onlyCallee (hooking ++ [.exchange bystander Round.sample.conventions])

/-- With the snapshot of another function, an instrumentation that fails at a return it cannot find
has dropped the call. -/
theorem failure_drops_call :
    ∃ f stopped, failing.2.functions[0]? = some f ∧
      (failing.2.hooks.active[Anchor.call ⟨0, 0⟩]?).isSome ∧
      failing.2.instrument failing.1 f (.take (madeBy returning)) = .error stopped ∧
      stopped.cause = .ir (.statementNotFound 0 1) ∧
      stopped.round.hooks.last[Anchor.call ⟨0, 0⟩]? = none := by
  have hany : (failing.2.functions[0]?).any fun f =>
      (Round.obstacle? (failing.2.instrument failing.1 f (.take (madeBy returning))) ==
        some (.ir (.statementNotFound 0 1))) &&
      ((Round.left (failing.2.instrument failing.1 f (.take (madeBy returning)))).hooks.last[
        Anchor.call ⟨0, 0⟩]?).isNone := by
    decide +kernel
  obtain ⟨f, hf, hfails⟩ := (Option.any_eq_true _ _).mp hany
  obtain ⟨hcause, hlast⟩ := (Bool.and_eq_true _ _).mp hfails
  cases hr : failing.2.instrument failing.1 f (.take (madeBy returning)) with
  | ok r => simp [hr, Round.obstacle?] at hcause
  | error stopped =>
    rw [hr] at hcause hlast
    exact ⟨f, stopped, hf, by decide +kernel, hr, by simpa [Round.obstacle?] using hcause,
      by simpa using hlast⟩

/-! ## Snapshots of the functions themselves -/

/-- Every snapshot that is used was taken of the function at some time before. -/
def OwnSnapshots (x : Sources × Round) (acts : List Act) : Prop :=
  ∀ before i s after, acts = before ++ .instrument i s :: after →
    ∃ earlier later f, before = earlier ++ later ∧
      (performAll x earlier).2.functions[i]? = some f ∧ s = .take f

theorem OwnSnapshots.listed_nodup (h : OwnSnapshots x acts) (hx : x.2.Fresh)
    (hacts : AllLifted x acts) : ∀ i s, Act.instrument i s ∈ acts → s.listed.Nodup := by
  intro i s hmem
  obtain ⟨before, after, rfl⟩ := List.append_of_mem hmem
  obtain ⟨earlier, later, f, rfl, hf, rfl⟩ := h before i s after rfl
  exact taken_listed_nodup hx hacts.of_append.of_append (List.mem_of_getElem? hf)

theorem drops_of_ok {y : Sources × Round} {a : Anchor} {s : Snapshot} {r : Round}
    (hf : y.2.functions[i]? = some f) (hr : y.2.instrument y.1 f s = .ok r) :
    (Act.instrument i s).drops y a = true ↔ a.function = i ∧ a ∉ s.anchors i := by
  simp only [drops, hf, Option.any_some, hr, Round.obstacle?]
  exact Snapshot.drops_none_iff

/-- While lifted code is all that is edited and functions are instrumented with snapshots of their
own, the engine answers with the hook that was active on the anchor last, unless an instrumentation
of the function that succeeded has not found the anchor in its snapshot since. It answers with
nothing where nothing was ever active, and with the active hook where one is active; taking hooks off
makes no difference. -/
theorem own_hooks_recalled (hx : x.2.Fresh) (hacts : AllLifted x acts)
    (hown : OwnSnapshots x acts) :
    (∀ a : Anchor, (performAll x acts).2.hooks.last[a]? = recollect a x none acts) ∧
    (∀ before act after, acts = before ++ act :: after → ∀ a : Anchor,
      act.drops (performAll x before) a = true ↔ ∃ s f r, act = .instrument a.function s ∧
        (performAll x before).2.functions[a.function]? = some f ∧
        (performAll x before).2.instrument (performAll x before).1 f s = .ok r ∧
        a ∉ s.anchors a.function) ∧
    (∀ a : Anchor,
      (∀ before, before <+: acts → (performAll x before).2.hooks.active[a]? = none) →
        (performAll x acts).2.hooks.last[a]? = none) ∧
    (∀ (a : Anchor) (k : Hook), (performAll x acts).2.hooks.active[a]? = some k →
      (performAll x acts).2.hooks.last[a]? = some k) ∧
    ∀ i, (perform (performAll x acts) (.deinstrument i)).2.hooks.last =
      (performAll x acts).2.hooks.last := by
  have hlisted := hown.listed_nodup hx hacts
  obtain ⟨hmindful, hrecall⟩ := fresh_recollects hx hlisted
  refine ⟨hrecall, ?_, fun a ha => (hrecall a).trans (recollect_of_inactive ha),
    fun a k hk => hmindful.recalls hk, fun i => perform_deinstrument_last _ i⟩
  rintro before act after rfl a
  constructor
  · intro hdrops
    cases act with
    | instrument i s =>
      -- Every anchor of such a snapshot is still there, so the instrumentation cannot have failed at
      -- a return.
      obtain ⟨earlier, later, f, rfl, hf, rfl⟩ := hown before i s after rfl
      have happend : performAll x (earlier ++ later) = performAll (performAll x earlier) later :=
        List.foldl_append
      have hmindful' := (fresh_recollects hx fun i s (hmem : _ ∈ earlier ++ later) =>
        hlisted i s (List.mem_append_left _ hmem)).1
      rw [happend] at hmindful' hdrops ⊢
      obtain ⟨g, r, hg, hr⟩ :=
        succeeds_of_drops (performAll_firm hx.firm earlier) hf hmindful' hdrops
      obtain ⟨rfl, ha⟩ := (drops_of_ok hg hr).mp hdrops
      exact ⟨_, g, r, rfl, hg, hr, ha⟩
    | create | edit | deinstrument | observe | exchange => cases hdrops
  · rintro ⟨s, f, r, rfl, hf, hr, ha⟩
    exact (drops_of_ok hf hr).mpr ⟨rfl, ha⟩

end Act

end CallEffects
