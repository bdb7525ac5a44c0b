import CallEffects.Proofs.Frames

/-!
# What settling leaves on the anchors

`Bench.Bears` says that an anchor has the hook its plan asks for. Settling an anchor makes it bear
its plan and leaves the hooks of all other anchors alone; dropping the unseen anchors of a kind
leaves no hook on these. `Bench.instrument_ok` takes a successful instrumentation apart into such
steps.
-/

namespace CallEffects

open Std

namespace Bench

variable {b b' b'' : Bench} {a : Anchor} {hook : Hook} {plan : Option Plan}
variable {detector : Option Detector} {signatures : Signatures} {wanted : Anchor → Prop}

/-- The anchor has the hook of its plan, and none if it has no plan. -/
def Bears (b : Bench) (a : Anchor) : Option Plan → Prop
  | none => b.hooks.active[a]? = none
  | some p => ∃ k, b.hooks.active[a]? = some k ∧ k.key = p.key

theorem Bears.congr (h : b.Bears a plan) (ha : b'.hooks.active[a]? = b.hooks.active[a]?) :
    b'.Bears a plan := by
  cases plan with
  | none => exact ha.trans h
  | some p =>
    obtain ⟨k, hk, hkey⟩ := h
    exact ⟨k, ha.trans hk, hkey⟩

/-- Only the hooks of some anchors have changed, and no callee has been observed. -/
structure Spares (b b' : Bench) (changed : Anchor → Prop) : Prop where
  active : ∀ a, ¬changed a → b'.hooks.active[a]? = b.hooks.active[a]?
  observed : b'.hooks.observed = b.hooks.observed
  function_id : b'.function.id = b.function.id

theorem Spares.refl (b : Bench) (changed : Anchor → Prop) : Spares b b changed :=
  ⟨fun _ _ => rfl, rfl, rfl⟩

theorem Spares.trans {changed changed' : Anchor → Prop} (h : Spares b b' changed)
    (h' : Spares b' b'' changed') : Spares b b'' fun a => changed a ∨ changed' a := by
  refine ⟨?_, h'.observed.trans h.observed, h'.function_id.trans h.function_id⟩
  intro a ha
  rw [h'.active a fun hc => ha (.inr hc), h.active a fun hc => ha (.inl hc)]

theorem Spares.mono {changed changed' : Anchor → Prop} (h : Spares b b' changed)
    (hc : ∀ a, changed a → changed' a) : Spares b b' changed' :=
  ⟨fun a ha => h.active a fun hca => ha (hc a hca), h.observed, h.function_id⟩

theorem detach_observed (b : Bench) (a : Anchor) :
    (b.detach a).hooks.observed = b.hooks.observed := by
  unfold detach
  split <;> rfl

theorem detach_spares (b : Bench) (a : Anchor) : Spares b (b.detach a) (· = a) := by
  refine ⟨?_, b.detach_observed a, b.detach_function_id a⟩
  intro a' ha'
  rw [detach_active]
  exact Table.getElem?_erase_of_ne fun he => ha' he.symm

theorem obtain_observed (b : Bench) (p : Plan) :
    (b.obtain p).2.hooks.observed = b.hooks.observed := by
  cases h : b.hooks.cached? p.key with
  | none => rw [obtain_of_none h]
  | some hook => rw [obtain_of_cached h]

theorem attach_ok (hb : b.Sound) (hk : hook ∈ b.hooks.built)
    (ha : hook.anchor.function = b.function.id) (h : b.attach hook = .ok b') :
    b'.hooks.active[hook.anchor]? = some hook ∧ Spares b b' (· = hook.anchor) ∧
      b'.conventions = b.conventions ∧ b'.Sound := by
  have hmoves : Moves none .empty (fun _ => True) b b' := by
    have hleft : b' = left (b.attach hook) := by rw [h, left_ok]
    rw [hleft]
    exact attach_moves ha trivial hk
  have hid := Moves.function_id hmoves
  have hsound := Moves.sound hmoves hb
  by_cases hactive : (b.hooks.active[hook.anchor]?).any fun active => active.id == hook.id
  · rw [attach_of_active hactive] at h
    obtain rfl := Except.ok.inj h
    obtain ⟨other, hother, hid⟩ := (Option.any_eq_true _ _).mp hactive
    obtain rfl := hb.1.id_inj (hb.1.active_built hother).1 hk (beq_iff_eq.mp hid)
    exact ⟨hother, ⟨fun _ _ => rfl, rfl, rfl⟩, rfl, hsound⟩
  · cases hf : (b.detach hook.anchor).function.insertSynthetic hook.anchor.position
        hook.statements with
    | error e =>
      rw [attach_of_error hactive hf] at h
      cases h
    | ok f =>
      rw [attach_of_ok hactive hf] at h
      obtain rfl := Except.ok.inj h
      refine ⟨ExtTreeMap.getElem?_insert_self, ⟨?_, b.detach_observed _, hid⟩,
        b.detach_conventions _, hsound⟩
      intro a ha
      have hne : hook.anchor ≠ a := fun he => ha he.symm
      have hplace : (((b.detach hook.anchor).place hook f).remember hook).hooks.active[a]? =
          (b.detach hook.anchor).hooks.active[a]? := Table.getElem?_insert_of_ne hne
      rw [hplace]
      exact (b.detach_spares hook.anchor).active a ha

theorem settle_ok (hb : b.Sound) (ha : a.function = b.function.id)
    (hp : ∀ p ∈ plan, p.key.anchor = a ∧ ∀ kind ∈ p.effects.kinds, kind.fits p.key.anchor.kind)
    (h : b.settle a plan = .ok b') :
    b'.Bears a plan ∧ Spares b b' (· = a) ∧ b'.conventions = b.conventions ∧ b'.Sound := by
  cases plan with
  | none =>
    obtain rfl := Except.ok.inj h
    have hnone : (b.detach a).hooks.active[a]? = none := by
      rw [detach_active]
      exact ExtTreeMap.getElem?_erase_self
    have hspares := b.detach_spares a
    exact ⟨hnone, ⟨hspares.active, hspares.observed, hspares.function_id⟩, b.detach_conventions a,
      (hb.detach a ha).congr rfl rfl rfl rfl⟩
  | some p =>
    obtain ⟨rfl, hkinds⟩ := hp p rfl
    obtain ⟨hmem, hkey⟩ := b.obtain_mem_built p
    have hanchor : (b.obtain p).1.anchor = p.key.anchor := by rw [Hook.anchor, hkey]
    rw [settle_some] at h
    have hmine : (b.obtain p).1.anchor.function = (b.obtain p).2.function.id := by
      rw [hanchor, obtain_function_id, ha]
    obtain ⟨hactive, hspares, hconventions, hsound⟩ := attach_ok (hb.obtain hkinds) hmem hmine h
    rw [hanchor] at hactive hspares
    refine ⟨⟨_, hactive, hkey⟩, ⟨?_, ?_, ?_⟩, hconventions.trans (b.obtain_conventions p), hsound⟩
    · intro a ha
      rw [hspares.active a ha, obtain_active]
    · rw [hspares.observed, obtain_observed]
    · rw [hspares.function_id, obtain_function_id]

def callAt (b : Bench) (site : CallSite) : StatementRef := ⟨b.function.id, site.statement⟩

/-- What the registries ask for at a call site. -/
def callPlan (b : Bench) (signatures : Signatures) (site : CallSite) : Option Plan :=
  let callee := Callee.ofCall (b.callAt site) site.target
  (b.conventions.value.lookup? callee).map fun c =>
    .ofCall (b.callAt site) c (signatures.forCall? (b.callAt site) callee) b.hooks.observed[callee]?

theorem resolve_spares (b : Bench) (callee : Callee) :
    Spares b (b.resolve detector callee).2 fun _ => False := by
  obtain ⟨cs, asked, heq, -⟩ := b.resolve_snd detector callee
  rw [heq]
  exact ⟨fun _ _ => rfl, rfl, rfl⟩

theorem settleCall_ok {site : CallSite} (hb : b.Sound)
    (h : settleCall detector signatures b site = .ok b') :
    b'.Bears (.call (b.callAt site)) (b'.callPlan signatures site) ∧
      Spares b b' (· = .call (b.callAt site)) ∧
      b'.conventions =
        (b.resolve detector (.ofCall (b.callAt site) site.target)).2.conventions ∧ b'.Sound := by
  have hresolve : Move detector signatures (fun _ => True) b _ :=
    .resolve b (Callee.ofCall (b.callAt site) site.target)
  have hfst := b.resolve_fst detector (Callee.ofCall (b.callAt site) site.target)
  have hspares : Spares b (b.resolve detector _).2 _ :=
    b.resolve_spares (Callee.ofCall (b.callAt site) site.target)
  obtain ⟨hbears, hsettled, hconventions, hsound⟩ := settle_ok (a := .call (b.callAt site))
    (hresolve.sound hb) hspares.function_id.symm (by
      intro p hp
      obtain ⟨c, hc, rfl⟩ := Option.map_eq_some_iff.mp hp
      exact ⟨rfl, (Plan.possible_ofCall (hfst.symm.trans hc) _).fitting⟩) h
  have hid := hsettled.function_id.trans hspares.function_id
  have hplan : b'.callPlan signatures site =
      ((b.resolve detector (.ofCall (b.callAt site) site.target)).1.map fun c =>
        .ofCall (b.callAt site) c
          (signatures.forCall? (b.callAt site) (.ofCall (b.callAt site) site.target))
          (b.resolve detector (.ofCall (b.callAt site) site.target)).2.hooks.observed[
            Callee.ofCall (b.callAt site) site.target]?) := by
    have hcall : b'.callAt site = b.callAt site := by rw [callAt, hid, callAt]
    simp only [callPlan, hcall, hconventions, hfst, hsettled.observed]
  refine ⟨hplan ▸ hbears, ?_, hconventions, hsound⟩
  exact (hspares.trans hsettled).mono fun a ha => ha.resolve_left id

theorem foldl_detach_spares (as : List Anchor) (b : Bench) :
    Spares b (as.foldl detach b) (· ∈ as) := by
  induction as generalizing b with
  | nil => exact .refl b _
  | cons a as ih =>
    refine ((b.detach_spares a).trans (ih (b.detach a))).mono ?_
    intro a' ha'
    rcases ha' with rfl | ha'
    · exact List.mem_cons_self
    · exact List.mem_cons_of_mem _ ha'

/-- An anchor of the function and the kind that has not been seen. -/
def Unseen (b : Bench) (kind : HookKind) (seen : List Anchor) (a : Anchor) : Prop :=
  a.kind = kind ∧ a.function = b.function.id ∧ a ∉ seen

instance (b : Bench) (kind : HookKind) (seen : List Anchor) (a : Anchor) :
    Decidable (b.Unseen kind seen a) := by
  unfold Unseen
  infer_instance

theorem unseen_iff {s : Snapshot} {f : FunctionId} (h : b.function.id = f)
    (h' : b'.function.id = f) :
    (b.Unseen .call (s.calls.map fun site => .call ⟨f, site.statement⟩) a ∨
      b'.Unseen .ret (s.returns.map fun ret => .ret ⟨f, ret⟩) a) ↔
        a.function = f ∧ a ∉ s.anchors f := by
  rw [Unseen, Unseen, h, h']
  cases a with
  | entry g => simp [Snapshot.anchors, Anchor.kind, Anchor.function, eq_comm]
  | call r => simp [Snapshot.anchors, Anchor.kind, Anchor.function]
  | ret r => simp [Snapshot.anchors, Anchor.kind, Anchor.function]

theorem dropUnseen_active (b : Bench) (kind : HookKind) (seen : List Anchor) (a : Anchor) :
    (b.dropUnseen kind seen).hooks.active[a]? =
      if b.Unseen kind seen a then none else b.hooks.active[a]? := by
  have hactive : (b.dropUnseen kind seen).hooks.active[a]? =
      ((b.hooks.active.keys.filter fun a =>
        a.kind == kind && a.function == b.function.id && !seen.contains a).foldl
          detach b).hooks.active[a]? := rfl
  rw [hactive, foldl_detach_active]
  cases hk : b.hooks.active[a]? with
  | none => simp
  | some k =>
    have hmem : a ∈ b.hooks.active.keys := Table.mem_keys_iff.mpr ⟨k, hk⟩
    simp [hmem, Unseen, and_assoc]

theorem dropUnseen_of_inactive (b : Bench) (kind : HookKind) (seen : List Anchor)
    (h : ∀ a, b.Unseen kind seen a → b.hooks.active[a]? = none) :
    b.dropUnseen kind seen = b.forget fun a =>
      a.kind == kind && a.function == b.function.id && !seen.contains a := by
  have hnil : (b.hooks.active.keys.filter fun a =>
      a.kind == kind && a.function == b.function.id && !seen.contains a) = [] := by
    rw [List.filter_eq_nil_iff]
    intro a ha hunseen
    obtain ⟨k, hk⟩ := Table.mem_keys_iff.mp ha
    rw [h a (by simpa [Unseen, and_assoc] using hunseen)] at hk
    cases hk
  unfold dropUnseen
  dsimp only
  rw [hnil]
  rfl

theorem dropUnseen_spares (b : Bench) (kind : HookKind) (seen : List Anchor) :
    Spares b (b.dropUnseen kind seen) (b.Unseen kind seen) := by
  have hdetach := foldl_detach_spares (b.hooks.active.keys.filter fun a =>
    a.kind == kind && a.function == b.function.id && !seen.contains a) b
  refine ⟨?_, hdetach.observed, hdetach.function_id⟩
  intro a ha
  rw [dropUnseen_active, if_neg ha]

theorem dropUnseen_conventions (b : Bench) (kind : HookKind) (seen : List Anchor) :
    (b.dropUnseen kind seen).conventions = b.conventions :=
  foldl_detach_conventions _ b

theorem dropUnseen_sound (hb : b.Sound) (kind : HookKind) (seen : List Anchor) :
    (b.dropUnseen kind seen).Sound := by
  have hmoves : Moves none .empty (fun _ => True) b _ := b.dropUnseen_moves kind seen
  exact Moves.sound hmoves hb

/-! ## Many anchors -/

theorem bind_eq_ok {α β ε : Type} {x : Except ε α} {k : α → Except ε β} {y : β}
    (h : x >>= k = .ok y) : ∃ a, x = .ok a ∧ k a = .ok y := by
  cases x with
  | error e => cases h
  | ok a => exact ⟨a, rfl, h⟩

theorem foldlM_invariant {α β ε : Type} {act : β → α → Except ε β} {P : β → Prop} {xs : List α}
    {y y' : β} (hy : P y) (hact : ∀ {y y' : β} (x : α), P y → act y x = .ok y' → P y')
    (h : xs.foldlM act y = .ok y') : P y' := by
  induction xs generalizing y with
  | nil =>
    obtain rfl := Except.ok.inj h
    exact hy
  | cons x xs ih =>
    rw [List.foldlM_cons] at h
    obtain ⟨y₁, h₁, h⟩ := bind_eq_ok h
    exact ih (hact x hy h₁) h

theorem foldlM_settleCall_ok {sites : List CallSite} (hb : b.Sound)
    (h : sites.foldlM (settleCall detector signatures) b = .ok b') :
    Spares b b' (fun a => ∃ site ∈ sites, a = .call (b.callAt site)) ∧ b'.Sound := by
  induction sites generalizing b with
  | nil =>
    obtain rfl := Except.ok.inj h
    exact ⟨.refl b _, hb⟩
  | cons site sites ih =>
    rw [List.foldlM_cons] at h
    obtain ⟨b₁, h₁, h⟩ := bind_eq_ok h
    obtain ⟨-, hone, -, hsound⟩ := settleCall_ok hb h₁
    obtain ⟨hrest, hsound'⟩ := ih hsound h
    refine ⟨(hone.trans hrest).mono ?_, hsound'⟩
    intro a ha
    rcases ha with rfl | ⟨site', hsite', rfl⟩
    · exact ⟨site, List.mem_cons_self, rfl⟩
    · exact ⟨site', List.mem_cons_of_mem _ hsite', by rw [callAt, hone.function_id, callAt]⟩

theorem foldlM_settle_ok {f : FunctionId} {rets : List StatementId}
    {plan : StatementId → Option Plan} (hb : b.Sound) (hf : b.function.id = f)
    (hp : ∀ ret, ∀ p ∈ plan ret, p.key.anchor = .ret ⟨f, ret⟩ ∧
      ∀ kind ∈ p.effects.kinds, kind.fits p.key.anchor.kind)
    (h : rets.foldlM (fun b ret => b.settle (.ret ⟨f, ret⟩) (plan ret)) b = .ok b') :
    (∀ ret ∈ rets, b'.Bears (.ret ⟨f, ret⟩) (plan ret)) ∧
      Spares b b' (fun a => ∃ ret ∈ rets, a = .ret ⟨f, ret⟩) ∧
      b'.conventions = b.conventions ∧ b'.Sound := by
  induction rets generalizing b with
  | nil =>
    obtain rfl := Except.ok.inj h
    exact ⟨by simp, .refl b _, rfl, hb⟩
  | cons ret rets ih =>
    rw [List.foldlM_cons] at h
    obtain ⟨b₁, h₁, h⟩ := bind_eq_ok h
    obtain ⟨hbears, hone, hconventions, hsound⟩ :=
      settle_ok (a := .ret ⟨f, ret⟩) hb hf.symm (hp ret) h₁
    obtain ⟨hbears', hrest, hconventions', hsound'⟩ := ih hsound (hone.function_id.trans hf) h
    refine ⟨?_, (hone.trans hrest).mono ?_, hconventions'.trans hconventions, hsound'⟩
    · intro ret' hret'
      by_cases hmem : ret' ∈ rets
      · exact hbears' ret' hmem
      · obtain rfl := (List.mem_cons.mp hret').resolve_right hmem
        refine hbears.congr (hrest.active _ ?_)
        rintro ⟨ret, hret, heq⟩
        cases heq
        exact hmem hret
    · intro a ha
      rcases ha with rfl | ⟨ret', hret', rfl⟩
      · exact ⟨ret, List.mem_cons_self, rfl⟩
      · exact ⟨ret', List.mem_cons_of_mem _ hret', rfl⟩

/-! ## A whole instrumentation -/

/-- The bench once its function's own convention is known. -/
def informed (b : Bench) (detector : Option Detector) (s : Snapshot) : Bench :=
  ((b.start s).resolve detector (.ofFunction b.function)).2

theorem informed_moves (b : Bench) (s : Snapshot) :
    Moves detector signatures wanted b (b.informed detector s) :=
  (Relation.ReflTransGen.single (Move.start b s)).tail (.resolve _ _)

def entryPlan (b : Bench) (signatures : Signatures) : Option Plan :=
  (b.conventions.value.lookup? (.ofFunction b.function)).map fun c =>
    .ofEntry b.function.id c (signatures.function? (.ofFunction b.function))

def returnPlan (b : Bench) (signatures : Signatures) (ret : StatementId) : Option Plan :=
  (b.conventions.value.lookup? (.ofFunction b.function)).map fun c =>
    .ofReturn ⟨b.function.id, ret⟩ c (signatures.function? (.ofFunction b.function))

theorem informed_function (b : Bench) (s : Snapshot) :
    (b.informed detector s).function = b.function := by
  obtain ⟨cs, asked, heq, -⟩ := (b.start s).resolve_snd detector (.ofFunction b.function)
  rw [informed, heq]
  rfl

theorem resolve_informed (b : Bench) (detector : Option Detector) (s : Snapshot) :
    (b.start s).resolve detector (.ofFunction b.function) =
      ((b.informed detector s).conventions.value.lookup? (.ofFunction b.function),
        b.informed detector s) :=
  Prod.ext ((b.start s).resolve_fst detector _) rfl

/-- With a snapshot that serves and registries that can be read, instrumenting settles all anchors
once the function's own convention is known. -/
theorem instrument_eq_settleAll {sources : Sources} {s : Snapshot}
    (hs : s.mismatch? b.function = none) (hc : b.conventions.poisoned = false)
    (hss : sources.signatures.poisoned = false) :
    b.instrument sources s = (b.informed sources.detector s).settleAll sources.detector
      sources.signatures.value s
      ((b.informed sources.detector s).conventions.value.lookup? (.ofFunction b.function))
      (sources.signatures.value.function? (.ofFunction b.function)) := by
  have hc' : ¬(b.start s).conventions.poisoned := by
    change ¬b.conventions.poisoned
    simp [hc]
  simp only [instrument, hs]
  change (if (b.start s).conventions.poisoned then _ else _) = _
  rw [if_neg hc']
  change (if sources.signatures.poisoned then _
    else ((b.start s).resolve sources.detector (.ofFunction b.function)).2.settleAll
      sources.detector sources.signatures.value s
      ((b.start s).resolve sources.detector (.ofFunction b.function)).1
      (sources.signatures.value.function? (.ofFunction b.function))) = _
  rw [resolve_informed, if_neg (by simp [hss])]

theorem instrument_eq {sources : Sources} {s : Snapshot} (hs : s.mismatch? b.function = none)
    (hc : b.conventions.poisoned = false) (hss : sources.signatures.poisoned = false) :
    b.instrument sources s = (do
      let b₁ ← (b.informed sources.detector s).settle (.entry b.function.id)
        ((b.informed sources.detector s).entryPlan sources.signatures.value)
      let b₂ ← s.calls.foldlM (settleCall sources.detector sources.signatures.value) b₁
      let b₃ ← s.returns.foldlM (fun b' ret => b'.settle (.ret ⟨b.function.id, ret⟩)
        ((b.informed sources.detector s).returnPlan sources.signatures.value ret))
        (b₂.dropUnseen .call (s.calls.map fun site => .call ⟨b.function.id, site.statement⟩))
      .ok (b₃.dropUnseen .ret (s.returns.map fun ret => .ret ⟨b.function.id, ret⟩))) := by
  have hfunction : (b.informed sources.detector s).function = b.function := b.informed_function s
  rw [instrument_eq_settleAll hs hc hss]
  simp only [settleAll, entryPlan, returnPlan, hfunction]

theorem readable_of_instrument_eq_ok {sources : Sources} {s : Snapshot}
    (h : b.instrument sources s = .ok b') :
    s.mismatch? b.function = none ∧ b.conventions.poisoned = false ∧
      sources.signatures.poisoned = false := by
  unfold instrument at h
  split at h
  · cases h
  · next hserves =>
    dsimp only at h
    split at h
    · cases h
    · next hc =>
      split at h
      · cases h
      · next hss => exact ⟨hserves, by simpa using hc, by simpa using hss⟩

theorem instrument_ok {sources : Sources} {s : Snapshot} (h : b.instrument sources s = .ok b') :
    s.mismatch? b.function = none ∧
      ∃ b₁ b₂ b₃,
        (b.informed sources.detector s).settle (.entry b.function.id)
          ((b.informed sources.detector s).entryPlan sources.signatures.value) = .ok b₁ ∧
        s.calls.foldlM (settleCall sources.detector sources.signatures.value) b₁ = .ok b₂ ∧
        s.returns.foldlM (fun b' ret => b'.settle (.ret ⟨b.function.id, ret⟩)
          ((b.informed sources.detector s).returnPlan sources.signatures.value ret))
          (b₂.dropUnseen .call (s.calls.map fun site => .call ⟨b.function.id, site.statement⟩)) =
            .ok b₃ ∧
        b' = b₃.dropUnseen .ret (s.returns.map fun ret => .ret ⟨b.function.id, ret⟩) := by
  obtain ⟨hserves, hc, hss⟩ := readable_of_instrument_eq_ok h
  rw [instrument_eq hserves hc hss] at h
  obtain ⟨b₁, h₁, h⟩ := bind_eq_ok h
  obtain ⟨b₂, h₂, h⟩ := bind_eq_ok h
  obtain ⟨b₃, h₃, h⟩ := bind_eq_ok h
  exact ⟨hserves, b₁, b₂, b₃, h₁, h₂, h₃, (Except.ok.inj h).symm⟩

theorem entryPlan_possible (b : Bench) :
    ∀ p ∈ b.entryPlan signatures, p.key.anchor = .entry b.function.id ∧
      p.Possible b.conventions.value signatures := by
  intro p hp
  obtain ⟨c, hc, rfl⟩ := Option.map_eq_some_iff.mp hp
  exact ⟨rfl, .entry _ c _ (Conventions.get?_of_lookup? hc) fun x hx => ⟨_, hx⟩⟩

theorem returnPlan_possible (b : Bench) (ret : StatementId) :
    ∀ p ∈ b.returnPlan signatures ret, p.key.anchor = .ret ⟨b.function.id, ret⟩ ∧
      p.Possible b.conventions.value signatures := by
  intro p hp
  obtain ⟨c, hc, rfl⟩ := Option.map_eq_some_iff.mp hp
  exact ⟨rfl, .ret _ c _ (Conventions.get?_of_lookup? hc) fun x hx => ⟨_, hx⟩⟩

theorem informed_entryPlan_fits (b : Bench) (s : Snapshot) :
    ∀ p ∈ (b.informed detector s).entryPlan signatures,
      p.key.anchor = .entry b.function.id ∧
        ∀ kind ∈ p.effects.kinds, kind.fits p.key.anchor.kind := by
  intro p hp
  obtain ⟨hanchor, hpossible⟩ := entryPlan_possible _ p hp
  exact ⟨hanchor.trans (by rw [informed_function]), hpossible.fitting⟩

theorem informed_returnPlan_fits (b : Bench) (s : Snapshot) (ret : StatementId) :
    ∀ p ∈ (b.informed detector s).returnPlan signatures ret,
      p.key.anchor = .ret ⟨b.function.id, ret⟩ ∧
        ∀ kind ∈ p.effects.kinds, kind.fits p.key.anchor.kind := by
  intro p hp
  obtain ⟨hanchor, hpossible⟩ := returnPlan_possible _ ret p hp
  exact ⟨hanchor.trans (by rw [informed_function]), hpossible.fitting⟩

/-- What a successful instrumentation leaves on each anchor of its function, before the calls have
been looked at (`b₁`), after it (`b₂`) and after the returns. -/
structure Course (b b' : Bench) (sources : Sources) (s : Snapshot) (b₁ b₂ : Bench) : Prop where
  serves : s.mismatch? b.function = none
  entry_bears : b₁.Bears (.entry b.function.id)
    ((b.informed sources.detector s).entryPlan sources.signatures.value)
  entry_spares : Spares (b.informed sources.detector s) b₁ (· = .entry b.function.id)
  entry_conventions : b₁.conventions = (b.informed sources.detector s).conventions
  entry_sound : b₁.Sound
  calls : s.calls.foldlM (settleCall sources.detector sources.signatures.value) b₁ = .ok b₂
  return_bears : ∀ ret ∈ s.returns, b'.Bears (.ret ⟨b.function.id, ret⟩)
    ((b.informed sources.detector s).returnPlan sources.signatures.value ret)
  conventions : b'.conventions = b₂.conventions
  observed : b'.hooks.observed = b₂.hooks.observed
  sound : b'.Sound
  active : ∀ a : Anchor, (∀ ret ∈ s.returns, a ≠ .ret ⟨b.function.id, ret⟩) →
    b'.hooks.active[a]? =
      if a.function = b.function.id ∧ a ∉ s.anchors b.function.id then none
      else b₂.hooks.active[a]?

theorem instrument_course {sources : Sources} {s : Snapshot} (hb : b.Sound)
    (h : b.instrument sources s = .ok b') : ∃ b₁ b₂, Course b b' sources s b₁ b₂ := by
  obtain ⟨hserves, b₁, b₂, b₃, h₁, h₂, h₃, rfl⟩ := instrument_ok h
  have hmoves : Moves sources.detector .empty (fun _ => True) b (b.informed sources.detector s) :=
    b.informed_moves s
  have hsound : (b.informed sources.detector s).Sound := Moves.sound hmoves hb
  have hid : (b.informed sources.detector s).function.id = b.function.id := by
    rw [informed_function]
  obtain ⟨hbears₁, hspares₁, hconventions₁, hsound₁⟩ :=
    settle_ok (a := .entry b.function.id) hsound hid.symm (b.informed_entryPlan_fits s) h₁
  obtain ⟨hspares₂, hsound₂⟩ := foldlM_settleCall_ok hsound₁ h₂
  have hid₂ : b₂.function.id = b.function.id :=
    hspares₂.function_id.trans (hspares₁.function_id.trans hid)
  have hdrop := b₂.dropUnseen_spares .call
    (s.calls.map fun site => .call ⟨b.function.id, site.statement⟩)
  obtain ⟨hbears₃, hspares₃, hconventions₃, hsound₃⟩ :=
    foldlM_settle_ok (dropUnseen_sound hsound₂ _ _) (hdrop.function_id.trans hid₂)
      (b.informed_returnPlan_fits s) h₃
  have hid₃ : b₃.function.id = b.function.id :=
    hspares₃.function_id.trans (hdrop.function_id.trans hid₂)
  have hdrop₃ := b₃.dropUnseen_spares .ret (s.returns.map fun ret => .ret ⟨b.function.id, ret⟩)
  refine ⟨b₁, b₂, hserves, hbears₁, hspares₁, hconventions₁, hsound₁, h₂, ?_, ?_, ?_,
    dropUnseen_sound hsound₃ _ _, ?_⟩
  · intro ret hret
    refine (hbears₃ ret hret).congr (hdrop₃.active _ ?_)
    rintro ⟨-, -, hnot⟩
    exact hnot (List.mem_map_of_mem hret)
  · rw [dropUnseen_conventions, hconventions₃, dropUnseen_conventions]
  · rw [hdrop₃.observed, hspares₃.observed, hdrop.observed]
  · intro a ha
    have hthrough : b₃.hooks.active[a]? = (b₂.dropUnseen .call _).hooks.active[a]? :=
      hspares₃.active a fun ⟨ret, hret, heq⟩ => ha ret hret heq
    rw [dropUnseen_active, hthrough, dropUnseen_active, ← ite_or, if_congr or_comm rfl rfl,
      if_congr (unseen_iff hid₂ hid₃) rfl rfl]

theorem Course.anchors {sources : Sources} {s : Snapshot} {b₁ b₂ : Bench}
    (h : Course b b' sources s b₁ b₂) {k : Hook} (hk : b'.hooks.active[a]? = some k)
    (ha : a.function = b.function.id) : a ∈ s.anchors b.function.id := by
  by_cases hret : ∀ ret ∈ s.returns, a ≠ .ret ⟨b.function.id, ret⟩
  · rw [h.active a hret] at hk
    by_contra hnot
    rw [if_pos ⟨ha, hnot⟩] at hk
    cases hk
  · obtain ⟨ret, hmem, rfl⟩ : ∃ ret ∈ s.returns, a = .ret ⟨b.function.id, ret⟩ := by
      simpa using hret
    exact Snapshot.ret_mem_anchors.mpr hmem

end Bench

end CallEffects
