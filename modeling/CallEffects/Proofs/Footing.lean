import CallEffects.Proofs.Reading

/-!
# Anchors stay in place

A hook finds its place as long as the statement of its anchor is there. Hooks that come and go take
no lifted statement away. A snapshot lists synthetic calls as well, if somebody has put one in; such
a call is safe while no hook of its function has its number. `Bench.Firm` says that this is so.
Every move keeps it, and no move takes an anchor from the function; with registries that can be read
a snapshot that serves the function is then worked through to its end.
-/

namespace CallEffects

open Std

namespace Function

variable {f g k : Function} {a : Anchor} {id : StatementId}

/-- A statement has the number, and it is not one of those that hooks consist of. -/
def Holds (f : Function) (id : StatementId) : Prop :=
  ∃ s ∈ f.statements, s.id = id ∧ (s.isSynthetic → s.isCall)

/-- The anchor is the entry, or the function holds its statement. -/
def Hosts (f : Function) : Anchor → Prop
  | .entry i => i = f.id
  | .call r | .ret r => r.function = f.id ∧ f.Holds r.statement

theorem Hosts.function_eq (h : f.Hosts a) : a.function = f.id := by
  cases a with
  | entry i => exact h
  | call r | ret r => exact h.1

theorem Hosts.insertSynthetic (h : f.Hosts a) (hf : f.blocks ≠ []) (ss : List Statement) :
    ∃ g, f.insertSynthetic a.position ss = .ok g := by
  cases hg : f.insertSynthetic a.position ss with
  | ok g => exact ⟨g, rfl⟩
  | error e =>
    refine absurd hg (insertSynthetic_ne_error hf ?_)
    cases a with
    | entry i => rfl
    | call r | ret r =>
      obtain ⟨-, s, hs, hid, -⟩ := h
      exact ⟨s, hs, hid⟩

/-- The second function still is the first, and holds what that holds. -/
structure Endures (f g : Function) : Prop where
  id_eq : g.id = f.id
  revision_eq : g.revision = f.revision
  holds : ∀ {id : StatementId}, f.Holds id → g.Holds id

theorem Endures.refl (f : Function) : f.Endures f := ⟨rfl, rfl, fun h => h⟩

theorem Endures.trans (h : f.Endures g) (h' : g.Endures k) : f.Endures k :=
  ⟨h'.id_eq.trans h.id_eq, h'.revision_eq.trans h.revision_eq, fun hid => h'.holds (h.holds hid)⟩

theorem Endures.hosts (h : f.Endures g) (ha : f.Hosts a) : g.Hosts a := by
  cases a with
  | entry i => exact ha.trans h.id_eq.symm
  | call r | ret r => exact ⟨ha.1.trans h.id_eq.symm, h.holds ha.2⟩

end Function

theorem Snapshot.take_hosts {f : Function} {a : Anchor} (ha : a ∈ (take f).anchors f.id) :
    f.Hosts a := by
  simp only [anchors, List.cons_append, List.mem_cons, List.mem_append, List.mem_map] at ha
  rcases ha with rfl | ⟨site, hsite, rfl⟩ | ⟨r, hr, rfl⟩
  · rfl
  · obtain ⟨x, hx, hsite⟩ := List.mem_filterMap.mp hsite
    obtain ⟨target, hk, hid, -⟩ := callSite?_some hsite
    have hcall : x.1.isCall := by simp only [Statement.isCall, hk, StatementKind.isCall]
    exact ⟨rfl, x.1, Function.mem_of_mem_reachableStates hx, hid.symm, fun _ => hcall⟩
  · obtain ⟨s, hs, hl, hid, -⟩ := take_returns_lifted hr
    refine ⟨rfl, s, hs, hid, fun hsyn => ?_⟩
    rw [hl] at hsyn
    cases hsyn

/-- Of a synthetic call: its number has been handed out, and to no hook of the function. -/
def Hooks.Clear (h : Hooks) (f : Function) (s : Statement) : Prop :=
  s.isSynthetic → s.isCall → s.id < f.nextStatement ∧
    ∀ k ∈ h.built, k.anchor.function = f.id → s.id ∉ k.statementIds

/-- Hooks keep off the synthetic calls of the function. -/
structure Hooks.Avoids (h : Hooks) (f : Function) : Prop where
  blocks_ne_nil : f.blocks ≠ []
  clear : ∀ s ∈ f.statements, h.Clear f s

namespace Hooks

variable {h h' : Hooks} {f g : Function} {s : Statement}

theorem clear_of_lifted (hl : s.isSynthetic = false) : h.Clear f s := by
  intro hsyn
  rw [hl] at hsyn
  cases hsyn

theorem Consistent.clear (hc : h.Consistent) {k : Hook} (hk : k ∈ h.built)
    (hs : s ∈ k.statements) : h'.Clear f s := by
  intro _ hcall
  have hkind : s.kind ∈ k.effects.kinds := by
    rw [← hc.kinds hk]
    exact List.mem_map_of_mem hs
  have hhook := StatementKind.isHookOnly_of_fits (hc.fitting hk _ hkind)
  unfold Statement.isCall at hcall
  cases hs' : s.kind with
  | call target =>
    rw [hs'] at hhook
    cases hhook
  | assign | ret | jump | nop | touch | kill | adjustStack =>
    rw [hs'] at hcall
    cases hcall

/-- Numbers go up, and hooks that are new to the function take numbers it had not handed out. -/
theorem Clear.frame (hs : h.Clear f s) (hid : g.id = f.id)
    (hnext : f.nextStatement ≤ g.nextStatement)
    (hnew : ∀ k ∈ h'.built, k.anchor.function = f.id →
      k ∈ h.built ∨ ∀ id ∈ k.statementIds, f.nextStatement ≤ id) : h'.Clear g s := by
  intro hsyn hcall
  obtain ⟨hlt, hbuilt⟩ := hs hsyn hcall
  refine ⟨Nat.lt_of_lt_of_le hlt hnext, fun k hk hkf => ?_⟩
  rw [hid] at hkf
  rcases hnew k hk hkf with hold | hge
  · exact hbuilt k hold hkf
  · exact fun hmem => Nat.not_le_of_lt hlt (hge s.id hmem)

theorem Avoids.frame (hf : h.Avoids f) (hid : g.id = f.id) (hne : g.blocks ≠ [])
    (hnext : f.nextStatement ≤ g.nextStatement)
    (hnew : ∀ k ∈ h'.built, k.anchor.function = f.id →
      k ∈ h.built ∨ ∀ id ∈ k.statementIds, f.nextStatement ≤ id)
    (hmem : ∀ s ∈ g.statements, s ∈ f.statements ∨ h'.Clear g s) : h'.Avoids g := by
  refine ⟨hne, fun s hs => ?_⟩
  rcases hmem s hs with hold | hclear
  · exact (hf.clear s hold).frame hid hnext hnew
  · exact hclear

theorem Avoids.change (hf : h.Avoids f) (hid : g.id = f.id) (hne : g.blocks ≠ [])
    (hnext : f.nextStatement ≤ g.nextStatement)
    (hmem : ∀ s ∈ g.statements, s ∈ f.statements ∨ h.Clear g s) : h.Avoids g :=
  hf.frame hid hne hnext (fun _ hk _ => .inl hk) hmem

theorem Avoids.congr (hf : h.Avoids f) (hb : h'.built = h.built) : h'.Avoids f :=
  hf.frame rfl hf.blocks_ne_nil (Nat.le_refl _) (fun _ hk _ => .inl (hb ▸ hk)) fun _ => .inl

theorem Accounts.avoids (hc : h.Consistent) (hf : h.Accounts f) : h.Avoids f := by
  refine ⟨hf.numbered.blocks_ne_nil, fun s hs hsyn => ?_⟩
  obtain ⟨a, k, hk, -, hsk⟩ := (hf.synthetic_iff s).mp ⟨hs, hsyn⟩
  exact hc.clear (hc.active_built hk).1 hsk hsyn

theorem Avoids.removeSynthetic (hf : h.Avoids f) (ids : List StatementId) :
    h.Avoids (f.removeSynthetic ids) := by
  have hne : (f.removeSynthetic ids).blocks ≠ [] := by
    simpa [Function.removeSynthetic] using hf.blocks_ne_nil
  exact hf.change rfl hne (Nat.le_refl _) fun s hs => .inl (Function.mem_removeSynthetic.mp hs).1

theorem Avoids.insertSynthetic (hf : h.Avoids f) {position : InsertPosition} {ss : List Statement}
    (hg : f.insertSynthetic position ss = .ok g) (hss : ∀ s ∈ ss, h.Clear f s) : h.Avoids g := by
  have hperm := Function.insertSynthetic_statements hg
  obtain ⟨hfields, hlen⟩ := Function.insertSynthetic_fields hg
  have hid : g.id = f.id := by rw [hfields]
  have hnext : g.nextStatement = f.nextStatement := by rw [hfields]
  apply hf.change hid
  · intro hnil
    rw [hnil, List.length_nil] at hlen
    exact hf.blocks_ne_nil (List.length_eq_zero_iff.mp hlen.symm)
  · exact Nat.le_of_eq hnext.symm
  · intro s hs
    rcases List.mem_append.mp (hperm.mem_iff.mp hs) with hs | hs
    · exact .inr ((hss s hs).frame hid (Nat.le_of_eq hnext.symm) fun _ hk _ => .inl hk)
    · exact .inl hs

end Hooks

namespace Bench

variable {b b' b₀ : Bench} {a : Anchor} {plan : Option Plan} {detector : Option Detector}
variable {signatures : Signatures} {wanted : Anchor → Prop}

/-- The tables are in order, and hooks keep off the synthetic calls of the function. -/
def Firm (b : Bench) : Prop := b.hooks.Consistent ∧ b.hooks.Avoids b.function

theorem Sound.firm (hb : b.Sound) : b.Firm := ⟨hb.1, hb.2.avoids hb.1⟩

/-! ## Moves -/

theorem Firm.detach (hb : b.Firm) (ha : a.function = b.function.id) :
    (b.detach a).Firm ∧ b.function.Endures (b.detach a).function := by
  cases hk : b.hooks.active[a]? with
  | none =>
    rw [detach_of_none hk]
    exact ⟨hb, .refl _⟩
  | some hook =>
    obtain ⟨hbuilt, hanchor⟩ := hb.1.active_built hk
    rw [detach_of_some hk]
    constructor
    · exact ⟨hb.1.erase a, (hb.2.removeSynthetic _).congr rfl⟩
    · refine ⟨rfl, rfl, ?_⟩
      rintro id ⟨s, hs, hid, hcall⟩
      refine ⟨s, Function.mem_removeSynthetic.mpr ⟨hs, fun hsyn => ?_⟩, hid, hcall⟩
      exact (hb.2.clear s hs hsyn (hcall hsyn)).2 hook hbuilt (hanchor ▸ ha)

theorem Firm.obtain (hb : b.Firm) {p : Plan}
    (hp : ∀ kind ∈ p.effects.kinds, kind.fits p.key.anchor.kind) :
    (b.obtain p).2.Firm ∧ b.function.Endures (b.obtain p).2.function := by
  cases hcached : b.hooks.cached? p.key with
  | some hook =>
    rw [obtain_of_cached hcached]
    exact ⟨hb, .refl _⟩
  | none =>
    rw [obtain_of_none hcached]
    refine ⟨⟨built_consistent hb.1 hcached hp, ?_⟩, rfl, rfl, fun h => h⟩
    refine hb.2.frame rfl hb.2.blocks_ne_nil (Nat.le_add_right _ _) (fun k hk _ => ?_) fun _ => .inl
    rcases List.mem_append.mp hk with hk | hk
    · exact .inl hk
    · obtain rfl := List.mem_singleton.mp hk
      exact .inr fun id hid => (mem_statementIds_built hid).1

theorem Firm.place (hb : b.Firm) {hook : Hook} {f : Function} (hk : hook ∈ b.hooks.built)
    (hf : b.function.insertSynthetic hook.anchor.position hook.statements = .ok f) :
    (b.place hook f).Firm ∧ b.function.Endures f := by
  have hperm := Function.insertSynthetic_statements hf
  have hfields := (Function.insertSynthetic_fields hf).1
  constructor
  · have havoids := hb.2.insertSynthetic hf fun s hs => hb.1.clear hk hs
    exact ⟨hb.1.insert hk, havoids.congr rfl⟩
  · refine ⟨by rw [hfields], by rw [hfields], ?_⟩
    rintro id ⟨s, hs, hid, hcall⟩
    exact ⟨s, hperm.mem_iff.mpr (List.mem_append_right _ hs), hid, hcall⟩

theorem Move.firm (h : Move detector signatures wanted b b') (hb : b.Firm) :
    b'.Firm ∧ b.function.Endures b'.function := by
  have hc := h.consistent hb.1
  cases h with
  | start s =>
    rw [start_eq] at hc ⊢
    exact ⟨⟨hc, hb.2.congr rfl⟩, .refl _⟩
  | resolve callee =>
    obtain ⟨cs, asked, heq, -⟩ := b.resolve_snd detector callee
    rw [heq]
    exact ⟨hb, .refl _⟩
  | count => exact ⟨hb, .refl _⟩
  | remember | forget => exact ⟨⟨hc, hb.2.congr rfl⟩, .refl _⟩
  | detach a ha => exact hb.detach ha
  | obtain p ha hw hp => exact hb.obtain hp.fitting
  | place hook f ha hw hk hnone hf => exact hb.place hk hf

theorem Moves.firm (h : Moves detector signatures wanted b b') (hb : b.Firm) :
    b'.Firm ∧ b.function.Endures b'.function := by
  induction h with
  | refl => exact ⟨hb, .refl _⟩
  | tail _ hm ih =>
    obtain ⟨hfirm, hendures⟩ := hm.firm ih.1
    exact ⟨hfirm, ih.2.trans hendures⟩

/-! ## Instrumenting comes to its end -/

theorem attach_total {hook : Hook} (hb : b.Firm) (ha : b.function.Hosts hook.anchor) :
    ∃ b', b.attach hook = .ok b' := by
  by_cases hactive : (b.hooks.active[hook.anchor]?).any fun active => active.id == hook.id
  · exact ⟨_, attach_of_active hactive⟩
  · obtain ⟨hfirm, hendures⟩ := hb.detach ha.function_eq
    obtain ⟨g, hg⟩ := (hendures.hosts ha).insertSynthetic hfirm.2.blocks_ne_nil hook.statements
    exact ⟨_, attach_of_ok hactive hg⟩

theorem settle_total (detector : Option Detector) (hb : b.Firm) (ha : b.function.Hosts a)
    (hp : ∀ p ∈ plan, p.key.anchor = a ∧ p.Possible b.conventions.value signatures) :
    ∃ b', b.settle a plan = .ok b' ∧ Moves detector signatures (fun _ => True) b b' := by
  have hmoves : Moves detector signatures (fun _ => True) b (left (b.settle a plan)) :=
    settle_moves ha.function_eq (fun _ => trivial) hp
  have hsettle : ∃ b', b.settle a plan = .ok b' := by
    cases plan with
    | none => exact ⟨_, rfl⟩
    | some p =>
      obtain ⟨rfl, hpossible⟩ := hp p rfl
      obtain ⟨hfirm, hendures⟩ := hb.obtain hpossible.fitting
      have hanchor : (b.obtain p).1.anchor = p.key.anchor := by
        rw [Hook.anchor, (b.obtain_mem_built p).2]
      rw [settle_some]
      apply attach_total hfirm
      rw [hanchor]
      exact hendures.hosts ha
  obtain ⟨b', hok⟩ := hsettle
  rw [hok] at hmoves
  exact ⟨b', hok, hmoves⟩

theorem foldlM_total {α : Type} (act : Bench → α → Except Halt Bench) (xs : List α)
    (hb : Moves detector signatures wanted b₀ b)
    (hact : ∀ b, ∀ x ∈ xs, Moves detector signatures wanted b₀ b →
      ∃ b', act b x = .ok b' ∧ Moves detector signatures wanted b b') :
    ∃ b', xs.foldlM act b = .ok b' ∧ Moves detector signatures wanted b₀ b' := by
  induction xs generalizing b with
  | nil => exact ⟨b, rfl, hb⟩
  | cons x xs ih =>
    obtain ⟨b₁, hone, hm⟩ := hact b x List.mem_cons_self hb
    obtain ⟨b₂, hrest, hm'⟩ := ih (hb.trans hm) fun b x hx => hact b x (List.mem_cons_of_mem _ hx)
    exact ⟨b₂, by rw [List.foldlM_cons, hone]; exact hrest, hm'⟩

theorem settleCall_total {site : CallSite} (hb : b.Firm)
    (ha : b.function.Hosts (.call (b.callAt site))) :
    ∃ b', settleCall detector signatures b site = .ok b' ∧
      Moves detector signatures (fun _ => True) b b' := by
  have hresolve : Move detector signatures (fun _ => True) b _ :=
    .resolve b (Callee.ofCall (b.callAt site) site.target)
  have hfst := b.resolve_fst detector (Callee.ofCall (b.callAt site) site.target)
  obtain ⟨hfirm, hendures⟩ := hresolve.firm hb
  have hsettle : ∃ b', settleCall detector signatures b site = .ok b' ∧
      Moves detector signatures (fun _ => True)
        (b.resolve detector (.ofCall (b.callAt site) site.target)).2 b' := by
    apply settle_total detector hfirm (hendures.hosts ha)
    intro p hp
    obtain ⟨c, hc, rfl⟩ := Option.map_eq_some_iff.mp hp
    exact ⟨rfl, Plan.possible_ofCall (hfst.symm.trans hc) _⟩
  obtain ⟨b', hok, hmoves⟩ := hsettle
  exact ⟨b', hok, .head hresolve hmoves⟩

end Bench

theorem Plan.Possible.extends {cs cs' : Conventions} {ss : Signatures} {p : Plan}
    (h : p.Possible cs ss) (he : cs.Extends cs') : p.Possible cs' ss := by
  cases h with
  | entry f c s hc hs => exact .entry f c s (he.get? hc) hs
  | ret r c s hc hs => exact .ret r c s (he.get? hc) hs
  | call r c s observed hc hs => exact .call r c s observed (he.get? hc) hs

theorem Bench.instrument_total {b : Bench} {sources : Sources} {s : Snapshot} (hb : b.Firm)
    (hs : s.mismatch? b.function = none) (ha : ∀ a ∈ s.anchors b.function.id, b.function.Hosts a)
    (hc : b.conventions.poisoned = false) (hss : sources.signatures.poisoned = false) :
    ∃ b', b.instrument sources s = .ok b' := by
  have hinformed : Moves sources.detector sources.signatures.value (fun _ => True) b
      (b.informed sources.detector s) := b.informed_moves s
  have hid : (b.informed sources.detector s).function.id = b.function.id :=
    Moves.function_id hinformed
  -- The anchors stay where they are along the moves that follow.
  have hhosts : ∀ {b'}, Moves sources.detector sources.signatures.value (fun _ => True)
      (b.informed sources.detector s) b' → ∀ a ∈ s.anchors b.function.id, b'.function.Hosts a :=
    fun hm a hmem => (Moves.firm (hinformed.trans hm) hb).2.hosts (ha a hmem)
  have hfirm : (b.informed sources.detector s).Firm := (Moves.firm hinformed hb).1
  obtain ⟨b₁, h₁, hm₁⟩ := settle_total sources.detector hfirm
    (hhosts .refl _ (s.entry_mem_anchors _)) fun p hp => by
      obtain ⟨hanchor, hpossible⟩ := entryPlan_possible _ p hp
      exact ⟨hanchor.trans (by rw [hid]), hpossible⟩
  obtain ⟨b₂, h₂, hm₂⟩ := foldlM_total (settleCall sources.detector sources.signatures.value)
    s.calls hm₁ fun b' site hsite hm => by
      apply settleCall_total (Moves.firm hm hfirm).1
      rw [callAt, Moves.function_id hm, hid]
      exact hhosts hm _ (Snapshot.call_mem_anchors.mpr ⟨site, hsite, rfl⟩)
  have hm₂ := hm₂.trans (b₂.dropUnseen_moves .call
    (s.calls.map fun site => .call ⟨b.function.id, site.statement⟩))
  obtain ⟨b₃, h₃, -⟩ := foldlM_total (fun b' ret => b'.settle (.ret ⟨b.function.id, ret⟩)
      ((b.informed sources.detector s).returnPlan sources.signatures.value ret))
    s.returns hm₂ fun b' ret hret hm => by
      apply settle_total _ (Moves.firm hm hfirm).1
        (hhosts hm _ (Snapshot.ret_mem_anchors.mpr hret))
      intro p hp
      obtain ⟨hanchor, hpossible⟩ := returnPlan_possible _ ret p hp
      exact ⟨hanchor.trans (by rw [hid]), hpossible.extends (Moves.extends hm)⟩
  rw [instrument_eq hs hc hss, h₁]
  simp only [bind, Except.bind, h₂, h₃]
  exact ⟨_, rfl⟩

end CallEffects
