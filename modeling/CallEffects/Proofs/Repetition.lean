import CallEffects.Proofs.Gains

/-!
# Instrumenting again

An instrumentation leaves its bench at rest: every anchor of the snapshot has the hook that its plan
asks for, and that hook is remembered as the last one; no other anchor of the function has or
remembers a hook; and every callee that is asked about has an answer that stands. A bench at rest is
not changed by instrumenting it with the snapshot again. All that is done is to count once more the
anchors that have no hook.
-/

namespace CallEffects

open Std

namespace Snapshot

/-- No call and no return is listed twice. -/
structure Distinct (s : Snapshot) : Prop where
  calls : (s.calls.map (·.statement)).Nodup
  returns : s.returns.Nodup

theorem Distinct.calls_nodup {s : Snapshot} (h : s.Distinct) (f : FunctionId) :
    (s.calls.map fun site => Anchor.call ⟨f, site.statement⟩).Nodup := by
  have hanchors := h.calls.map (f := fun id => Anchor.call ⟨f, id⟩) fun i j hij => by simpa using hij
  rwa [List.map_map] at hanchors

theorem Distinct.returns_nodup {s : Snapshot} (h : s.Distinct) (f : FunctionId) :
    (s.returns.map fun ret => Anchor.ret ⟨f, ret⟩).Nodup :=
  h.returns.map fun i j hij => by simpa using hij

theorem take_distinct {g : Function} (hg : g.Numbered) : (take g).Distinct := by
  refine ⟨calls_nodup hg, ?_⟩
  have hreturn : ∀ (x : Statement × Option Statement × Constants) (id : StatementId),
      liftedReturn? x.1 = some id → id = x.1.id := by
    intro x id hid
    obtain ⟨-, -, -, hid⟩ := liftedReturn?_some hid
    exact hid.symm
  have hsublist := map_filterMap_sublist (g := id) hreturn (g.reachableStates g.blockFacts)
  have hstates := (g.reachableStates_sublist g.blockFacts).map (·.id)
  rw [List.map_map] at hstates
  rw [List.map_id] at hsublist
  exact (hg.nodup.sublist hstates).sublist hsublist

theorem Genuine.distinct {s : Snapshot} {f : Function} (h : s.Genuine f)
    (hm : s.mismatch? f = none) : s.Distinct := by
  obtain ⟨g, rfl, hg, -⟩ := h hm
  exact take_distinct hg.numbered

end Snapshot

namespace Hooks

variable {h h' : Hooks} {as as' : List Anchor}

/-- How many of the anchors have no hook. -/
def vacant (h : Hooks) (as : List Anchor) : Nat := as.countP fun a => (h.active[a]?).isNone

theorem vacant_append (h : Hooks) (as as' : List Anchor) :
    h.vacant (as ++ as') = h.vacant as + h.vacant as' := List.countP_append

theorem vacant_congr (ha : ∀ a ∈ as, h'.active[a]? = h.active[a]?) : h'.vacant as = h.vacant as :=
  List.countP_congr fun a hmem => by rw [ha a hmem]

end Hooks

namespace Bench

variable {b b' b'' : Bench} {a : Anchor} {hook : Hook} {plan : Option Plan}
variable {detector : Option Detector} {signatures : Signatures} {sources : Sources} {s : Snapshot}
variable {done done' : List Anchor} {dropped dropped' : Anchor → Prop}

/-- A hook that is active on the anchor is remembered as the last one. -/
def Recalls (b : Bench) (a : Anchor) : Prop :=
  ∀ k, b.hooks.active[a]? = some k → b.hooks.last[a]? = some k

/-! ## What settling leaves behind -/

/-- Some anchors have been settled, each once, others have lost their hooks, and the rest is as it
was. -/
structure Settles (b b' : Bench) (done : List Anchor) (dropped : Anchor → Prop) : Prop where
  active : ∀ a, a ∉ done → ¬dropped a → b'.hooks.active[a]? = b.hooks.active[a]?
  last : ∀ a, a ∉ done → ¬dropped a → b'.hooks.last[a]? = b.hooks.last[a]?
  gone : ∀ a, dropped a → b'.hooks.active[a]? = none ∧ b'.hooks.last[a]? = none
  recalls : ∀ a ∈ done, b'.Recalls a
  unresolved : b'.stats.unresolved = b.stats.unresolved + b'.hooks.vacant done
  sound : b'.Sound
  function_id : b'.function.id = b.function.id

theorem Settles.of_eq (hs : b'.Sound) (hid : b'.function.id = b.function.id)
    (ha : b'.hooks.active = b.hooks.active) (hl : b'.hooks.last = b.hooks.last)
    (hu : b'.stats.unresolved = b.stats.unresolved) : Settles b b' [] fun _ => False :=
  ⟨fun _ _ _ => by rw [ha], fun _ _ _ => by rw [hl], fun _ h => h.elim, by simp, hu, hs, hid⟩

theorem Settles.trans (h : Settles b b' done dropped) (h' : Settles b' b'' done' dropped')
    (hd : ∀ a ∈ done, a ∉ done') (hdone : ∀ a ∈ done, ¬dropped' a)
    (hdone' : ∀ a ∈ done', ¬dropped a) :
    Settles b b'' (done ++ done') fun a => dropped a ∨ dropped' a := by
  have hactive : ∀ a ∈ done, b''.hooks.active[a]? = b'.hooks.active[a]? :=
    fun a ha => h'.active a (hd a ha) (hdone a ha)
  refine ⟨?_, ?_, ?_, ?_, ?_, h'.sound, h'.function_id.trans h.function_id⟩
  · intro a ha hdropped
    obtain ⟨ha, ha'⟩ := not_or.mp (mt List.mem_append.mpr ha)
    obtain ⟨hdropped, hdropped'⟩ := not_or.mp hdropped
    rw [h'.active a ha' hdropped', h.active a ha hdropped]
  · intro a ha hdropped
    obtain ⟨ha, ha'⟩ := not_or.mp (mt List.mem_append.mpr ha)
    obtain ⟨hdropped, hdropped'⟩ := not_or.mp hdropped
    rw [h'.last a ha' hdropped', h.last a ha hdropped]
  · intro a hdropped
    by_cases hdropped' : dropped' a
    · exact h'.gone a hdropped'
    · have hdropped := hdropped.resolve_right hdropped'
      have ha' : a ∉ done' := fun ha' => hdone' a ha' hdropped
      rw [h'.active a ha' hdropped', h'.last a ha' hdropped']
      exact h.gone a hdropped
  · intro a ha
    rcases List.mem_append.mp ha with ha | ha
    · intro k hk
      rw [hactive a ha] at hk
      rw [h'.last a (hd a ha) (hdone a ha)]
      exact h.recalls a ha k hk
    · exact h'.recalls a ha
  · have hvacant := Hooks.vacant_congr hactive
    have hfirst := h.unresolved
    have hsecond := h'.unresolved
    rw [Hooks.vacant_append]
    omega

theorem Settles.congr (h : Settles b b' done dropped) (hdone : done = done')
    (hdropped : ∀ a, dropped a ↔ dropped' a) : Settles b b' done' dropped' := by
  obtain rfl := hdone
  obtain rfl : dropped = dropped' := funext fun a => propext (hdropped a)
  exact h

theorem Settles.more (h : Settles b b' done dropped)
    (h' : Settles b' b'' done' fun _ => False) (hd : ∀ a ∈ done, a ∉ done')
    (hdone' : ∀ a ∈ done', ¬dropped a) : Settles b b'' (done ++ done') dropped :=
  (h.trans h' hd (fun _ _ => id) hdone').congr rfl fun _ => by rw [or_false]

theorem Settles.drop (h : Settles b b' done dropped) (h' : Settles b' b'' [] dropped')
    (hdone : ∀ a ∈ done, ¬dropped' a) : Settles b b'' done fun a => dropped a ∨ dropped' a :=
  (h.trans h' (by simp) hdone (by simp)).congr done.append_nil fun _ => .rfl

theorem detach_last (b : Bench) (a : Anchor) :
    (b.detach a).hooks.last = b.hooks.last ∧
      (b.detach a).stats.unresolved = b.stats.unresolved := by
  unfold detach
  split <;> exact ⟨rfl, rfl⟩

theorem foldl_detach_last (as : List Anchor) (b : Bench) :
    (as.foldl detach b).hooks.last = b.hooks.last ∧
      (as.foldl detach b).stats.unresolved = b.stats.unresolved := by
  induction as generalizing b with
  | nil => exact ⟨rfl, rfl⟩
  | cons a as ih =>
    obtain ⟨hlast, hunresolved⟩ := ih (b.detach a)
    obtain ⟨hone, hone'⟩ := b.detach_last a
    exact ⟨hlast.trans hone, hunresolved.trans hone'⟩

theorem obtain_last (b : Bench) (p : Plan) : (b.obtain p).2.hooks.last = b.hooks.last := by
  cases h : b.hooks.cached? p.key with
  | none => rw [obtain_of_none h]
  | some hook => rw [obtain_of_cached h]

theorem attach_last (h : b.attach hook = .ok b') :
    b'.hooks.last = b.hooks.last.insert hook.anchor hook ∧
      b'.stats.unresolved = b.stats.unresolved := by
  by_cases hactive : (b.hooks.active[hook.anchor]?).any fun active => active.id == hook.id
  · rw [attach_of_active hactive] at h
    obtain rfl := Except.ok.inj h
    exact ⟨rfl, rfl⟩
  · obtain ⟨hlast, hunresolved⟩ := b.detach_last hook.anchor
    cases hf : (b.detach hook.anchor).function.insertSynthetic hook.anchor.position
        hook.statements with
    | error e =>
      rw [attach_of_error hactive hf] at h
      cases h
    | ok f =>
      rw [attach_of_ok hactive hf] at h
      obtain rfl := Except.ok.inj h
      refine ⟨?_, hunresolved⟩
      rw [← hlast]
      rfl

theorem settle_settles (hb : b.Sound) (ha : a.function = b.function.id)
    (hp : ∀ p ∈ plan, p.key.anchor = a ∧ ∀ kind ∈ p.effects.kinds, kind.fits p.key.anchor.kind)
    (h : b.settle a plan = .ok b') : Settles b b' [a] fun _ => False := by
  obtain ⟨hbears, hspares, -, hsound⟩ := settle_ok hb ha hp h
  have hactive : ∀ a', a' ∉ [a] → ¬False → b'.hooks.active[a']? = b.hooks.active[a']? :=
    fun a' ha' _ => hspares.active a' (by simpa using ha')
  cases plan with
  | none =>
    have hnone : b'.hooks.active[a]? = none := hbears
    have heq : b' = (b.detach a).countUnresolved := (Except.ok.inj h).symm
    obtain ⟨hlast, hunresolved⟩ := b.detach_last a
    refine ⟨hactive, fun a' _ _ => by rw [heq, ← hlast]; rfl, fun _ h => h.elim, ?_, ?_, hsound,
      hspares.function_id⟩
    · intro a' ha' k hk
      obtain rfl := List.mem_singleton.mp ha'
      rw [hnone] at hk
      cases hk
    · have hvacant : b'.hooks.vacant [a] = 1 := by simp [Hooks.vacant, hnone]
      rw [hvacant, heq, ← hunresolved]
      rfl
  | some p =>
    obtain ⟨rfl, -⟩ := hp p rfl
    obtain ⟨k, hk, hkey⟩ := hbears
    have hkey' := (b.obtain_mem_built p).2
    have hanchor : (b.obtain p).1.anchor = p.key.anchor := by rw [Hook.anchor, hkey']
    rw [settle_some] at h
    obtain ⟨hlast, hunresolved⟩ := attach_last h
    rw [hanchor, obtain_last] at hlast
    have hself : b'.hooks.last[p.key.anchor]? = some (b.obtain p).1 := by
      rw [hlast]
      exact ExtTreeMap.getElem?_insert_self
    refine ⟨hactive, ?_, fun _ h => h.elim, ?_, ?_, hsound, hspares.function_id⟩
    · intro a ha _
      rw [hlast]
      exact Table.getElem?_insert_of_ne fun he => ha (by simp [he])
    · intro a ha k' hk'
      obtain rfl := List.mem_singleton.mp ha
      obtain rfl := Option.some.inj (hk.symm.trans hk')
      -- Both tables point at the one hook that was built for the key.
      rw [hself, hsound.1.key_inj (hsound.1.active_built hk).1 (hsound.1.last_built hself).1
        (hkey.trans hkey'.symm)]
    · obtain ⟨-, n, hstats⟩ := b.obtain_fields p
      have hvacant : b'.hooks.vacant [p.key.anchor] = 0 := by simp [Hooks.vacant, hk]
      rw [hvacant, hunresolved, hstats]
      rfl

theorem resolve_settles (hb : b.Sound) (detector : Option Detector) (callee : Callee) :
    Settles b (b.resolve detector callee).2 [] fun _ => False := by
  have hresolve : Move detector .empty (fun _ => True) b _ := .resolve b callee
  have hsound := hresolve.sound hb
  obtain ⟨cs, asked, heq, -⟩ := b.resolve_snd detector callee
  rw [heq] at hsound ⊢
  exact .of_eq hsound rfl rfl rfl rfl

theorem settleCall_settles {site : CallSite} (hb : b.Sound)
    (h : settleCall detector signatures b site = .ok b') :
    Settles b b' [.call (b.callAt site)] fun _ => False := by
  have hresolve := resolve_settles hb detector (.ofCall (b.callAt site) site.target)
  have hfst := b.resolve_fst detector (.ofCall (b.callAt site) site.target)
  have hsettles := settle_settles (a := .call (b.callAt site)) hresolve.sound
    hresolve.function_id.symm (by
      intro p hp
      obtain ⟨c, hc, rfl⟩ := Option.map_eq_some_iff.mp hp
      exact ⟨rfl, (Plan.possible_ofCall (hfst.symm.trans hc) _).fitting⟩) h
  exact hresolve.more hsettles (by simp) (by simp)

theorem foldlM_settles {α : Type} {act : Bench → α → Except Halt Bench} (anchor : α → Anchor)
    {f : FunctionId} {xs : List α} (hb : b.Sound) (hf : b.function.id = f)
    (hnodup : (xs.map anchor).Nodup)
    (hact : ∀ {b b' : Bench} (x : α), b.Sound → b.function.id = f → act b x = .ok b' →
      Settles b b' [anchor x] fun _ => False)
    (h : xs.foldlM act b = .ok b') : Settles b b' (xs.map anchor) fun _ => False := by
  induction xs generalizing b with
  | nil =>
    obtain rfl := Except.ok.inj h
    exact .of_eq hb rfl rfl rfl rfl
  | cons x xs ih =>
    rw [List.foldlM_cons] at h
    obtain ⟨b₁, h₁, h⟩ := bind_eq_ok h
    rw [List.map_cons, List.nodup_cons] at hnodup
    have hone := hact x hb hf h₁
    have hrest := ih hone.sound (hone.function_id.trans hf) hnodup.2 h
    refine hone.more hrest (fun a ha => ?_) (by simp)
    exact List.mem_singleton.mp ha ▸ hnodup.1

theorem dropUnseen_last (b : Bench) (kind : HookKind) (seen : List Anchor) (a : Anchor) :
    (b.dropUnseen kind seen).hooks.last[a]? =
      if b.Unseen kind seen a then none else b.hooks.last[a]? := by
  unfold dropUnseen
  dsimp only
  rw [ExtTreeMap.getElem?_filter', (foldl_detach_last _ b).1]
  have hunseen : (a.kind == kind && a.function == b.function.id && !seen.contains a) =
      decide (b.Unseen kind seen a) := by
    rw [Bool.eq_iff_iff, decide_eq_true_iff]
    simp [Unseen, and_assoc]
  rw [hunseen]
  by_cases ha : b.Unseen kind seen a <;> cases b.hooks.last[a]? <;> simp [ha]

theorem dropUnseen_settles (hb : b.Sound) (kind : HookKind) (seen : List Anchor) :
    Settles b (b.dropUnseen kind seen) [] (b.Unseen kind seen) := by
  refine ⟨fun a _ ha => ?_, fun a _ ha => ?_, fun a ha => ⟨?_, ?_⟩, by simp,
    (foldl_detach_last _ b).2, dropUnseen_sound hb kind seen,
    (b.dropUnseen_spares kind seen).function_id⟩
  · rw [dropUnseen_active, if_neg ha]
  · rw [dropUnseen_last, if_neg ha]
  · rw [dropUnseen_active, if_pos ha]
  · rw [dropUnseen_last, if_pos ha]

theorem informed_settles (hb : b.Sound) (detector : Option Detector) (s : Snapshot) :
    Settles b (b.informed detector s) [] fun _ => False := by
  have hstart : Move detector .empty (fun _ => True) b (b.start s) := .start b s
  have hfirst : Settles b (b.start s) [] fun _ => False := by
    have hsound := hstart.sound hb
    rw [start_eq] at hsound ⊢
    exact .of_eq hsound rfl rfl rfl rfl
  have hresolve := resolve_settles hfirst.sound detector (.ofFunction b.function)
  exact hfirst.more hresolve (by simp) (by simp)

/-- The stages of an instrumentation that succeeds: its function's own convention becomes known, the
entry is settled (`b₁`), then the calls (`b₂`), then the returns (`b₃`), and what the snapshot does
not list is dropped. -/
structure Stages (b b' : Bench) (sources : Sources) (s : Snapshot) (b₁ b₂ b₃ : Bench) : Prop where
  entry_ok : (b.informed sources.detector s).settle (.entry b.function.id)
    ((b.informed sources.detector s).entryPlan sources.signatures.value) = .ok b₁
  calls_ok : s.calls.foldlM (settleCall sources.detector sources.signatures.value) b₁ = .ok b₂
  returns_ok : s.returns.foldlM (fun b' ret => b'.settle (.ret ⟨b.function.id, ret⟩)
      ((b.informed sources.detector s).returnPlan sources.signatures.value ret))
    (b₂.dropUnseen .call (s.calls.map fun site => .call ⟨b.function.id, site.statement⟩)) = .ok b₃
  informed : Settles b (b.informed sources.detector s) [] fun _ => False
  entry : Settles (b.informed sources.detector s) b₁ [.entry b.function.id] fun _ => False
  calls : Settles b₁ b₂ (s.calls.map fun site => .call ⟨b.function.id, site.statement⟩)
    fun _ => False
  calls_dropped : Settles b₂
    (b₂.dropUnseen .call (s.calls.map fun site => .call ⟨b.function.id, site.statement⟩)) []
    (b₂.Unseen .call (s.calls.map fun site => .call ⟨b.function.id, site.statement⟩))
  returns : Settles
    (b₂.dropUnseen .call (s.calls.map fun site => .call ⟨b.function.id, site.statement⟩)) b₃
    (s.returns.map fun ret => .ret ⟨b.function.id, ret⟩) fun _ => False
  returns_dropped : Settles b₃ b' []
    (b₃.Unseen .ret (s.returns.map fun ret => .ret ⟨b.function.id, ret⟩))

theorem instrument_stages (hb : b.Sound) (hs : s.Distinct) (h : b.instrument sources s = .ok b') :
    ∃ b₁ b₂ b₃, Stages b b' sources s b₁ b₂ b₃ := by
  obtain ⟨-, b₁, b₂, b₃, h₁, h₂, h₃, rfl⟩ := instrument_ok h
  have hinformed := informed_settles hb sources.detector s
  have hentry := settle_settles (a := .entry b.function.id) hinformed.sound
    hinformed.function_id.symm (b.informed_entryPlan_fits s) h₁
  have hid₁ := hentry.function_id.trans hinformed.function_id
  have hcalls := foldlM_settles (fun site => .call ⟨b.function.id, site.statement⟩)
    hentry.sound hid₁ (hs.calls_nodup _) (by
      intro b' b'' site hb' hid' h
      have hsettles := settleCall_settles hb' h
      rwa [callAt, hid'] at hsettles) h₂
  have hdrop := dropUnseen_settles hcalls.sound .call
    (s.calls.map fun site => .call ⟨b.function.id, site.statement⟩)
  have hreturns := foldlM_settles (fun ret => .ret ⟨b.function.id, ret⟩)
    hdrop.sound (hdrop.function_id.trans (hcalls.function_id.trans hid₁)) (hs.returns_nodup _) (by
      intro b' b'' ret hb' hid' h
      exact settle_settles (a := .ret ⟨b.function.id, ret⟩) hb' hid'.symm
        (b.informed_returnPlan_fits s ret) h) h₃
  exact ⟨b₁, b₂, b₃, h₁, h₂, h₃, hinformed, hentry, hcalls, hdrop, hreturns,
    dropUnseen_settles hreturns.sound .ret _⟩

namespace Stages

variable {b₁ b₂ b₃ : Bench}

theorem function_id (h : Stages b b' sources s b₁ b₂ b₃) :
    b₁.function.id = b.function.id ∧ b₂.function.id = b.function.id ∧
      b₃.function.id = b.function.id := by
  have hid₁ := h.entry.function_id.trans h.informed.function_id
  have hid₂ := h.calls.function_id.trans hid₁
  exact ⟨hid₁, hid₂, h.returns.function_id.trans (h.calls_dropped.function_id.trans hid₂)⟩

theorem dropped_iff (h : Stages b b' sources s b₁ b₂ b₃) :
    (b₂.Unseen .call (s.calls.map fun site => .call ⟨b.function.id, site.statement⟩) a ∨
      b₃.Unseen .ret (s.returns.map fun ret => .ret ⟨b.function.id, ret⟩) a) ↔
      a.function = b.function.id ∧ a ∉ s.anchors b.function.id :=
  unseen_iff h.function_id.2.1 h.function_id.2.2

theorem not_dropped (h : Stages b b' sources s b₁ b₂ b₃) (ha : a ∈ s.anchors b.function.id) :
    ¬b₂.Unseen .call (s.calls.map fun site => .call ⟨b.function.id, site.statement⟩) a ∧
      ¬b₃.Unseen .ret (s.returns.map fun ret => .ret ⟨b.function.id, ret⟩) a :=
  not_or.mp fun hu => (h.dropped_iff.mp hu).2 ha

end Stages

theorem instrument_settles_anchors (hb : b.Sound) (hs : s.Distinct)
    (h : b.instrument sources s = .ok b') :
    Settles b b' (s.anchors b.function.id) fun a =>
      a.function = b.function.id ∧ a ∉ s.anchors b.function.id := by
  obtain ⟨b₁, b₂, b₃, hstages⟩ := instrument_stages hb hs h
  have hfirst := ((hstages.informed.more hstages.entry (by simp) (by simp)).more hstages.calls
    (by simp) (by simp)).drop hstages.calls_dropped fun a ha =>
      (hstages.not_dropped (List.mem_append_left _ ha)).1
  have hsecond := (hfirst.more hstages.returns (by simp) fun a ha hu =>
    (hstages.not_dropped (List.mem_append_right _ ha)).1 (hu.resolve_left id)).drop
      hstages.returns_dropped fun a ha => (hstages.not_dropped ha).2
  refine hsecond.congr rfl fun a => ?_
  rw [false_or]
  exact hstages.dropped_iff

/-! ## A bench at rest -/

def count (b : Bench) (n : Nat) : Bench :=
  { b with stats := { b.stats with unresolved := b.stats.unresolved + n } }

theorem count_count (b : Bench) (m n : Nat) : (b.count m).count n = b.count (m + n) := by
  simp only [count, Nat.add_assoc]

/-- Instrumenting with the snapshot has nothing left to do. -/
structure Rests (b : Bench) (sources : Sources) (s : Snapshot) : Prop where
  consistent : b.hooks.Consistent
  serves : s.mismatch? b.function = none
  conventions : b.conventions.poisoned = false
  signatures : sources.signatures.poisoned = false
  started : b.start s = b
  own : Conventions.Decided sources.detector b.conventions.value (.ofFunction b.function)
  entry : b.Bears (.entry b.function.id) (b.entryPlan sources.signatures.value)
  returns : ∀ ret ∈ s.returns,
    b.Bears (.ret ⟨b.function.id, ret⟩) (b.returnPlan sources.signatures.value ret)
  calls : ∀ site ∈ s.calls,
    b.Bears (.call (b.callAt site)) (b.callPlan sources.signatures.value site) ∧
      Conventions.Decided sources.detector b.conventions.value
        (.ofCall (b.callAt site) site.target)
  recalls : ∀ a ∈ s.anchors b.function.id, b.Recalls a
  only : ∀ a : Anchor, a.function = b.function.id → a ∉ s.anchors b.function.id →
    b.hooks.active[a]? = none ∧ b.hooks.last[a]? = none

theorem resolve_of_decided (hd : ∀ d ∈ detector, d.IsBuiltin) {callee : Callee}
    (h : Conventions.Decided detector b.conventions.value callee) :
    b.resolve detector callee = (b.conventions.value.lookup? callee, b) := by
  unfold resolve
  split
  · next known hknown => rw [hknown]
  · next hnone => rw [hnone]
  · next d hnone =>
    have hrefuses : Detector.Refuses (some d) callee := h.resolve_left (by simp [hnone])
    simp [hrefuses d rfl, (hd d rfl).remembers_eq]

theorem settle_again (hb : b.hooks.Consistent) (h : b.Bears a plan)
    (hp : ∀ p ∈ plan, p.key.anchor = a) (hr : b.Recalls a) :
    b.settle a plan = .ok (b.count (b.hooks.vacant [a])) := by
  cases plan with
  | none =>
    have hnone : b.hooks.active[a]? = none := h
    have hvacant : b.hooks.vacant [a] = 1 := by simp [Hooks.vacant, hnone]
    simp only [settle, detach_of_none hnone, hvacant, count]
  | some p =>
    obtain rfl := hp p rfl
    obtain ⟨k, hk, hkey⟩ := h
    have hvacant : b.hooks.vacant [p.key.anchor] = 0 := by simp [Hooks.vacant, hk]
    have hlast : b.hooks.last.insert k.anchor k = b.hooks.last := by
      rw [Hook.anchor, hkey]
      exact Table.insert_eq_self (hr k hk)
    rw [settle_of_active hb hk hkey, remember, hlast, hvacant]
    rfl

theorem settleCall_again {site : CallSite} (hb : b.hooks.Consistent)
    (hd : ∀ d ∈ detector, d.IsBuiltin)
    (h : b.Bears (.call (b.callAt site)) (b.callPlan signatures site))
    (hc : Conventions.Decided detector b.conventions.value (.ofCall (b.callAt site) site.target))
    (hr : b.Recalls (.call (b.callAt site))) :
    settleCall detector signatures b site =
      .ok (b.count (b.hooks.vacant [.call (b.callAt site)])) := by
  have hplan : ∀ p ∈ b.callPlan signatures site, p.key.anchor = .call (b.callAt site) := by
    intro p hp
    obtain ⟨c, -, rfl⟩ := Option.map_eq_some_iff.mp hp
    rfl
  have hsettle := settle_again hb h hplan hr
  have hresolve := resolve_of_decided hd hc
  rw [callAt] at hresolve
  rw [settleCall, hresolve]
  exact hsettle

theorem foldlM_again {α : Type} (act : Bench → α → Except Halt Bench) (anchor : α → Anchor)
    (xs : List α) (hact : ∀ x ∈ xs, ∀ n,
      act (b.count n) x = .ok ((b.count n).count (b.hooks.vacant [anchor x]))) (n : Nat) :
    xs.foldlM act (b.count n) = .ok (b.count (n + b.hooks.vacant (xs.map anchor))) := by
  induction xs generalizing n with
  | nil => rfl
  | cons x xs ih =>
    have hrest := ih (fun x hx => hact x (List.mem_cons_of_mem _ hx))
      (n + b.hooks.vacant [anchor x])
    have hvacant : b.hooks.vacant ((x :: xs).map anchor) =
        b.hooks.vacant [anchor x] + b.hooks.vacant (xs.map anchor) :=
      b.hooks.vacant_append [anchor x] (xs.map anchor)
    rw [List.foldlM_cons, hact x List.mem_cons_self n, count_count, hvacant, ← Nat.add_assoc]
    exact hrest

theorem dropUnseen_eq_self {kind : HookKind} {seen : List Anchor}
    (h : ∀ a, b.Unseen kind seen a → b.hooks.active[a]? = none ∧ b.hooks.last[a]? = none) :
    b.dropUnseen kind seen = b := by
  have hlast : (b.dropUnseen kind seen).hooks.last = b.hooks.last := by
    apply ExtTreeMap.ext_getElem?
    intro a
    rw [dropUnseen_last]
    split
    · next ha => exact (h a ha).2.symm
    · rfl
  rw [b.dropUnseen_of_inactive kind seen fun a ha => (h a ha).1] at hlast ⊢
  simp only [forget] at hlast ⊢
  rw [hlast]

theorem Rests.unseen (h : b.Rests sources s)
    (ha : b.Unseen .call (s.calls.map fun site => .call ⟨b.function.id, site.statement⟩) a ∨
      b.Unseen .ret (s.returns.map fun ret => .ret ⟨b.function.id, ret⟩) a) :
    b.hooks.active[a]? = none ∧ b.hooks.last[a]? = none := by
  obtain ⟨hid, hnot⟩ := (unseen_iff rfl rfl).mp ha
  exact h.only a hid hnot

/-- Instrumenting a bench at rest counts the anchors without a hook and changes nothing else. -/
theorem Rests.instrument (h : b.Rests sources s) (hd : ∀ d ∈ sources.detector, d.IsBuiltin) :
    b.instrument sources s = .ok (b.count (b.hooks.vacant (s.anchors b.function.id))) := by
  have hinformed : b.informed sources.detector s = b := by
    rw [informed, h.started, resolve_of_decided hd h.own]
  have hentry := settle_again h.consistent h.entry (fun p hp => (entryPlan_possible b p hp).1)
    (h.recalls _ (s.entry_mem_anchors _))
  have hcalls := foldlM_again (settleCall sources.detector sources.signatures.value)
    (fun site => .call (b.callAt site)) s.calls
    (fun site hsite n => settleCall_again (b := b.count n) h.consistent hd (h.calls site hsite).1
      (h.calls site hsite).2 (h.recalls _ (Snapshot.call_mem_anchors.mpr ⟨site, hsite, rfl⟩)))
    (b.hooks.vacant [.entry b.function.id])
  have hreturns := foldlM_again (fun b' ret => b'.settle (.ret ⟨b.function.id, ret⟩)
      (b.returnPlan sources.signatures.value ret))
    (fun ret => .ret ⟨b.function.id, ret⟩) s.returns
    (fun ret hret n => settle_again (b := b.count n) h.consistent (h.returns ret hret)
      (fun p hp => (returnPlan_possible b ret p hp).1)
      (h.recalls _ (Snapshot.ret_mem_anchors.mpr hret)))
    (b.hooks.vacant [.entry b.function.id] +
      b.hooks.vacant (s.calls.map fun site => .call (b.callAt site)))
  -- What has been counted does not matter for what is dropped.
  have hdrop : ∀ n, (b.count n).dropUnseen .call
      (s.calls.map fun site => .call ⟨b.function.id, site.statement⟩) = b.count n := fun n =>
    dropUnseen_eq_self fun a ha => h.unseen (.inl ha)
  have hdrop' : ∀ n, (b.count n).dropUnseen .ret
      (s.returns.map fun ret => .ret ⟨b.function.id, ret⟩) = b.count n := fun n =>
    dropUnseen_eq_self fun a ha => h.unseen (.inr ha)
  have hanchors : b.hooks.vacant (s.anchors b.function.id) =
      b.hooks.vacant [.entry b.function.id] +
        b.hooks.vacant (s.calls.map fun site => .call (b.callAt site)) +
          b.hooks.vacant (s.returns.map fun ret => .ret ⟨b.function.id, ret⟩) := by
    rw [← Hooks.vacant_append, ← Hooks.vacant_append]
    rfl
  rw [instrument_eq h.serves h.conventions h.signatures, hinformed, hentry, hanchors]
  simp only [bind, Except.bind, hcalls, hdrop, hreturns, hdrop']

theorem start_touched (b : Bench) (s : Snapshot) : b.function.id ∈ (b.start s).hooks.touched := by
  rw [start_eq]
  exact ExtTreeMap.mem_insert_self

theorem start_observed (b : Bench) {pop : Nat} (hpop : pop ∈ Hooks.popOf? b.function s) :
    (b.start s).hooks.observed[Callee.ofFunction b.function]? = some pop := by
  rw [start_eq]
  exact Hooks.getElem?_observe_self hpop

theorem start_eq_self (ht : b.function.id ∈ b.hooks.touched)
    (ho : ∀ pop ∈ Hooks.popOf? b.function s,
      b.hooks.observed[Callee.ofFunction b.function]? = some pop) : b.start s = b := by
  have htouch : b.hooks.touch b.function.id = b.hooks := by
    obtain ⟨⟨⟩, hget⟩ := Option.isSome_iff_exists.mp (ExtTreeMap.mem_iff_isSome_getElem?.mp ht)
    rw [Hooks.touch, Table.insert_eq_self hget]
  rw [start, htouch, Hooks.observe_eq_self ho]

theorem Course.observed_start {b₁ b₂ : Bench} (h : Course b b' sources s b₁ b₂) :
    b'.hooks.observed = (b.start s).hooks.observed := by
  rw [h.observed, (foldlM_settleCall_ok h.entry_sound h.calls).1.observed, h.entry_spares.observed]
  exact ((b.start s).resolve_spares _).observed

theorem Course.started {b₁ b₂ : Bench} (h : Course b b' sources s b₁ b₂) (hb : b.Sound)
    (hs : s.Genuine b.function) (hok : b.instrument sources s = .ok b') : b'.start s = b' := by
  have hmoves : Moves sources.detector sources.signatures.value (· ∈ s.anchors b.function.id)
      (b.start s) (left (b.instrument sources s)) := instrument_moves h.serves fun _ ha => ha
  rw [hok, left_ok] at hmoves
  have hsame : b.function.SameCode b'.function := Moves.sameCode (moves_of_instrument_eq_ok hok) hb
  have hpop : Hooks.popOf? b'.function s = Hooks.popOf? b.function s := by
    obtain ⟨k, rfl, -, -, hcode⟩ := hs h.serves
    exact hsame.popOf?_eq hb.2.numbered h.sound.2.numbered hcode
  apply start_eq_self
  · rw [hsame.id_eq]
    exact (Moves.frame hmoves).touched _ (b.start_touched s)
  · rw [hpop, h.observed_start, hsame.ofFunction_eq]
    exact fun pop => b.start_observed

/-- What the first time leaves behind is at rest, and the anchors without a hook are those that were
counted. -/
theorem instrument_rests (hb : b.Sound) (hd : ∀ d ∈ sources.detector, d.IsBuiltin)
    (hr : b.conventions.value.AllRegistered) (hs : s.Genuine b.function)
    (h : b.instrument sources s = .ok b') :
    b'.Rests sources s ∧
      b'.stats.unresolved =
        b.stats.unresolved + b'.hooks.vacant (s.anchors b'.function.id) := by
  obtain ⟨b₁, b₂, hcourse⟩ := instrument_course hb h
  obtain ⟨hserves, hc, hss⟩ := readable_of_instrument_eq_ok h
  have hdistinct := hs.distinct hserves
  have hmoves := moves_of_instrument_eq_ok h
  have hsame : b.function.SameCode b'.function := Moves.sameCode hmoves hb
  obtain ⟨hanswered, hdecided, hcalls⟩ := hcourse.answers hd hr hdistinct.calls
  obtain ⟨hentry, hreturns, hbears⟩ := hcourse.bears hb h hd hr hdistinct.calls
  have hsettles := instrument_settles_anchors hb hdistinct h
  obtain ⟨hid, hrevision⟩ := Snapshot.mismatch?_eq_none.mp hserves
  rw [← hsame.id_eq] at hentry hreturns hbears hsettles
  refine ⟨⟨hcourse.sound.1, ?_, ?_, hss, hcourse.started hb hs h, ?_, hentry, hreturns, ?_,
    hsettles.recalls, fun a ha hnot => hsettles.gone a ⟨ha, hnot⟩⟩, hsettles.unresolved⟩
  · exact Snapshot.mismatch?_eq_none.mpr
      ⟨hid.trans hsame.id_eq.symm, hrevision.trans hsame.revision_eq.symm⟩
  · exact (Moves.frame hmoves).conventions.trans hc
  · rw [hsame.ofFunction_eq]
    exact hdecided.answered hanswered
  · intro site hsite
    have hcall : b₁.callAt site = b'.callAt site := by
      rw [callAt, callAt, hcourse.entry_function_id, hsame.id_eq]
    exact ⟨hbears site hsite, hcall ▸ (hcalls site hsite).2⟩

theorem Rests.recount (h : b.Rests sources s) (stats : InstrumentStats) :
    { b with stats }.Rests sources s where
  consistent := h.consistent
  serves := h.serves
  conventions := h.conventions
  signatures := h.signatures
  started := congrArg (fun b : Bench => { b with stats }) h.started
  own := h.own
  entry := h.entry
  returns := h.returns
  calls := h.calls
  recalls := h.recalls
  only := h.only

end Bench

namespace Round

variable {r r' : Round} {sources : Sources} {f : Function} {s : Snapshot}

theorem putBack_again (r : Round) (b : Bench) (stats : InstrumentStats) :
    { r.putBack b with stats := .zero }.putBack { b with stats } = { r.putBack b with stats } := by
  simp only [putBack, List.set_set, InstrumentStats.zero_merge]

theorem InOrder.instrument_again (h : r.InOrder) (hz : r.stats = .zero) (hf : f ∈ r.functions)
    (hs : s.Genuine f) (hd : ∀ d ∈ sources.detector, d.IsBuiltin)
    (hreg : r.conventions.value.AllRegistered) (hok : r.instrument sources f s = .ok r') :
    ∃ g, r'.functions[f.id]? = some g ∧
      { r' with stats := .zero }.instrument sources g s = .ok { r' with
        stats := { InstrumentStats.zero with unresolved := r'.stats.unresolved } } := by
  obtain ⟨b, hb, rfl⟩ := instrument_eq_ok hok
  obtain ⟨hrests, hunresolved⟩ := Bench.instrument_rests (h.bench_sound hf) hd hreg hs hb
  have hid : b.function.id = f.id := Bench.Moves.function_id (Bench.moves_of_instrument_eq_ok hb)
  have hstats : (r.putBack b).stats = b.stats := by
    rw [Round.putBack, hz, InstrumentStats.zero_merge]
  have hagain := (hrests.recount .zero).instrument hd
  refine ⟨b.function, h.getElem?_putBack hf hid, ?_⟩
  have hbench : { r.putBack b with stats := .zero }.bench b.function = { b with stats := .zero } :=
    rfl
  rw [Round.instrument, hbench, hagain, hstats, hunresolved]
  exact congrArg Except.ok (r.putBack_again b _)

end Round

namespace Workspace

variable {w₀ w : Workspace} {sources₀ sources : Sources} {r₀ r r' : Round} {f : Function}
  {s : Snapshot}

/-- Whatever was done since the workspace was fresh, instrumenting a function once more with the
snapshot it has just been instrumented with succeeds, attaches, detaches, inserts, removes and
builds nothing, counts the same anchors as unresolved and leaves everything as it is. -/
theorem instrument_twice {taken : List Snapshot} (h₀ : w₀.round? = some (sources₀, r₀))
    (hfresh : r₀.Fresh) (h : History w₀ taken w) (hr : w.round? = some (sources, r))
    (hf : f ∈ r.functions) (hs : s ∈ taken) (hd : ∀ d ∈ sources.detector, d.IsBuiltin)
    (hreg : r.conventions.value.AllRegistered) (hok : r.instrument sources f s = .ok r') :
    ∃ g, (w.putBack r').round? = some (sources, { r' with stats := .zero }) ∧
      r'.functions[f.id]? = some g ∧
      { r' with stats := .zero }.instrument sources g s = .ok { r' with
        stats := { InstrumentStats.zero with unresolved := r'.stats.unresolved } } := by
  obtain ⟨sources', r'', hr', hturns, hkept⟩ := h.turns h₀ hfresh.inOrder
  obtain ⟨rfl, rfl⟩ := Prod.mk.inj (Option.some.inj (hr.symm.trans hr'))
  have hin : r.InOrder := Round.Turns.inOrder hturns hfresh.inOrder
  obtain ⟨g, hg, hagain⟩ := hin.instrument_again (stats_of_round? hr) hf
    ((hkept s hs).genuine hin hf) hd hreg hok
  exact ⟨g, round?_putBack hr r', hg, hagain⟩

/-- The sample workspace, with no convention for what the sample function calls. -/
def halfSample : Workspace := sample.modifyConventions fun cs => (cs.unassign (.address 0x2000)).2

/-- The sample function gets hooks at its entry and at its return, and none on its call. -/
theorem halfSample_twice :
    ∃ r r' g, halfSample.round? = some (⟨none, .sound .empty⟩, r) ∧
      r.instrument ⟨none, .sound .empty⟩ Function.sample (.take Function.sample) = .ok r' ∧
      r'.stats.attached = 2 ∧ r'.stats.unresolved = 1 ∧
      r'.functions[Function.sample.id]? = some g ∧
      { r' with stats := .zero }.instrument ⟨none, .sound .empty⟩ g (.take Function.sample) =
        .ok { r' with stats := { InstrumentStats.zero with unresolved := 1 } } := by
  have hround : halfSample.round? = some (⟨none, .sound .empty⟩,
      { Round.sample with conventions := halfSample.currentConventions }) := rfl
  have hexists : (Round.instrument { Round.sample with
      conventions := halfSample.currentConventions } ⟨none, .sound .empty⟩ Function.sample
        (.take Function.sample)).toOption.any fun r' =>
          r'.stats.attached == 2 && r'.stats.unresolved == 1 := by decide +kernel
  obtain ⟨r', hok, hstats⟩ := exists_of_any_toOption hexists
  simp only [Bool.and_eq_true, beq_iff_eq] at hstats
  have hhistory : History sample [.take Function.sample] halfSample :=
    .step (.take .start [Function.sample] Function.sample rfl (List.mem_singleton_self _))
      (.unassign sample (.address 0x2000))
  have hregistered : halfSample.currentConventions.value.AllRegistered := by
    intro callee id hid
    exact Round.sample_registered callee id (Table.getElem?_erase_eq_some hid).2
  obtain ⟨g, -, hg, hagain⟩ := instrument_twice round?_sample Round.sample_fresh hhistory hround
    (List.mem_singleton_self _) (List.mem_singleton_self _) (by simp) hregistered hok
  rw [hstats.2] at hagain
  exact ⟨_, r', g, hround, hok, hstats.1, hstats.2, hg, hagain⟩

end Workspace

end CallEffects
