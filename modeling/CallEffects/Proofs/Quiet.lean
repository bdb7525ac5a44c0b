import CallEffects.Proofs.Repetition

/-!
# Instrumenting to no effect

Hooks that are attached or detached are counted. An instrumentation that counts none has found every
anchor with the hook that its plan asks for, and nothing to drop: it has built no hook and left the
function and its active hooks as they were. So it leaves its bench at rest, whatever function and
whatever active hooks it started from.
-/

namespace CallEffects

open Std

namespace Bench

variable {b b' b'' : Bench} {a : Anchor} {hook : Hook} {plan : Option Plan}
variable {detector : Option Detector} {signatures : Signatures} {sources : Sources} {s : Snapshot}
variable {done done' : List Anchor} {dropped dropped' : Anchor → Prop}

/-- Hooks attached and detached so far. -/
def edits (b : Bench) : Nat := b.stats.attached + b.stats.detached

theorem detach_edits (h : b.hooks.active[a]? = some hook) : (b.detach a).edits = b.edits + 1 := by
  rw [detach_of_some h]
  exact (Nat.add_assoc _ _ _).symm

theorem edits_le_detach (b : Bench) (a : Anchor) : b.edits ≤ (b.detach a).edits := by
  cases h : b.hooks.active[a]? with
  | none => rw [detach_of_none h]
  | some hook =>
    rw [detach_edits h]
    exact Nat.le_succ _

theorem edits_le_foldl_detach (as : List Anchor) (b : Bench) :
    b.edits ≤ (as.foldl detach b).edits := by
  induction as generalizing b with
  | nil => exact Nat.le_refl _
  | cons a as ih => exact (b.edits_le_detach a).trans (ih (b.detach a))

theorem edits_lt_foldl_detach {as : List Anchor} (ha : a ∈ as)
    (h : b.hooks.active[a]? = some hook) : b.edits < (as.foldl detach b).edits := by
  induction as generalizing b with
  | nil => cases ha
  | cons a' as ih =>
    by_cases heq : a' = a
    · subst heq
      refine Nat.lt_of_lt_of_le ?_ (edits_le_foldl_detach as (b.detach a'))
      rw [detach_edits h]
      exact Nat.lt_succ_self _
    · have hmem : a ∈ as := (List.mem_cons.mp ha).resolve_left fun he => heq he.symm
      have hactive : (b.detach a').hooks.active[a]? = some hook := by
        rw [detach_active, Table.getElem?_erase_of_ne heq, h]
      exact Nat.lt_of_le_of_lt (b.edits_le_detach a') (ih hmem hactive)

theorem attach_edits (h : b.attach hook = .ok b') :
    b.edits < b'.edits ∨
      ((b.hooks.active[hook.anchor]?).any fun active => active.id == hook.id) ∧
        b' = b.remember hook := by
  by_cases hactive : (b.hooks.active[hook.anchor]?).any fun active => active.id == hook.id
  · rw [attach_of_active hactive] at h
    exact .inr ⟨hactive, (Except.ok.inj h).symm⟩
  · left
    have hdetach := b.edits_le_detach hook.anchor
    cases hf : (b.detach hook.anchor).function.insertSynthetic hook.anchor.position
        hook.statements with
    | error e =>
      rw [attach_of_error hactive hf] at h
      cases h
    | ok f =>
      rw [attach_of_ok hactive hf] at h
      obtain rfl := Except.ok.inj h
      have hone : (((b.detach hook.anchor).place hook f).remember hook).edits =
          (b.detach hook.anchor).edits + 1 := by
        simp only [edits, remember, place]
        omega
      omega

theorem obtain_edits (b : Bench) (p : Plan) : (b.obtain p).2.edits = b.edits := by
  obtain ⟨-, n, hstats⟩ := b.obtain_fields p
  rw [edits, hstats, edits]

/-- What settling an anchor comes to if its hook is the right one. -/
def revisit (b : Bench) (a : Anchor) : Bench :=
  match b.hooks.active[a]? with
  | none => b.countUnresolved
  | some hook => b.remember hook

theorem built_inactive (hc : b.hooks.Consistent) (p : Plan) :
    ¬(b.hooks.active[a]?).any fun active => active.id == (b.built p).id := by
  intro hany
  obtain ⟨k, hk, hid⟩ := (Option.any_eq_true _ _).mp hany
  have hlt := (hc.id_lt (hc.active_built hk).1).2
  rw [beq_iff_eq.mp hid] at hlt
  exact Nat.lt_irrefl _ hlt

/-- Settling an anchor counts an edit, unless the anchor has the hook of its plan already. -/
theorem settle_edits (hc : b.hooks.Consistent) (hp : ∀ p ∈ plan, p.key.anchor = a)
    (h : b.settle a plan = .ok b') :
    b.edits < b'.edits ∨ b.Bears a plan ∧ b' = b.revisit a := by
  cases plan with
  | none =>
    have heq : b' = (b.detach a).countUnresolved := (Except.ok.inj h).symm
    cases hk : b.hooks.active[a]? with
    | none =>
      rw [detach_of_none hk] at heq
      exact .inr ⟨hk, by rw [heq, revisit, hk]⟩
    | some k =>
      left
      have hcount : b'.edits = (b.detach a).edits := by rw [heq]; rfl
      rw [hcount, detach_edits hk]
      exact Nat.lt_succ_self _
  | some p =>
    obtain rfl := hp p rfl
    have hanchor : (b.obtain p).1.anchor = p.key.anchor := by
      rw [Hook.anchor, (b.obtain_mem_built p).2]
    rw [settle_some] at h
    rcases attach_edits h with hlt | ⟨hactive, rfl⟩
    · rw [obtain_edits] at hlt
      exact .inl hlt
    · rw [hanchor, obtain_active] at hactive
      right
      cases hcached : b.hooks.cached? p.key with
      | none =>
        rw [obtain_of_none hcached] at hactive
        exact absurd hactive (built_inactive hc p)
      | some k =>
        rw [obtain_of_cached hcached] at hactive ⊢
        obtain ⟨k', hk', hid⟩ := (Option.any_eq_true _ _).mp hactive
        have hmem := List.mem_of_find?_eq_some hcached
        have hkey : k.key = p.key := by simpa using List.find?_some hcached
        obtain rfl := hc.id_inj (hc.active_built hk').1 hmem (beq_iff_eq.mp hid)
        exact ⟨⟨k', hk', hkey⟩, by rw [revisit, hk']⟩

/-! ## Idle changes -/

/-- Nothing has been attached, detached or built; some anchors have been settled, and others have
been dropped. -/
structure Idles (detector : Option Detector) (b b' : Bench) (done : List Anchor)
    (dropped : Anchor → Prop) : Prop where
  function : b'.function = b.function
  hooks : b'.hooks = { b.hooks with last := b'.hooks.last }
  consistent : b'.hooks.Consistent
  poisoned : b'.conventions.poisoned = b.conventions.poisoned
  answered : Conventions.Answered detector b.conventions.value b'.conventions.value
  asked : b'.asked = b.asked
  stats : b'.stats = { b.stats with unresolved := b'.stats.unresolved }
  last : ∀ a, a ∉ done → ¬dropped a → b'.hooks.last[a]? = b.hooks.last[a]?
  recalls : ∀ a ∈ done, b'.Recalls a
  gone : ∀ a, dropped a → b'.hooks.active[a]? = none ∧ b'.hooks.last[a]? = none

namespace Idles

theorem active (h : Idles detector b b' done dropped) : b'.hooks.active = b.hooks.active := by
  rw [h.hooks]

theorem observed (h : Idles detector b b' done dropped) :
    b'.hooks.observed = b.hooks.observed := by
  rw [h.hooks]

theorem refl (hc : b.hooks.Consistent) (hr : b.conventions.value.AllRegistered) :
    Idles detector b b [] fun _ => False :=
  ⟨rfl, rfl, hc, rfl, .refl hr, rfl, rfl, fun _ _ _ => rfl, by simp, fun _ h => h.elim⟩

theorem trans (h : Idles detector b b' done dropped) (h' : Idles detector b' b'' done' dropped')
    (hd : ∀ a ∈ done', ¬dropped a) :
    Idles detector b b'' (done ++ done') fun a => dropped a ∨ dropped' a := by
  refine ⟨h'.function.trans h.function, ?_, h'.consistent, h'.poisoned.trans h.poisoned,
    h.answered.trans h'.answered, h'.asked.trans h.asked, ?_, ?_, ?_, ?_⟩
  · rw [h'.hooks, h.hooks]
  · rw [h'.stats, h.stats]
  · intro a ha hdropped
    obtain ⟨ha, ha'⟩ := not_or.mp (mt List.mem_append.mpr ha)
    obtain ⟨hdropped, hdropped'⟩ := not_or.mp hdropped
    rw [h'.last a ha' hdropped', h.last a ha hdropped]
  · intro a ha
    by_cases ha' : a ∈ done'
    · exact h'.recalls a ha'
    · intro k hk
      have hdone := (List.mem_append.mp ha).resolve_right ha'
      have hdropped' : ¬dropped' a := by
        intro hdropped'
        rw [(h'.gone a hdropped').1] at hk
        cases hk
      rw [h'.last a ha' hdropped']
      rw [h'.active] at hk
      exact h.recalls a hdone k hk
  · intro a hdropped
    by_cases hdropped' : dropped' a
    · exact h'.gone a hdropped'
    · have hdropped := hdropped.resolve_right hdropped'
      rw [h'.last a (fun ha' => hd a ha' hdropped) hdropped', h'.active]
      exact h.gone a hdropped

theorem congr (h : Idles detector b b' done dropped) (hdone : done = done')
    (hdropped : ∀ a, dropped a ↔ dropped' a) : Idles detector b b' done' dropped' := by
  obtain rfl := hdone
  obtain rfl : dropped = dropped' := funext fun a => propext (hdropped a)
  exact h

theorem more (h : Idles detector b b' done dropped)
    (h' : Idles detector b' b'' done' fun _ => False) (hd : ∀ a ∈ done', ¬dropped a) :
    Idles detector b b'' (done ++ done') dropped :=
  (h.trans h' hd).congr rfl fun _ => by rw [or_false]

theorem drop (h : Idles detector b b' done dropped) (h' : Idles detector b' b'' [] dropped') :
    Idles detector b b'' done fun a => dropped a ∨ dropped' a :=
  (h.trans h' (by simp)).congr done.append_nil fun _ => .rfl

theorem bears (h : Idles detector b b' done dropped) (hb : b.Bears a plan) : b'.Bears a plan :=
  hb.congr (by rw [h.active])

theorem decided {callee : Callee} (h : Idles detector b b' done dropped)
    (hc : Conventions.Decided detector b.conventions.value callee) :
    Conventions.Decided detector b'.conventions.value callee := hc.answered h.answered

theorem callPlan_eq (h : Idles detector b b' done dropped) {site : CallSite}
    (hc : Conventions.Decided detector b.conventions.value
      (.ofCall (b.callAt site) site.target)) :
    b'.callPlan signatures site = b.callPlan signatures site :=
  callPlan_congr (by rw [h.function]) (hc.lookup?_eq h.answered) h.observed

theorem callAt_eq (h : Idles detector b b' done dropped) (site : CallSite) :
    b'.callAt site = b.callAt site := by
  rw [callAt, h.function, callAt]

theorem entryPlan_eq (h : Idles detector b b' done dropped)
    (hc : Conventions.Decided detector b.conventions.value (.ofFunction b.function)) :
    b'.entryPlan signatures = b.entryPlan signatures := by
  rw [entryPlan, h.function, hc.lookup?_eq h.answered, entryPlan]

theorem returnPlan_eq (h : Idles detector b b' done dropped)
    (hc : Conventions.Decided detector b.conventions.value (.ofFunction b.function))
    (ret : StatementId) : b'.returnPlan signatures ret = b.returnPlan signatures ret := by
  rw [returnPlan, h.function, hc.lookup?_eq h.answered, returnPlan]

end Idles

theorem revisit_idles (hc : b.hooks.Consistent) (hr : b.conventions.value.AllRegistered)
    (a : Anchor) : Idles detector b (b.revisit a) [a] fun _ => False := by
  unfold revisit
  cases hk : b.hooks.active[a]? with
  | none =>
    refine ⟨rfl, rfl, hc, rfl, .refl hr, rfl, rfl, fun _ _ _ => rfl, ?_, fun _ h => h.elim⟩
    intro a' ha' k hk'
    obtain rfl := List.mem_singleton.mp ha'
    have hnone : b.hooks.active[a']? = some k := hk'
    rw [hk] at hnone
    cases hnone
  | some k =>
    obtain ⟨hbuilt, hanchor⟩ := hc.active_built hk
    refine ⟨rfl, rfl, hc.remember hbuilt, rfl, .refl hr, rfl, rfl, ?_, ?_, fun _ h => h.elim⟩
    · intro a' ha' _
      refine Table.getElem?_insert_of_ne fun he => ha' ?_
      rw [← he, hanchor]
      exact List.mem_singleton_self _
    · intro a' ha' k' hk'
      obtain rfl := List.mem_singleton.mp ha'
      obtain rfl := Option.some.inj (hk.symm.trans hk')
      rw [← hanchor]
      exact ExtTreeMap.getElem?_insert_self

theorem resolve_idles (hd : ∀ d ∈ detector, d.IsBuiltin) (hc : b.hooks.Consistent)
    (hr : b.conventions.value.AllRegistered) (callee : Callee) :
    Idles detector b (b.resolve detector callee).2 [] (fun _ => False) ∧
      Conventions.Decided detector (b.resolve detector callee).2.conventions.value callee := by
  obtain ⟨hanswered, hdecided⟩ := resolve_answered hd hr callee
  have hasked : (b.resolve detector callee).2.asked = b.asked := by
    unfold resolve
    split
    · rfl
    · rfl
    · next d _ => simp only [(hd d rfl).remembers_eq, Bool.false_eq_true, if_false]
  obtain ⟨cs, asked, heq, -⟩ := b.resolve_snd detector callee
  rw [heq] at hanswered hdecided hasked ⊢
  exact ⟨⟨rfl, rfl, hc, rfl, hanswered, hasked, rfl, fun _ _ _ => rfl, by simp,
    fun _ h => h.elim⟩, hdecided⟩

theorem edits_lt_dropUnseen {kind : HookKind} {seen : List Anchor} (ha : b.Unseen kind seen a)
    (hactive : b.hooks.active[a]? ≠ none) : b.edits < (b.dropUnseen kind seen).edits := by
  obtain ⟨k, hk⟩ := Option.ne_none_iff_exists'.mp hactive
  have hmem : a ∈ b.hooks.active.keys.filter fun a =>
      a.kind == kind && a.function == b.function.id && !seen.contains a :=
    List.mem_filter.mpr ⟨Table.mem_keys_iff.mpr ⟨k, hk⟩, by
      simpa [Unseen, and_assoc] using ha⟩
  exact edits_lt_foldl_detach hmem hk

theorem dropUnseen_edits (detector : Option Detector) (hc : b.hooks.Consistent)
    (hr : b.conventions.value.AllRegistered) (kind : HookKind) (seen : List Anchor) :
    b.edits < (b.dropUnseen kind seen).edits ∨
      Idles detector b (b.dropUnseen kind seen) [] (b.Unseen kind seen) := by
  by_cases hnone : ∀ a, b.Unseen kind seen a → b.hooks.active[a]? = none
  · right
    have hlast := b.dropUnseen_last kind seen
    rw [b.dropUnseen_of_inactive kind seen hnone] at hlast ⊢
    refine ⟨rfl, rfl, hc.forget _, rfl, .refl hr, rfl, rfl, ?_, by simp, ?_⟩
    · intro a _ ha
      rw [hlast, if_neg ha]
    · intro a ha
      exact ⟨hnone a ha, by rw [hlast, if_pos ha]⟩
  · left
    simp only [not_forall] at hnone
    obtain ⟨a, ha, hactive⟩ := hnone
    exact edits_lt_dropUnseen ha hactive

/-! ## A whole instrumentation -/

theorem edits_le_settle (h : b.settle a plan = .ok b') : b.edits ≤ b'.edits := by
  cases plan with
  | none =>
    have heq : b' = (b.detach a).countUnresolved := (Except.ok.inj h).symm
    rw [heq]
    exact b.edits_le_detach a
  | some p =>
    rw [settle_some] at h
    rw [← b.obtain_edits p]
    rcases attach_edits h with hlt | ⟨-, rfl⟩
    · exact Nat.le_of_lt hlt
    · exact Nat.le_refl _

theorem resolve_edits (b : Bench) (detector : Option Detector) (callee : Callee) :
    (b.resolve detector callee).2.edits = b.edits := by
  obtain ⟨cs, asked, heq, -⟩ := b.resolve_snd detector callee
  rw [heq]
  rfl

theorem edits_le_settleCall {site : CallSite}
    (h : settleCall detector signatures b site = .ok b') : b.edits ≤ b'.edits := by
  rw [← resolve_edits b detector (.ofCall (b.callAt site) site.target)]
  exact edits_le_settle h

theorem edits_le_foldlM {α : Type} {act : Bench → α → Except Halt Bench} {xs : List α}
    (hact : ∀ {b b' : Bench} (x : α), act b x = .ok b' → b.edits ≤ b'.edits)
    (h : xs.foldlM act b = .ok b') : b.edits ≤ b'.edits :=
  foldlM_invariant (P := fun b' => b.edits ≤ b'.edits) (Nat.le_refl _)
    (fun x hle h => hle.trans (hact x h)) h

theorem edits_le_dropUnseen (b : Bench) (kind : HookKind) (seen : List Anchor) :
    b.edits ≤ (b.dropUnseen kind seen).edits := edits_le_foldl_detach _ b

theorem settle_idles (detector : Option Detector) (hc : b.hooks.Consistent)
    (hr : b.conventions.value.AllRegistered) (hp : ∀ p ∈ plan, p.key.anchor = a)
    (h : b.settle a plan = .ok b') (hq : b'.edits ≤ b.edits) :
    Idles detector b b' [a] (fun _ => False) ∧ b'.Bears a plan := by
  obtain ⟨hbears, rfl⟩ := (settle_edits hc hp h).resolve_left (Nat.not_lt_of_le hq)
  have hidles : Idles detector b (b.revisit a) [a] fun _ => False := revisit_idles hc hr a
  exact ⟨hidles, hidles.bears hbears⟩

theorem settleCall_eq (b : Bench) (detector : Option Detector) (signatures : Signatures)
    (site : CallSite) :
    settleCall detector signatures b site =
      (b.resolve detector (.ofCall (b.callAt site) site.target)).2.settle
        (.call (b.callAt site))
        ((b.resolve detector (.ofCall (b.callAt site) site.target)).2.callPlan signatures site) := by
  have hfst := b.resolve_fst detector (.ofCall (b.callAt site) site.target)
  have hcall : (b.resolve detector (.ofCall (b.callAt site) site.target)).2.callAt site =
      b.callAt site := by
    obtain ⟨cs, asked, heq, -⟩ := b.resolve_snd detector (.ofCall (b.callAt site) site.target)
    rw [heq]
    rfl
  simp only [callPlan, hcall, ← hfst]
  rfl

/-- A call has the hook that the registry asks for, and the registry has been asked. -/
def CallRests (b : Bench) (detector : Option Detector) (signatures : Signatures)
    (site : CallSite) : Prop :=
  b.Bears (.call (b.callAt site)) (b.callPlan signatures site) ∧
    Conventions.Decided detector b.conventions.value (.ofCall (b.callAt site) site.target)

theorem Idles.callRests {site : CallSite} (h : Idles detector b b' done dropped)
    (hs : b.CallRests detector signatures site) : b'.CallRests detector signatures site := by
  obtain ⟨hbears, hdecided⟩ := hs
  rw [CallRests, h.callAt_eq, h.callPlan_eq hdecided]
  exact ⟨h.bears hbears, h.decided hdecided⟩

theorem settleCall_idles {site : CallSite} (hd : ∀ d ∈ detector, d.IsBuiltin)
    (hc : b.hooks.Consistent) (hr : b.conventions.value.AllRegistered)
    (h : settleCall detector signatures b site = .ok b') (hq : b'.edits ≤ b.edits) :
    Idles detector b b' [.call (b.callAt site)] (fun _ => False) ∧
      b'.CallRests detector signatures site := by
  obtain ⟨hresolve, hdecided⟩ := resolve_idles hd hc hr (.ofCall (b.callAt site) site.target)
  have hcall := hresolve.callAt_eq site
  rw [settleCall_eq] at h
  rw [← resolve_edits b detector (.ofCall (b.callAt site) site.target)] at hq
  generalize (b.resolve detector (.ofCall (b.callAt site) site.target)).2 = b₁
    at hresolve hdecided hcall h hq
  rw [← hcall] at hdecided h ⊢
  obtain ⟨hsettle, hbears⟩ := settle_idles detector hresolve.consistent
    hresolve.answered.registered (by
      intro p hp
      obtain ⟨c, -, rfl⟩ := Option.map_eq_some_iff.mp hp
      rfl) h hq
  refine ⟨hresolve.more hsettle (by simp), ?_⟩
  rw [CallRests, hsettle.callAt_eq, hsettle.callPlan_eq hdecided]
  exact ⟨hbears, hsettle.decided hdecided⟩

theorem foldlM_idles {α : Type} {act : Bench → α → Except Halt Bench}
    (detector : Option Detector) (anchor : α → Anchor) (good : α → Bench → Prop) {f : Function}
    {xs : List α} (hf : b.function = f) (hc : b.hooks.Consistent)
    (hr : b.conventions.value.AllRegistered)
    (hmono : ∀ {b b' : Bench} (x : α), act b x = .ok b' → b.edits ≤ b'.edits)
    (hact : ∀ {b b' : Bench} (x : α), b.function = f → b.hooks.Consistent →
      b.conventions.value.AllRegistered → act b x = .ok b' → b'.edits ≤ b.edits →
        Idles detector b b' [anchor x] (fun _ => False) ∧ good x b')
    (hgood : ∀ {b b' : Bench} {done : List Anchor} (x : α),
      Idles detector b b' done (fun _ => False) → good x b → good x b')
    (h : xs.foldlM act b = .ok b') (hq : b'.edits ≤ b.edits) :
    Idles detector b b' (xs.map anchor) (fun _ => False) ∧ ∀ x ∈ xs, good x b' := by
  induction xs generalizing b with
  | nil =>
    obtain rfl := Except.ok.inj h
    exact ⟨.refl hc hr, by simp⟩
  | cons x xs ih =>
    rw [List.foldlM_cons] at h
    obtain ⟨b₁, h₁, h⟩ := bind_eq_ok h
    have hrest := edits_le_foldlM hmono h
    obtain ⟨hone, hfirst⟩ := hact x hf hc hr h₁ (hrest.trans hq)
    obtain ⟨hidles, hall⟩ := ih (hone.function.trans hf) hone.consistent hone.answered.registered h
      (hq.trans (hmono x h₁))
    refine ⟨hone.more hidles (by simp), ?_⟩
    intro y hy
    rcases List.mem_cons.mp hy with rfl | hy
    · exact hgood y hidles hfirst
    · exact hall y hy

theorem settleCalls_idles {sites : List CallSite} {seen : List Anchor} {i : FunctionId}
    (hi : b.function.id = i) (hd : ∀ d ∈ detector, d.IsBuiltin) (hc : b.hooks.Consistent)
    (hr : b.conventions.value.AllRegistered)
    (h : sites.foldlM (settleCall detector signatures) b = .ok b')
    (hq : (b'.dropUnseen .call seen).edits ≤ b.edits) :
    Idles detector b (b'.dropUnseen .call seen) (sites.map fun site => .call ⟨i, site.statement⟩)
        (b.Unseen .call seen) ∧
      ∀ site ∈ sites, (b'.dropUnseen .call seen).CallRests detector signatures site := by
  have hmono : b.edits ≤ b'.edits := edits_le_foldlM (fun _ => edits_le_settleCall) h
  have hdrop := b'.edits_le_dropUnseen .call seen
  obtain ⟨hcalls, hrests⟩ := foldlM_idles detector (fun site => .call ⟨i, site.statement⟩)
    (fun site b' => b'.CallRests detector signatures site) rfl hc hr
    (fun _ => edits_le_settleCall) (by
      intro b₁ b₂ site hf hc hr h hq
      obtain ⟨hidles, hrests⟩ := settleCall_idles hd hc hr h hq
      rw [callAt, hf, hi] at hidles
      exact ⟨hidles, hrests⟩)
    (fun _ hidles hrests => hidles.callRests hrests) h (hdrop.trans hq)
  have hdropped := (dropUnseen_edits detector hcalls.consistent hcalls.answered.registered .call
    seen).resolve_left (Nat.not_lt_of_le (hq.trans hmono))
  refine ⟨(hcalls.drop hdropped).congr rfl fun a => ?_,
    fun site hsite => hdropped.callRests (hrests site hsite)⟩
  rw [false_or, Unseen, Unseen, hcalls.function]

theorem settleReturns_idles (detector : Option Detector) {plans : StatementId → Option Plan}
    {rets : List StatementId} {seen : List Anchor} {i : FunctionId} (hc : b.hooks.Consistent)
    (hr : b.conventions.value.AllRegistered)
    (hplans : ∀ ret, ∀ p ∈ plans ret, p.key.anchor = .ret ⟨i, ret⟩)
    (h : rets.foldlM (fun b' ret => b'.settle (.ret ⟨i, ret⟩) (plans ret)) b = .ok b')
    (hq : (b'.dropUnseen .ret seen).edits ≤ b.edits) :
    Idles detector b (b'.dropUnseen .ret seen) (rets.map fun ret => .ret ⟨i, ret⟩)
        (b.Unseen .ret seen) ∧
      ∀ ret ∈ rets, (b'.dropUnseen .ret seen).Bears (.ret ⟨i, ret⟩) (plans ret) := by
  have hmono : b.edits ≤ b'.edits := edits_le_foldlM (fun _ => edits_le_settle) h
  have hdrop := b'.edits_le_dropUnseen .ret seen
  obtain ⟨hreturns, hbears⟩ := foldlM_idles detector (fun ret => .ret ⟨i, ret⟩)
    (fun ret b' => b'.Bears (.ret ⟨i, ret⟩) (plans ret)) rfl hc hr (fun _ => edits_le_settle)
    (fun ret _ hc hr h hq => settle_idles detector hc hr (hplans ret) h hq)
    (fun _ hidles hbears => hidles.bears hbears) h (hdrop.trans hq)
  have hdropped := (dropUnseen_edits detector hreturns.consistent hreturns.answered.registered .ret
    seen).resolve_left (Nat.not_lt_of_le (hq.trans hmono))
  refine ⟨(hreturns.drop hdropped).congr rfl fun a => ?_,
    fun ret hret => hdropped.bears (hbears ret hret)⟩
  rw [false_or, Unseen, Unseen, hreturns.function]

theorem informed_idles (hd : ∀ d ∈ detector, d.IsBuiltin) (hc : b.hooks.Consistent)
    (hr : b.conventions.value.AllRegistered) (s : Snapshot) :
    Idles detector (b.start s) (b.informed detector s) [] (fun _ => False) ∧
      Conventions.Decided detector (b.informed detector s).conventions.value
        (.ofFunction b.function) := by
  have hstart : (b.start s).hooks.Consistent := by
    rw [start_eq]
    exact hc.congr rfl rfl rfl
  exact resolve_idles hd hstart hr (.ofFunction b.function)

theorem instrument_idles (hd : ∀ d ∈ sources.detector, d.IsBuiltin) (hc : b.hooks.Consistent)
    (hr : b.conventions.value.AllRegistered) (h : b.instrument sources s = .ok b')
    (hq : b'.edits ≤ b.edits) :
    Idles sources.detector (b.start s) b' (s.anchors b.function.id) (fun a =>
        a.function = b.function.id ∧ a ∉ s.anchors b.function.id) ∧
      b'.Rests sources s := by
  obtain ⟨hserves, hpoisoned, hsignatures⟩ := readable_of_instrument_eq_ok h
  obtain ⟨-, b₁, b₂, b₃, h₁, h₂, h₃, rfl⟩ := instrument_ok h
  have he₀ : (b.informed sources.detector s).edits = b.edits := resolve_edits (b.start s) _ _
  -- No stage takes an edit back, so none of them makes one.
  have hmono₁ : b.edits ≤ b₁.edits := he₀.symm.trans_le (edits_le_settle h₁)
  have hmono₂ : b₁.edits ≤ b₂.edits := edits_le_foldlM (fun _ => edits_le_settleCall) h₂
  have hmono₃ : _ ≤ b₃.edits := edits_le_foldlM (fun _ => edits_le_settle) h₃
  have hq₂ := hmono₃.trans ((b₃.edits_le_dropUnseen _ _).trans hq)
  have hq₁ : b₁.edits ≤ b.edits := hmono₂.trans ((b₂.edits_le_dropUnseen _ _).trans hq₂)
  obtain ⟨hinformed, hown⟩ := informed_idles hd hc hr s
  obtain ⟨hentry, hbears⟩ := settle_idles sources.detector hinformed.consistent
    hinformed.answered.registered (fun p hp => (b.informed_entryPlan_fits s p hp).1) h₁
    (hq₁.trans_eq he₀.symm)
  have hinformed_function : (b.informed sources.detector s).function = b.function :=
    b.informed_function s
  have hfunction₁ : b₁.function = b.function := hentry.function.trans hinformed_function
  obtain ⟨hcalls, hrests⟩ := settleCalls_idles (congrArg Function.id hfunction₁) hd
    hentry.consistent hentry.answered.registered h₂ (hq₂.trans hmono₁)
  have hfunction₂ := hcalls.function.trans hfunction₁
  obtain ⟨hreturns, hreturned⟩ := settleReturns_idles sources.detector hcalls.consistent
    hcalls.answered.registered (fun ret p hp => (b.informed_returnPlan_fits s ret p hp).1) h₃
    (hq.trans (hmono₁.trans (hmono₂.trans (b₂.edits_le_dropUnseen _ _))))
  have hlater := hcalls.trans hreturns (by
    intro a ha hunseen
    obtain ⟨ret, -, rfl⟩ := List.mem_map.mp ha
    cases hunseen.1)
  have hafter : Idles sources.detector (b.informed sources.detector s) _ (s.anchors b.function.id)
      fun a => a.function = b.function.id ∧ a ∉ s.anchors b.function.id :=
    (hentry.trans hlater (by simp)).congr rfl fun a => by
      rw [false_or]
      exact unseen_iff (congrArg Function.id hfunction₁) (congrArg Function.id hfunction₂)
  have hall := (hinformed.trans hafter (by simp)).congr rfl fun a => by rw [false_or]
  have hfunction : _ = b.function := hall.function
  have hasked : Conventions.Decided sources.detector
      (b.informed sources.detector s).conventions.value
      (.ofFunction (b.informed sources.detector s).function) := by
    rw [hinformed_function]
    exact hown
  refine ⟨hall, hall.consistent, ?_, hall.poisoned.trans hpoisoned, hsignatures,
    ?_, ?_, ?_, ?_, fun site hsite => hreturns.callRests (hrests site hsite), ?_, ?_⟩
  · rw [hfunction]
    exact hserves
  · apply start_eq_self
    · rw [hall.hooks, hfunction]
      exact b.start_touched s
    · rw [hall.observed, hfunction]
      exact fun pop => b.start_observed
  · rw [hfunction]
    exact hafter.decided hown
  · rw [hafter.entryPlan_eq hasked, hfunction]
    exact hlater.bears hbears
  · intro ret hret
    rw [hafter.returnPlan_eq hasked, hfunction]
    exact hreturned ret hret
  · rw [hfunction]
    exact hall.recalls
  · rw [hfunction]
    exact fun a ha hnot => hall.gone a ⟨ha, hnot⟩

end Bench

end CallEffects
