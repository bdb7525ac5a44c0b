import CallEffects.Proofs.Alternation
import CallEffects.Proofs.Cleanup

/-!
# Runs that are repeated

A run leaves behind what its engine has built and what its registry has been told. Once all hooks
are taken off and the run is repeated, it finds all that from the start. Every step then takes the
hook that the first run built for it and gets the answer that the first run was given, so the two
runs keep in step, round by round, up to the numbers of statements that are still to be handed out.
-/

namespace CallEffects

open Std

/-! ## What is never forgotten -/

/-- The hooks built so far and the registry. -/
structure Knowledge where
  built : List Hook
  conventions : Guarded Conventions

def Bench.knowledge (b : Bench) : Knowledge := ⟨b.hooks.built, b.conventions⟩

def Round.knowledge (r : Round) : Knowledge := ⟨r.hooks.built, r.conventions⟩

namespace Knowledge

/-- More hooks have been built, and a detector has been asked. -/
structure Grows (detector : Option Detector) (k k' : Knowledge) : Prop where
  built : k.built <+: k'.built
  answered : Conventions.Answered detector k.conventions.value k'.conventions.value
  poisoned : k'.conventions.poisoned = k.conventions.poisoned

variable {detector : Option Detector} {k k' k'' : Knowledge}

theorem Grows.refl (h : k.conventions.value.AllRegistered) : Grows detector k k :=
  ⟨List.prefix_rfl, .refl h, rfl⟩

theorem Grows.trans (h : Grows detector k k') (h' : Grows detector k' k'') :
    Grows detector k k'' :=
  ⟨h.built.trans h'.built, h.answered.trans h'.answered, h'.poisoned.trans h.poisoned⟩

def Unique (k : Knowledge) : Prop :=
  ∀ hook ∈ k.built, ∀ hook' ∈ k.built, hook.key = hook'.key → hook = hook'

end Knowledge

namespace Function

def renumber (f : Function) (n : StatementId) : Function := { f with nextStatement := n }

variable {f : Function}

theorem renumber_insertSynthetic {position : InsertPosition} {ss : List Statement} {g : Function}
    (h : f.insertSynthetic position ss = .ok g) (n : StatementId) :
    (f.renumber n).insertSynthetic position ss = .ok (g.renumber n) := by
  have hposition : (f.renumber n).resolvePosition position = f.resolvePosition position := by
    cases position <;> rfl
  unfold insertSynthetic at h ⊢
  rw [hposition]
  cases hp : f.resolvePosition position with
  | error e =>
    rw [hp] at h
    cases h
  | ok place =>
    rw [hp] at h
    obtain rfl := Except.ok.inj h
    rfl

theorem run_renumber (f : Function) (n : StatementId) (fuel : Nat) (p : Propagation.Progress) :
    Propagation.Progress.run (f.renumber n) fuel p = Propagation.Progress.run f fuel p := by
  induction fuel generalizing p with
  | zero => rfl
  | succ fuel ih =>
    have hstep : p.step (f.renumber n) = p.step f := rfl
    simp only [Propagation.Progress.run, hstep, ih]

theorem take_renumber (f : Function) (n : StatementId) :
    Snapshot.take (f.renumber n) = Snapshot.take f := by
  have hfacts : (f.renumber n).blockFacts = f.blockFacts := by
    rw [blockFacts, run_renumber]
    rfl
  rw [Snapshot.take, hfacts]
  rfl

end Function

/-! ## Benches in step -/

namespace Bench

variable {b b' b₁ : Bench} {k : Knowledge} {n : StatementId} {detector : Option Detector}
variable {signatures : Signatures} {sources : Sources} {s : Snapshot} {wanted : Anchor → Prop}

theorem Moves.grows (h : Moves detector signatures wanted b b₁)
    (hd : ∀ d ∈ detector, d.IsBuiltin) (hr : b.conventions.value.AllRegistered) :
    Knowledge.Grows detector b.knowledge b₁.knowledge := by
  obtain ⟨new, hbuilt, -⟩ := (Moves.frame h).built
  exact ⟨⟨new, hbuilt.symm⟩, Moves.answered h hd hr, (Moves.frame h).conventions⟩

/-- The second bench has come to the same as the first one and has known from the start what `k`
says. -/
structure Replays (k : Knowledge) (n : StatementId) (b b' : Bench) : Prop where
  function : b'.function = b.function.renumber n
  active : b'.hooks.active = b.hooks.active
  observed : b'.hooks.observed = b.hooks.observed
  knowledge : b'.knowledge = k
  stats : b'.stats = { b.stats with synthesized := 0 }

namespace Replays

theorem built_eq (h : Replays k n b b') : b'.hooks.built = k.built :=
  congrArg Knowledge.built h.knowledge

theorem conventions_eq (h : Replays k n b b') : b'.conventions = k.conventions :=
  congrArg Knowledge.conventions h.knowledge

theorem id_eq (h : Replays k n b b') : b'.function.id = b.function.id := by
  rw [h.function]
  rfl

theorem ofFunction_eq (h : Replays k n b b') :
    Callee.ofFunction b'.function = Callee.ofFunction b.function := by
  rw [h.function]
  rfl

theorem observe (h : Replays k n b b') (s : Snapshot) :
    Replays k n { b with hooks := b.hooks.observe b.function s }
      { b' with hooks := b'.hooks.observe b'.function s } := by
  have hpop : Hooks.popOf? b'.function s = Hooks.popOf? b.function s := by
    rw [h.function]
    rfl
  simp only [Hooks.observe, hpop, h.ofFunction_eq]
  cases Hooks.popOf? b.function s with
  | none => exact h
  | some pop =>
    exact ⟨h.function, h.active, by simp only [h.observed], h.knowledge, h.stats⟩

theorem start (h : Replays k n b b') (s : Snapshot) : Replays k n (b.start s) (b'.start s) := by
  have htouch : Replays k n { b with hooks := b.hooks.touch b.function.id }
      { b' with hooks := b'.hooks.touch b'.function.id } :=
    ⟨h.function, h.active, h.observed, h.knowledge, h.stats⟩
  exact htouch.observe s

theorem detach (h : Replays k n b b') (a : Anchor) : Replays k n (b.detach a) (b'.detach a) := by
  cases hk : b.hooks.active[a]? with
  | none => rwa [detach_of_none hk, detach_of_none (h.active ▸ hk)]
  | some hook =>
    rw [detach_of_some hk, detach_of_some (h.active ▸ hk)]
    refine ⟨?_, ?_, h.observed, h.knowledge, ?_⟩
    · rw [h.function]
      rfl
    · simp only [h.active]
    · simp only [h.function, h.stats]
      rfl

theorem resolve (h : Replays k n b b') (hd : ∀ d ∈ detector, d.IsBuiltin)
    (hr : b.conventions.value.AllRegistered) {callee : Callee}
    (hk : Knowledge.Grows detector (b.resolve detector callee).2.knowledge k) :
    b'.resolve detector callee = ((b.resolve detector callee).1, b') ∧
      Replays k n (b.resolve detector callee).2 b' := by
  obtain ⟨-, hdecided⟩ := resolve_answered hd hr callee
  have hlookup := hdecided.lookup?_eq hk.answered
  have hdecided' := hdecided.answered hk.answered
  rw [← h.conventions_eq] at hlookup hdecided'
  constructor
  · rw [resolve_of_decided hd hdecided', resolve_fst, hlookup]
  · obtain ⟨cs, asked, heq, -⟩ := b.resolve_snd detector callee
    rw [heq]
    exact ⟨h.function, h.active, h.observed, h.knowledge, h.stats⟩

theorem obtain (h : Replays k n b b') (hu : k.Unique) {p : Plan}
    (hk : (b.obtain p).2.hooks.built <+: k.built) :
    b'.obtain p = ((b.obtain p).1, b') ∧ Replays k n (b.obtain p).2 b' := by
  obtain ⟨hmem, hkey⟩ := b.obtain_mem_built p
  have hmem : (b.obtain p).1 ∈ k.built := hk.subset hmem
  constructor
  · cases hcached : b'.hooks.cached? p.key with
    | none =>
      rw [Hooks.cached?, h.built_eq] at hcached
      have hne := List.find?_eq_none.mp hcached _ hmem
      simp [hkey] at hne
    | some hook =>
      rw [obtain_of_cached hcached]
      rw [Hooks.cached?, h.built_eq] at hcached
      have hkey' : hook.key = p.key := by simpa using List.find?_some hcached
      rw [hu hook (List.mem_of_find?_eq_some hcached) _ hmem (hkey'.trans hkey.symm)]
  · cases hcached : b.hooks.cached? p.key with
    | some hook =>
      rw [obtain_of_cached hcached]
      exact h
    | none =>
      rw [obtain_of_none hcached]
      exact ⟨by rw [h.function]; rfl, h.active, h.observed, h.knowledge, by rw [h.stats]⟩

theorem remember (h : Replays k n b b') (hook : Hook) :
    Replays k n (b.remember hook) (b'.remember hook) :=
  ⟨h.function, h.active, h.observed, h.knowledge, h.stats⟩

theorem attach (h : Replays k n b b') {hook : Hook} (hok : b.attach hook = .ok b₁) :
    ∃ b₁', b'.attach hook = .ok b₁' ∧ Replays k n b₁ b₁' := by
  by_cases hactive : (b.hooks.active[hook.anchor]?).any fun active => active.id == hook.id
  · rw [attach_of_active hactive] at hok
    obtain rfl := Except.ok.inj hok
    exact ⟨_, attach_of_active (h.active ▸ hactive), h.remember hook⟩
  · have hdetach := h.detach hook.anchor
    cases hinsert : (b.detach hook.anchor).function.insertSynthetic hook.anchor.position
        hook.statements with
    | error e =>
      rw [attach_of_error hactive hinsert] at hok
      cases hok
    | ok f =>
      rw [attach_of_ok hactive hinsert] at hok
      obtain rfl := Except.ok.inj hok
      have hinsert' := Function.renumber_insertSynthetic hinsert n
      rw [← hdetach.function] at hinsert'
      refine ⟨_, attach_of_ok (h.active ▸ hactive) hinsert', Replays.remember ?_ hook⟩
      refine ⟨rfl, ?_, hdetach.observed, hdetach.knowledge, ?_⟩
      · simp only [place, hdetach.active]
      · simp only [place, hdetach.stats]

theorem foldl_detach (h : Replays k n b b') (as : List Anchor) :
    Replays k n (as.foldl Bench.detach b) (as.foldl Bench.detach b') := by
  induction as generalizing b b' with
  | nil => exact h
  | cons a as ih => exact ih (h.detach a)

theorem dropUnseen (h : Replays k n b b') (kind : HookKind) (seen : List Anchor) :
    Replays k n (b.dropUnseen kind seen) (b'.dropUnseen kind seen) := by
  unfold Bench.dropUnseen
  rw [h.active, h.id_eq]
  have hdetached := h.foldl_detach (b.hooks.active.keys.filter fun a =>
    a.kind == kind && a.function == b.function.id && !seen.contains a)
  exact ⟨hdetached.function, hdetached.active, hdetached.observed, hdetached.knowledge,
    hdetached.stats⟩

theorem callAt_eq (h : Replays k n b b') (site : CallSite) : b'.callAt site = b.callAt site := by
  rw [callAt, h.id_eq, callAt]

end Replays

/-- If the first goes well within what `k` says, so does the second, and to the same effect. -/
def InStep (detector : Option Detector) (k : Knowledge) (n : StatementId)
    (x x' : Except Halt Bench) : Prop :=
  ∀ b₁, x = .ok b₁ → Knowledge.Grows detector b₁.knowledge k →
    ∃ b₁', x' = .ok b₁' ∧ Replays k n b₁ b₁'

theorem Replays.inStep (h : Replays k n b b') : InStep detector k n (.ok b) (.ok b') := by
  intro b₁ hok _
  obtain rfl := Except.ok.inj hok
  exact ⟨b', rfl, h⟩

theorem InStep.bind {x x' : Except Halt Bench} {act act' : Bench → Except Halt Bench}
    (h : InStep detector k n x x') (hd : ∀ d ∈ detector, d.IsBuiltin)
    (hr : b.conventions.value.AllRegistered) (hx : Moves detector signatures wanted b (left x))
    (hmoves : ∀ c, Moves detector signatures wanted b c →
      Moves detector signatures wanted c (left (act c)))
    (hact : ∀ c c', Moves detector signatures wanted b c → Replays k n c c' →
      InStep detector k n (act c) (act' c')) :
    InStep detector k n (x >>= act) (x' >>= act') := by
  intro b₂ hok hk
  obtain ⟨b₁, hx₁, hrest⟩ := bind_eq_ok hok
  rw [hx₁, left_ok] at hx
  have hm := hmoves b₁ hx
  rw [hrest, left_ok] at hm
  obtain ⟨b₁', hx', hreplays⟩ := h b₁ hx₁ ((hm.grows hd (hx.answered hd hr).registered).trans hk)
  obtain ⟨b₂', hrest', hreplays'⟩ := hact b₁ b₁' hx hreplays b₂ hrest hk
  exact ⟨b₂', by rw [hx']; exact hrest', hreplays'⟩

theorem Replays.foldlM {α : Type} {act : Bench → α → Except Halt Bench} {b₀ : Bench} (xs : List α)
    (h : Replays k n b b') (hd : ∀ d ∈ detector, d.IsBuiltin)
    (hr : b₀.conventions.value.AllRegistered) (hb : Moves detector signatures wanted b₀ b)
    (hmoves : ∀ c, ∀ x ∈ xs, Moves detector signatures wanted b₀ c →
      Moves detector signatures wanted c (left (act c x)))
    (hact : ∀ c c', ∀ x ∈ xs, Moves detector signatures wanted b₀ c → Replays k n c c' →
      InStep detector k n (act c x) (act c' x)) :
    InStep detector k n (xs.foldlM act b) (xs.foldlM act b') := by
  induction xs generalizing b b' with
  | nil => exact h.inStep
  | cons x xs ih =>
    have hmoves' : ∀ c, ∀ y ∈ xs, Moves detector signatures wanted b₀ c →
        Moves detector signatures wanted c (left (act c y)) :=
      fun c y hy => hmoves c y (List.mem_cons_of_mem _ hy)
    rw [List.foldlM_cons, List.foldlM_cons]
    refine (hact b b' x List.mem_cons_self hb h).bind hd (hb.answered hd hr).registered
      (hmoves b x List.mem_cons_self hb) (fun c hc => ?_) fun c c' hc hreplays => ?_
    · exact foldlM_moves xs (hb.trans hc) hmoves'
    · exact ih hreplays (hb.trans hc) hmoves' fun c c' y hy => hact c c' y (List.mem_cons_of_mem _ hy)

namespace Replays

theorem settle (h : Replays k n b b') (hu : k.Unique) (a : Anchor) (plan : Option Plan) :
    InStep detector k n (b.settle a plan) (b'.settle a plan) := by
  intro b₁ hok hk
  cases plan with
  | none =>
    obtain rfl := Except.ok.inj hok
    have hdetach := h.detach a
    exact ⟨_, rfl, hdetach.function, hdetach.active, hdetach.observed, hdetach.knowledge,
      by simp only [hdetach.stats]⟩
  | some p =>
    rw [settle_some] at hok
    have hbuilt : (b.obtain p).2.hooks.built <+: k.built := by
      have hsame := (b.obtain p).2.attach_built (b.obtain p).1
      rw [hok, left_ok] at hsame
      rw [← hsame]
      exact hk.built
    obtain ⟨hobtain, hreplays⟩ := h.obtain hu hbuilt
    rw [settle_some, hobtain]
    exact hreplays.attach hok

theorem settleCall (h : Replays k n b b') (hu : k.Unique) (hd : ∀ d ∈ detector, d.IsBuiltin)
    (hr : b.conventions.value.AllRegistered) (site : CallSite) :
    InStep detector k n (settleCall detector signatures b site)
      (settleCall detector signatures b' site) := by
  intro b₁ hok hk
  rw [settleCall_eq] at hok
  obtain ⟨hanswered, hdecided⟩ := resolve_answered hd hr (.ofCall (b.callAt site) site.target)
  have hspares : Spares b (b.resolve detector (.ofCall (b.callAt site) site.target)).2 _ :=
    b.resolve_spares _
  have hcall : (b.resolve detector (.ofCall (b.callAt site) site.target)).2.callAt site =
      b.callAt site := by rw [callAt, hspares.function_id, callAt]
  -- The detector is asked before anything else is done.
  have hsettle : Moves detector signatures (fun _ => True)
      (b.resolve detector (.ofCall (b.callAt site) site.target)).2 (left (.ok b₁)) := by
    rw [← hok]
    refine settle_moves hspares.function_id.symm (fun _ => trivial) fun p hp => ?_
    refine ⟨?_, callPlan_possible _ _ site p hp⟩
    obtain ⟨x, -, rfl⟩ := Option.map_eq_some_iff.mp hp
    exact congrArg Anchor.call hcall
  have hgrows := (hsettle.grows hd hanswered.registered).trans hk
  obtain ⟨hresolve, hreplays⟩ := h.resolve hd hr hgrows
  rw [settleCall_eq, h.callAt_eq, hresolve]
  have hplan : b'.callPlan signatures site = (b.resolve detector
      (.ofCall (b.callAt site) site.target)).2.callPlan signatures site := by
    refine callPlan_congr hreplays.id_eq ?_ hreplays.observed
    rw [hreplays.conventions_eq, hcall]
    exact hdecided.lookup?_eq hgrows.answered
  rw [hplan]
  exact hreplays.settle hu _ _ b₁ hok hk

theorem settleAll (h : Replays k n b b') (hu : k.Unique) (hd : ∀ d ∈ detector, d.IsBuiltin)
    (hr : b.conventions.value.AllRegistered) (s : Snapshot)
    {own : Option (ConventionId × Convention)} {signature : Option (Nat × FunctionSignature)}
    (hown : ∀ c ∈ own, b.conventions.value.get? c.1 = some c.2)
    (hsig : ∀ x ∈ signature, ∃ callee, signatures.function? callee = some x) :
    InStep detector k n (b.settleAll detector signatures s own signature)
      (b'.settleAll detector signatures s own signature) := by
  unfold Bench.settleAll
  rw [h.id_eq]
  have hentry : Moves detector signatures (fun _ => True) b (left (b.settle (.entry b.function.id)
      (own.map fun x => .ofEntry b.function.id x signature))) := by
    refine settle_moves rfl (fun _ => trivial) fun p hp => ?_
    obtain ⟨x, hx, rfl⟩ := Option.map_eq_some_iff.mp hp
    exact ⟨rfl, .entry _ x signature (hown x hx) hsig⟩
  have hcalls : ∀ c, Moves detector signatures (fun _ => True) b c →
      Moves detector signatures (fun _ => True) c
        (left (s.calls.foldlM (Bench.settleCall detector signatures) c)) := fun c hc =>
    foldlM_moves s.calls hc fun _ _ _ _ => settleCall_moves trivial
  have hreturn : ∀ c, ∀ ret ∈ s.returns, Moves detector signatures (fun _ => True) b c →
      Moves detector signatures (fun _ => True) c (left (c.settle (.ret ⟨b.function.id, ret⟩)
        (own.map fun x => .ofReturn ⟨b.function.id, ret⟩ x signature))) := by
    intro c ret _ hc
    refine settle_moves hc.function_id.symm (fun _ => trivial) fun p hp => ?_
    obtain ⟨x, hx, rfl⟩ := Option.map_eq_some_iff.mp hp
    exact ⟨rfl, .ret _ x signature (hc.extends.get? (hown x hx)) hsig⟩
  have hreturns : ∀ c seen seen', Moves detector signatures (fun _ => True) b c →
      Moves detector signatures (fun _ => True) c (left (do
        let c' ← s.returns.foldlM (fun c ret => c.settle (.ret ⟨b.function.id, ret⟩)
          (own.map fun x => .ofReturn ⟨b.function.id, ret⟩ x signature)) (c.dropUnseen .call seen)
        .ok (c'.dropUnseen .ret seen'))) := by
    intro c seen seen' hc
    have hdrop : Moves detector signatures (fun _ => True) c _ := c.dropUnseen_moves .call seen
    exact hdrop.trans (bind_moves (foldlM_moves s.returns (hc.trans hdrop) hreturn)
      fun c' _ => c'.dropUnseen_moves .ret seen')
  refine (h.settle hu _ _).bind hd hr hentry (fun c hc => ?_) fun c c' hc hreplays => ?_
  · exact bind_moves (hcalls c hc) fun c₁ hc₁ => hreturns c₁ _ _ (hc.trans hc₁)
  have hsettled : InStep detector k n (s.calls.foldlM (Bench.settleCall detector signatures) c)
      (s.calls.foldlM (Bench.settleCall detector signatures) c') :=
    hreplays.foldlM s.calls hd hr hc (fun _ _ _ _ => settleCall_moves trivial)
      fun d d' site _ hm hreplays => hreplays.settleCall hu hd (hm.answered hd hr).registered site
  refine hsettled.bind hd (hc.answered hd hr).registered (hcalls c hc)
    (fun c₁ hc₁ => hreturns c₁ _ _ (hc.trans hc₁)) fun c₁ c₁' hc₁ hreplays₁ => ?_
  have hdropped := hreplays₁.dropUnseen .call
    (s.calls.map fun site => .call ⟨b.function.id, site.statement⟩)
  have hm : ∀ seen, Moves detector signatures (fun _ => True) b (c₁.dropUnseen .call seen) :=
    fun seen => (hc.trans hc₁).trans (c₁.dropUnseen_moves .call seen)
  refine InStep.bind (hdropped.foldlM s.returns hd hr (hm _) hreturn fun d d' ret _ _ hreplays =>
    hreplays.settle hu _ _) hd (Moves.answered (hm _) hd hr).registered
    (foldlM_moves s.returns (hm _) hreturn) (fun c₂ _ => c₂.dropUnseen_moves .ret _)
    fun c₂ c₂' _ hreplays₂ => ?_
  exact (hreplays₂.dropUnseen .ret _).inStep

theorem instrument (h : Replays k n b b') (hu : k.Unique)
    (hd : ∀ d ∈ sources.detector, d.IsBuiltin) (hr : b.conventions.value.AllRegistered) :
    InStep sources.detector k n (b.instrument sources s) (b'.instrument sources s) := by
  intro b₁ hok hk
  obtain ⟨hserves, hc, hss⟩ := readable_of_instrument_eq_ok hok
  have hgrows := ((moves_of_instrument_eq_ok hok).grows hd hr).trans hk
  have hserves' : s.mismatch? b'.function = none := by
    rw [h.function]
    exact hserves
  have hc' : b'.conventions.poisoned = false := by
    rw [h.conventions_eq, hgrows.poisoned]
    exact hc
  rw [instrument_eq_settleAll hserves hc hss] at hok
  rw [instrument_eq_settleAll hserves' hc' hss]
  have hinformed : Moves sources.detector sources.signatures.value (fun _ => True) b
    (b.informed sources.detector s) := b.informed_moves s
  have hown : ∀ c ∈ (b.informed sources.detector s).conventions.value.lookup?
      (.ofFunction b.function),
      (b.informed sources.detector s).conventions.value.get? c.1 = some c.2 :=
    fun c hc => Conventions.get?_of_lookup? hc
  have hsettle : Moves sources.detector sources.signatures.value (fun _ => True)
      (b.informed sources.detector s) (left (.ok b₁)) := by
    rw [← hok]
    exact settleAll_moves (fun _ _ => trivial) hown fun x hx => ⟨_, hx⟩
  have hr' := (hinformed.answered hd hr).registered
  have hgrows' := (hsettle.grows hd hr').trans hk
  obtain ⟨hresolve, hreplays⟩ := (h.start s).resolve hd hr hgrows'
  have hinformed' : b'.informed sources.detector s = b'.start s := by
    rw [informed, h.ofFunction_eq]
    exact congrArg Prod.snd hresolve
  have hlookup : (b'.start s).conventions.value.lookup? (.ofFunction b'.function) =
      (b.informed sources.detector s).conventions.value.lookup? (.ofFunction b.function) := by
    obtain ⟨-, hdecided⟩ := resolve_answered (b := b.start s) hd hr (.ofFunction b.function)
    rw [hreplays.conventions_eq, h.ofFunction_eq]
    exact hdecided.lookup?_eq hgrows'.answered
  rw [hinformed', hlookup, h.ofFunction_eq]
  exact hreplays.settleAll hu hd hr' s hown (fun x hx => ⟨_, hx⟩) b₁ hok hk

end Replays

theorem foldl_detach_knowledge (as : List Anchor) (b : Bench) :
    (as.foldl detach b).knowledge = b.knowledge ∧
      (as.foldl detach b).hooks.observed = b.hooks.observed := by
  refine ⟨?_, (foldl_detach_spares as b).observed⟩
  rw [knowledge, foldl_detach_built, foldl_detach_conventions, knowledge]

end Bench

/-! ## Rounds in step -/

namespace Round

variable {r r' q q' : Round} {k : Knowledge} {ns : List StatementId} {sources : Sources}
variable {f : Function} {s : Snapshot}

theorem instrumentNext_grows (hd : ∀ d ∈ sources.detector, d.IsBuiltin)
    (hr : r.conventions.value.AllRegistered) (hok : instrumentNext sources r s = .ok q) :
    Knowledge.Grows sources.detector r.knowledge q.knowledge := by
  obtain ⟨f, b, t, hf, hb, rfl⟩ := instrumentNext_eq_ok hok
  exact (Bench.moves_of_instrument_eq_ok hb).grows hd hr

theorem instrumentEach_grows {ss : List Snapshot} (hd : ∀ d ∈ sources.detector, d.IsBuiltin)
    (hr : r.conventions.value.AllRegistered)
    (hok : ss.foldlM (instrumentNext sources) r = .ok q) :
    Knowledge.Grows sources.detector r.knowledge q.knowledge :=
  Bench.foldlM_invariant
    (P := fun q => Knowledge.Grows sources.detector r.knowledge q.knowledge) (.refl hr)
    (fun _ hgrows h => hgrows.trans (instrumentNext_grows hd hgrows.answered.registered h)) hok

theorem learned_knowledge (r : Round) : r.learned.knowledge = r.knowledge := by
  obtain ⟨observed, hlearned⟩ := r.exists_learned
  rw [hlearned]
  rfl

theorem run_grows (hd : ∀ d ∈ sources.detector, d.IsBuiltin)
    (hr : r.conventions.value.AllRegistered) (hok : r.run sources = .ok q) :
    Knowledge.Grows sources.detector r.knowledge q.knowledge := by
  rw [← r.learned_knowledge]
  exact instrumentEach_grows hd (r.learned_conventions.symm ▸ hr) hok

/-- The second round has come to the same as the first one and has known from the start what `k`
says. Its functions go on with the numbers `ns`. -/
structure Replays (k : Knowledge) (ns : List StatementId) (r r' : Round) : Prop where
  functions : r'.functions.map (·.renumber 0) = r.functions.map (·.renumber 0)
  numbers : r'.functions.map (·.nextStatement) = ns
  active : r'.hooks.active = r.hooks.active
  observed : r'.hooks.observed = r.hooks.observed
  knowledge : r'.knowledge = k
  stats : r'.stats = { r.stats with synthesized := 0 }

namespace Replays

theorem exists_renumber (h : Replays k ns r r') {i : Nat} (hf : r.functions[i]? = some f) :
    ∃ n, r'.functions[i]? = some (f.renumber n) := by
  have hi := congrArg (·[i]?) h.functions
  simp only [List.getElem?_map, hf, Option.map_some] at hi
  obtain ⟨g, hg, heq⟩ := Option.map_eq_some_iff.mp hi
  refine ⟨g.nextStatement, hg.trans (congrArg some ?_)⟩
  calc g = (g.renumber 0).renumber g.nextStatement := rfl
    _ = (f.renumber 0).renumber g.nextStatement := congrArg (·.renumber g.nextStatement) heq
    _ = f.renumber g.nextStatement := rfl

theorem takeAll_eq (h : Replays k ns r r') : takeAll r'.functions = takeAll r.functions := by
  have htake : ∀ fs : Functions, takeAll fs = (fs.map (·.renumber 0)).map Snapshot.take := by
    intro fs
    rw [List.map_map, takeAll]
    exact List.map_congr_left fun f _ => (f.take_renumber 0).symm
  rw [htake, htake, h.functions]

theorem functions_eq (h : Replays k ns r r') (hns : r.functions.map (·.nextStatement) = ns) :
    r'.functions = r.functions := by
  apply List.ext_getElem?
  intro i
  have hnumbers := congrArg (·[i]?) (h.numbers.trans hns.symm)
  simp only [List.getElem?_map] at hnumbers
  cases hf : r.functions[i]? with
  | none =>
    rw [hf] at hnumbers
    exact Option.map_eq_none_iff.mp hnumbers
  | some f =>
    obtain ⟨n, hn⟩ := h.exists_renumber hf
    rw [hf, hn] at hnumbers
    rw [hn]
    exact congrArg (fun n => some (f.renumber n)) (Option.some.inj hnumbers)

theorem recount (h : Replays k ns r r') :
    Replays k ns { r with stats := .zero } { r' with stats := .zero } :=
  ⟨h.functions, h.numbers, h.active, h.observed, h.knowledge, rfl⟩

theorem observe (h : Replays k ns r r') (s : Snapshot) :
    Replays k ns (r.observe s) (r'.observe s) := by
  unfold Round.observe
  cases hf : r.functions[s.function]? with
  | none =>
    have hnone : r'.functions[s.function]? = none := by
      have hi := congrArg (·[s.function]?) h.functions
      simpa only [List.getElem?_map, hf, Option.map_none, Option.map_eq_none_iff] using hi
    rwa [hnone]
  | some f =>
    obtain ⟨n, hn⟩ := h.exists_renumber hf
    rw [hn]
    dsimp only
    have hbench : Bench.Replays k n (r.bench f) (r'.bench (f.renumber n)) :=
      ⟨rfl, h.active, h.observed, h.knowledge, rfl⟩
    have hobserve := hbench.observe s
    exact ⟨h.functions, h.numbers, hobserve.active, hobserve.observed, hobserve.knowledge, h.stats⟩

theorem learned (h : Replays k ns r r') : Replays k ns r.learned r'.learned := by
  rw [Round.learned, Round.learned, h.takeAll_eq]
  generalize takeAll r.functions = ss
  induction ss generalizing r r' with
  | nil => exact h
  | cons s ss ih => exact ih (h.observe s)

theorem instrumentNext (h : Replays k ns r r') (hu : k.Unique)
    (hd : ∀ d ∈ sources.detector, d.IsBuiltin) (hr : r.conventions.value.AllRegistered)
    (hok : Round.instrumentNext sources r s = .ok q)
    (hok' : Round.instrumentNext sources r' s = .ok q')
    (hk : Knowledge.Grows sources.detector q.knowledge k) : Replays k ns q q' := by
  obtain ⟨f, b, t, hf, hb, rfl⟩ := instrumentNext_eq_ok hok
  obtain ⟨f', b', t', hf', hb', rfl⟩ := instrumentNext_eq_ok hok'
  obtain ⟨n, hn⟩ := h.exists_renumber hf
  obtain rfl := Option.some.inj (hn.symm.trans hf')
  have hbench : Bench.Replays k n (r.bench f) (r'.bench (f.renumber n)) :=
    ⟨rfl, h.active, h.observed, h.knowledge, rfl⟩
  obtain ⟨c, hc, hreplays⟩ := hbench.instrument hu hd hr b hb hk
  obtain rfl := Except.ok.inj (hb'.symm.trans hc)
  -- The function goes back to where it was found.
  have hserves := (Bench.readable_of_instrument_eq_ok hb).1
  have hid : b.function.id = s.function := by
    rw [Bench.Moves.function_id (Bench.moves_of_instrument_eq_ok hb)]
    exact (Snapshot.mismatch?_eq_none.mp hserves).1.symm
  refine ⟨?_, ?_, hreplays.active, hreplays.observed, hreplays.knowledge, ?_⟩
  · change (r'.functions.set b'.function.id b'.function).map _ =
      (r.functions.set b.function.id b.function).map _
    rw [List.map_set, List.map_set, h.functions, hreplays.id_eq, hreplays.function]
    rfl
  · change (r'.functions.set b'.function.id b'.function).map _ = _
    rw [hreplays.id_eq, hid, Functions.map_set_of_eq hn (by rw [hreplays.function]; rfl)]
    exact h.numbers
  · change r'.stats.merge b'.stats = _
    rw [h.stats, hreplays.stats]
    rfl

theorem instrumentEach {ss : List Snapshot} (h : Replays k ns r r') (hu : k.Unique)
    (hd : ∀ d ∈ sources.detector, d.IsBuiltin) (hr : r.conventions.value.AllRegistered)
    (hok : ss.foldlM (Round.instrumentNext sources) r = .ok q)
    (hok' : ss.foldlM (Round.instrumentNext sources) r' = .ok q')
    (hk : Knowledge.Grows sources.detector q.knowledge k) : Replays k ns q q' := by
  induction ss generalizing r r' with
  | nil =>
    obtain rfl := Except.ok.inj hok
    obtain rfl := Except.ok.inj hok'
    exact h
  | cons s ss ih =>
    rw [List.foldlM_cons] at hok hok'
    obtain ⟨r₁, h₁, hok⟩ := Bench.bind_eq_ok hok
    obtain ⟨r₁', h₁', hok'⟩ := Bench.bind_eq_ok hok'
    have hr₁ := (instrumentNext_grows hd hr h₁).answered.registered
    have hk₁ := (instrumentEach_grows hd hr₁ hok).trans hk
    exact ih (h.instrumentNext hu hd hr h₁ h₁' hk₁) hr₁ hok hok'

theorem run (h : Replays k ns r.learned r'.learned) (hu : k.Unique)
    (hd : ∀ d ∈ sources.detector, d.IsBuiltin) (hr : r.conventions.value.AllRegistered)
    (hok : r.run sources = .ok q) (hok' : r'.run sources = .ok q')
    (hk : Knowledge.Grows sources.detector q.knowledge k) : Replays k ns q q' := by
  have htake := h.takeAll_eq
  rw [r.learned_functions, r'.learned_functions] at htake
  have hok' : (takeAll r.functions).foldlM (Round.instrumentNext sources) r'.learned = .ok q' := by
    rw [← htake]
    exact hok'
  exact h.instrumentEach hu hd (r.learned_conventions.symm ▸ hr) hok hok' hk

end Replays

theorem deinstrumentEach_knowledge (r : Round) (ids : List FunctionId) :
    (r.deinstrumentEach ids).knowledge = r.knowledge ∧
      (r.deinstrumentEach ids).hooks.observed = r.hooks.observed := by
  induction ids generalizing r with
  | nil => exact ⟨rfl, rfl⟩
  | cons id ids ih =>
    simp only [deinstrumentEach, List.foldl_cons]
    cases r.functions[id]? with
    | none => exact ih r
    | some f =>
      obtain ⟨hknowledge, hobserved⟩ := ih (r.deinstrument f)
      obtain ⟨hknowledge', hobserved'⟩ := Bench.foldl_detach_knowledge
        (r.hooks.active.keys.filter (·.function == f.id)) (r.bench f)
      exact ⟨hknowledge.trans hknowledge', hobserved.trans hobserved'⟩

/-- The round once all hooks have been taken off. -/
def cleared (r : Round) : Round := { r.deinstrumentAll.refreshSnapshots with stats := .zero }

theorem InOrder.cleared (h : r.InOrder) : r.cleared.InOrder := by
  have hbare : r.deinstrumentAll.InOrder :=
    (deinstrumentEach_spec r.hooks.touched.keys h).1.inOrder
  exact hbare.congr rfl rfl rfl rfl rfl

/-- What rounds have made of a first one is in step with it again once all hooks are taken off. -/
theorem Since.replays {z : Round} (h : r.Since sources z) (hr : r.Fresh) (hz : r.stats = .zero) :
    Replays z.knowledge (z.functions.map (·.nextStatement)) r.learned z.cleared.learned := by
  obtain ⟨hfunctions, hactive, -⟩ := h.inOrder.deinstrumentAll
  have hfunctions : z.cleared.functions = z.functions.map Function.bare := hfunctions
  have hactive : z.cleared.hooks.active = ∅ := hactive
  obtain ⟨hknowledge, hobserved⟩ := z.deinstrumentEach_knowledge z.hooks.touched.keys
  have hknowledge : z.cleared.knowledge = z.knowledge := hknowledge
  have hlearned : r.learned = { r with hooks := r.hooks.observeAll r.functions } :=
    foldl_observe_take fun f hf => hr.inOrder.getElem? hf
  have hlearned' : z.cleared.learned =
      { z.cleared with hooks := z.cleared.hooks.observeAll z.cleared.functions } :=
    foldl_observe_take fun f hf => h.inOrder.cleared.getElem? hf
  have hsource : z.cleared.functions.map Function.source = z.functions.map Function.source := by
    rw [hfunctions, List.map_map]
    exact List.map_congr_left fun f _ => f.source_bare
  rw [hlearned, hlearned']
  refine ⟨?_, ?_, ?_, ?_, ?_, ?_⟩
  · have hrenumber : ∀ fs : Functions, (∀ f ∈ fs, f.bare = f) →
        fs.map (·.renumber 0) = fs.map Function.source := by
      intro fs hfs
      refine List.map_congr_left fun f hf => ?_
      rw [Function.source, hfs f hf]
      rfl
    change z.cleared.functions.map _ = r.functions.map _
    rw [hrenumber, hrenumber, hsource, h.source]
    · exact fun f hf => Function.bare_of_lifted (hr.lifted f hf)
    · intro f hf
      rw [hfunctions] at hf
      obtain ⟨g, -, rfl⟩ := List.mem_map.mp hf
      exact g.bare_bare
  · change z.cleared.functions.map _ = _
    rw [hfunctions, List.map_map]
    rfl
  · rw [Hooks.observeAll_fields, r.hooks.observeAll_fields]
    exact hactive.trans (by rw [hr.hooks]; rfl)
  · change (z.cleared.hooks.observeAll z.cleared.functions).observed = _
    rw [← h.observed]
    exact Hooks.observeAll_of_source hsource (fun f hf => (h.inOrder.orderly hf).numbered)
      (fun f hf => (h.inOrder.cleared.orderly hf).numbered) hobserved
  · rw [← hknowledge, Hooks.observeAll_fields]
    rfl
  · change InstrumentStats.zero = { r.stats with synthesized := 0 }
    rw [hz]
    rfl

end Round

/-! ## Whole runs -/

/-- The same was done to the code in no more rounds, and no hook was built. -/
structure ScheduleStats.Repeats (stats stats' : ScheduleStats) : Prop where
  attached : stats'.instrument.attached = stats.instrument.attached
  detached : stats'.instrument.detached = stats.instrument.detached
  inserted : stats'.instrument.inserted = stats.instrument.inserted
  removed : stats'.instrument.removed = stats.instrument.removed
  synthesized : stats'.instrument.synthesized = 0
  iterations : stats'.iterations ≤ stats.iterations

namespace ScheduleStats.Repeats

variable {stats stats' : ScheduleStats} {done : InstrumentStats}

theorem after (h : stats.Repeats stats') (done : InstrumentStats) (converged converged' : Bool) :
    (stats.after done converged).Repeats
      (stats'.after { done with synthesized := 0 } converged') where
  attached := congrArg (· + done.attached) h.attached
  detached := congrArg (· + done.detached) h.detached
  inserted := congrArg (· + done.inserted) h.inserted
  removed := congrArg (· + done.removed) h.removed
  synthesized := h.synthesized
  iterations := Nat.succ_le_succ h.iterations

theorem idle (h : stats.Repeats stats') (n : Nat) (converged : Bool) :
    (stats.after { InstrumentStats.zero with unresolved := n } converged).Repeats stats' :=
  ⟨h.attached, h.detached, h.inserted, h.removed, h.synthesized, Nat.le_succ_of_le h.iterations⟩

end ScheduleStats.Repeats

namespace Workspace

variable {w w' w₁ w₁' : Workspace} {sources : Sources} {r r' q : Round} {c : Configuration}
variable {stats stats' t t' : ScheduleStats} {k : Knowledge} {ns : List StatementId} {n : Nat}
variable {p : Program} {ss : Signatures} {fs : Functions}

theorem runRounds_idle (h : w.Prepared) (hs : w.Shares sources r) (hr : r.Regular)
    (hd : ∀ d ∈ sources.detector, d.IsBuiltin) (hss : sources.signatures.poisoned = false)
    (hrun : r.run sources = .ok q) (hq : q.edits ≤ r.edits) (hc : q.conventions.poisoned = false)
    (hok : runRounds n (w.putBack q) stats = .ok (w₁, t)) :
    w₁.functions = some q.functions ∧ ∀ stats', stats.Repeats stats' → t.Repeats stats' := by
  have hshares := hs.putBack q
  cases n with
  | zero =>
    obtain ⟨rfl, rfl⟩ := Prod.mk.inj (Except.ok.inj hok)
    exact ⟨rfl, fun _ hrepeats => hrepeats⟩
  | succ n =>
    obtain ⟨hyields, -⟩ := Round.run_again hr hd hrun hq
    cases hagain : Round.run { q with stats := .zero } sources with
    | error stopped =>
      rw [runRounds_of_error hshares hc hss hagain] at hok
      cases hok
    | ok q' =>
      rw [hagain] at hyields
      obtain ⟨-, m, hm⟩ := hyields
      rw [InstrumentStats.zero, Nat.zero_add] at hm
      have hstats : q'.stats = { InstrumentStats.zero with unresolved := m } :=
        congrArg Round.stats hm
      have hchanged : q'.stats.changed = false := by
        rw [hstats]
        rfl
      rw [runRounds_again hshares.round (hshares.revisions hc hss) hagain
        (putBack_again h ⟨m, hm⟩) hchanged] at hok
      obtain ⟨rfl, rfl⟩ := Prod.mk.inj (Except.ok.inj hok)
      refine ⟨rfl, fun stats' hrepeats => ?_⟩
      rw [hstats]
      exact hrepeats.idle m true

theorem runRounds_grows (hr : w.round? = some (sources, r))
    (hd : ∀ d ∈ sources.detector, d.IsBuiltin) (hregistered : r.conventions.value.AllRegistered)
    (hok : runRounds n w stats = .ok (w₁, t)) :
    ∃ z, w₁.round? = some (sources, z) ∧
      Knowledge.Grows sources.detector r.knowledge z.knowledge := by
  refine runRounds_invariant hr (.refl hregistered) (fun q q' hq hrun => ?_) hok
  have hone : Knowledge.Grows sources.detector q.knowledge q'.knowledge :=
    Round.run_grows hd hq.answered.registered hrun
  exact hq.trans hone

/-- What remains to be done after a first round. -/
def furtherRounds (n : Nat) (w : Workspace) (stats : ScheduleStats) (r q : Round) :
    Except Interrupted (Workspace × ScheduleStats) :=
  if !q.stats.changed && r.conventions.value.revision == q.conventions.value.revision then
    .ok (w.putBack q, stats.after q.stats true)
  else runRounds n (w.putBack q) (stats.after q.stats false)

/-- The first round of a run that succeeds. What it has come to know is known in the end. -/
theorem runRounds_succ_eq_ok (hs : w.Shares sources r) (hd : ∀ d ∈ sources.detector, d.IsBuiltin)
    (hregistered : r.conventions.value.AllRegistered) (hc : r.conventions.poisoned = false)
    (hss : sources.signatures.poisoned = false)
    (hok : runRounds (n + 1) w stats = .ok (w₁, t)) :
    ∃ q z, r.run sources = .ok q ∧ q.conventions.poisoned = false ∧
      w₁.round? = some (sources, z) ∧ Knowledge.Grows sources.detector q.knowledge z.knowledge ∧
      furtherRounds n w stats r q = .ok (w₁, t) := by
  cases hrun : r.run sources with
  | error stopped =>
    rw [runRounds_of_error hs hc hss hrun] at hok
    cases hok
  | ok q =>
    have hone := Round.run_grows hd hregistered hrun
    have hcq : q.conventions.poisoned = false := hone.poisoned.trans hc
    have hshares := hs.putBack q
    rw [runRounds_of_ok hs hc hss hrun hcq] at hok
    by_cases hends : !q.stats.changed &&
        r.conventions.value.revision == q.conventions.value.revision
    · rw [if_pos hends] at hok
      obtain ⟨rfl, rfl⟩ := Prod.mk.inj (Except.ok.inj hok)
      exact ⟨q, _, rfl, hcq, hshares.round, .refl hone.answered.registered, if_pos hends⟩
    · rw [if_neg hends] at hok
      obtain ⟨z, hround, hgrows⟩ := runRounds_grows hshares.round hd hone.answered.registered hok
      exact ⟨q, z, rfl, hcq, hround, hgrows, (if_neg hends).trans hok⟩

/-- After a round that changes no hook the run may still find out that its registry has not changed
either. -/
theorem furtherRounds_idle (h : w.Prepared) (hs : w.Shares sources r) (hr : r.Regular)
    (hd : ∀ d ∈ sources.detector, d.IsBuiltin) (hss : sources.signatures.poisoned = false)
    (hrun : r.run sources = .ok q) (hchanged : q.stats.changed = false)
    (hc : q.conventions.poisoned = false) (hok : furtherRounds n w stats r q = .ok (w₁, t))
    (hrepeats : ∀ converged, (stats.after q.stats converged).Repeats stats') :
    w₁.functions = some q.functions ∧ t.Repeats stats' := by
  have hidle : q.edits ≤ r.edits := by
    have hzero : q.stats.attached = 0 ∧ q.stats.detached = 0 := by
      simpa [InstrumentStats.changed] using hchanged
    rw [Round.edits, hzero.1, hzero.2]
    exact Nat.zero_le _
  unfold furtherRounds at hok
  split at hok
  · obtain ⟨rfl, rfl⟩ := Prod.mk.inj (Except.ok.inj hok)
    exact ⟨rfl, hrepeats true⟩
  · obtain ⟨hfunctions, hrest⟩ := runRounds_idle h hs hr hd hss hrun hidle hc hok
    exact ⟨hfunctions, hrest _ (hrepeats false)⟩

/-- The rounds of the second workspace repeat those of the first one, whose last round has come to
know `k` and to hand out the numbers `ns` next. -/
theorem runRounds_replays (h : w.Prepared) (hs : w.Shares sources r) (hs' : w'.Shares sources r')
    (hr : r.Regular) (hd : ∀ d ∈ sources.detector, d.IsBuiltin)
    (hss : sources.signatures.poisoned = false) (hc : k.conventions.poisoned = false)
    (hreplays : Round.Replays k ns r.learned r'.learned) (hu : k.Unique)
    (hrepeats : stats.Repeats stats') (hok : runRounds n w stats = .ok (w₁, t))
    (hok' : runRounds n w' stats' = .ok (w₁', t'))
    (hz : ∃ z, w₁.round? = some (sources, z) ∧ z.knowledge = k ∧
      z.functions.map (·.nextStatement) = ns) :
    w₁'.functions = w₁.functions ∧ t.Repeats t' := by
  induction n generalizing w w' r r' stats stats' with
  | zero =>
    obtain ⟨rfl, rfl⟩ := Prod.mk.inj (Except.ok.inj hok)
    obtain ⟨rfl, rfl⟩ := Prod.mk.inj (Except.ok.inj hok')
    obtain ⟨z, hround, -, hns⟩ := hz
    obtain ⟨-, rfl⟩ := Prod.mk.inj (Option.some.inj (hs.round.symm.trans hround))
    have heq := hreplays.functions_eq (by rw [r.learned_functions, hns])
    rw [r.learned_functions, r'.learned_functions] at heq
    exact ⟨by rw [functions_of_round? hs.round, functions_of_round? hs'.round, heq], hrepeats⟩
  | succ n ih =>
    obtain ⟨z, hround, rfl, hns⟩ := hz
    obtain ⟨z', hround', hgrows⟩ := runRounds_grows hs.round hd hr.registered hok
    obtain ⟨-, rfl⟩ := Prod.mk.inj (Option.some.inj (hround.symm.trans hround'))
    have hknown : r'.conventions = z.conventions := by
      rw [← r'.learned_conventions]
      exact congrArg Knowledge.conventions hreplays.knowledge
    obtain ⟨q, z', hrun, hcq, hround', hafter, hok⟩ :=
      runRounds_succ_eq_ok hs hd hr.registered (hgrows.poisoned.symm.trans hc) hss hok
    obtain ⟨-, rfl⟩ := Prod.mk.inj (Option.some.inj (hround.symm.trans hround'))
    obtain ⟨q', -, hrun', -, -, -, hok'⟩ := runRounds_succ_eq_ok hs' hd
      (hknown ▸ hgrows.answered.registered) (hknown ▸ hc) hss hok'
    have hnext := hreplays.run hu hd hr.registered hrun hrun' hafter
    have hrepeats' := hrepeats.after q.stats
    rw [← hnext.stats] at hrepeats'
    have hchanged : q'.stats.changed = q.stats.changed := by
      rw [hnext.stats]
      rfl
    -- Nothing is left for the second run to ask.
    have hsame : r'.conventions = q'.conventions :=
      hknown.trans (congrArg Knowledge.conventions hnext.knowledge).symm
    rw [furtherRounds, ← hsame, beq_self_eq_true, Bool.and_true, hchanged] at hok'
    cases hedits : q.stats.changed with
    | true =>
      rw [furtherRounds, hedits, Bool.not_true, Bool.false_and, if_neg Bool.false_ne_true] at hok
      rw [hedits, Bool.not_true, if_neg Bool.false_ne_true] at hok'
      have hregular : Round.Regular { q with stats := .zero } :=
        (hr.run hd hrun).congr rfl rfl rfl rfl rfl
      exact ih (h.putBack q) (hs.putBack q) (hs'.putBack q') hregular hnext.recount.learned
        (hrepeats' false false) hok hok'
    | false =>
      rw [hedits, Bool.not_false, if_pos rfl] at hok'
      obtain ⟨rfl, rfl⟩ := Prod.mk.inj (Except.ok.inj hok')
      obtain ⟨hfunctions, hdone⟩ := furtherRounds_idle h hs hr hd hss hrun hedits hcq hok
        fun converged => hrepeats' converged true
      have hz : z.functions = q.functions :=
        Option.some.inj ((functions_of_round? hround).symm.trans hfunctions)
      exact ⟨hfunctions ▸ congrArg some (hnext.functions_eq (hz ▸ hns)), hdone⟩

theorem Prepared.run_eq_ok (h : w.Prepared) (hs : w.Shares sources r) (hin : r.InOrder)
    (hc : r.conventions.poisoned = false) (hss : sources.signatures.poisoned = false)
    (hend : c.deinstrumentAtEnd = false) (hemit : c.emitTree = false) (hu : w.Uncancelled c) :
    ∃ w₁ stats z, w.run c = .ok (w₁, stats) ∧
      runRounds c.maxIterations w .zero = .ok (w₁, stats) ∧ w₁.Prepared ∧ w₁.Shares sources z ∧
      r.Keeps z := by
  have hrun : w.run c = runRounds c.maxIterations w .zero := run_eq (h.prepare c) hend hemit
  obtain ⟨hgoes, -⟩ := runRounds_keeps c.maxIterations .zero hs hin hc hss
  cases hrounds : runRounds c.maxIterations w .zero with
  | error i =>
    rw [hrounds] at hgoes
    exact absurd hgoes (hu i (hrun.trans hrounds))
  | ok done =>
    rw [hrounds] at hgoes
    obtain ⟨z, hshares, hkeeps⟩ := hgoes
    exact ⟨done.1, done.2, z, hrun.trans hrounds, rfl,
      runRounds_induction (P := fun w _ => w.Prepared) h
        (fun _ _ _ _ q _ hw _ _ => hw.putBack q) hrounds, hshares, hkeeps⟩

/-- A run on a program can be replayed. Once all its hooks have been taken off, the same run puts in
the same statements with the same ids. It attaches, detaches, inserts and removes as much as before
without building a hook, and it takes no more rounds. -/
theorem run_replays (h : w.StartsFrom p ss) (hb : p.buildFunctions = .ok fs)
    (hregistered : w.currentConventions.value.AllRegistered) (hend : c.deinstrumentAtEnd = false)
    (hemit : c.emitTree = false) (hu : w.Uncancelled c) :
    ∃ w₁ stats w₂ removed, w.run c = .ok (w₁, stats) ∧ w₁.deinstrument = .ok (w₂, removed) ∧
      (w₂.Uncancelled c → ∃ w₃ stats', w₂.run c = .ok (w₃, stats') ∧
        w₃.functions = w₁.functions ∧ stats.Repeats stats') := by
  obtain ⟨w₀, hrun, hprepared, hshares⟩ := h.prepared hb c
  have hfresh : (w.firstRound fs).Fresh := Program.buildFunctions_fresh hb rfl rfl
  have hd := w.configuredDetector_isBuiltin c
  have hu₀ : w₀.Uncancelled c := fun i hi => hu i (hrun.trans hi)
  obtain ⟨w₁, stats, z, hok, hrounds, hprepared₁, hshares₁, hkeeps⟩ :=
    hprepared.run_eq_ok hshares hfresh.inOrder h.conventions rfl hend hemit hu₀
  have hsince : (w.firstRound fs).Since ⟨w.configuredDetector c, .sound ss⟩ z := by
    obtain ⟨z', hround, hsince⟩ := runRounds_invariant hshares.round
      (Round.Since.refl hfresh.inOrder hregistered) (fun _ _ hq hok => hq.run hd hok) hrounds
    obtain ⟨-, rfl⟩ := Prod.mk.inj (Option.some.inj (hshares₁.round.symm.trans hround))
    exact hsince
  have hdeinstrument : w₁.deinstrument =
      .ok (w₁.putBack z.deinstrumentAll.refreshSnapshots, z.deinstrumentAll.stats.removed) := by
    simp only [Workspace.deinstrument, hshares₁.round]
  refine ⟨w₁, stats, _, _, hrun.trans hok, hdeinstrument, fun hu' => ?_⟩
  have hreplays := hsince.replays hfresh rfl
  have hunique : z.knowledge.Unique := fun _ hk _ hk' hkey =>
    hsince.inOrder.consistent.key_inj hk hk' hkey
  have hpoisoned : z.conventions.poisoned = false := hkeeps.poisoned.trans h.conventions
  have hc : z.cleared.conventions.poisoned = false := by
    have hconventions : z.cleared.conventions = z.conventions := z.deinstrumentEach_conventions _
    rw [hconventions]
    exact hpoisoned
  have hshares₂ := hshares₁.putBack z.deinstrumentAll.refreshSnapshots
  obtain ⟨w₃, stats', -, hok', hrounds', -⟩ :=
    (hprepared₁.putBack _).run_eq_ok hshares₂ hsince.inOrder.cleared hc rfl hend hemit hu'
  have hregular : (w.firstRound fs).Regular :=
    ⟨hfresh.inOrder.consistent, hfresh.inOrder.ids, hregistered⟩
  have hzero : ScheduleStats.zero.Repeats .zero := ⟨rfl, rfl, rfl, rfl, rfl, Nat.le_refl _⟩
  obtain ⟨hfunctions, hrepeats⟩ := runRounds_replays hprepared hshares hshares₂ hregular hd rfl
    hpoisoned hreplays hunique hzero hrounds hrounds' ⟨z, hshares₁.round, rfl, rfl⟩
  exact ⟨w₃, stats', hok', hfunctions, hrepeats⟩

theorem uncancelled_of_isOk (h : (w.run c).isOk) : w.Uncancelled c := by
  intro i hi
  rw [hi] at h
  cases h

/-- A run that goes back and forth and does not converge does all that again. -/
theorem seesaw_replays :
    ∃ w₁ stats w₂ removed w₃ stats',
      seesaw.run { Configuration.guessing with maxIterations := 3 } = .ok (w₁, stats) ∧
      stats.converged = false ∧ stats.instrument.detached = 2 ∧ stats.instrument.synthesized = 3 ∧
      w₁.deinstrument = .ok (w₂, removed) ∧
      w₂.run { Configuration.guessing with maxIterations := 3 } = .ok (w₃, stats') ∧
      w₃.functions = w₁.functions ∧ stats.Repeats stats' := by
  have hbuild : (Program.seesaw.buildFunctions).toOption.any fun fs => fs.length == 1 := by
    decide +kernel
  have hrun : (seesaw.run { Configuration.guessing with maxIterations := 3 }).toOption.any
      fun done => !done.2.converged && done.2.instrument.detached == 2 &&
        done.2.instrument.synthesized == 3 && done.1.deinstrument.toOption.any fun x =>
          (x.1.run { Configuration.guessing with maxIterations := 3 }).isOk := by
    decide +kernel
  obtain ⟨fs, hb, -⟩ := exists_of_any_toOption hbuild
  obtain ⟨⟨w₁, stats⟩, hok, hdone⟩ := exists_of_any_toOption hrun
  simp only [Bool.and_eq_true, Bool.not_eq_true', beq_iff_eq] at hdone
  obtain ⟨⟨⟨hconverged, hdetached⟩, hsynthesized⟩, hagain⟩ := hdone
  obtain ⟨⟨w₂, removed⟩, hbare, hagain⟩ := exists_of_any_toOption hagain
  have hstarts : seesaw.StartsFrom .seesaw .empty := ⟨rfl, rfl, rfl, rfl, rfl⟩
  have hregistered : seesaw.currentConventions.value.AllRegistered :=
    fun callee id hid => (seesaw_assignsAddresses callee id hid).2
  have hu : seesaw.Uncancelled { Configuration.guessing with maxIterations := 3 } :=
    uncancelled_of_isOk (by rw [hok]; rfl)
  obtain ⟨w₁', stats₁, w₂', removed', hok', hbare', hreplay⟩ :=
    run_replays hstarts hb hregistered rfl rfl hu
  obtain ⟨rfl, rfl⟩ := Prod.mk.inj (Except.ok.inj (hok.symm.trans hok'))
  obtain ⟨rfl, rfl⟩ := Prod.mk.inj (Except.ok.inj (hbare.symm.trans hbare'))
  obtain ⟨w₃, stats', hlast, hfunctions, hrepeats⟩ := hreplay (uncancelled_of_isOk hagain)
  exact ⟨w₁, stats, w₂, removed, w₃, stats', hok, hconverged, hdetached, hsynthesized, hbare, hlast,
    hfunctions, hrepeats⟩

end Workspace

end CallEffects
