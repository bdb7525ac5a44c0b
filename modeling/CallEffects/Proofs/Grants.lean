import CallEffects.Proofs.Quiet

/-!
# What an instrumentation asks for

Settling an anchor asks for the hook of a key and is granted the one that the key has had before, or
one built for it. `Bench.instrumentGrants` lists what is granted on the way, oldest first and up to
the point where the instrumentation may stop. Nothing else is built, the statements of what is built
take numbers never handed out before, and once all went well the active hooks of the function are
the ones that were granted. `HookKey.MadeOf` says what is in a key that is asked for.
-/

namespace CallEffects

open Std

/-- A key that was asked for, with the hook it was granted. -/
structure Grant where
  key : HookKey
  hook : Hook
deriving DecidableEq, Repr

/-- What a key that a function asks for is made of: an anchor of the snapshot, the convention that the
registry has for the callee, the signature in force and, at a call, the adjustment of the stack unless
it is what the convention implies. -/
inductive HookKey.MadeOf (cs : Conventions) (ss : Signatures) (observed : ExtTreeMap Callee Nat)
    (f : Function) (s : Snapshot) : HookKey → Prop
  | entry (c : ConventionId × Convention) (hc : cs.lookup? (.ofFunction f) = some c) :
      MadeOf cs ss observed f s
        ⟨.entry f.id, c.1, (ss.function? (.ofFunction f)).map (.callee ·.1), none⟩
  | ret (id : StatementId) (hid : id ∈ s.returns) (c : ConventionId × Convention)
      (hc : cs.lookup? (.ofFunction f) = some c) :
      MadeOf cs ss observed f s
        ⟨.ret ⟨f.id, id⟩, c.1, (ss.function? (.ofFunction f)).map (.callee ·.1), none⟩
  | call (site : CallSite) (hsite : site ∈ s.calls) (callee : Callee)
      (hcallee : callee = .ofCall ⟨f.id, site.statement⟩ site.target)
      (signature : Option (SignatureRef × CallSignature))
      (hsignature : signature = ss.forCall? ⟨f.id, site.statement⟩ callee)
      (c : ConventionId × Convention) (hc : cs.lookup? callee = some c) :
      MadeOf cs ss observed f s
        ⟨.call ⟨f.id, site.statement⟩, c.1, signature.map (·.1),
          ((signature.bind (·.2.stackAdjustment)) <|> observed[callee]?).filter
            (· != c.2.impliedCleanup (c.2.callArity (signature.map (·.2))))⟩

namespace Bench

variable {b b' b'' : Bench} {a : Anchor} {plan : Option Plan} {log log' : List Grant}
variable {as as' : List Anchor} {detector : Option Detector} {signatures : Signatures}
variable {sources : Sources} {s : Snapshot} {wanted : Anchor → Prop}

def settleGrants (b : Bench) (plan : Option Plan) : List Grant :=
  plan.toList.map fun p => ⟨p.key, (b.obtain p).1⟩

def settleCallGrants (detector : Option Detector) (signatures : Signatures) (b : Bench)
    (site : CallSite) : List Grant :=
  let told := (b.resolve detector (.ofCall (b.callAt site) site.target)).2
  told.settleGrants (told.callPlan signatures site)

def grantsAfter (x : Except Halt Bench) (grants : Bench → List Grant) : List Grant :=
  match x with
  | .ok b => grants b
  | .error _ => []

def eachGrants {α : Type} (act : Bench → α → Except Halt Bench) (grants : Bench → α → List Grant) :
    List α → Bench → List Grant
  | [], _ => []
  | x :: xs, b => grants b x ++ grantsAfter (act b x) (eachGrants act grants xs)

/-- The grants of an instrumentation; there are none if it is refused. -/
def instrumentGrants (b : Bench) (sources : Sources) (s : Snapshot) : List Grant :=
  if (s.mismatch? b.function).isSome || b.conventions.poisoned || sources.signatures.poisoned then
    []
  else
    let f := b.function.id
    let signatures := sources.signatures.value
    let told := b.informed sources.detector s
    let entry := told.entryPlan signatures
    told.settleGrants entry ++ grantsAfter (told.settle (.entry f) entry) fun b₁ =>
      eachGrants (settleCall sources.detector signatures)
          (settleCallGrants sources.detector signatures) s.calls b₁ ++
        grantsAfter (s.calls.foldlM (settleCall sources.detector signatures) b₁) fun b₂ =>
          eachGrants (fun b ret => b.settle (.ret ⟨f, ret⟩) (told.returnPlan signatures ret))
            (fun b ret => b.settleGrants (told.returnPlan signatures ret)) s.returns
            (b₂.dropUnseen .call (s.calls.map fun site => .call ⟨f, site.statement⟩))

/-! ## Nothing else is built -/

/-- The log lists keys with the hooks they have by now, and all hooks that are new. -/
structure Logs (b b' : Bench) (log : List Grant) : Prop where
  granted : ∀ g ∈ log, g.hook ∈ b'.hooks.built ∧ g.hook.key = g.key
  built : ∃ new, b'.hooks.built = b.hooks.built ++ new ∧ ∀ k ∈ new, ⟨k.key, k⟩ ∈ log

namespace Logs

theorem of_built (h : b'.hooks.built = b.hooks.built) : Logs b b' [] :=
  ⟨by simp, [], by simp [h], by simp⟩

theorem trans (h : Logs b b' log) (h' : Logs b' b'' log') : Logs b b'' (log ++ log') := by
  obtain ⟨new, hnew, hlog⟩ := h.built
  obtain ⟨new', hnew', hlog'⟩ := h'.built
  refine ⟨?_, new ++ new', by rw [hnew', hnew, List.append_assoc], ?_⟩
  · intro g hg
    rcases List.mem_append.mp hg with hg | hg
    · obtain ⟨hmem, hkey⟩ := h.granted g hg
      exact ⟨hnew' ▸ List.mem_append_left _ hmem, hkey⟩
    · exact h'.granted g hg
  · intro k hk
    rcases List.mem_append.mp hk with hk | hk
    · exact List.mem_append_left _ (hlog k hk)
    · exact List.mem_append_right _ (hlog' k hk)

theorem congr (h : Logs b b' log) (hb : b''.hooks.built = b'.hooks.built) : Logs b b'' log := by
  rw [← List.append_nil log]
  exact h.trans (.of_built hb)

theorem bind {x : Except Halt Bench} {act : Bench → Except Halt Bench}
    {grants : Bench → List Grant} (h : Logs b (left x) log)
    (hact : ∀ b', Logs b' (left (act b')) (grants b')) :
    Logs b (left (x >>= act)) (log ++ grantsAfter x grants) := by
  cases x with
  | error halt =>
    rw [grantsAfter, List.append_nil]
    exact h
  | ok b' => exact h.trans (hact b')

theorem bind_of_built {x : Except Halt Bench} {act : Bench → Except Halt Bench}
    (h : Logs b (left x) log)
    (hact : ∀ b' : Bench, (left (act b')).hooks.built = b'.hooks.built) :
    Logs b (left (x >>= act)) log := by
  cases x with
  | error halt => exact h
  | ok b' => exact h.congr (hact b')

end Logs

theorem obtain_logs (b : Bench) (p : Plan) :
    Logs b (b.obtain p).2 [⟨p.key, (b.obtain p).1⟩] := by
  refine ⟨?_, ?_⟩
  · intro g hg
    rw [List.mem_singleton.mp hg]
    exact b.obtain_mem_built p
  · cases hcached : b.hooks.cached? p.key with
    | some hook =>
      rw [obtain_of_cached hcached]
      exact ⟨[], by simp, by simp⟩
    | none =>
      rw [obtain_of_none hcached]
      refine ⟨[b.built p], rfl, ?_⟩
      intro k hk
      rw [List.mem_singleton.mp hk]
      exact List.mem_singleton_self _

theorem settle_logs (b : Bench) (a : Anchor) (plan : Option Plan) :
    Logs b (left (b.settle a plan)) (b.settleGrants plan) := by
  cases plan with
  | none => exact .of_built (b.detach_built a)
  | some p => exact (b.obtain_logs p).congr ((b.obtain p).2.attach_built _)

theorem resolve_built (b : Bench) (detector : Option Detector) (callee : Callee) :
    (b.resolve detector callee).2.hooks.built = b.hooks.built := by
  obtain ⟨cs, asked, heq, -⟩ := b.resolve_snd detector callee
  rw [heq]

theorem settleCall_logs (b : Bench) (detector : Option Detector) (signatures : Signatures)
    (site : CallSite) :
    Logs b (left (settleCall detector signatures b site))
      (settleCallGrants detector signatures b site) := by
  rw [settleCall_eq]
  exact (Logs.of_built (b.resolve_built detector _)).trans (settle_logs _ _ _)

theorem foldlM_logs {α : Type} {act : Bench → α → Except Halt Bench}
    {grants : Bench → α → List Grant} (hact : ∀ b x, Logs b (left (act b x)) (grants b x))
    (xs : List α) (b : Bench) :
    Logs b (left (xs.foldlM act b)) (eachGrants act grants xs b) := by
  induction xs generalizing b with
  | nil => exact .of_built rfl
  | cons x xs ih =>
    rw [List.foldlM_cons]
    exact (hact b x).bind ih

theorem informed_built (b : Bench) (detector : Option Detector) (s : Snapshot) :
    (b.informed detector s).hooks.built = b.hooks.built := by
  rw [informed, resolve_built, start_eq]
  rfl

theorem instrument_built_of_refused
    (h : (s.mismatch? b.function).isSome || b.conventions.poisoned || sources.signatures.poisoned) :
    (left (b.instrument sources s)).hooks.built = b.hooks.built := by
  have hstart : (b.start s).hooks.built = b.hooks.built := by rw [start_eq]; rfl
  cases hm : s.mismatch? b.function with
  | some e => rw [instrument_of_mismatch hm, left_error]
  | none =>
    simp only [instrument, hm]
    change (left (if (b.start s).conventions.poisoned then _ else _)).hooks.built = _
    split
    · exact hstart
    · next hc =>
      have hc : b.conventions.poisoned = false := Bool.eq_false_iff.mpr hc
      have hss : sources.signatures.poisoned := by simpa [hm, hc] using h
      change (left (if sources.signatures.poisoned then _ else _)).hooks.built = _
      rw [if_pos hss]
      exact b.informed_built sources.detector s

theorem readable_of_not_refused (h : ¬((s.mismatch? b.function).isSome ||
      b.conventions.poisoned || sources.signatures.poisoned) = true) :
    s.mismatch? b.function = none ∧ b.conventions.poisoned = false ∧
      sources.signatures.poisoned = false := by
  simpa [and_assoc] using h

/-- However it ends, what an instrumentation builds is granted. -/
theorem instrument_logs (b : Bench) (sources : Sources) (s : Snapshot) :
    Logs b (left (b.instrument sources s)) (b.instrumentGrants sources s) := by
  rw [instrumentGrants]
  split
  · next h => exact .of_built (instrument_built_of_refused h)
  · next h =>
    obtain ⟨hm, hc, hss⟩ := readable_of_not_refused h
    rw [instrument_eq hm hc hss]
    have hinformed : Logs b (b.informed sources.detector s) [] := .of_built (b.informed_built _ s)
    refine hinformed.trans ((settle_logs _ _ _).bind fun b₁ => ?_)
    refine (foldlM_logs (settleCall_logs · _ _ ·) s.calls b₁).bind fun b₂ => ?_
    have hreturns := foldlM_logs (fun b' ret => b'.settle_logs (.ret ⟨b.function.id, ret⟩)
      ((b.informed sources.detector s).returnPlan sources.signatures.value ret)) s.returns
      (b₂.dropUnseen .call (s.calls.map fun site => .call ⟨b.function.id, site.statement⟩))
    have hdrop : Logs b₂ (b₂.dropUnseen .call (s.calls.map fun site =>
        .call ⟨b.function.id, site.statement⟩)) [] := .of_built (foldl_detach_built _ b₂)
    exact hdrop.trans (hreturns.bind_of_built fun b₃ => foldl_detach_built _ b₃)

/-! ## What a key is made of -/

/-- On the way the registry only grows; what was observed stays, and so does the function's id. -/
structure Onward (b b' : Bench) : Prop where
  grown : b.conventions.value.Extends b'.conventions.value
  observed : b'.hooks.observed = b.hooks.observed
  function_id : b'.function.id = b.function.id

namespace Onward

theorem refl (b : Bench) : Onward b b := ⟨.refl _, rfl, rfl⟩

theorem trans (h : Onward b b') (h' : Onward b' b'') : Onward b b'' :=
  ⟨h.grown.trans h'.grown, h'.observed.trans h.observed, h'.function_id.trans h.function_id⟩

theorem bind {x : Except Halt Bench} {act : Bench → Except Halt Bench} (h : Onward b (left x))
    (hact : ∀ b', Onward b' (left (act b'))) : Onward b (left (x >>= act)) := by
  cases x with
  | error halt => exact h
  | ok b' => exact h.trans (hact b')

end Onward

theorem resolve_onward (b : Bench) (detector : Option Detector) (callee : Callee) :
    Onward b (b.resolve detector callee).2 := by
  have hspares : Spares b (b.resolve detector callee).2 fun _ => False := b.resolve_spares callee
  have hmove : Move detector .empty (fun _ => True) b _ := .resolve b callee
  exact ⟨hmove.extends, hspares.observed, hspares.function_id⟩

theorem detach_onward (b : Bench) (a : Anchor) : Onward b (b.detach a) :=
  ⟨b.detach_conventions a ▸ .refl _, b.detach_observed a, b.detach_function_id a⟩

theorem dropUnseen_onward (b : Bench) (kind : HookKind) (seen : List Anchor) :
    Onward b (b.dropUnseen kind seen) := by
  have hspares := foldl_detach_spares (b.hooks.active.keys.filter fun a =>
    a.kind == kind && a.function == b.function.id && !seen.contains a) b
  have hconventions : (b.dropUnseen kind seen).conventions = b.conventions :=
    foldl_detach_conventions _ b
  exact ⟨hconventions ▸ .refl _, hspares.observed, hspares.function_id⟩

theorem obtain_onward (b : Bench) (p : Plan) : Onward b (b.obtain p).2 :=
  ⟨b.obtain_conventions p ▸ .refl _, b.obtain_observed p, b.obtain_function_id p⟩

theorem attach_onward (b : Bench) (hook : Hook) : Onward b (left (b.attach hook)) := by
  by_cases hactive : (b.hooks.active[hook.anchor]?).any fun active => active.id == hook.id
  · rw [attach_of_active hactive]
    exact ⟨.refl _, rfl, rfl⟩
  · have hdetach := b.detach_onward hook.anchor
    cases hf : (b.detach hook.anchor).function.insertSynthetic hook.anchor.position
        hook.statements with
    | error e =>
      rw [attach_of_error hactive hf]
      exact hdetach
    | ok f =>
      have hid : f.id = (b.detach hook.anchor).function.id := by
        rw [(Function.insertSynthetic_fields hf).1]
      rw [attach_of_ok hactive hf]
      exact ⟨hdetach.grown, hdetach.observed, hid.trans hdetach.function_id⟩

theorem settle_onward (b : Bench) (a : Anchor) (plan : Option Plan) :
    Onward b (left (b.settle a plan)) := by
  cases plan with
  | none =>
    have hdetach := b.detach_onward a
    exact ⟨hdetach.grown, hdetach.observed, hdetach.function_id⟩
  | some p => exact (b.obtain_onward p).trans ((b.obtain p).2.attach_onward _)

theorem settleCall_onward (b : Bench) (detector : Option Detector) (signatures : Signatures)
    (site : CallSite) : Onward b (left (settleCall detector signatures b site)) := by
  rw [settleCall_eq]
  exact (b.resolve_onward detector _).trans (settle_onward _ _ _)

theorem foldlM_onward {α : Type} {act : Bench → α → Except Halt Bench}
    (hact : ∀ b x, Onward b (left (act b x))) (xs : List α) (b : Bench) :
    Onward b (left (xs.foldlM act b)) := by
  induction xs generalizing b with
  | nil => exact .refl b
  | cons x xs ih =>
    rw [List.foldlM_cons]
    exact (hact b x).bind ih

/-- What is left of an instrumentation once the calls are settled. -/
theorem settleReturns_onward (b : Bench) (f : FunctionId) (s : Snapshot)
    (plan : StatementId → Option Plan) :
    Onward b (left (s.returns.foldlM (fun b' ret => b'.settle (.ret ⟨f, ret⟩) (plan ret))
        (b.dropUnseen .call (s.calls.map fun site => .call ⟨f, site.statement⟩)) >>=
      fun b' => .ok (b'.dropUnseen .ret (s.returns.map fun ret => .ret ⟨f, ret⟩)))) := by
  have hdrop := b.dropUnseen_onward .call (s.calls.map fun site => .call ⟨f, site.statement⟩)
  refine hdrop.trans ?_
  exact (foldlM_onward (fun b' ret => b'.settle_onward _ _) s.returns _).bind
    fun b' => b'.dropUnseen_onward .ret _

theorem mem_grantsAfter {x : Except Halt Bench} {grants : Bench → List Grant} {g : Grant}
    (h : g ∈ grantsAfter x grants) : ∃ b, x = .ok b ∧ g ∈ grants b := by
  cases x with
  | error halt => cases h
  | ok b => exact ⟨b, rfl, h⟩

/-- What is granted on the way is granted to one of the items, when its turn comes. -/
theorem mem_eachGrants {α : Type} {act : Bench → α → Except Halt Bench}
    {grants : Bench → α → List Grant} (hact : ∀ b x, Onward b (left (act b x))) {xs : List α}
    {g : Grant} (h : g ∈ eachGrants act grants xs b) :
    ∃ x ∈ xs, ∃ c, Onward b c ∧ Onward (left (act c x)) (left (xs.foldlM act b)) ∧
      g ∈ grants c x := by
  induction xs generalizing b with
  | nil => cases h
  | cons x xs ih =>
    rw [List.foldlM_cons]
    rcases List.mem_append.mp h with h | h
    · refine ⟨x, List.mem_cons_self, b, .refl b, ?_, h⟩
      exact (Onward.refl _).bind fun b' => foldlM_onward hact xs b'
    · obtain ⟨b', hx, hg⟩ := mem_grantsAfter h
      obtain ⟨y, hy, c, hc, hrest, hgranted⟩ := ih hg
      have hone := hact b x
      rw [hx] at hone ⊢
      exact ⟨y, List.mem_cons_of_mem _ hy, c, hone.trans hc, hrest, hgranted⟩

theorem mem_settleGrants {g : Grant} (h : g ∈ b.settleGrants plan) : ∃ p ∈ plan, p.key = g.key := by
  obtain ⟨p, hp, rfl⟩ := List.mem_map.mp h
  exact ⟨p, Option.mem_toList.mp hp, rfl⟩

theorem entryPlan_madeOf {p : Plan} (hp : p ∈ b.entryPlan signatures) (s : Snapshot) :
    p.key.MadeOf b.conventions.value signatures b.hooks.observed b.function s := by
  obtain ⟨c, hc, rfl⟩ := Option.map_eq_some_iff.mp hp
  exact .entry c hc

theorem returnPlan_madeOf {ret : StatementId} {p : Plan} (hp : p ∈ b.returnPlan signatures ret)
    (hret : ret ∈ s.returns) :
    p.key.MadeOf b.conventions.value signatures b.hooks.observed b.function s := by
  obtain ⟨c, hc, rfl⟩ := Option.map_eq_some_iff.mp hp
  exact .ret ret hret c hc

theorem callPlan_madeOf {site : CallSite} {p : Plan} (hp : p ∈ b.callPlan signatures site)
    (hsite : site ∈ s.calls) {f : Function} (hf : b.function.id = f.id) :
    p.key.MadeOf b.conventions.value signatures b.hooks.observed f s := by
  obtain ⟨c, hc, rfl⟩ := Option.map_eq_some_iff.mp hp
  rw [callAt, hf] at hc ⊢
  have hmade : HookKey.MadeOf b.conventions.value signatures b.hooks.observed f s _ :=
    .call site hsite _ rfl _ rfl c hc
  simpa only [Plan.ofCall, Option.bind_map, Function.comp_def] using hmade

/-- A key that is granted was asked for with the registry as it stood at some time on the way. -/
theorem instrument_madeOf {g : Grant} (hg : g ∈ b.instrumentGrants sources s) :
    ∃ c, Onward (b.start s) c ∧ Onward c (left (b.instrument sources s)) ∧
      g.key.MadeOf c.conventions.value sources.signatures.value c.hooks.observed b.function s := by
  rw [instrumentGrants] at hg
  split at hg
  · cases hg
  · next h =>
    obtain ⟨hm, hc, hss⟩ := readable_of_not_refused h
    rw [instrument_eq hm hc hss]
    have hfunction : (b.informed sources.detector s).function = b.function := b.informed_function s
    have htold : Onward (b.start s) (b.informed sources.detector s) := resolve_onward _ _ _
    have hentry := (b.informed sources.detector s).settle_onward (.entry b.function.id)
      ((b.informed sources.detector s).entryPlan sources.signatures.value)
    have hcalls := foldlM_onward (settleCall_onward · sources.detector sources.signatures.value ·)
      s.calls
    have hrest := fun b₂ : Bench => b₂.settleReturns_onward b.function.id s fun ret =>
      (b.informed sources.detector s).returnPlan sources.signatures.value ret
    have hall := hentry.bind fun b₁ => (hcalls b₁).bind hrest
    rcases List.mem_append.mp hg with hg | hg
    · obtain ⟨p, hp, hkey⟩ := mem_settleGrants hg
      refine ⟨_, htold, hall, ?_⟩
      rw [← hkey, ← hfunction]
      exact entryPlan_madeOf hp s
    · obtain ⟨b₁, hb₁, hg⟩ := mem_grantsAfter hg
      rcases List.mem_append.mp hg with hg | hg
      · -- The callee has been looked up first, so the registry is a later one than for the entry.
        rw [hb₁] at hentry ⊢
        obtain ⟨site, hsite, c, hc, hend, hg⟩ := mem_eachGrants (settleCall_onward · _ _ ·) hg
        obtain ⟨p, hp, hkey⟩ := mem_settleGrants hg
        have hasked := c.resolve_onward sources.detector (.ofCall (c.callAt site) site.target)
        have hway := (htold.trans hentry).trans (hc.trans hasked)
        rw [settleCall_eq] at hend
        refine ⟨_, hway, ((settle_onward _ _ _).trans hend).bind hrest, ?_⟩
        rw [← hkey]
        exact callPlan_madeOf hp hsite hway.function_id
      · obtain ⟨b₂, -, hg⟩ := mem_grantsAfter hg
        obtain ⟨ret, hret, c, -, -, hg⟩ := mem_eachGrants (fun b' ret => settle_onward b' _ _) hg
        obtain ⟨p, hp, hkey⟩ := mem_settleGrants hg
        refine ⟨_, htold, hall, ?_⟩
        rw [← hkey, ← hfunction]
        exact returnPlan_madeOf hp hret

/-! ## No number is handed out twice -/

/-- What has been built took its numbers from those the function had not handed out. -/
structure Mints (b b' : Bench) : Prop where
  next_le : b.function.nextStatement ≤ b'.function.nextStatement
  built : ∃ new, b'.hooks.built = b.hooks.built ++ new ∧ ∀ k ∈ new,
    k.anchor.function = b.function.id ∧ ∀ id ∈ k.statementIds, b.function.nextStatement ≤ id

theorem Mints.of_eq (hn : b'.function.nextStatement = b.function.nextStatement)
    (hb : b'.hooks.built = b.hooks.built) : Mints b b' :=
  ⟨Nat.le_of_eq hn.symm, [], by simp [hb], by simp⟩

theorem Mints.trans (h : Mints b b') (h' : Mints b' b'')
    (hid : b'.function.id = b.function.id) : Mints b b'' := by
  obtain ⟨new, hnew, hmine⟩ := h.built
  obtain ⟨new', hnew', hmine'⟩ := h'.built
  refine ⟨Nat.le_trans h.next_le h'.next_le, new ++ new', ?_, ?_⟩
  · rw [hnew', hnew, List.append_assoc]
  · intro k hk
    rcases List.mem_append.mp hk with hk | hk
    · exact hmine k hk
    · obtain ⟨hfunction, hids⟩ := hmine' k hk
      exact ⟨hfunction.trans hid, fun id hmem => Nat.le_trans h.next_le (hids id hmem)⟩

/-- A move builds nothing, or it builds the first hook of a key. -/
theorem Move.built_cases (h : Move detector signatures wanted b b') :
    (b'.hooks.built = b.hooks.built ∧ b'.function.nextStatement = b.function.nextStatement) ∨
      ∃ p : Plan, p.key.anchor.function = b.function.id ∧ b.hooks.cached? p.key = none ∧
        b' = (b.obtain p).2 := by
  cases h with
  | start s =>
    rw [start_eq]
    exact .inl ⟨rfl, rfl⟩
  | resolve callee =>
    obtain ⟨cs, asked, heq, -⟩ := b.resolve_snd detector callee
    rw [heq]
    exact .inl ⟨rfl, rfl⟩
  | count | remember | forget => exact .inl ⟨rfl, rfl⟩
  | detach a =>
    refine .inl ⟨b.detach_built a, ?_⟩
    unfold Bench.detach
    split <;> rfl
  | obtain p ha =>
    cases hcached : b.hooks.cached? p.key with
    | some hook =>
      rw [obtain_of_cached hcached]
      exact .inl ⟨rfl, rfl⟩
    | none => exact .inr ⟨p, ha, hcached, rfl⟩
  | place hook f ha hw hk hnone hf =>
    obtain ⟨hfields, -⟩ := Function.insertSynthetic_fields hf
    have hnext : f.nextStatement = b.function.nextStatement := by rw [hfields]
    exact .inl ⟨rfl, hnext⟩

theorem Move.mints (h : Move detector signatures wanted b b') : Mints b b' := by
  rcases h.built_cases with ⟨hbuilt, hnext⟩ | ⟨p, hp, hcached, rfl⟩
  · exact .of_eq hnext hbuilt
  · rw [obtain_of_none hcached]
    refine ⟨Nat.le_add_right _ _, [b.built p], rfl, ?_⟩
    intro k hk
    rw [List.mem_singleton.mp hk]
    exact ⟨hp, fun id hid => (mem_statementIds_built hid).1⟩

theorem Moves.mints (h : Moves detector signatures wanted b b') : Mints b b' := by
  induction h with
  | refl => exact .of_eq rfl rfl
  | tail hms hm ih => exact ih.trans hm.mints (Moves.function_id hms)

theorem Moves.keys_nodup (h : Moves detector signatures wanted b b')
    (hb : (b.hooks.built.map (·.key)).Nodup) : (b'.hooks.built.map (·.key)).Nodup := by
  induction h with
  | refl => exact hb
  | @tail c c' hms hm ih =>
    rcases hm.built_cases with ⟨hbuilt, -⟩ | ⟨p, -, hcached, rfl⟩
    · rwa [hbuilt]
    · have hnew : p.key ∉ c.hooks.built.map (·.key) := by
        intro hmem
        obtain ⟨k, hk, hkey⟩ := List.mem_map.mp hmem
        have hne := List.find?_eq_none.mp hcached k hk
        exact hne (beq_iff_eq.mpr hkey)
      rw [obtain_of_none hcached, List.map_append]
      refine List.nodup_append.mpr ⟨ih, List.nodup_singleton _, ?_⟩
      rintro key hkey _ hmem rfl
      have hkey' : key = p.key := List.mem_singleton.mp hmem
      exact hnew (hkey' ▸ hkey)

/-! ## What is granted is attached -/

/-- The hooks on some anchors are those that were granted for them. -/
structure Carries (b : Bench) (as : List Anchor) (log : List Grant) : Prop where
  listed : ∀ g ∈ log, g.key.anchor ∈ as
  active : ∀ a ∈ as, ∀ k, b.hooks.active[a]? = some k ↔ ∃ g ∈ log, g.hook = k ∧ g.key.anchor = a

namespace Carries

theorem congr (h : b.Carries as log)
    (ha : ∀ a ∈ as, b'.hooks.active[a]? = b.hooks.active[a]?) : b'.Carries as log :=
  ⟨h.listed, fun a hmem k => by rw [ha a hmem, h.active a hmem]⟩

theorem append (h : b.Carries as log) (h' : b.Carries as' log') (hd : ∀ a ∈ as, a ∉ as') :
    b.Carries (as ++ as') (log ++ log') := by
  constructor
  · intro g hg
    rw [List.mem_append] at hg ⊢
    exact hg.imp (h.listed g) (h'.listed g)
  · intro a ha k
    rcases List.mem_append.mp ha with ha | ha
    · rw [h.active a ha]
      constructor
      · rintro ⟨g, hg, hgrant⟩
        exact ⟨g, List.mem_append_left _ hg, hgrant⟩
      · rintro ⟨g, hg, hhook, rfl⟩
        have hg := (List.mem_append.mp hg).resolve_right fun hg => hd _ ha (h'.listed g hg)
        exact ⟨g, hg, hhook, rfl⟩
    · rw [h'.active a ha]
      constructor
      · rintro ⟨g, hg, hgrant⟩
        exact ⟨g, List.mem_append_right _ hg, hgrant⟩
      · rintro ⟨g, hg, hhook, rfl⟩
        have hg := (List.mem_append.mp hg).resolve_left fun hg => hd _ (h.listed g hg) ha
        exact ⟨g, hg, hhook, rfl⟩

theorem kept {done : List Anchor} {dropped : Anchor → Prop} (h : b.Carries as log)
    (hs : Settles b b' done dropped) (hdone : ∀ a ∈ as, a ∉ done)
    (hdropped : ∀ a ∈ as, ¬dropped a) : b'.Carries as log :=
  h.congr fun a ha => hs.active a (hdone a ha) (hdropped a ha)

end Carries

theorem settle_carries (hb : b.Sound) (ha : a.function = b.function.id)
    (hp : ∀ p ∈ plan, p.key.anchor = a ∧ ∀ kind ∈ p.effects.kinds, kind.fits p.key.anchor.kind)
    (h : b.settle a plan = .ok b') : b'.Carries [a] (b.settleGrants plan) := by
  obtain ⟨hbears, -, -, hsound⟩ := settle_ok hb ha hp h
  have hlogs := b.settle_logs a plan
  rw [h, left_ok] at hlogs
  cases plan with
  | none =>
    have hnone : b'.hooks.active[a]? = none := hbears
    refine ⟨by simp [settleGrants], fun a' ha' k => ?_⟩
    rw [List.mem_singleton.mp ha', hnone]
    simp [settleGrants]
  | some p =>
    obtain ⟨rfl, -⟩ := hp p rfl
    obtain ⟨k, hk, hkey⟩ := hbears
    obtain ⟨hmem, hgranted⟩ := hlogs.granted _ (List.mem_singleton_self _)
    obtain rfl := hsound.1.key_inj (hsound.1.active_built hk).1 hmem (hkey.trans hgranted.symm)
    refine ⟨by simp [settleGrants], fun a' ha' k' => ?_⟩
    rw [List.mem_singleton.mp ha', hk]
    simp [settleGrants]

theorem settleCall_carries {site : CallSite} (hb : b.Sound)
    (h : settleCall detector signatures b site = .ok b') :
    b'.Carries [.call (b.callAt site)] (settleCallGrants detector signatures b site) := by
  have hresolve := resolve_settles hb detector (.ofCall (b.callAt site) site.target)
  rw [settleCall_eq] at h
  refine settle_carries hresolve.sound hresolve.function_id.symm ?_ h
  intro p hp
  refine ⟨?_, (callPlan_possible _ _ site p hp).fitting⟩
  obtain ⟨c, -, rfl⟩ := Option.map_eq_some_iff.mp hp
  exact congrArg (fun i => Anchor.call ⟨i, site.statement⟩) hresolve.function_id

theorem foldlM_carries {α : Type} {act : Bench → α → Except Halt Bench}
    {grants : Bench → α → List Grant} (anchor : α → Anchor) {f : FunctionId} {xs : List α}
    (hb : b.Sound) (hf : b.function.id = f) (hnodup : (xs.map anchor).Nodup)
    (hact : ∀ {b b' : Bench} (x : α), b.Sound → b.function.id = f → act b x = .ok b' →
      Settles b b' [anchor x] (fun _ => False) ∧ b'.Carries [anchor x] (grants b x))
    (h : xs.foldlM act b = .ok b') :
    b'.Carries (xs.map anchor) (eachGrants act grants xs b) := by
  induction xs generalizing b with
  | nil => exact ⟨by simp [eachGrants], by simp⟩
  | cons x xs ih =>
    rw [List.foldlM_cons] at h
    obtain ⟨b₁, hx, hrest⟩ := bind_eq_ok h
    obtain ⟨hsettles, hcarries⟩ := hact x hb hf hx
    rw [List.map_cons, List.nodup_cons] at hnodup
    have hid := hsettles.function_id.trans hf
    have hothers := foldlM_settles anchor hsettles.sound hid hnodup.2
      (fun x hb hf hx => (hact x hb hf hx).1) hrest
    have hnew : ∀ a ∈ [anchor x], a ∉ xs.map anchor := by
      intro a ha
      rw [List.mem_singleton.mp ha]
      exact hnodup.1
    have hkept := hcarries.kept hothers hnew fun _ _ => id
    rw [eachGrants, hx]
    exact hkept.append (ih hsettles.sound hid hnodup.2 hrest) hnew

/-- After an instrumentation that succeeds every anchor of the snapshot carries what it was
granted. -/
theorem instrument_carries (hb : b.Sound) (hs : s.Distinct) (h : b.instrument sources s = .ok b') :
    b'.Carries (s.anchors b.function.id) (b.instrumentGrants sources s) := by
  obtain ⟨hserves, hc, hss⟩ := readable_of_instrument_eq_ok h
  obtain ⟨b₁, b₂, b₃, hstages⟩ := instrument_stages hb hs h
  have hentry := settle_carries (a := .entry b.function.id) hstages.informed.sound
    hstages.informed.function_id.symm (b.informed_entryPlan_fits s) hstages.entry_ok
  have hcalls := foldlM_carries (fun site => .call ⟨b.function.id, site.statement⟩)
    hstages.entry.sound hstages.function_id.1 (hs.calls_nodup _) (by
      intro b' b'' site hb' hid h
      have hsettles := settleCall_settles hb' h
      have hcarries := settleCall_carries hb' h
      rw [callAt, hid] at hsettles hcarries
      exact ⟨hsettles, hcarries⟩) hstages.calls_ok
  have hreturn : ∀ {b' b'' : Bench} (ret : StatementId), b'.Sound →
      b'.function.id = b.function.id →
      b'.settle (.ret ⟨b.function.id, ret⟩) ((b.informed sources.detector s).returnPlan
        sources.signatures.value ret) = .ok b'' →
      Settles b' b'' [.ret ⟨b.function.id, ret⟩] (fun _ => False) ∧
        b''.Carries [.ret ⟨b.function.id, ret⟩] (b'.settleGrants
          ((b.informed sources.detector s).returnPlan sources.signatures.value ret)) := by
    intro b' b'' ret hb' hid h
    exact ⟨settle_settles (a := .ret ⟨b.function.id, ret⟩) hb' hid.symm
        (b.informed_returnPlan_fits s ret) h,
      settle_carries (a := .ret ⟨b.function.id, ret⟩) hb' hid.symm
        (b.informed_returnPlan_fits s ret) h⟩
  have hreturns := foldlM_carries (fun ret => .ret ⟨b.function.id, ret⟩)
    hstages.calls_dropped.sound (hstages.calls_dropped.function_id.trans hstages.function_id.2.1)
    (hs.returns_nodup _) hreturn hstages.returns_ok
  have hfirst := ((hentry.kept hstages.calls (by simp) (by simp)).append hcalls (by simp)).kept
    hstages.calls_dropped (by simp) fun a ha => (hstages.not_dropped (List.mem_append_left _ ha)).1
  have hall := ((hfirst.kept hstages.returns (by simp) (by simp)).append hreturns (by simp)).kept
    hstages.returns_dropped (by simp) fun a ha => (hstages.not_dropped ha).2
  simp only [instrumentGrants, hserves, hc, hss, hstages.entry_ok, hstages.calls_ok, grantsAfter,
    Option.isSome_none, Bool.or_false, Bool.false_eq_true, if_false]
  rw [← List.append_assoc]
  exact hall

theorem instrument_active (hb : b.Sound) (hs : s.Distinct) (h : b.instrument sources s = .ok b')
    {k : Hook} : b'.hooks.active[a]? = some k ∧ a.function = b.function.id ↔
      ∃ g ∈ b.instrumentGrants sources s, g.hook = k ∧ g.key.anchor = a := by
  have hcarries := instrument_carries hb hs h
  constructor
  · rintro ⟨hk, ha⟩
    obtain ⟨b₁, b₂, hcourse⟩ := instrument_course hb h
    exact (hcarries.active a (hcourse.anchors hk ha) k).mp hk
  · rintro ⟨g, hg, hgrant⟩
    have ha : a ∈ s.anchors b.function.id := hgrant.2 ▸ hcarries.listed g hg
    exact ⟨(hcarries.active a ha k).mpr ⟨g, hg, hgrant⟩, Snapshot.function_of_mem_anchors ha⟩

def instrumentKeys (b : Bench) (sources : Sources) (s : Snapshot) : List HookKey :=
  (b.instrumentGrants sources s).map (·.key)

/-- However many hooks have been built since, the keys say which of them were active. -/
theorem instrument_active_iff_key (hb : b.Sound) (hs : s.Distinct)
    (h : b.instrument sources s = .ok b') {hooks : Hooks} (hc : hooks.Consistent)
    (hbuilt : b'.hooks.built <+: hooks.built) {k : Hook} :
    b'.hooks.active[a]? = some k ∧ a.function = b.function.id ↔
      k ∈ hooks.built ∧ k.key ∈ b.instrumentKeys sources s ∧ k.anchor = a := by
  have hlogs := b.instrument_logs sources s
  rw [h, left_ok] at hlogs
  rw [instrument_active hb hs h]
  constructor
  · rintro ⟨g, hg, rfl, rfl⟩
    obtain ⟨hmem, hkey⟩ := hlogs.granted g hg
    exact ⟨hbuilt.subset hmem, hkey ▸ List.mem_map_of_mem hg, congrArg HookKey.anchor hkey⟩
  · rintro ⟨hmem, hkey, rfl⟩
    obtain ⟨g, hg, hgk⟩ := List.mem_map.mp hkey
    obtain ⟨hmem', hkey'⟩ := hlogs.granted g hg
    have hhook : g.hook = k := hc.key_inj (hbuilt.subset hmem') hmem (hkey'.trans hgk)
    exact ⟨g, hg, hhook, congrArg HookKey.anchor hgk⟩

end Bench

end CallEffects
