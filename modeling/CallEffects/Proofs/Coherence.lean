import CallEffects.Proofs.History

/-!
# Cached hooks stay what their keys ask for

A hook is built once for its key and used again whenever the key comes up. A key names its
convention and its signature by id. Conventions keep their ids, and a signature that is recorded
gets an id that was never used, so whatever plan has the key of a cached hook also has its effects,
however old the hook is.
-/

namespace CallEffects

open Std

namespace Signatures

/-- Signatures have ids below the count of their kind, and an id has one signature. -/
structure Numbered (ss : Signatures) : Prop where
  callee_lt : ∀ {callee x}, ss.function? callee = some x → x.1 < ss.calleeCount
  callee_inj : ∀ {callee callee' x y}, ss.function? callee = some x → ss.function? callee' = some y →
    x.1 = y.1 → x.2 = y.2
  call_lt : ∀ {call x}, ss.call? call = some x → x.1 < ss.callCount
  call_inj : ∀ {call call' x y}, ss.call? call = some x → ss.call? call' = some y →
    x.1 = y.1 → x.2 = y.2

theorem numbered_empty : empty.Numbered where
  callee_lt h := by simp [function?, empty] at h
  callee_inj h := by simp [function?, empty] at h
  call_lt h := by simp [call?, empty] at h
  call_inj h := by simp [call?, empty] at h

variable {ss ss' : Signatures} {callee callee' : Callee} {call call' : StatementRef}

theorem function?_setFunction {s : FunctionSignature} {x : Nat × FunctionSignature}
    (h : (ss.setFunction callee s).2.function? callee' = some x) :
    x = (ss.calleeCount, s) ∨ ss.function? callee' = some x := by
  rcases Table.getElem?_insert_eq_some h with ⟨-, rfl⟩ | ⟨-, h⟩
  · exact .inl rfl
  · exact .inr h

theorem call?_setCall {s : CallSignature} {x : Nat × CallSignature}
    (h : (ss.setCall call s).2.call? call' = some x) :
    x = (ss.callCount, s) ∨ ss.call? call' = some x := by
  rcases Table.getElem?_insert_eq_some h with ⟨-, rfl⟩ | ⟨-, h⟩
  · exact .inl rfl
  · exact .inr h

theorem Numbered.setFunction (h : ss.Numbered) (callee : Callee) (s : FunctionSignature) :
    (ss.setFunction callee s).2.Numbered := by
  have hclash : ∀ {callee'} {y : Nat × FunctionSignature}, ss.function? callee' = some y →
      ss.calleeCount ≠ y.1 := by
    intro callee' y hy he
    exact Nat.lt_irrefl _ (he ▸ h.callee_lt hy)
  constructor
  · intro callee' x hx
    rcases function?_setFunction hx with rfl | hx
    · exact Nat.lt_succ_self _
    · exact Nat.lt_succ_of_lt (h.callee_lt hx)
  · intro callee' callee'' x y hx hy hid
    rcases function?_setFunction hx with rfl | hx <;> rcases function?_setFunction hy with rfl | hy
    · rfl
    · exact absurd hid (hclash hy)
    · exact absurd hid.symm (hclash hx)
    · exact h.callee_inj hx hy hid
  · exact h.call_lt
  · exact h.call_inj

theorem Numbered.setCall (h : ss.Numbered) (call : StatementRef) (s : CallSignature) :
    (ss.setCall call s).2.Numbered := by
  have hclash : ∀ {call'} {y : Nat × CallSignature}, ss.call? call' = some y →
      ss.callCount ≠ y.1 := by
    intro call' y hy he
    exact Nat.lt_irrefl _ (he ▸ h.call_lt hy)
  constructor
  · exact h.callee_lt
  · exact h.callee_inj
  · intro call' x hx
    rcases call?_setCall hx with rfl | hx
    · exact Nat.lt_succ_self _
    · exact Nat.lt_succ_of_lt (h.call_lt hx)
  · intro call' call'' x y hx hy hid
    rcases call?_setCall hx with rfl | hx <;> rcases call?_setCall hy with rfl | hy
    · rfl
    · exact absurd hid (hclash hy)
    · exact absurd hid.symm (hclash hx)
    · exact h.call_inj hx hy hid

def Recorded (ss : Signatures) : SignatureRef → Prop
  | .call id => id < ss.callCount
  | .callee id => id < ss.calleeCount

theorem forCall?_cases {x : SignatureRef × CallSignature}
    (h : ss.forCall? call callee = some x) :
    (∃ y, ss.call? call = some y ∧ x = (.call y.1, y.2)) ∨
      ss.call? call = none ∧
        ∃ y, ss.function? callee = some y ∧ x = (.callee y.1, .ofFunction y.2) := by
  unfold forCall? at h
  split at h
  · next id s hs => exact .inl ⟨(id, s), hs, (Option.some.inj h).symm⟩
  · next hn =>
    obtain ⟨y, hy, rfl⟩ := Option.map_eq_some_iff.mp h
    exact .inr ⟨hn, y, hy, rfl⟩

theorem Numbered.recorded_of_forCall? (h : ss.Numbered) {x : SignatureRef × CallSignature}
    (hx : ss.forCall? call callee = some x) : ss.Recorded x.1 := by
  rcases forCall?_cases hx with ⟨y, hy, rfl⟩ | ⟨-, y, hy, rfl⟩
  · exact h.call_lt hy
  · exact h.callee_lt hy

theorem Numbered.forCall?_inj (h : ss.Numbered) {x y : SignatureRef × CallSignature}
    (hx : ss.forCall? call callee = some x) (hy : ss.forCall? call' callee' = some y)
    (hid : x.1 = y.1) : x = y := by
  rcases forCall?_cases hx with ⟨x', hx', rfl⟩ | ⟨-, x', hx', rfl⟩ <;>
    rcases forCall?_cases hy with ⟨y', hy', rfl⟩ | ⟨-, y', hy', rfl⟩
  · rw [Prod.mk.injEq]
    exact ⟨hid, h.call_inj hx' hy' (SignatureRef.call.inj hid)⟩
  · cases hid
  · cases hid
  · rw [Prod.mk.injEq]
    exact ⟨hid, congrArg _ (h.callee_inj hx' hy' (SignatureRef.callee.inj hid))⟩

/-- Signatures recorded before keep their ids and are not found anywhere new. -/
structure Grows (ss ss' : Signatures) : Prop where
  recorded : ∀ {ref}, ss.Recorded ref → ss'.Recorded ref
  function? : ∀ {callee x}, ss'.function? callee = some x → ss.Recorded (.callee x.1) →
    ss.function? callee = some x
  forCall? : ∀ {call callee x}, ss'.forCall? call callee = some x → ss.Recorded x.1 →
    ss.forCall? call callee = some x

theorem grows_setFunction (ss : Signatures) (callee : Callee) (s : FunctionSignature) :
    ss.Grows (ss.setFunction callee s).2 := by
  have hfunction : ∀ {callee' x}, (ss.setFunction callee s).2.function? callee' = some x →
      ss.Recorded (.callee x.1) → ss.function? callee' = some x := by
    intro callee' x hx hrecorded
    rcases function?_setFunction hx with rfl | hx
    · exact absurd hrecorded (Nat.lt_irrefl _)
    · exact hx
  constructor
  · intro ref href
    cases ref with
    | call id => exact href
    | callee id => exact Nat.lt_succ_of_lt href
  · exact hfunction
  · intro call callee' x hx hrecorded
    rcases forCall?_cases hx with ⟨y, hy, rfl⟩ | ⟨hn, y, hy, rfl⟩
    · have hold : ss.call? call = some y := hy
      simp only [Signatures.forCall?, hold]
    · have hold : ss.call? call = none := hn
      simp only [Signatures.forCall?, hold, hfunction hy hrecorded, Option.map_some]

theorem grows_setCall (ss : Signatures) (call : StatementRef) (s : CallSignature) :
    ss.Grows (ss.setCall call s).2 := by
  constructor
  · intro ref href
    cases ref with
    | call id => exact Nat.lt_succ_of_lt href
    | callee id => exact href
  · exact fun hx _ => hx
  · intro call' callee x hx hrecorded
    rcases forCall?_cases hx with ⟨y, hy, rfl⟩ | ⟨hn, y, hy, rfl⟩
    · rcases call?_setCall hy with rfl | hy
      · exact absurd hrecorded (Nat.lt_irrefl _)
      · simp only [Signatures.forCall?, hy]
    · have hold : ss.call? call' = none := by
        by_cases hc : call = call'
        · subst hc
          rw [Signatures.call?, setCall, ExtTreeMap.getElem?_insert_self] at hn
          cases hn
        · rw [Signatures.call?, setCall, Table.getElem?_insert_of_ne hc] at hn
          exact hn
      have hfunction : ss.function? callee = some y := hy
      simp only [Signatures.forCall?, hold, hfunction, Option.map_some]

end Signatures

/-! ## Plans and their keys -/

namespace Plan.Possible

variable {cs cs' : Conventions} {ss ss' : Signatures} {p q : Plan}

theorem convention (h : p.Possible cs ss) : ∃ c, cs.get? p.key.convention = some c := by
  cases h with
  | entry f c s hc hs => exact ⟨c.2, hc⟩
  | ret r c s hc hs => exact ⟨c.2, hc⟩
  | call r c s observed hc hs => exact ⟨c.2, hc⟩

theorem recorded (h : p.Possible cs ss) (hn : ss.Numbered) :
    ∀ ref ∈ p.key.signature, ss.Recorded ref := by
  cases h with
  | entry f c s hc hs | ret r c s hc hs =>
    intro ref href
    obtain ⟨x, hx, rfl⟩ := Option.map_eq_some_iff.mp href
    obtain ⟨callee, hcallee⟩ := hs x hx
    exact hn.callee_lt hcallee
  | call r c s observed hc hs =>
    intro ref href
    obtain ⟨x, hx, rfl⟩ := Option.map_eq_some_iff.mp href
    obtain ⟨callee, hcallee⟩ := hs x hx
    exact hn.recorded_of_forCall? hcallee

theorem convention_eq {c c' : ConventionId × Convention} (hc : cs.get? c.1 = some c.2)
    (hc' : cs.get? c'.1 = some c'.2) (hid : c.1 = c'.1) : c = c' := by
  rw [hid, hc'] at hc
  exact Prod.ext hid (Option.some.inj hc).symm

theorem signature_eq {α β : Type} {s t : Option α} {ref : α → β} (h : s.map ref = t.map ref)
    (hinj : ∀ x ∈ s, ∀ y ∈ t, ref x = ref y → x = y) : s = t := by
  cases s with
  | none =>
    cases t with
    | none => rfl
    | some y => cases h
  | some x =>
    cases t with
    | none => cases h
    | some y => rw [hinj x rfl y rfl (Option.some.inj h)]

theorem effects_eq (h : p.Possible cs ss) (h' : q.Possible cs ss) (hn : ss.Numbered)
    (hkey : p.key = q.key) : p.effects = q.effects := by
  have hcallee : ∀ {s t : Option (Nat × FunctionSignature)},
      (∀ x ∈ s, ∃ callee, ss.function? callee = some x) →
      (∀ x ∈ t, ∃ callee, ss.function? callee = some x) →
      s.map (SignatureRef.callee ·.1) = t.map (SignatureRef.callee ·.1) → s = t := by
    intro s t hs ht heq
    refine signature_eq heq fun x hx y hy hid => ?_
    obtain ⟨_, hx⟩ := hs x hx
    obtain ⟨_, hy⟩ := ht y hy
    have hid := SignatureRef.callee.inj hid
    exact Prod.ext hid (hn.callee_inj hx hy hid)
  cases h with
  | entry f c s hc hs =>
    cases h' with
    | entry f' c' s' hc' hs' =>
      simp only [ofEntry, HookKey.mk.injEq] at hkey
      obtain rfl := convention_eq hc hc' hkey.2.1
      obtain rfl := hcallee hs hs' hkey.2.2.1
      rfl
    | ret r c' s' hc' hs' => cases congrArg HookKey.anchor hkey
    | call r c' s' observed hc' hs' => cases congrArg HookKey.anchor hkey
  | ret r c s hc hs =>
    cases h' with
    | entry f' c' s' hc' hs' => cases congrArg HookKey.anchor hkey
    | ret r' c' s' hc' hs' =>
      simp only [ofReturn, HookKey.mk.injEq] at hkey
      obtain rfl := convention_eq hc hc' hkey.2.1
      obtain rfl := hcallee hs hs' hkey.2.2.1
      rfl
    | call r' c' s' observed hc' hs' => cases congrArg HookKey.anchor hkey
  | call r c s observed hc hs =>
    cases h' with
    | entry f' c' s' hc' hs' => cases congrArg HookKey.anchor hkey
    | ret r' c' s' hc' hs' => cases congrArg HookKey.anchor hkey
    | call r' c' s' observed' hc' hs' =>
      simp only [ofCall, HookKey.mk.injEq] at hkey
      obtain ⟨-, hid, hsignature, hadjustment⟩ := hkey
      obtain rfl := convention_eq hc hc' hid
      obtain rfl : s = s' := signature_eq hsignature fun x hx y hy hid => by
        obtain ⟨_, hx⟩ := hs x hx
        obtain ⟨_, hy⟩ := hs' y hy
        exact hn.forCall?_inj hx hy hid
      simp only [ofCall, hadjustment]

/-- A plan for what was registered and recorded before was possible before. -/
theorem of_grown (h : p.Possible cs' ss') (hcs : cs.Extends cs') (hss : ss.Grows ss')
    (hc : ∃ c, cs.get? p.key.convention = some c) (hs : ∀ ref ∈ p.key.signature, ss.Recorded ref) :
    p.Possible cs ss := by
  have hget : ∀ {c : ConventionId × Convention}, (∃ c', cs.get? c.1 = some c') →
      cs'.get? c.1 = some c.2 → cs.get? c.1 = some c.2 := by
    intro c ⟨c', hc'⟩ hc
    rw [hcs.get? hc'] at hc
    rw [hc', hc]
  cases h with
  | entry f c s hc' hs' =>
    refine .entry f c s (hget hc hc') fun x hx => ?_
    obtain ⟨callee, hcallee⟩ := hs' x hx
    exact ⟨callee, hss.function? hcallee (hs _ (Option.map_eq_some_iff.mpr ⟨x, hx, rfl⟩))⟩
  | ret r c s hc' hs' =>
    refine .ret r c s (hget hc hc') fun x hx => ?_
    obtain ⟨callee, hcallee⟩ := hs' x hx
    exact ⟨callee, hss.function? hcallee (hs _ (Option.map_eq_some_iff.mpr ⟨x, hx, rfl⟩))⟩
  | call r c s observed hc' hs' =>
    refine .call r c s observed (hget hc hc') fun x hx => ?_
    obtain ⟨callee, hcallee⟩ := hs' x hx
    exact ⟨callee, hss.forCall? hcallee (hs _ (Option.map_eq_some_iff.mpr ⟨x, hx, rfl⟩))⟩

end Plan.Possible

/-! ## The cache -/

/-- Whatever plan has the key of a built hook has its effects. -/
structure Hooks.Coherent (h : Hooks) (cs : Conventions) (ss : Signatures) : Prop where
  effects : ∀ {k}, k ∈ h.built → ∀ p : Plan, p.Possible cs ss → p.key = k.key →
    p.effects = k.effects
  convention : ∀ {k}, k ∈ h.built → ∃ c, cs.get? k.key.convention = some c
  recorded : ∀ {k}, k ∈ h.built → ∀ ref ∈ k.key.signature, ss.Recorded ref

namespace Hooks.Coherent

variable {h h' : Hooks} {cs cs' : Conventions} {ss ss' : Signatures}

theorem congr (hc : h.Coherent cs ss) (hb : h'.built = h.built) : h'.Coherent cs ss := by
  constructor
  · rw [hb]
    exact hc.effects
  · rw [hb]
    exact hc.convention
  · rw [hb]
    exact hc.recorded

theorem grow (hc : h.Coherent cs ss) (hcs : cs.Extends cs') (hss : ss.Grows ss') :
    h.Coherent cs' ss' := by
  constructor
  · intro k hk p hp hkey
    exact hc.effects hk p (hp.of_grown hcs hss (hkey ▸ hc.convention hk) (hkey ▸ hc.recorded hk)) hkey
  · intro k hk
    obtain ⟨c, hget⟩ := hc.convention hk
    exact ⟨c, hcs.get? hget⟩
  · exact fun hk ref href => hss.recorded (hc.recorded hk ref href)

end Hooks.Coherent

namespace Signatures

theorem grows_refl (ss : Signatures) : ss.Grows ss :=
  ⟨id, fun h _ => h, fun h _ => h⟩

end Signatures

namespace Bench

variable {b b' : Bench} {detector : Option Detector} {signatures : Signatures}
  {wanted : Anchor → Prop}

theorem obtain_coherent (hc : b.hooks.Coherent b.conventions.value signatures)
    (hn : signatures.Numbered) {p : Plan} (hp : p.Possible b.conventions.value signatures) :
    (b.obtain p).2.hooks.Coherent b.conventions.value signatures := by
  cases h : b.hooks.cached? p.key with
  | some hook =>
    rw [obtain_of_cached h]
    exact hc
  | none =>
    rw [obtain_of_none h]
    constructor
    · intro k hk q hq hkey
      rcases mem_concat_built.mp hk with hk | rfl
      · exact hc.effects hk q hq hkey
      · exact hq.effects_eq hp hn hkey
    · intro k hk
      rcases mem_concat_built.mp hk with hk | rfl
      · exact hc.convention hk
      · exact hp.convention
    · intro k hk
      rcases mem_concat_built.mp hk with hk | rfl
      · exact hc.recorded hk
      · exact hp.recorded hn

theorem Move.coherent (h : Move detector signatures wanted b b') (hn : signatures.Numbered)
    (hc : b.hooks.Coherent b.conventions.value signatures) :
    b'.hooks.Coherent b'.conventions.value signatures := by
  have hextends := h.extends
  cases h with
  | start s =>
    rw [start_eq]
    exact hc.congr rfl
  | resolve callee =>
    obtain ⟨cs, asked, heq, -⟩ := b.resolve_snd detector callee
    rw [heq] at hextends ⊢
    exact hc.grow hextends signatures.grows_refl
  | detach a =>
    rw [detach_conventions]
    exact hc.congr (b.detach_built a)
  | obtain p ha hw hp =>
    rw [obtain_conventions]
    exact obtain_coherent hc hn hp
  | count | place | remember | forget => exact hc.congr rfl

theorem Moves.coherent (h : Moves detector signatures wanted b b') (hn : signatures.Numbered)
    (hc : b.hooks.Coherent b.conventions.value signatures) :
    b'.hooks.Coherent b'.conventions.value signatures := by
  induction h with
  | refl => exact hc
  | tail _ hm ih => exact hm.coherent hn ih

end Bench

namespace Round

variable {x x' : Sources × Round} {serves : Function → Snapshot → Prop}

structure Coherent (x : Sources × Round) : Prop where
  numbered : x.1.signatures.value.Numbered
  hooks : x.2.hooks.Coherent x.2.conventions.value x.1.signatures.value

theorem Fresh.coherent {sources : Sources} {r : Round} (h : r.Fresh)
    (hn : sources.signatures.value.Numbered) : Coherent (sources, r) := by
  refine ⟨hn, ?_⟩
  rw [h.hooks]
  constructor <;> · intro k hk; simp [Hooks.empty] at hk

theorem Turn.coherent (h : Turn serves x x') (hx : x.2.InOrder) (hc : Coherent x) : Coherent x' := by
  obtain ⟨hn, hc⟩ := hc
  cases h with
  | conventions sources r cs hcs => exact ⟨hn, hc.grow hcs (Signatures.grows_refl _)⟩
  | signFunction sources r callee s =>
    exact ⟨hn.setFunction callee s, hc.grow List.prefix_rfl (Signatures.grows_setFunction _ _ _)⟩
  | signCall sources r call s =>
    exact ⟨hn.setCall call s, hc.grow List.prefix_rfl (Signatures.grows_setCall _ _ _)⟩
  | detector | edit | note => exact ⟨hn, hc⟩
  | observe sources r f s =>
    refine ⟨hn, hc.congr ?_⟩
    rw [Hooks.observe_fields]
  | instrument sources r f s hf hs =>
    refine ⟨hn, ?_⟩
    rcases instrument_cases r sources s (hx.getElem? hf) with heq | ⟨-, hm⟩
    · rw [heq]
      exact hc
    · have hmoves : Bench.Moves sources.detector sources.signatures.value (· ∈ s.anchors f.id)
          (r.bench f) _ := .head (.start _ s) hm
      rw [left_instrument]
      exact hmoves.coherent hn hc
  | deinstrument sources r f hf =>
    have hmoves : Bench.Moves none sources.signatures.value (fun _ => False) (r.bench f) _ :=
      (r.bench f).deinstrument_moves
    exact ⟨hn, hmoves.coherent hn hc⟩

theorem Turns.coherent (h : Turns serves x x') (hx : x.2.InOrder) (hc : Coherent x) :
    Coherent x' := by
  induction h with
  | refl => exact hc
  | tail hts ht ih => exact ht.coherent (Turns.inOrder hts hx) ih

end Round

end CallEffects
