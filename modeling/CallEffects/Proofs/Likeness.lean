import CallEffects.Proofs.Rounds

/-!
# Functions at rest are alike

What a hook puts into a function is spelled out by its plan; only the numbers of the statements tell
when it was built. A function at rest carries the hooks that its plans ask for, and the plans depend
on the registries, on what has been observed and on the targets of its calls. The target of a call
depends on the calls in front of it. So two functions with the same code that are at rest differ in
the numbers of their hook statements at most, unless the indirect calls on their loops do different
things to what is known: around a loop a hook can keep the constant that it was attached for.
-/

namespace CallEffects

open Std

/-! ## Numbers -/

/-- The statement without the number that a hook statement has been given. -/
def Statement.unnumbered (s : Statement) : Statement :=
  if s.isSynthetic then { s with id := 0 } else s

def Block.unnumbered (b : Block) : Block :=
  { b with statements := b.statements.map Statement.unnumbered }

def Function.unnumbered (f : Function) : Function :=
  { f with blocks := f.blocks.map Block.unnumbered, nextStatement := 0 }

namespace Statement

theorem kind_unnumbered (s : Statement) : s.unnumbered.kind = s.kind := by
  unfold unnumbered
  split <;> rfl

theorem origin_unnumbered (s : Statement) : s.unnumbered.origin = s.origin := by
  unfold unnumbered
  split <;> rfl

theorem isHookedCall_unnumbered (next : Option Statement) :
    isHookedCall (next.map unnumbered) = isHookedCall next := by
  cases next with
  | none => rfl
  | some s => simp only [isHookedCall, Option.map_some, Option.any_some, origin_unnumbered]

end Statement

theorem walk_unnumbered (ss : List Statement) (known : Constants) :
    walk (ss.map Statement.unnumbered) known = walk ss known := by
  induction ss generalizing known with
  | nil => rfl
  | cons s ss ih =>
    have hnext : isHookedCall (ss.map Statement.unnumbered).head? = isHookedCall ss.head? := by
      rw [List.head?_map, Statement.isHookedCall_unnumbered]
    have htransfer : s.unnumbered.transfer (ss.map Statement.unnumbered).head? known =
        s.transfer ss.head? known := by
      simp only [Statement.transfer, Statement.kind_unnumbered, hnext]
    rw [List.map_cons, walk, walk, htransfer, ih]

/-! ## Hooks spell out their effects -/

/-- But for the numbers the statements of the hook are what its effects say. -/
def Hook.Spelled (k : Hook) : Prop :=
  k.statements.map Statement.unnumbered =
    k.effects.kinds.map (Statement.synthetic 0 k.anchor.kind)

def Hooks.Spelled (h : Hooks) : Prop := ∀ k ∈ h.built, k.Spelled

theorem Hook.build_spelled (id : HookId) (p : Plan) (f : Function) : (build id p f).1.Spelled := by
  have hstatements : (build id p f).1.statements.map Statement.unnumbered =
      ((p.effects.kinds.zipIdx f.nextStatement).map Prod.fst).map
        (Statement.synthetic 0 p.key.anchor.kind) := by
    simp only [build, List.map_map]
    rfl
  rw [Spelled, hstatements, List.zipIdx_map_fst]
  rfl

namespace Bench

variable {b b' : Bench} {detector : Option Detector} {signatures : Signatures}
variable {wanted : Anchor → Prop}

theorem Move.spelled (h : Move detector signatures wanted b b') (hb : b.hooks.Spelled) :
    b'.hooks.Spelled := by
  cases h with
  | start s =>
    rw [start_eq]
    exact hb
  | resolve callee =>
    obtain ⟨cs, asked, heq, -⟩ := b.resolve_snd detector callee
    rw [heq]
    exact hb
  | detach a =>
    intro k hk
    rw [detach_built] at hk
    exact hb k hk
  | obtain p =>
    cases hcached : b.hooks.cached? p.key with
    | some hook =>
      rw [obtain_of_cached hcached]
      exact hb
    | none =>
      rw [obtain_of_none hcached]
      intro k hk
      rcases List.mem_append.mp hk with hk | hk
      · exact hb k hk
      · rw [List.mem_singleton.mp hk]
        exact Hook.build_spelled _ p b.function
  | count | place | remember | forget => exact hb

theorem Moves.spelled (h : Moves detector signatures wanted b b') (hb : b.hooks.Spelled) :
    b'.hooks.Spelled := by
  induction h with
  | refl => exact hb
  | tail _ hm ih => exact hm.spelled ih

end Bench

namespace Round

variable {x x' : Sources × Round} {serves : Function → Snapshot → Prop}

theorem Turn.spelled (h : Turn serves x x') (hx : x.2.InOrder) (hs : x.2.hooks.Spelled) :
    x'.2.hooks.Spelled := by
  cases h with
  | conventions | signFunction | signCall | detector | edit | note => exact hs
  | observe sources r f s =>
    rw [Hooks.observe_fields]
    exact hs
  | instrument sources r f s hf =>
    rcases instrument_cases r sources s (hx.getElem? hf) with heq | ⟨-, hm⟩
    · rwa [heq]
    · rw [left_instrument]
      exact Bench.Moves.spelled (.head (.start _ s) hm) hs
  | deinstrument sources r f hf =>
    have hm : Bench.Moves none .empty (fun _ => False) (r.bench f) _ :=
      (r.bench f).deinstrument_moves
    exact Bench.Moves.spelled hm hs

theorem Turns.spelled (h : Turns serves x x') (hx : x.2.InOrder) (hs : x.2.hooks.Spelled) :
    x'.2.hooks.Spelled := by
  induction h with
  | refl => exact hs
  | tail hts ht ih => exact ht.spelled (Turns.inOrder hts hx) ih

end Round

/-! ## What matches but for its numbers -/

namespace Hooks

variable {h h' : Hooks} {i : FunctionId} {b : BlockId} {a : Anchor} {s : Statement}
variable {ss : List Statement}

/-- The anchor carries the same statements in either table but for their numbers. -/
def Matches (h h' : Hooks) (a : Anchor) : Prop :=
  (h'.attached a).map Statement.unnumbered = (h.attached a).map Statement.unnumbered

theorem matches_of_none (hn : h.active[a]? = none) (hn' : h'.active[a]? = none) :
    h.Matches h' a := by
  rw [Matches, attached_of_none hn, attached_of_none hn']

theorem around_unnumbered (hm : ∀ a, s.anchor? i = some a → h.Matches h' a) :
    (h'.around i s).map Statement.unnumbered = (h.around i s).map Statement.unnumbered := by
  unfold around
  split
  · next hk =>
    have hcall := hm (.call ⟨i, s.id⟩) (by simp only [Statement.anchor?, hk])
    rw [List.map_cons, List.map_cons, hcall]
  · next hk =>
    have hret := hm (.ret ⟨i, s.id⟩) (by simp only [Statement.anchor?, hk])
    rw [List.map_append, List.map_append, hret]
  · rfl

theorem woven_unnumbered (he : h.Matches h' (.entry i))
    (hm : ∀ s ∈ ss, ∀ a, s.anchor? i = some a → h.Matches h' a) :
    (h'.woven i b ss).map Statement.unnumbered = (h.woven i b ss).map Statement.unnumbered := by
  have hbody : (ss.flatMap (h'.around i)).map Statement.unnumbered =
      (ss.flatMap (h.around i)).map Statement.unnumbered := by
    rw [List.map_flatMap, List.map_flatMap]
    exact List.flatMap_congr fun s hs => around_unnumbered (hm s hs)
  rw [woven, woven, List.map_append, List.map_append, hbody]
  split
  · rw [he]
  · rfl

theorem Matches.alike (hm : h.Matches h' (.call ⟨i, s.id⟩)) (hs : s.kind.isCall) :
    h.Alike h' i s := by
  have haround : (h'.around i s).map Statement.unnumbered =
      (h.around i s).map Statement.unnumbered := by
    refine around_unnumbered fun a ha => ?_
    rcases Statement.anchor?_cases ha with ⟨target, -, rfl⟩ | ⟨pop, hk, -⟩
    · exact hm
    · rw [hk] at hs
      cases hs
  intro known
  rw [← walk_unnumbered, ← haround, walk_unnumbered]

end Hooks

/-! ## Two benches at rest -/

namespace Bench

variable {b b' : Bench} {sources : Sources} {cs : Conventions} {a : Anchor} {plan : Option Plan}
variable {x y : CallSite} {s t : Statement} {c : BlockId} {i : Nat}

/-- A bench at rest, with everything that goes for an engine whose registry was `cs` at first. -/
structure Finished (sources : Sources) (cs : Conventions) (b : Bench) : Prop where
  sound : b.Sound
  orderly : b.function.Orderly
  rests : b.Rests sources (.take b.function)
  reads : b.function.Reads b.hooks
  coherent : b.hooks.Coherent b.conventions.value sources.signatures.value
  spelled : b.hooks.Spelled
  asked : Conventions.Asked sources.detector cs b.conventions.value

theorem Finished.attached (h : b.Finished sources cs) (hb : b.Bears a plan)
    (hp : ∀ p ∈ plan, p.Possible b.conventions.value sources.signatures.value) :
    (b.hooks.attached a).map Statement.unnumbered =
      (plan.map fun p => p.effects.kinds.map (Statement.synthetic 0 a.kind)).getD [] := by
  cases hk : b.hooks.active[a]? with
  | none =>
    have hnone : plan = none := by
      have hiff := hb.isSome_iff
      rw [hk] at hiff
      simpa using hiff
    rw [Hooks.attached_of_none hk, hnone]
    rfl
  | some k =>
    obtain ⟨p, rfl, -, heffects⟩ := hb.hook h.coherent h.sound hp hk
    obtain ⟨hbuilt, hanchor⟩ := h.sound.1.active_built hk
    rw [Hooks.attached_of_some hk, h.spelled k hbuilt, hanchor, ← heffects]
    rfl

/-- Benches at rest that hold the same code and have observed the same. -/
structure Peers (sources : Sources) (cs : Conventions) (b b' : Bench) : Prop where
  left : b.Finished sources cs
  right : b'.Finished sources cs
  same : b.function.SameCode b'.function
  observed : b'.hooks.observed = b.hooks.observed

namespace Peers

theorem rehooked (h : Peers sources cs b b') :
    b.function.Rehooked b'.function b.hooks b'.hooks :=
  ⟨h.same, h.left.sound.1, h.right.sound.1, h.left.reads, h.right.reads⟩

theorem of_bears (h : Peers sources cs b b') (hb : b.Bears a plan) (hb' : b'.Bears a plan)
    (hp : ∀ p ∈ plan, p.Possible b.conventions.value sources.signatures.value)
    (hp' : ∀ p ∈ plan, p.Possible b'.conventions.value sources.signatures.value) :
    b.hooks.Matches b'.hooks a :=
  (h.right.attached hb' hp').trans (h.left.attached hb hp).symm

theorem of_unlisted (h : Peers sources cs b b') (ha : a.function = b.function.id)
    (hnot : a ∉ (Snapshot.take b.function).anchors b.function.id)
    (hnot' : a ∉ (Snapshot.take b'.function).anchors b.function.id) :
    b.hooks.Matches b'.hooks a := by
  have hid := h.same.id_eq
  refine Hooks.matches_of_none (h.left.rests.only a ha hnot).1 ?_
  exact (h.right.rests.only a (ha.trans hid.symm) (hid.symm ▸ hnot')).1

theorem lookup?_eq (h : Peers sources cs b b') {callee : Callee}
    (hd : Conventions.Decided sources.detector b.conventions.value callee)
    (hd' : Conventions.Decided sources.detector b'.conventions.value callee) :
    b'.conventions.value.lookup? callee = b.conventions.value.lookup? callee :=
  (h.right.asked.lookup?_eq hd').trans (h.left.asked.lookup?_eq hd).symm

theorem own_eq (h : Peers sources cs b b') :
    b'.conventions.value.lookup? (.ofFunction b.function) =
      b.conventions.value.lookup? (.ofFunction b.function) :=
  h.lookup?_eq h.left.rests.own (h.same.ofFunction_eq ▸ h.right.rests.own)

theorem entry (h : Peers sources cs b b') : b.hooks.Matches b'.hooks (.entry b.function.id) := by
  have hplan : b'.entryPlan sources.signatures.value = b.entryPlan sources.signatures.value := by
    rw [entryPlan, h.same.ofFunction_eq, h.same.id_eq, h.own_eq, entryPlan]
  have hbears := h.right.rests.entry
  rw [hplan, h.same.id_eq] at hbears
  refine h.of_bears h.left.rests.entry hbears (fun p hp => (entryPlan_possible b p hp).2) ?_
  rw [← hplan]
  exact fun p hp => (entryPlan_possible b' p hp).2

theorem ret (h : Peers sources cs b b') (id : StatementId) :
    b.hooks.Matches b'.hooks (.ret ⟨b.function.id, id⟩) := by
  have hreturns := Function.take_returns_of_code h.same.code_eq
  by_cases hret : id ∈ (Snapshot.take b.function).returns
  · have hplan : b'.returnPlan sources.signatures.value id =
        b.returnPlan sources.signatures.value id := by
      rw [returnPlan, h.same.ofFunction_eq, h.same.id_eq, h.own_eq, returnPlan]
    have hbears := h.right.rests.returns id (hreturns.symm ▸ hret)
    rw [hplan, h.same.id_eq] at hbears
    refine h.of_bears (h.left.rests.returns id hret) hbears
      (fun p hp => (returnPlan_possible b id p hp).2) ?_
    rw [← hplan]
    exact fun p hp => (returnPlan_possible b' id p hp).2
  · refine h.of_unlisted rfl (mt Snapshot.ret_mem_anchors.mp hret) ?_
    rw [Snapshot.ret_mem_anchors, hreturns]
    exact hret

theorem call_of_target (h : Peers sources cs b b') (hx : x ∈ (Snapshot.take b.function).calls)
    (hy : y ∈ (Snapshot.take b'.function).calls) (hs : y.statement = x.statement)
    (ht : y.target = x.target) : b.hooks.Matches b'.hooks (.call (b.callAt x)) := by
  obtain ⟨hbears, hdecided⟩ := h.left.rests.calls x hx
  obtain ⟨hbears', hdecided'⟩ := h.right.rests.calls y hy
  have hcall : b'.callAt y = b.callAt x := by rw [callAt, hs, h.same.id_eq, callAt]
  rw [hcall, ht] at hdecided'
  have hplan : b'.callPlan sources.signatures.value y = b.callPlan sources.signatures.value x := by
    rw [b'.callPlan_of_target _ hs ht]
    exact callPlan_congr h.same.id_eq (h.lookup?_eq hdecided hdecided') h.observed
  rw [hcall, hplan] at hbears'
  refine h.of_bears hbears hbears' (b.callPlan_possible _ x) ?_
  rw [← hplan]
  exact b'.callPlan_possible _ y

/-- A call carries one hook if the calls in front of it do the same. -/
theorem call_of_alike (h : Peers sources cs b b') (hl : b.function.Line c i t)
    (ha : t.isIndirectCall → ∀ s, b.function.Precedes s t → s.kind.isCall →
      b.hooks.Alike b'.hooks b.function.id s) :
    b.hooks.Matches b'.hooks (.call ⟨b.function.id, t.id⟩) := by
  by_cases hlisted : ∃ x ∈ (Snapshot.take b.function).calls, x.statement = t.id
  · obtain ⟨x, hx, hxt⟩ := hlisted
    obtain ⟨t', ht', -, ⟨c', i', hl'⟩, y, hy, hyx, htarget⟩ := h.rehooked.exists_call hx
    obtain rfl : t' = t :=
      h.left.orderly.numbered.eq_of_id_eq hl'.mem.1 hl.mem.1 (ht'.trans hxt)
    have hmatches := h.call_of_target hx hy hyx (htarget ha)
    rwa [callAt, hxt] at hmatches
  · refine h.of_unlisted rfl (mt Snapshot.call_mem_anchors.mp hlisted) ?_
    rw [Snapshot.call_mem_anchors]
    rintro ⟨y, hy, hyt⟩
    obtain ⟨-, -, -, -, x, hx, hxy, -⟩ := h.rehooked.symm.exists_call hy
    exact hlisted ⟨x, hx, hxy.trans hyt⟩

/-- All calls carry one hook if the indirect ones on loops do the same: by induction on the rank,
since a call that precedes another one and is on no loop has a lower rank or is direct. -/
theorem call (h : Peers sources cs b b')
    (hloops : ∀ s ∈ b.function.statements, s.isIndirectCall → b.function.OnLoop s →
      b.hooks.Alike b'.hooks b.function.id s) (hl : b.function.Line c i t) :
    b.hooks.Matches b'.hooks (.call ⟨b.function.id, t.id⟩) := by
  induction hn : b.function.rank t using Nat.strong_induction_on generalizing t c i with
  | _ n ih =>
    refine h.call_of_alike hl fun _ s hs hcall => ?_
    have hplaces := hs
    obtain ⟨q, j, -, -, hls, -, -⟩ := hplaces
    by_cases hindirect : s.isIndirectCall
    · by_cases hloop : b.function.OnLoop s
      · exact hloops s hls.mem.1 hindirect hloop
      · have hlt := hs.rank_lt h.left.orderly.numbered hindirect hloop
        exact (ih _ (hn ▸ hlt) hls rfl).alike hcall
    · exact (h.call_of_alike hls fun hs => absurd hs hindirect).alike hcall

theorem unnumbered_eq (h : Peers sources cs b b') (hname : b'.function.name = b.function.name)
    (hloops : ∀ s ∈ b.function.statements, s.isIndirectCall → b.function.OnLoop s →
      b.hooks.Alike b'.hooks b.function.id s) :
    b'.function.unnumbered = b.function.unnumbered := by
  have hblocks : b'.function.blocks.map Block.unnumbered =
      b.function.blocks.map Block.unnumbered := by
    apply List.ext_getElem?
    intro c
    rw [List.getElem?_map, List.getElem?_map]
    cases hc : b.function.blocks[c]? with
    | none =>
      have hlen := congrArg List.length h.same.code_eq
      simp only [Function.code, List.length_map] at hlen
      rw [List.getElem?_eq_none_iff, ← hlen, ← List.getElem?_eq_none_iff] at hc
      rw [hc]
    | some block =>
      obtain ⟨block', hc', hbare⟩ := Function.block_of_code h.same.code_eq hc
      obtain ⟨hstatements, hstatements', hsuccessors⟩ := h.rehooked.block hc hc'
      have haddress : block'.address = block.address := by
        change block'.bare.address = block.bare.address
        rw [hbare]
      have hwoven : block'.statements.map Statement.unnumbered =
          block.statements.map Statement.unnumbered := by
        rw [hstatements, hstatements']
        refine Hooks.woven_unnumbered h.entry fun s hs a hsa => ?_
        obtain ⟨i, hi⟩ := List.mem_iff_getElem?.mp hs
        rcases Statement.anchor?_cases hsa with ⟨-, -, rfl⟩ | ⟨-, -, rfl⟩
        · exact h.call hloops ⟨block, hc, hi⟩
        · exact h.ret s.id
      rw [hc', Option.map_some, Option.map_some, Block.unnumbered, Block.unnumbered, haddress,
        hwoven, hsuccessors]
  rw [Function.unnumbered, Function.unnumbered, hblocks, h.same.id_eq, hname,
    h.same.entryAddress_eq, h.same.revision_eq]

end Peers

end Bench

end CallEffects
