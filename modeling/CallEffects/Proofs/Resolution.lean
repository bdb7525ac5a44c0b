import CallEffects.Proofs.Reading
import CallEffects.Proofs.Worklist
import Mathlib.Data.List.Forall2

/-!
# Hooked calls resolve more calls

A call that gets a hook no longer destroys every fact, and no other hook takes a fact away that was
there before: hooks of returns only read, and at the entry nothing is known that its hook could
destroy. So with more hooks attached at least as much is known everywhere, the same calls and
returns are reachable, and a call whose target was known keeps it.
-/

namespace CallEffects

open Std

variable {known known' : Constants} {s : Statement} {xs ys : List Statement}

def callsOf (ss : List Statement) (known : Constants) : List CallSite :=
  (statesBefore ss known).filterMap fun (s, next, c) => callSite? s next c

theorem callsOf_cons (x : Statement) (xs : List Statement) (known : Constants) :
    callsOf (x :: xs) known =
      (callSite? x xs.head? known).toList ++ callsOf xs (x.transfer xs.head? known) := by
  unfold callsOf
  rw [statesBefore, List.filterMap_cons]
  dsimp only
  cases callSite? x xs.head? known <;> rfl

theorem Statement.transfer_congr {next next' : Option Statement} (s : Statement) (known : Constants)
    (h : isHookedCall next = isHookedCall next') :
    s.transfer next known = s.transfer next' known := by
  simp only [Statement.transfer, h]

theorem callSite?_congr {next next' : Option Statement} (s : Statement) (known : Constants)
    (h : isHookedCall next = isHookedCall next') :
    callSite? s next known = callSite? s next' known := by
  simp only [callSite?, h]

theorem isHookedCall_head?_append (hy : isHookedCall ys.head? = false) :
    isHookedCall (xs ++ ys).head? = isHookedCall xs.head? := by
  cases xs with
  | nil => exact hy
  | cons x xs => rfl

/-- What does not start with a statement of a call hook can be walked on its own. -/
theorem walk_append (hy : isHookedCall ys.head? = false) :
    walk (xs ++ ys) known = walk ys (walk xs known) := by
  induction xs generalizing known with
  | nil => rfl
  | cons x xs ih =>
    rw [List.cons_append, walk, walk, ih, x.transfer_congr known (isHookedCall_head?_append hy)]

/-- The same for what is collected from the statements of a run, if the statement after one is only
asked whether it belongs to a call hook. -/
theorem filterMap_statesBefore_append {α : Type}
    {collect : Statement × Option Statement × Constants → Option α}
    (hc : ∀ (s : Statement) (known : Constants) {next next' : Option Statement},
      isHookedCall next = isHookedCall next' → collect (s, next, known) = collect (s, next', known))
    (hy : isHookedCall ys.head? = false) :
    (statesBefore (xs ++ ys) known).filterMap collect =
      (statesBefore xs known).filterMap collect ++
        (statesBefore ys (walk xs known)).filterMap collect := by
  induction xs generalizing known with
  | nil => rfl
  | cons x xs ih =>
    have hhead : isHookedCall (xs ++ ys).head? = isHookedCall xs.head? :=
      isHookedCall_head?_append hy
    rw [List.cons_append, statesBefore, statesBefore, List.filterMap_cons, List.filterMap_cons,
      hc x known hhead, x.transfer_congr known hhead, ih, walk]
    cases collect (x, xs.head?, known) <;> rfl

theorem callsOf_append (hy : isHookedCall ys.head? = false) :
    callsOf (xs ++ ys) known = callsOf xs known ++ callsOf ys (walk xs known) :=
  filterMap_statesBefore_append (fun s known _ _ h => callSite?_congr s known h) hy

theorem walk_eq_self (h : ∀ t ∈ xs, ∀ next, t.transfer next known = known) :
    walk xs known = known := by
  induction xs with
  | nil => rfl
  | cons x xs ih =>
    rw [walk, h x List.mem_cons_self, ih fun t ht => h t (List.mem_cons_of_mem _ ht)]

theorem callsOf_eq_nil (h : ∀ t ∈ xs, t.kind.isCall = false) : callsOf xs known = [] := by
  induction xs generalizing known with
  | nil => rfl
  | cons x xs ih =>
    have hsite : callSite? x xs.head? known = none := by
      have hx := h x List.mem_cons_self
      unfold callSite?
      split
      · next target hk =>
        rw [hk] at hx
        cases hx
      · rfl
    rw [callsOf_cons, hsite, ih fun t ht => h t (List.mem_cons_of_mem _ ht)]
    rfl

theorem exists_of_mem {α β : Type} {R : α → β → Prop} {as : List α} {bs : List β}
    (h : List.Forall₂ R as bs) {a : α} (ha : a ∈ as) : ∃ b ∈ bs, R a b := by
  induction h with
  | nil => cases ha
  | cons hone _ ih =>
    rcases List.mem_cons.mp ha with rfl | ha
    · exact ⟨_, List.mem_cons_self, hone⟩
    · obtain ⟨b, hb, hab⟩ := ih ha
      exact ⟨b, List.mem_cons_of_mem _ hb, hab⟩

/-- The same call, with the same target unless it had none. -/
def CallSite.Sharpens (x y : CallSite) : Prop :=
  y.statement = x.statement ∧ (y.target = x.target ∨ x.target = none)

/-- Whether the target of the call has to be looked up. -/
def Statement.isIndirectCall (s : Statement) : Bool :=
  match s.kind with
  | .call (.indirect _) => true
  | _ => false

namespace Hooks

variable {h h' : Hooks} {i : FunctionId} {b : BlockId} {ss : List Statement}

/-- Every hook active in the function stays active. -/
def Grows (h h' : Hooks) (i : FunctionId) : Prop :=
  ∀ (a : Anchor) (k : Hook), a.function = i → h.active[a]? = some k → h'.active[a]? = some k

theorem Grows.attached (hg : h.Grows h' i) {a : Anchor} (ha : a.function = i) :
    h.attached a = [] ∨ h'.attached a = h.attached a := by
  cases hk : h.active[a]? with
  | none => exact .inl (attached_of_none hk)
  | some k => exact .inr (by rw [attached_of_some hk, attached_of_some (hg a k ha hk)])

theorem Consistent.attached (hc : h.Consistent) {a : Anchor} {t : Statement} (ht : t ∈ h.attached a) :
    t.origin = .synthetic a.kind ∧ t.kind.fits a.kind := by
  cases hk : h.active[a]? with
  | none => simp [attached_of_none hk] at ht
  | some k =>
    obtain ⟨hbuilt, rfl⟩ := hc.active_built hk
    rw [attached_of_some hk] at ht
    refine ⟨hc.origin hbuilt t ht, hc.fitting hbuilt _ ?_⟩
    rw [← hc.kinds hbuilt]
    exact List.mem_map_of_mem ht

theorem Consistent.attached_not_call (hc : h.Consistent) {a : Anchor} :
    ∀ t ∈ h.attached a, t.kind.isCall = false := by
  intro t ht
  have hhook := StatementKind.isHookOnly_of_fits (hc.attached ht).2
  cases hk : t.kind with
  | call target =>
    rw [hk] at hhook
    cases hhook
  | _ => rfl

theorem Consistent.walk_ret (hc : h.Consistent) (r : StatementRef) (known : Constants) :
    walk (h.attached (.ret r)) known = known := by
  refine walk_eq_self fun t ht next => ?_
  have hfits := (hc.attached ht).2
  unfold StatementKind.fits at hfits
  simp only [Anchor.kind] at hfits
  split at hfits
  · next hk => simp only [Statement.transfer, hk]
  · cases hfits

theorem Consistent.walk_entry (hc : h.Consistent) (f : FunctionId) :
    walk (h.attached (.entry f)) ∅ = ∅ := by
  refine walk_eq_self fun t ht next => ?_
  have hfits := (hc.attached ht).2
  unfold StatementKind.fits at hfits
  simp only [Anchor.kind] at hfits
  split at hfits
  · next hk =>
    simp only [Statement.transfer, hk]
    exact Table.erase_eq_self (by simp)
  · cases hfits

theorem isHookedCall_of_lifted (hs : s.isSynthetic = false) : isHookedCall (some s) = false := by
  cases ho : s.origin with
  | lifted => simp [isHookedCall, ho]
  | synthetic hook => simp [Statement.isSynthetic, ho] at hs

/-- No lifted statement looks like a call hook, even with the hook of a return before it. -/
theorem Consistent.plain (hc : h.Consistent) (hl : ∀ s ∈ ss, s.isSynthetic = false) :
    isHookedCall (ss.flatMap (h.around i)).head? = false := by
  cases ss with
  | nil => rfl
  | cons s ss =>
    have hs := isHookedCall_of_lifted (hl s List.mem_cons_self)
    rw [List.flatMap_cons]
    unfold around
    split
    · exact hs
    · cases hat : h.attached (.ret ⟨i, s.id⟩) with
      | nil => exact hs
      | cons t ts =>
        have ht : t ∈ h.attached (.ret ⟨i, s.id⟩) := hat ▸ List.mem_cons_self
        simp [isHookedCall, (hc.attached ht).1, Anchor.kind]
    · exact hs

/-! ## One lifted statement with its hook -/

theorem walk_around_ret (hc : h.Consistent) {pop : Nat} (hk : s.kind = .ret pop)
    (hs : s.isSynthetic = false) : walk (h.around i s) known = known := by
  have haround : h.around i s = h.attached (.ret ⟨i, s.id⟩) ++ [s] := by simp only [around, hk]
  have hplain : isHookedCall [s].head? = false := isHookedCall_of_lifted hs
  rw [haround, walk_append hplain, hc.walk_ret]
  simp only [walk, Statement.transfer, hk]

/-- A call without a hook destroys everything, and one with a hook is not touched by more hooks. -/
theorem around_within (hc : h.Consistent) (hc' : h'.Consistent) (hg : h.Grows h' i)
    (hk : known.Within known') (hs : s.isSynthetic = false) :
    (walk (h.around i s) known).Within (walk (h'.around i s) known') := by
  cases hkind : s.kind with
  | call target =>
    rcases hg.attached (a := .call ⟨i, s.id⟩) rfl with hnone | hsame
    · have hempty : walk (h.around i s) known = ∅ := by
        simp only [around, hkind, hnone, walk, Statement.transfer, List.head?_nil, isHookedCall,
          Option.any_none, Bool.false_eq_true, if_false]
      rw [hempty]
      exact Constants.empty_within _
    · have haround : h'.around i s = h.around i s := by simp only [around, hkind, hsame]
      rw [haround]
      exact hk.walk _
  | ret pop =>
    rw [walk_around_ret hc hkind hs, walk_around_ret hc' hkind hs]
    exact hk
  | _ =>
    simp only [around, hkind]
    exact hk.walk _

theorem callsOf_around_call (hc : h.Consistent) {target : CallTarget} (hk : s.kind = .call target) :
    callsOf (h.around i s) known = [⟨s.id, s.address, target.resolve known,
      isHookedCall (h.attached (.call ⟨i, s.id⟩)).head?⟩] := by
  have haround : h.around i s = s :: h.attached (.call ⟨i, s.id⟩) := by simp only [around, hk]
  rw [haround, callsOf_cons, callsOf_eq_nil hc.attached_not_call]
  simp [callSite?, hk]

theorem callsOf_around_other (hc : h.Consistent) (hk : s.kind.isCall = false) :
    callsOf (h.around i s) known = [] := by
  apply callsOf_eq_nil
  intro t ht
  rcases mem_around_cases ht with rfl | ⟨a, -, ht⟩
  · exact hk
  · exact hc.attached_not_call t ht

theorem around_sharpens (hc : h.Consistent) (hc' : h'.Consistent) (hk : known.Within known') :
    List.Forall₂ CallSite.Sharpens (callsOf (h.around i s) known)
      (callsOf (h'.around i s) known') := by
  cases hcall : s.kind.isCall with
  | false =>
    rw [callsOf_around_other hc hcall, callsOf_around_other hc' hcall]
    exact .nil
  | true =>
    cases hkind : s.kind with
    | call target =>
      rw [callsOf_around_call hc hkind, callsOf_around_call hc' hkind]
      refine .cons ⟨rfl, ?_⟩ .nil
      cases target with
      | direct address => exact .inl rfl
      | indirect l =>
        simp only [CallTarget.resolve]
        cases hl : known[l]? with
        | none => exact .inr rfl
        | some v => exact .inl (hk l v hl)
    | _ =>
      rw [hkind] at hcall
      cases hcall

/-! ## Blocks -/

theorem flatMap_sharpens (hc : h.Consistent) (hc' : h'.Consistent) (hg : h.Grows h' i)
    (hl : ∀ s ∈ ss, s.isSynthetic = false) (hk : known.Within known') :
    (walk (ss.flatMap (h.around i)) known).Within (walk (ss.flatMap (h'.around i)) known') ∧
      List.Forall₂ CallSite.Sharpens (callsOf (ss.flatMap (h.around i)) known)
        (callsOf (ss.flatMap (h'.around i)) known') := by
  induction ss generalizing known known' with
  | nil => exact ⟨hk, .nil⟩
  | cons s ss ih =>
    have hrest : ∀ t ∈ ss, t.isSynthetic = false := fun t ht => hl t (List.mem_cons_of_mem _ ht)
    have hone := around_within hc hc' hg hk (hl s List.mem_cons_self)
    obtain ⟨hwithin, hsharpens⟩ := ih hrest hone
    rw [List.flatMap_cons, List.flatMap_cons, walk_append (hc.plain hrest),
      walk_append (hc'.plain hrest), callsOf_append (hc.plain hrest),
      callsOf_append (hc'.plain hrest)]
    exact ⟨hwithin, List.rel_append (around_sharpens hc hc' hk) hsharpens⟩

/-- Where nothing is known the hook of the entry makes no difference. -/
theorem woven_entry (hc : h.Consistent) (hl : ∀ s ∈ ss, s.isSynthetic = false)
    (h0 : b = Function.entryBlock → known = ∅) :
    walk (h.woven i b ss) known = walk (ss.flatMap (h.around i)) known ∧
      callsOf (h.woven i b ss) known = callsOf (ss.flatMap (h.around i)) known := by
  unfold woven
  split
  · next hb =>
    obtain rfl := h0 hb
    rw [walk_append (hc.plain hl), callsOf_append (hc.plain hl), hc.walk_entry,
      callsOf_eq_nil hc.attached_not_call]
    exact ⟨rfl, rfl⟩
  · exact ⟨rfl, rfl⟩

theorem woven_sharpens (hc : h.Consistent) (hc' : h'.Consistent) (hg : h.Grows h' i)
    (hl : ∀ s ∈ ss, s.isSynthetic = false) (hk : known.Within known')
    (h0 : b = Function.entryBlock → known' = ∅) :
    (walk (h.woven i b ss) known).Within (walk (h'.woven i b ss) known') ∧
      List.Forall₂ CallSite.Sharpens (callsOf (h.woven i b ss) known)
        (callsOf (h'.woven i b ss) known') := by
  have hempty : b = Function.entryBlock → known = ∅ :=
    fun hb => Constants.eq_empty_of_within (h0 hb ▸ hk)
  obtain ⟨hwalk, hcalls⟩ := woven_entry (i := i) hc hl hempty
  obtain ⟨hwalk', hcalls'⟩ := woven_entry (i := i) hc' hl h0
  rw [hwalk, hwalk', hcalls, hcalls']
  exact flatMap_sharpens hc hc' hg hl hk

end Hooks

/-! ## Functions -/

namespace Function

variable {f g : Function} {b q : BlockId}

theorem block_of_code (h : g.code = f.code) {block : Block} (hb : f.blocks[b]? = some block) :
    ∃ block', g.blocks[b]? = some block' ∧ block'.bare = block.bare := by
  have hget : g.code[b]? = f.code[b]? := by rw [h]
  rw [code, code, List.getElem?_map, List.getElem?_map, hb] at hget
  exact Option.map_eq_some_iff.mp hget

theorem edge_of_code (h : g.code = f.code) (hedge : f.Edge q b) : g.Edge q b := by
  obtain ⟨block, hblock, hb⟩ := hedge
  obtain ⟨block', hblock', hbare⟩ := block_of_code h hblock
  have hsame : block'.bare.successors = block.bare.successors := by rw [hbare]
  exact ⟨block', hblock', hsame.symm ▸ hb⟩

theorem reaches_of_code (h : g.code = f.code) (hb : f.Reaches b) : g.Reaches b := by
  have hedges : f.Edge ≤ g.Edge := fun _ _ => edge_of_code h
  exact Relation.ReflTransGen.mono hedges _ _ hb

theorem visited_iff_of_code (h : g.code = f.code) :
    (∃ entry : Constants, g.blockFacts[b]? = some entry) ↔
      ∃ entry : Constants, f.blockFacts[b]? = some entry := by
  have hlen : g.code.length = f.code.length := by rw [h]
  have hreaches : g.Reaches b ↔ f.Reaches b := ⟨reaches_of_code h.symm, reaches_of_code h⟩
  rw [f.blockFacts_solved.mem_iff, g.blockFacts_solved.mem_iff, hreaches]
  simp only [code, List.length_map] at hlen
  rw [hlen]

/-- The function reads as its code with the hooks around it. -/
def Reads (f : Function) (h : Hooks) : Prop :=
  ∀ (b : BlockId) (block : Block), f.blocks[b]? = some block →
    block.statements = h.woven f.id b block.lifted

/-- The functions have the same code and read as it with either hooks around it. -/
structure Rehooked (f g : Function) (h h' : Hooks) : Prop where
  same : f.SameCode g
  consistent : h.Consistent
  consistent' : h'.Consistent
  reads : f.Reads h
  reads' : g.Reads h'

/-- The second one of the functions has more hooks. -/
structure Hooked (f g : Function) (h h' : Hooks) : Prop extends f.Rehooked g h h' where
  grows : h.Grows h' f.id

namespace Rehooked

variable {h h' : Hooks}

theorem symm (hg : f.Rehooked g h h') : g.Rehooked f h' h :=
  ⟨⟨hg.same.id_eq.symm, hg.same.entryAddress_eq.symm, hg.same.revision_eq.symm,
    hg.same.code_eq.symm⟩, hg.consistent', hg.consistent, hg.reads', hg.reads⟩

theorem block (hg : f.Rehooked g h h') {x y : Block} (hx : f.blocks[b]? = some x)
    (hy : g.blocks[b]? = some y) : x.statements = h.woven f.id b x.lifted ∧
      y.statements = h'.woven f.id b x.lifted ∧ y.successors = x.successors := by
  obtain ⟨y', hy', hbare⟩ := block_of_code hg.same.code_eq hx
  obtain rfl := Option.some.inj (hy.symm.trans hy')
  have hlifted : y.lifted = x.lifted := congrArg Block.statements hbare
  have hsuccessors : y.bare.successors = x.bare.successors := congrArg Block.successors hbare
  refine ⟨hg.reads b x hx, ?_, hsuccessors⟩
  rw [hg.reads' b y hy, hlifted, hg.same.id_eq]

theorem blocks_eq (hg : f.Rehooked g h h')
    (ha : ∀ a : Anchor, a.function = f.id → h'.active[a]? = h.active[a]?) :
    g.blocks = f.blocks := by
  apply List.ext_getElem?
  intro i
  cases hf : f.blocks[i]? with
  | none =>
    have hlen : g.code.length = f.code.length := by rw [hg.same.code_eq]
    rw [code, code, List.length_map, List.length_map] at hlen
    rwa [List.getElem?_eq_none_iff, hlen, ← List.getElem?_eq_none_iff]
  | some x =>
    obtain ⟨y, hy, hbare⟩ := block_of_code hg.same.code_eq hf
    obtain ⟨hx, hwoven, hsuccessors⟩ := hg.block hf hy
    have haddress : y.bare.address = x.bare.address := congrArg Block.address hbare
    have hstatements : y.statements = x.statements := by
      rw [hwoven, hx]
      exact Hooks.woven_congr (fun _ => ha _ rfl) fun s _ a hs =>
        ha a (Statement.function_of_anchor? hs)
    obtain ⟨ya, ys, yc⟩ := y
    obtain ⟨xa, xs, xc⟩ := x
    obtain rfl : ya = xa := haddress
    obtain rfl : ys = xs := hstatements
    obtain rfl : yc = xc := hsuccessors
    exact hy

end Rehooked

theorem lifted_of_mem {x : Block} : ∀ s ∈ x.lifted, s.isSynthetic = false := by
  intro s hs
  simpa using (List.mem_filter.mp hs).2

namespace Hooked

variable {h h' : Hooks}

theorem block_sharpens (hg : f.Hooked g h h') {block block' : Block} (hb : f.blocks[b]? = some block)
    (hb' : g.blocks[b]? = some block') (hk : known.Within known')
    (h0 : b = Function.entryBlock → known' = ∅) :
    (walk block.statements known).Within (walk block'.statements known') ∧
      List.Forall₂ CallSite.Sharpens (callsOf block.statements known)
        (callsOf block'.statements known') := by
  obtain ⟨hstatements, hstatements', -⟩ := hg.block hb hb'
  rw [hstatements, hstatements']
  exact Hooks.woven_sharpens hg.consistent hg.consistent' hg.grows lifted_of_mem hk h0

theorem agrees (hg : f.Hooked g h h') : g.Agrees fun b => (f.blockFacts[b]?).getD ∅ := by
  have hsolved := f.blockFacts_solved
  refine ⟨hsolved.agrees.start, ?_⟩
  intro q b block' hq hblock' hb
  obtain ⟨block, hblock, -⟩ := block_of_code hg.same.code_eq.symm hblock'
  obtain ⟨-, -, hsuccessors⟩ := hg.block hblock hblock'
  have hq' : f.Reaches q := reaches_of_code hg.same.code_eq.symm hq
  have hedge := hsolved.agrees.edge hq' hblock (hsuccessors ▸ hb)
  refine hedge.trans (hg.block_sharpens hblock hblock' (.refl _) ?_).1
  rintro rfl
  exact hsolved.agrees.start

theorem facts_within (hg : f.Hooked g h h') {known known' : Constants}
    (hk : f.blockFacts[b]? = some known) (hk' : g.blockFacts[b]? = some known') :
    known.Within known' := by
  have hwithin := hg.agrees.within hk'
  simpa only [hk, Option.getD_some] using hwithin

end Hooked

/-! ## Snapshots -/

theorem mem_calls {site : CallSite} :
    site ∈ (Snapshot.take f).calls ↔ ∃ (b : BlockId) (block : Block) (known : Constants),
      f.blocks[b]? = some block ∧ f.blockFacts[b]? = some known ∧
        site ∈ callsOf block.statements known := by
  simp only [Snapshot.take, reachableStates_eq, List.filterMap_flatMap, List.mem_flatMap]
  constructor
  · rintro ⟨⟨block, b⟩, hmem, hsite⟩
    rw [blockStates] at hsite
    split at hsite
    · simp at hsite
    · next known hknown =>
      exact ⟨b, block, known, List.mk_mem_zipIdx_iff_getElem?.mp hmem, hknown, hsite⟩
  · rintro ⟨b, block, known, hblock, hknown, hsite⟩
    refine ⟨(block, b), List.mk_mem_zipIdx_iff_getElem?.mpr hblock, ?_⟩
    rw [blockStates]
    simp only [hknown]
    exact hsite

theorem take_returns (f : Function) :
    (Snapshot.take f).returns = f.code.zipIdx.flatMap fun x =>
      if f.blockFacts.contains x.2 then x.1.statements.filterMap liftedReturn? else [] := by
  have hblock : ∀ x : Block × BlockId,
      (blockStates f.blockFacts x).filterMap (fun y => liftedReturn? y.1) =
        if f.blockFacts.contains x.2 then x.1.lifted.filterMap liftedReturn? else [] := by
    intro x
    have hlifted : ∀ ss : List Statement,
        (ss.filter (!·.isSynthetic)).filterMap liftedReturn? = ss.filterMap liftedReturn? := by
      intro ss
      rw [List.filterMap_filter]
      refine List.filterMap_congr fun s _ => ?_
      unfold liftedReturn?
      cases s.isSynthetic <;> simp
    rw [Block.lifted, hlifted, ExtTreeMap.contains_eq_isSome_getElem?, blockStates]
    cases f.blockFacts[x.2]? with
    | none => rfl
    | some known =>
      have hfst : (statesBefore x.1.statements known).filterMap (fun y => liftedReturn? y.1) =
          ((statesBefore x.1.statements known).map (·.1)).filterMap liftedReturn? := by
        rw [List.filterMap_map]
        rfl
      rw [hfst, map_fst_statesBefore]
      rfl
  have hzip : f.code.zipIdx = f.blocks.zipIdx.map fun x => (x.1.bare, x.2) := by
    rw [code, List.zipIdx_map]
    rfl
  rw [hzip, List.flatMap_map]
  have hstates : (Snapshot.take f).returns =
      (f.reachableStates f.blockFacts).filterMap fun y => liftedReturn? y.1 := rfl
  rw [hstates, reachableStates_eq, List.filterMap_flatMap]
  simp only [hblock]
  rfl

theorem take_returns_of_code (h : g.code = f.code) :
    (Snapshot.take g).returns = (Snapshot.take f).returns := by
  have hcontains : ∀ b, g.blockFacts.contains b = f.blockFacts.contains b := by
    intro b
    rw [Bool.eq_iff_iff, ExtTreeMap.contains_eq_isSome_getElem?,
      ExtTreeMap.contains_eq_isSome_getElem?, Option.isSome_iff_exists, Option.isSome_iff_exists]
    exact visited_iff_of_code h
  rw [take_returns, take_returns, h]
  simp only [hcontains]

namespace Hooked

variable {h h' : Hooks}

theorem forall₂_states {α : Type} {R : α → α → Prop}
    {collect : Statement × Option Statement × Constants → Option α} (hg : f.Hooked g h h')
    (hblock : ∀ {b : BlockId} {block block' : Block} {known known' : Constants},
      f.blocks[b]? = some block → g.blocks[b]? = some block' → known.Within known' →
      (b = entryBlock → known' = ∅) →
      List.Forall₂ R ((statesBefore block.statements known).filterMap collect)
        ((statesBefore block'.statements known').filterMap collect)) :
    List.Forall₂ R ((f.reachableStates f.blockFacts).filterMap collect)
      ((g.reachableStates g.blockFacts).filterMap collect) := by
  have hlen : f.blocks.length = g.blocks.length := by
    have hcode : g.code.length = f.code.length := by rw [hg.same.code_eq]
    simpa only [code, List.length_map] using hcode.symm
  have hblocks : List.Forall₂ (fun x y : Block × BlockId =>
      x.2 = y.2 ∧ f.blocks[x.2]? = some x.1 ∧ g.blocks[y.2]? = some y.1)
      f.blocks.zipIdx g.blocks.zipIdx := by
    refine List.forall₂_iff_get.mpr ⟨by simpa using hlen, fun i hi hi' => ?_⟩
    simp
  rw [reachableStates_eq, reachableStates_eq, List.filterMap_flatMap, List.filterMap_flatMap]
  refine List.rel_flatMap hblocks ?_
  rintro ⟨block, b⟩ ⟨block', _⟩ ⟨rfl, hb, hb'⟩
  have hvisited := visited_iff_of_code (b := b) hg.same.code_eq
  unfold blockStates
  dsimp only
  cases hk : f.blockFacts[b]? with
  | none =>
    cases hk' : g.blockFacts[b]? with
    | none => exact .nil
    | some known' =>
      obtain ⟨known, hknown⟩ := hvisited.mp ⟨known', hk'⟩
      cases hk.symm.trans hknown
  | some known =>
    obtain ⟨known', hk'⟩ := hvisited.mpr ⟨known, hk⟩
    rw [hk']
    refine hblock hb hb' (hg.facts_within hk hk') ?_
    rintro rfl
    have hstart := g.blockFacts_solved.agrees.start
    simpa only [hk', Option.getD_some] using hstart

theorem sharpened_calls (hg : f.Hooked g h h') :
    List.Forall₂ CallSite.Sharpens (Snapshot.take f).calls (Snapshot.take g).calls :=
  hg.forall₂_states fun hb hb' hk h0 => (hg.block_sharpens hb hb' hk h0).2

theorem calls_sharpen (hg : f.Hooked g h h') :
    (∀ x ∈ (Snapshot.take f).calls, ∃ y ∈ (Snapshot.take g).calls, x.Sharpens y) ∧
      ∀ y ∈ (Snapshot.take g).calls, ∃ x ∈ (Snapshot.take f).calls, x.Sharpens y :=
  ⟨fun _ hx => exists_of_mem hg.sharpened_calls hx,
    fun _ hy => exists_of_mem (List.Forall₂.flip hg.sharpened_calls) hy⟩

end Hooked

/-! ## What is asked for -/

/-- The anchors that a fresh snapshot lists, each with the callee that it asks a convention of. -/
inductive Asks (f : Function) : Anchor → Callee → Prop
  | entry : Asks f (.entry f.id) (.ofFunction f)
  | ret {id : StatementId} (h : id ∈ (Snapshot.take f).returns) :
      Asks f (.ret ⟨f.id, id⟩) (.ofFunction f)
  | call {site : CallSite} (h : site ∈ (Snapshot.take f).calls) :
      Asks f (.call ⟨f.id, site.statement⟩) (.ofCall ⟨f.id, site.statement⟩ site.target)

theorem Asks.mem_anchors {a : Anchor} {callee : Callee} (h : f.Asks a callee) :
    a ∈ (Snapshot.take f).anchors f.id := by
  cases h with
  | entry => exact Snapshot.entry_mem_anchors _ _
  | ret h => exact Snapshot.ret_mem_anchors.mpr h
  | call h => exact Snapshot.call_mem_anchors.mpr ⟨_, h, rfl⟩

theorem Asks.function_eq {a : Anchor} {callee : Callee} (h : f.Asks a callee) : a.function = f.id :=
  Snapshot.function_of_mem_anchors h.mem_anchors

theorem Asks.indirect (hf : f.Orderly) {a : Anchor} {callee : Callee} (h : f.Asks a callee)
    (hc : callee.isIndirect) :
    ∃ s ∈ f.statements, s.isSynthetic = false ∧ s.isIndirectCall ∧ a = .call ⟨f.id, s.id⟩ := by
  have hown : (Callee.ofFunction f).isIndirect = false := by
    unfold Callee.ofFunction
    split <;> rfl
  cases h with
  | entry | ret =>
    rw [hown] at hc
    cases hc
  | @call site hsite =>
    obtain ⟨b, block, known, hb, -, hsite⟩ := mem_calls.mp hsite
    obtain ⟨x, hx, hcall⟩ := List.mem_filterMap.mp hsite
    have hmem : x.1 ∈ f.statements := by
      refine mem_statements.mpr ⟨b, block, hb, ?_⟩
      rw [← map_fst_statesBefore block.statements known]
      exact List.mem_map_of_mem hx
    obtain ⟨target, hk, hid, htarget⟩ := callSite?_some hcall
    refine ⟨x.1, hmem, hf.lifted_of_call hmem hk, ?_, by rw [hid]⟩
    cases target with
    | indirect l => simp only [Statement.isIndirectCall, hk]
    | direct address =>
      rw [htarget] at hc
      cases hc

/-- What a function is seen to release depends on its lifted returns only; `k` is the function when
the snapshot was taken. -/
theorem SameCode.popOf?_eq {k : Function} (h : f.SameCode g) (hf : f.Numbered) (hg : g.Numbered)
    (hk : k.code = f.code) : Hooks.popOf? g (.take k) = Hooks.popOf? f (.take k) := by
  unfold Hooks.popOf?
  congr 1
  refine List.filterMap_congr fun id hid => ?_
  obtain ⟨s, hs, hl, rfl, -⟩ := Snapshot.take_returns_lifted hid
  have hs : s ∈ f.statements := mem_of_code hk.symm hs hl
  rw [hf.statement?_eq_some hs, hg.statement?_eq_some (mem_of_code h.code_eq hs hl)]

theorem SameCode.popOf?_take (h : f.SameCode g) (hf : f.Numbered) (hg : g.Numbered) :
    Hooks.popOf? g (.take g) = Hooks.popOf? f (.take f) := by
  have hreturns : Hooks.popOf? g (.take g) = Hooks.popOf? g (.take f) := by
    simp only [Hooks.popOf?, take_returns_of_code h.code_eq]
  rw [hreturns]
  exact h.popOf?_eq hf hg rfl

namespace Hooked

variable {h h' : Hooks} {a : Anchor} {callee : Callee}

theorem asked (hg : f.Hooked g h h') (ha : g.Asks a callee) :
    ∃ callee', f.Asks a callee' ∧ (callee' = callee ∨ callee'.isIndirect) := by
  cases ha with
  | entry =>
    rw [hg.same.id_eq, hg.same.ofFunction_eq]
    exact ⟨_, .entry, .inl rfl⟩
  | ret hid =>
    rw [hg.same.id_eq, hg.same.ofFunction_eq]
    rw [take_returns_of_code hg.same.code_eq] at hid
    exact ⟨_, .ret hid, .inl rfl⟩
  | call hsite =>
    obtain ⟨x, hx, hid, htarget⟩ := hg.calls_sharpen.2 _ hsite
    rw [hg.same.id_eq, hid]
    refine ⟨_, .call hx, ?_⟩
    rcases htarget with htarget | htarget
    · exact .inl (by rw [htarget])
    · exact .inr (by rw [htarget]; rfl)

theorem asks (hg : f.Hooked g h h') (ha : f.Asks a callee) : ∃ callee', g.Asks a callee' := by
  cases ha with
  | entry =>
    rw [← hg.same.id_eq]
    exact ⟨_, .entry⟩
  | ret hid =>
    rw [← take_returns_of_code hg.same.code_eq] at hid
    rw [← hg.same.id_eq]
    exact ⟨_, .ret hid⟩
  | call hsite =>
    obtain ⟨y, hy, hid, -⟩ := hg.calls_sharpen.1 _ hsite
    rw [← hg.same.id_eq, ← hid]
    exact ⟨_, .call hy⟩

end Hooked

end Function

end CallEffects
