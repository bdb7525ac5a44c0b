import CallEffects.Proofs.Weaving

/-!
# How an instrumented function reads

Moves of a bench that attach hooks to offered anchors only, and edits of lifted code, keep functions
woven. A snapshot taken from a function lists anchors that its lifted statements offer. So in every
history each function stays woven, and right after an instrumentation that succeeds every block
reads as its lifted statements with the active hooks around them.
-/

namespace CallEffects

open Std

namespace Bench

variable {b b' : Bench} {detector : Option Detector} {signatures : Signatures}
  {wanted : Anchor → Prop}
variable {ever : List (List Statement)} {gone : List StatementId}

theorem obtain_weave (hw : b.hooks.Weave b.function ever gone) (p : Plan) :
    (b.obtain p).2.hooks.Weave (b.obtain p).2.function ever gone := by
  cases h : b.hooks.cached? p.key with
  | some hook =>
    rw [obtain_of_cached h]
    exact hw
  | none =>
    rw [obtain_of_none h]
    constructor
    · exact hw.bodies
    · exact hw.lifted
    · exact hw.nodup
    · intro s hs
      exact Nat.lt_of_lt_of_le (hw.below s hs) (Nat.le_add_right _ _)
    · intro k hk hkf s hs hid
      rcases List.mem_append.mp hk with hk | hk
      · exact hw.apart hk hkf s hs hid
      · obtain rfl := List.mem_singleton.mp hk
        exact Nat.not_le_of_lt (hw.below s hs) (mem_statementIds_built hid).1
    · exact hw.gone_ever
    · exact hw.named

theorem Move.weave (h : Move detector signatures wanted b b') (hb : b.Sound)
    (hw : ∀ a, wanted a → Hooks.Weave.Offers b.function.id ever gone a)
    (hv : b.hooks.Weave b.function ever gone) : b'.hooks.Weave b'.function ever gone := by
  cases h with
  | start s =>
    rw [start_eq]
    exact hv.congr rfl rfl
  | resolve callee =>
    obtain ⟨cs, asked, heq, -⟩ := b.resolve_snd detector callee
    rw [heq]
    exact hv
  | count => exact hv
  | detach a ha =>
    cases hk : b.hooks.active[a]? with
    | none =>
      rw [detach_of_none hk]
      exact hv
    | some k =>
      rw [detach_of_some hk]
      exact hv.detach hb.1 hb.2 hk ha
  | obtain p => exact obtain_weave hv p
  | place hook f ha hwanted hk hnone hf =>
    exact hv.place hb.2.numbered hk ha hnone (hw _ hwanted) hf
  | remember | forget => exact hv.congr rfl rfl

theorem Moves.weave (h : Moves detector signatures wanted b b') (hb : b.Sound)
    (hw : ∀ a, wanted a → Hooks.Weave.Offers b.function.id ever gone a)
    (hv : b.hooks.Weave b.function ever gone) : b'.hooks.Weave b'.function ever gone := by
  induction h with
  | refl => exact hv
  | tail hms hm ih =>
    refine hm.weave (Moves.sound hms hb) (fun a ha => ?_) ih
    rw [Moves.function_id hms]
    exact hw a ha

end Bench

/-! ## Edits of lifted code -/

namespace Hooks

variable {h : Hooks} {f g : Function} {ever : List (List Statement)} {gone : List StatementId}

theorem woven_empty (i : FunctionId) (b : BlockId) (ss : List Statement) :
    Hooks.empty.woven i b ss = ss := by
  have hattached : ∀ a, Hooks.empty.attached a = [] := fun a => attached_of_none rfl
  have haround : ∀ s, Hooks.empty.around i s = [s] := fun s => around_of_none fun _ _ => rfl
  simp only [woven, hattached, ite_self, List.nil_append]
  rw [funext haround]
  exact List.flatMap_singleton' ss

theorem weave_of_lifted (hf : f.Numbered) (hl : ∀ s ∈ f.statements, s.isSynthetic = false) :
    Hooks.empty.Weave f f.bodies [] := by
  constructor
  · intro b
    simp [woven_empty]
  · exact hl
  · exact hf.nodup
  · exact hf.bounded
  · intro k hk
    simp [empty] at hk
  · simp
  · intro a k hk
    simp [empty] at hk

/-- The first statement to have its number offers no anchor that is in use. -/
theorem Weave.inactive_of_fresh (hw : h.Weave f ever gone) {s : Statement} {a : Anchor}
    (hid : s.id = f.nextStatement) (ha : s.anchor? f.id = some a) : h.active[a]? = none := by
  cases hk : h.active[a]? with
  | none => rfl
  | some k =>
    rcases hw.named hk (Statement.function_of_anchor? ha) with rfl | ⟨t, ht, hta⟩
    · exact absurd ha Statement.anchor?_ne_entry
    · have hlt := hw.below t ht
      rw [Statement.id_eq_of_anchor? hta ha, hid] at hlt
      exact absurd hlt (Nat.lt_irrefl _)

namespace Weave

theorem length_eq (hw : h.Weave f ever gone) : f.bodies.length = ever.length := by
  apply Nat.le_antisymm
  · rw [← List.getElem?_eq_none_iff, hw.bodies, List.getElem?_eq_none_iff.mpr (Nat.le_refl _),
      Option.map_none]
  · refine List.getElem?_eq_none_iff.mp ?_
    rw [← Option.map_eq_none_iff, ← hw.bodies]
    exact List.getElem?_eq_none_iff.mpr (Nat.le_refl _)

theorem addBlock (hw : h.Weave f ever gone) (hf : f.blocks ≠ []) (hid : g.id = f.id)
    (hb : g.bodies = f.bodies ++ [[]]) (hn : g.nextStatement = f.nextStatement) :
    h.Weave g (ever ++ [[]]) gone := by
  have hflat : (ever ++ [[]]).flatten = ever.flatten := by simp
  constructor
  · intro b
    rw [hb, hid, List.getElem?_append, List.getElem?_append, hw.length_eq]
    split
    · exact hw.bodies
    · next hge =>
      have hne : b ≠ Function.entryBlock := by
        rintro rfl
        apply hge
        rw [← hw.length_eq, Function.bodies, List.length_map]
        exact List.length_pos_iff.mpr hf
      cases b - ever.length with
      | zero => simp [woven, hne]
      | succ n => simp
  · exact hflat ▸ hw.lifted
  · exact hflat ▸ hw.nodup
  · exact hflat ▸ hn ▸ hw.below
  · exact hflat ▸ hid ▸ hw.apart
  · exact hflat ▸ hw.gone_ever
  · exact hflat ▸ hid ▸ hw.named

theorem addEdge (hw : h.Weave f ever gone) (hid : g.id = f.id) (hb : g.bodies = f.bodies)
    (hn : g.nextStatement = f.nextStatement) : h.Weave g ever gone := by
  constructor
  · intro b
    rw [hb, hid]
    exact hw.bodies
  · exact hw.lifted
  · exact hw.nodup
  · exact hn ▸ hw.below
  · exact hid ▸ hw.apart
  · exact hw.gone_ever
  · exact hid ▸ hw.named

theorem push (hw : h.Weave f ever gone) (hacc : h.Accounts f) (hid : g.id = f.id) {b : BlockId}
    {s : Statement} (hlen : b < f.blocks.length) (hs : s.isSynthetic = false)
    (hsid : s.id = f.nextStatement) (hb : g.bodies = f.bodies.modify b (· ++ [s]))
    (hn : g.nextStatement = f.nextStatement + 1) :
    h.Weave g (ever.modify b (· ++ [s])) gone := by
  have hlen' : b < ever.length := by
    rw [← hw.length_eq]
    simpa [Function.bodies] using hlen
  have hperm := CodeEdit.flatten_modify_concat_perm hlen' s
  have hmem : ∀ t, t ∈ (ever.modify b (· ++ [s])).flatten ↔ t = s ∨ t ∈ ever.flatten :=
    fun t => hperm.mem_iff.trans List.mem_cons
  have hfresh : ∀ t ∈ ever.flatten, t.id ≠ s.id := by
    intro t ht heq
    exact Nat.lt_irrefl _ (hsid ▸ heq ▸ hw.below t ht)
  have hgone : s.id ∉ gone := by
    intro hg
    obtain ⟨t, ht, heq⟩ := hw.gone_ever s.id hg
    exact hfresh t ht heq
  have haround : h.around f.id s = [s] :=
    around_of_none fun a ha => hw.inactive_of_fresh hsid ha
  constructor
  · intro j
    rw [hb, hid, List.getElem?_modify, List.getElem?_modify, hw.bodies]
    cases ever[j]? with
    | none => simp
    | some ss =>
      by_cases hbj : b = j
      · subst hbj
        simp [woven, haround, hgone]
      · simp [hbj]
  · intro t ht
    rcases (hmem t).mp ht with rfl | ht
    · exact hs
    · exact hw.lifted t ht
  · rw [(hperm.map _).nodup_iff, List.map_cons, List.nodup_cons]
    refine ⟨?_, hw.nodup⟩
    intro hc
    obtain ⟨t, ht, heq⟩ := List.mem_map.mp hc
    exact hfresh t ht heq
  · intro t ht
    rw [hn]
    rcases (hmem t).mp ht with rfl | ht
    · exact Nat.lt_succ_of_le (Nat.le_of_eq hsid)
    · exact Nat.lt_succ_of_lt (hw.below t ht)
  · intro k hk hkf t ht hmemk
    rcases (hmem t).mp ht with rfl | ht
    · obtain ⟨u, hu, heq⟩ := List.mem_map.mp hmemk
      exact Nat.lt_irrefl _ (hsid ▸ heq ▸ hacc.below hk (hkf.trans hid) u hu)
    · exact hw.apart hk (hkf.trans hid) t ht hmemk
  · intro id hg
    obtain ⟨t, ht, heq⟩ := hw.gone_ever id hg
    exact ⟨t, (hmem t).mpr (.inr ht), heq⟩
  · intro a k hk ha
    rw [hid] at ha ⊢
    rcases hw.named hk ha with he | ⟨t, ht, hta⟩
    · exact .inl he
    · exact .inr ⟨t, (hmem t).mpr (.inr ht), hta⟩

theorem remove (hw : h.Weave f ever gone) (hc : h.Consistent) (hid : g.id = f.id) {s : Statement}
    (hs : s ∈ f.statements) (hl : s.isSynthetic = false)
    (hb : g.bodies = f.bodies.map (·.filter fun t => t.id ≠ s.id))
    (hn : g.nextStatement = f.nextStatement) : h.Weave g ever (s.id :: gone) := by
  constructor
  · intro b
    rw [hb, hid, List.getElem?_map, hw.bodies, Option.map_map]
    congr 1
    funext ss
    simp only [Function.comp_apply, List.filter_filter]
    congr 1
    funext t
    simp
  · exact hw.lifted
  · exact hw.nodup
  · exact hn ▸ hw.below
  · exact hid ▸ hw.apart
  · intro id hg
    rcases List.mem_cons.mp hg with rfl | hg
    · exact ⟨s, (hw.ever_of_mem hc hs hl).1, rfl⟩
    · exact hw.gone_ever id hg
  · exact hid ▸ hw.named

theorem codeEdit (hw : h.Weave f ever gone) (hc : h.Consistent) (hacc : h.Accounts f)
    {e : CodeEdit} (hl : e.Lifted f) (he : e.apply f = .ok g) :
    ∃ ever' gone', h.Weave g ever' gone' := by
  have hid := (CodeEdit.apply_fields he).1
  cases CodeEdit.apply_effect hacc.numbered hl he with
  | block hb hn => exact ⟨_, _, hw.addBlock hacc.numbered.blocks_ne_nil hid hb hn⟩
  | none hb hn => exact ⟨_, _, hw.addEdge hid hb hn⟩
  | push b s hlen hs hsid hb hn => exact ⟨_, _, hw.push hacc hid hlen hs hsid hb hn⟩
  | remove s hs hsl hb hn => exact ⟨_, _, hw.remove hc hid hs hsl hb hn⟩

end Weave

end Hooks

/-! ## Snapshots offer anchors that are there -/

theorem map_fst_statesBefore (ss : List Statement) (known : Constants) :
    (statesBefore ss known).map (·.1) = ss := by
  induction ss generalizing known with
  | nil => rfl
  | cons s ss ih => rw [statesBefore, List.map_cons, ih]

def blockStates (facts : ExtTreeMap BlockId Constants) (x : Block × BlockId) :
    List (Statement × Option Statement × Constants) :=
  match facts[x.2]? with
  | none => []
  | some entry => statesBefore x.1.statements entry

theorem Function.reachableStates_eq (f : Function) (facts : ExtTreeMap BlockId Constants) :
    f.reachableStates facts = f.blocks.zipIdx.flatMap (blockStates facts) := rfl

theorem map_fst_blockStates_sublist (facts : ExtTreeMap BlockId Constants) (x : Block × BlockId) :
    ((blockStates facts x).map (·.1)).Sublist x.1.statements := by
  unfold blockStates
  split
  · exact List.nil_sublist _
  · rw [map_fst_statesBefore]

theorem Function.reachableStates_sublist (f : Function) (facts : ExtTreeMap BlockId Constants) :
    ((f.reachableStates facts).map (·.1)).Sublist f.statements := by
  have hall : ∀ bs : List (Block × BlockId),
      ((bs.flatMap (blockStates facts)).map (·.1)).Sublist
        ((bs.map (·.1)).flatMap (·.statements)) := by
    intro bs
    induction bs with
    | nil => exact .slnil
    | cons x bs ih =>
      rw [List.flatMap_cons, List.map_append, List.map_cons, List.flatMap_cons]
      exact (map_fst_blockStates_sublist facts x).append ih
  have hzip := hall f.blocks.zipIdx
  rw [List.zipIdx_map_fst] at hzip
  exact hzip

theorem Function.mem_of_mem_reachableStates {f : Function} {facts : ExtTreeMap BlockId Constants}
    {x : Statement × Option Statement × Constants} (hx : x ∈ f.reachableStates facts) :
    x.1 ∈ f.statements :=
  (f.reachableStates_sublist facts).subset (List.mem_map_of_mem hx)

theorem callSite?_some {s : Statement} {next : Option Statement} {known : Constants}
    {site : CallSite}
    (h : callSite? s next known = some site) :
    ∃ target, s.kind = .call target ∧ site.statement = s.id ∧
      site.target = target.resolve known := by
  unfold callSite? at h
  split at h
  · next target hk => exact ⟨target, hk, by cases h; exact ⟨rfl, rfl⟩⟩
  · cases h

theorem liftedReturn?_some {s : Statement} {id : StatementId} (h : liftedReturn? s = some id) :
    ∃ pop, s.kind = .ret pop ∧ s.isSynthetic = false ∧ s.id = id := by
  unfold liftedReturn? at h
  split at h
  · next hs =>
    simp only [Bool.and_eq_true, Bool.not_eq_true'] at hs
    obtain ⟨hret, hsyn⟩ := hs
    unfold Statement.isReturn StatementKind.isReturn at hret
    split at hret
    · next pop hk => exact ⟨pop, hk, hsyn, Option.some.inj h⟩
    · cases hret
  · cases h

theorem Function.Orderly.lifted_of_call {g : Function} (hg : g.Orderly) {s : Statement}
    (hs : s ∈ g.statements) {target : CallTarget} (hk : s.kind = .call target) :
    s.isSynthetic = false := by
  cases hsyn : s.isSynthetic with
  | false => rfl
  | true =>
    have hhook := hg.hook_only s hs hsyn
    rw [hk] at hhook
    cases hhook

theorem Snapshot.take_returns_lifted {g : Function} {id : StatementId}
    (h : id ∈ (take g).returns) :
    ∃ s ∈ g.statements, s.isSynthetic = false ∧ s.id = id ∧ ∃ pop, s.kind = .ret pop := by
  obtain ⟨x, hx, hid⟩ := List.mem_filterMap.mp h
  obtain ⟨pop, hk, hl, hid⟩ := liftedReturn?_some hid
  exact ⟨x.1, Function.mem_of_mem_reachableStates hx, hl, hid, pop, hk⟩

theorem Snapshot.take_anchors {g : Function} (hg : g.Orderly) {i : FunctionId} {a : Anchor}
    (ha : a ∈ (take g).anchors i) :
    a = .entry i ∨ ∃ s ∈ g.statements, s.isSynthetic = false ∧ s.anchor? i = some a := by
  simp only [anchors, List.cons_append, List.mem_cons, List.mem_append, List.mem_map] at ha
  rcases ha with rfl | ⟨site, hsite, rfl⟩ | ⟨r, hr, rfl⟩
  · exact .inl rfl
  · obtain ⟨x, hx, hsite⟩ := List.mem_filterMap.mp hsite
    obtain ⟨target, hk, hid, -⟩ := callSite?_some hsite
    have hmem := Function.mem_of_mem_reachableStates hx
    exact .inr ⟨x.1, hmem, hg.lifted_of_call hmem hk, by simp only [Statement.anchor?, hk, hid]⟩
  · obtain ⟨s, hs, hl, rfl, pop, hk⟩ := take_returns_lifted hr
    exact .inr ⟨s, hs, hl, by simp only [Statement.anchor?, hk]⟩

theorem Function.mem_lifted_iff {f : Function} {s : Statement} :
    s ∈ f.statements ∧ s.isSynthetic = false ↔ ∃ block ∈ f.code, s ∈ block.statements := by
  constructor
  · rintro ⟨hs, hl⟩
    obtain ⟨block, hblock, hs⟩ := List.mem_flatMap.mp hs
    refine ⟨block.bare, List.mem_map_of_mem hblock, ?_⟩
    exact List.mem_filter.mpr ⟨hs, by simp [hl]⟩
  · rintro ⟨bare, hbare, hs⟩
    obtain ⟨block, hblock, rfl⟩ := List.mem_map.mp hbare
    obtain ⟨hs, hl⟩ := List.mem_filter.mp hs
    exact ⟨List.mem_flatMap.mpr ⟨block, hblock, hs⟩, by simpa using hl⟩

theorem Function.mem_of_code {f g : Function} (h : g.code = f.code) {s : Statement}
    (hs : s ∈ f.statements) (hl : s.isSynthetic = false) : s ∈ g.statements := by
  obtain ⟨block, hblock, hmem⟩ := mem_lifted_iff.mp ⟨hs, hl⟩
  exact (mem_lifted_iff.mpr ⟨block, h ▸ hblock, hmem⟩).1

theorem Snapshot.Genuine.offers {s : Snapshot} {f : Function} (hs : s.Genuine f)
    (hm : s.mismatch? f = none) {h : Hooks} {ever : List (List Statement)} {gone : List StatementId}
    (hc : h.Consistent) (hw : h.Weave f ever gone) :
    ∀ a ∈ s.anchors f.id, Hooks.Weave.Offers f.id ever gone a := by
  obtain ⟨g, rfl, hg, -, hcode⟩ := hs hm
  intro a ha
  rcases take_anchors hg ha with rfl | ⟨t, ht, hl, hta⟩
  · exact .inl rfl
  · obtain ⟨hever, hgone⟩ := hw.ever_of_mem hc (Function.mem_of_code hcode.symm ht hl) hl
    exact .inr ⟨t, hever, hgone, hta⟩

/-! ## Reading a woven function -/

namespace Hooks

variable {h : Hooks} {f : Function} {ever : List (List Statement)} {gone : List StatementId}

theorem lifted_woven (hc : h.Consistent) {i : FunctionId} {b : BlockId} {ss : List Statement}
    (hl : ∀ s ∈ ss, s.isSynthetic = false) : (h.woven i b ss).filter (!·.isSynthetic) = ss := by
  have hattached : ∀ a, (h.attached a).filter (!·.isSynthetic) = [] := by
    intro a
    rw [List.filter_eq_nil_iff]
    intro s hs
    cases hk : h.active[a]? with
    | none => simp [attached_of_none hk] at hs
    | some k =>
      rw [attached_of_some hk] at hs
      simp [hc.isSynthetic (hc.active_built hk).1 hs]
  have haround : ∀ s ∈ ss, (h.around i s).filter (!·.isSynthetic) = [s] := by
    intro s hs
    unfold around
    split <;> simp [hl s hs, hattached]
  have hentry : (if b = Function.entryBlock then h.attached (.entry i) else []).filter
      (!·.isSynthetic) = [] := by
    split
    · exact hattached _
    · rfl
  have hall : (ss.flatMap (h.around i)).filter (!·.isSynthetic) = ss := by
    rw [List.filter_flatMap, List.flatMap, List.map_congr_left haround, ← List.flatMap]
    exact List.flatMap_singleton' ss
  rw [woven, List.filter_append, hentry, hall, List.nil_append]

namespace Weave

theorem filter_attached (hw : h.Weave f ever gone) (hc : h.Consistent) {a : Anchor}
    (ha : a.function = f.id) : ((h.attached a).filter fun s => s.id ∉ gone) = h.attached a := by
  cases hk : h.active[a]? with
  | none => rw [attached_of_none hk, List.filter_nil]
  | some k =>
    obtain ⟨hbuilt, rfl⟩ := hc.active_built hk
    rw [attached_of_some hk, hw.filter_hook hbuilt ha]

theorem filter_around (hw : h.Weave f ever gone) (hc : h.Consistent) {s : Statement}
    (hg : s.id ∉ gone) : ((h.around f.id s).filter fun s => s.id ∉ gone) = h.around f.id s := by
  apply List.filter_eq_self.mpr
  intro t ht
  rcases mem_around_cases ht with rfl | ⟨a, hsa, hta⟩
  · simpa using hg
  · rw [← hw.filter_attached hc (Statement.function_of_anchor? hsa)] at hta
    exact (List.mem_filter.mp hta).2

/-- With every active hook on an anchor that is there, what is gone takes nothing with it. -/
theorem filter_woven (hw : h.Weave f ever gone) (hc : h.Consistent)
    (hactive : ∀ {a : Anchor} {k : Hook}, h.active[a]? = some k → a.function = f.id →
      Offers f.id ever gone a) (b : BlockId) (ss : List Statement) :
    ((h.woven f.id b ss).filter fun s => s.id ∉ gone) =
      h.woven f.id b (ss.filter fun s => s.id ∉ gone) := by
  have hentry : ((if b = Function.entryBlock then h.attached (.entry f.id) else []).filter
      fun s => s.id ∉ gone) = if b = Function.entryBlock then h.attached (.entry f.id) else [] := by
    split
    · exact hw.filter_attached hc rfl
    · rfl
  have hgone : ∀ s ∈ ss, s.id ∈ gone → h.around f.id s = [s] := by
    intro s hs hg
    refine around_of_none fun a ha => ?_
    cases hk : h.active[a]? with
    | none => rfl
    | some k =>
      rcases hactive hk (Statement.function_of_anchor? ha) with rfl | ⟨t, ht, hnot, hta⟩
      · exact absurd ha Statement.anchor?_ne_entry
      · rw [Statement.id_eq_of_anchor? hta ha] at hnot
        exact absurd hg hnot
  have hall : ∀ ss' : List Statement, (∀ s ∈ ss', s ∈ ss) →
      ((ss'.flatMap (h.around f.id)).filter fun s => s.id ∉ gone) =
        (ss'.filter fun s => s.id ∉ gone).flatMap (h.around f.id) := by
    intro ss' hsub
    induction ss' with
    | nil => rfl
    | cons s ss' ih =>
      have hrest := ih fun t ht => hsub t (List.mem_cons_of_mem _ ht)
      rw [List.flatMap_cons, List.filter_append, hrest]
      by_cases hg : s.id ∈ gone
      · rw [hgone s (hsub s List.mem_cons_self) hg]
        simp [hg]
      · rw [hw.filter_around hc hg]
        simp [hg]
  rw [woven, List.filter_append, hentry, hall ss fun _ hs => hs, woven]

theorem reads (hw : h.Weave f ever gone) (hc : h.Consistent)
    (hactive : ∀ {a : Anchor} {k : Hook}, h.active[a]? = some k → a.function = f.id →
      Offers f.id ever gone a) {b : BlockId} {block : Block} (hb : f.blocks[b]? = some block) :
    block.statements = h.woven f.id b block.lifted := by
  obtain ⟨ss, hss, hbody⟩ := hw.body hb
  rw [hw.filter_woven hc hactive] at hbody
  have hlifted : block.lifted = ss.filter fun s => s.id ∉ gone := by
    rw [Block.lifted, hbody]
    exact lifted_woven hc fun s hs => hw.lifted s (mem_flatten hss (List.mem_filter.mp hs).1)
  rw [hlifted, hbody]

end Weave

end Hooks

/-! ## Histories -/

namespace Round

variable {r : Round} {f : Function} {x x' : Sources × Round}

def Woven (r : Round) : Prop := ∀ f ∈ r.functions, ∃ ever gone, r.hooks.Weave f ever gone

theorem Fresh.woven (h : r.Fresh) : r.Woven := by
  intro f hf
  rw [h.hooks]
  exact ⟨_, _, Hooks.weave_of_lifted (h.numbered f hf) (h.lifted f hf)⟩

theorem Woven.set (hw : r.Woven) {hooks : Hooks} {g : Function} {i : Nat}
    (hg : ∃ ever gone, hooks.Weave g ever gone)
    (hothers : ∀ f ∈ r.functions, f.id ≠ i → ∀ {ever gone}, r.hooks.Weave f ever gone →
      hooks.Weave f ever gone) (hin : r.InOrder) :
    ∀ f ∈ r.functions.set i g, ∃ ever gone, hooks.Weave f ever gone := by
  intro f hf
  obtain ⟨j, hj⟩ := List.mem_iff_getElem?.mp hf
  rcases Functions.getElem?_set_cases hj with ⟨-, rfl⟩ | ⟨hij, hj⟩
  · exact hg
  · have hmem := List.mem_of_getElem? hj
    have hid := hin.ids hj
    obtain ⟨ever, gone, hweave⟩ := hw f hmem
    exact ⟨ever, gone, hothers f hmem (fun he => hij (hid.symm.trans he)) hweave⟩

theorem Woven.putBack (hw : r.Woven) (hin : r.InOrder) {b : Bench} {detector : Option Detector}
    {signatures : Signatures} {wanted : Anchor → Prop} (hf : f ∈ r.functions)
    (hm : Bench.Moves detector signatures wanted (r.bench f) b)
    (hoffers : ∀ {ever gone}, r.hooks.Weave f ever gone →
      ∀ a, wanted a → Hooks.Weave.Offers f.id ever gone a) : (r.putBack b).Woven := by
  have hid : b.function.id = f.id := Bench.Moves.function_id hm
  obtain ⟨new, hnew, hown⟩ := (Bench.Moves.frame hm).built
  obtain ⟨ever, gone, hweave⟩ := hw f hf
  have hdone := Bench.Moves.weave hm (hin.bench_sound hf) (hoffers hweave) hweave
  refine hw.set ⟨ever, gone, hdone⟩ ?_ hin
  intro g hg hne ever gone hg'
  refine hg'.frame hnew (fun k hk he => hne ?_) fun a ha => (Bench.Moves.frame hm).active a ?_
  · exact he.symm.trans ((hown k hk).trans hid.symm)
  · intro he
    exact hne (ha.symm.trans (he.trans hid.symm))

theorem Turn.woven (h : Turn (fun f s => s.Genuine f) x x') (hx : x.2.InOrder) (hw : x.2.Woven) :
    x'.2.Woven := by
  cases h with
  | conventions | signFunction | signCall | detector | note => exact hw
  | edit sources r f g e hf hl he =>
    obtain ⟨ever, gone, hweave⟩ := hw f hf
    exact hw.set (hweave.codeEdit hx.consistent (hx.accounts f hf) hl he)
      (fun g hg hne {_ _} h => h) hx
  | observe sources r f s =>
    intro g hg
    obtain ⟨ever, gone, hweave⟩ := hw g hg
    refine ⟨ever, gone, hweave.congr ?_ ?_⟩ <;> · dsimp only; rw [Hooks.observe_fields]
  | instrument sources r f s hf hs =>
    rcases instrument_cases r sources s (hx.getElem? hf) with heq | ⟨hserves, hm⟩
    · rw [heq]
      exact hw
    · rw [left_instrument]
      exact hw.putBack hx hf (.head (.start _ s) hm) fun hweave =>
        hs.offers hserves hx.consistent hweave
  | deinstrument sources r f hf =>
    have hm : Bench.Moves none .empty (fun _ => False) (r.bench f) _ :=
      (r.bench f).deinstrument_moves
    exact hw.putBack hx hf hm fun _ a ha => ha.elim

theorem Turns.woven (h : Turns (fun f s => s.Genuine f) x x') (hx : x.2.InOrder)
    (hw : x.2.Woven) : x'.2.Woven := by
  induction h with
  | refl => exact hw
  | tail hts ht ih => exact ht.woven (Turns.inOrder hts hx) ih

end Round

namespace Workspace

variable {w₀ w : Workspace} {sources₀ sources : Sources} {r₀ r r' : Round} {f : Function}
  {s : Snapshot}

/-- Whatever was done since the workspace was fresh, right after a function was instrumented with a
snapshot of its own every block reads as its lifted statements with the active hooks around them,
every active hook has its anchor in the function, and no statement is there twice. The ids are those
that a count in 32 bits gives while the function has had at most `2 ^ 32` of them. -/
theorem instrumented_function_reads_woven {taken : List Snapshot}
    (h₀ : w₀.round? = some (sources₀, r₀)) (hfresh : r₀.Fresh) (h : History w₀ taken w)
    (hr : w.round? = some (sources, r)) (hf : f ∈ r.functions) (hs : s ∈ taken)
    (hok : r.instrument sources f s = .ok r') :
    ∃ f', r'.functions[f.id]? = some f' ∧ f'.code = f.code ∧
      (∀ (b : BlockId) (block : Block), f'.blocks[b]? = some block →
        block.statements = r'.hooks.woven f.id b block.lifted) ∧
      (∀ (a : Anchor) (k : Hook), r'.hooks.active[a]? = some k → a.function = f.id →
        a = .entry f.id ∨ ∃ t ∈ f'.statements, t.isSynthetic = false ∧ t.anchor? f.id = some a) ∧
      (f'.statements.map (·.id)).Nodup ∧ ∀ t ∈ f'.statements, f'.HandedOut t.id := by
  obtain ⟨sources', r', hr', hturns, hkept⟩ := h.turns h₀ hfresh.inOrder
  obtain ⟨rfl, rfl⟩ := Prod.mk.inj (Option.some.inj (hr.symm.trans hr'))
  have hin : r.InOrder := Round.Turns.inOrder hturns hfresh.inOrder
  obtain ⟨ever, gone, hweave⟩ := Round.Turns.woven hturns hfresh.inOrder hfresh.woven f hf
  obtain ⟨b, hb, rfl⟩ := Round.instrument_eq_ok hok
  have hsound := hin.bench_sound hf
  obtain ⟨b₁, b₂, hcourse⟩ := Bench.instrument_course hsound hb
  have hoffers := ((hkept s hs).genuine hin hf).offers hcourse.serves hin.consistent hweave
  have hmoves : Bench.Moves sources.detector sources.signatures.value
      (· ∈ s.anchors f.id) (r.bench f) b := Bench.moves_of_instrument_eq_ok hb
  have hid : b.function.id = f.id := Bench.Moves.function_id hmoves
  have hdone : b.hooks.Weave b.function ever gone := Bench.Moves.weave hmoves hsound hoffers hweave
  have hactive : ∀ {a : Anchor} {k : Hook}, b.hooks.active[a]? = some k →
      a.function = b.function.id → Hooks.Weave.Offers b.function.id ever gone a := by
    intro a k hk ha
    rw [hid] at ha ⊢
    exact hoffers a (hcourse.anchors hk ha)
  refine ⟨b.function, hin.getElem?_putBack hf hid, (Bench.Moves.sameCode hmoves hsound).code_eq,
    ?_, ?_, hcourse.sound.2.numbered.nodup, hcourse.sound.2.numbered.handedOut⟩
  · intro i block hblock
    rw [← hid]
    exact hdone.reads hcourse.sound.1 hactive hblock
  · intro a k hk ha
    rw [← hid] at ha
    rcases hactive hk ha with he | ⟨t, ht, hg, hta⟩
    · exact .inl (hid ▸ he)
    · obtain ⟨ss, hmem, hts⟩ := List.mem_flatten.mp ht
      obtain ⟨i, hss⟩ := List.mem_iff_getElem?.mp hmem
      obtain ⟨block, hblock, htb⟩ := hdone.mem_of_ever hss hts hg
      exact .inr ⟨t, Function.mem_statements.mpr ⟨i, block, hblock, htb⟩, hdone.lifted t ht,
        hid ▸ hta⟩

/-- The function with its call and its return hooked. -/
theorem sample_reads_woven :
    ∃ w taken sources r f s r' f', History sample taken w ∧ w.round? = some (sources, r) ∧
      s ∈ taken ∧ r.instrument sources f s = .ok r' ∧ 0 < f'.syntheticCount ∧
      r'.functions[f.id]? = some f' ∧
      ∀ (b : BlockId) (block : Block), f'.blocks[b]? = some block →
        block.statements = r'.hooks.woven f.id b block.lifted := by
  have hexists : (Round.sample.instrument ⟨none, .sound .empty⟩ Function.sample
      (.take Function.sample)).toOption.any fun r' =>
        (r'.functions[Function.sample.id]?).any fun f' => 0 < f'.syntheticCount := by
    decide +kernel
  obtain ⟨r', hok, hany⟩ := exists_of_any_toOption hexists
  obtain ⟨f', hf', hpos⟩ := (Option.any_eq_true _ _).mp hany
  have hmem : Function.sample ∈ Round.sample.functions := List.mem_singleton_self _
  have hhistory : History sample [.take Function.sample] sample :=
    .take .start [Function.sample] Function.sample rfl (List.mem_singleton_self _)
  obtain ⟨g, hg, -, hreads, -⟩ := instrumented_function_reads_woven round?_sample
    Round.sample_fresh hhistory round?_sample hmem (List.mem_singleton_self _) hok
  obtain rfl := Option.some.inj (hf'.symm.trans hg)
  exact ⟨sample, _, _, _, Function.sample, _, r', f', hhistory, round?_sample,
    List.mem_singleton_self _, hok, of_decide_eq_true hpos, hf', hreads⟩

end Workspace

end CallEffects
