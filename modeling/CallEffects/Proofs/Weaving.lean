import CallEffects.Proofs.History
import CallEffects.Proofs.Settling

/-!
# Where hook statements stand

`Hooks.woven` spells out a block from its lifted statements: the hook of the function entry comes
first in the entry block, the hook of a call follows it and the hook of a return precedes it. The
body of a block is what was woven around all statements the block ever held, less those that have
been removed since. So a hook whose anchor was removed keeps its place until it is taken off, and
once every active hook has its anchor the body is woven around the statements that are there.
-/

namespace CallEffects

open Std

/-- The anchor a lifted statement offers to hooks. -/
def Statement.anchor? (f : FunctionId) (s : Statement) : Option Anchor :=
  match s.kind with
  | .call _ => some (.call ⟨f, s.id⟩)
  | .ret _ => some (.ret ⟨f, s.id⟩)
  | _ => none

theorem Statement.anchor?_cases {s : Statement} {i : FunctionId} {a : Anchor}
    (hs : s.anchor? i = some a) :
    (∃ target, s.kind = .call target ∧ a = .call ⟨i, s.id⟩) ∨
      ∃ pop, s.kind = .ret pop ∧ a = .ret ⟨i, s.id⟩ := by
  unfold Statement.anchor? at hs
  split at hs
  · next hk => exact .inl ⟨_, hk, (Option.some.inj hs).symm⟩
  · next hk => exact .inr ⟨_, hk, (Option.some.inj hs).symm⟩
  · cases hs

theorem Statement.function_of_anchor? {s : Statement} {i : FunctionId} {a : Anchor}
    (hs : s.anchor? i = some a) : a.function = i := by
  rcases anchor?_cases hs with ⟨-, -, rfl⟩ | ⟨-, -, rfl⟩ <;> rfl

theorem Statement.anchor?_ne_entry {s : Statement} {i j : FunctionId} :
    s.anchor? i ≠ some (.entry j) := by
  intro hs
  rcases anchor?_cases hs with ⟨-, -, h⟩ | ⟨-, -, h⟩ <;> cases h

theorem Statement.id_eq_of_anchor? {s t : Statement} {i : FunctionId} {a : Anchor}
    (hs : s.anchor? i = some a) (ht : t.anchor? i = some a) : s.id = t.id := by
  rcases anchor?_cases hs with ⟨-, -, rfl⟩ | ⟨-, -, rfl⟩ <;>
  · rcases anchor?_cases ht with ⟨-, -, h⟩ | ⟨-, -, h⟩ <;> simp at h
    exact h

namespace Hooks

def attached (h : Hooks) (a : Anchor) : List Statement := ((h.active[a]?).map (·.statements)).getD []

def around (h : Hooks) (f : FunctionId) (s : Statement) : List Statement :=
  match s.kind with
  | .call _ => s :: h.attached (.call ⟨f, s.id⟩)
  | .ret _ => h.attached (.ret ⟨f, s.id⟩) ++ [s]
  | _ => [s]

def woven (h : Hooks) (f : FunctionId) (b : BlockId) (lifted : List Statement) : List Statement :=
  (if b = Function.entryBlock then h.attached (.entry f) else []) ++ lifted.flatMap (h.around f)

/-- The bodies of the function are woven around the statements `ever` held by its blocks, less those
that are `gone`. -/
structure Weave (h : Hooks) (f : Function) (ever : List (List Statement))
    (gone : List StatementId) : Prop where
  bodies : ∀ {b : BlockId}, f.bodies[b]? =
    (ever[b]?).map fun ss => (h.woven f.id b ss).filter fun s => s.id ∉ gone
  lifted : ∀ s ∈ ever.flatten, s.isSynthetic = false
  nodup : (ever.flatten.map (·.id)).Nodup
  below : ∀ s ∈ ever.flatten, s.id < f.nextStatement
  apart : ∀ {k}, k ∈ h.built → k.anchor.function = f.id → ∀ s ∈ ever.flatten, s.id ∉ k.statementIds
  gone_ever : ∀ id ∈ gone, ∃ s ∈ ever.flatten, s.id = id
  named : ∀ {a : Anchor} {k : Hook}, h.active[a]? = some k → a.function = f.id →
    a = .entry f.id ∨ ∃ s ∈ ever.flatten, s.anchor? f.id = some a

variable {h h' : Hooks} {f g : Function} {ever : List (List Statement)} {gone : List StatementId}
variable {a : Anchor} {s : Statement} {ss : List Statement} {b : BlockId} {i : FunctionId}

theorem attached_of_none (hn : h.active[a]? = none) : h.attached a = [] := by
  simp [attached, hn]

theorem attached_of_some {k : Hook} (hk : h.active[a]? = some k) : h.attached a = k.statements := by
  simp [attached, hk]

theorem attached_congr (ha : h'.active[a]? = h.active[a]?) : h'.attached a = h.attached a := by
  rw [attached, ha, attached]

theorem around_congr (ha : ∀ a, s.anchor? i = some a → h'.active[a]? = h.active[a]?) :
    h'.around i s = h.around i s := by
  unfold around
  split
  · next hk => rw [attached_congr (ha _ (by simp only [Statement.anchor?, hk]))]
  · next hk => rw [attached_congr (ha _ (by simp only [Statement.anchor?, hk]))]
  · rfl

theorem around_of_none (ha : ∀ a, s.anchor? i = some a → h.active[a]? = none) :
    h.around i s = [s] := by
  unfold around
  split
  · next hk => rw [attached_of_none (ha _ (by simp only [Statement.anchor?, hk]))]
  · next hk => rw [attached_of_none (ha _ (by simp only [Statement.anchor?, hk])), List.nil_append]
  · rfl

theorem mem_around_cases {t : Statement} (ht : t ∈ h.around i s) :
    t = s ∨ ∃ a, s.anchor? i = some a ∧ t ∈ h.attached a := by
  unfold around at ht
  split at ht
  · next hk =>
    rcases List.mem_cons.mp ht with rfl | ht
    · exact .inl rfl
    · exact .inr ⟨_, by simp only [Statement.anchor?, hk], ht⟩
  · next hk =>
    rcases List.mem_append.mp ht with ht | ht
    · exact .inr ⟨_, by simp only [Statement.anchor?, hk], ht⟩
    · exact .inl (List.mem_singleton.mp ht)
  · exact .inl (List.mem_singleton.mp ht)

theorem mem_around : s ∈ h.around i s := by
  unfold around
  split <;> simp

theorem mem_woven_of_mem (hs : s ∈ ss) : s ∈ h.woven i b ss :=
  List.mem_append_right _ (List.mem_flatMap.mpr ⟨s, hs, mem_around⟩)

theorem mem_woven_cases (hs : s ∈ h.woven i b ss) :
    s ∈ ss ∨ ∃ (a : Anchor) (k : Hook),
      h.active[a]? = some k ∧ a.function = i ∧ s ∈ k.statements := by
  have hattached : ∀ a : Anchor, a.function = i → s ∈ h.attached a →
      ∃ (a : Anchor) (k : Hook), h.active[a]? = some k ∧ a.function = i ∧ s ∈ k.statements := by
    intro a ha hmem
    cases hk : h.active[a]? with
    | none => simp [attached_of_none hk] at hmem
    | some k => exact ⟨a, k, hk, ha, attached_of_some hk ▸ hmem⟩
  rcases List.mem_append.mp hs with hs | hs
  · split at hs
    · exact .inr (hattached _ rfl hs)
    · cases hs
  · obtain ⟨t, ht, hs⟩ := List.mem_flatMap.mp hs
    rcases mem_around_cases hs with rfl | ⟨a, hta, hs⟩
    · exact .inl ht
    · exact .inr (hattached a (Statement.function_of_anchor? hta) hs)

theorem flatMap_around_congr
    (ha : ∀ s ∈ ss, ∀ a, s.anchor? i = some a → h'.active[a]? = h.active[a]?) :
    ss.flatMap (h'.around i) = ss.flatMap (h.around i) := by
  simp only [List.flatMap]
  congr 1
  exact List.map_congr_left fun s hs => around_congr (ha s hs)

theorem woven_congr
    (he : b = Function.entryBlock → h'.active[Anchor.entry i]? = h.active[Anchor.entry i]?)
    (ha : ∀ s ∈ ss, ∀ a, s.anchor? i = some a → h'.active[a]? = h.active[a]?) :
    h'.woven i b ss = h.woven i b ss := by
  have hentry : (if b = Function.entryBlock then h'.attached (.entry i) else []) =
      if b = Function.entryBlock then h.attached (.entry i) else [] := by
    split
    · next hb => exact attached_congr (he hb)
    · rfl
  rw [woven, hentry, flatMap_around_congr ha, woven]

namespace Weave

theorem congr (hw : h.Weave f ever gone) (hb : h'.built = h.built) (ha : h'.active = h.active) :
    h'.Weave f ever gone := by
  have hwoven : ∀ b ss, h'.woven f.id b ss = h.woven f.id b ss := by
    intro b ss
    exact woven_congr (fun _ => by rw [ha]) fun _ _ _ _ => by rw [ha]
  constructor
  · intro b
    simp only [hwoven]
    exact hw.bodies
  · exact hw.lifted
  · exact hw.nodup
  · exact hw.below
  · rw [hb]
    exact hw.apart
  · exact hw.gone_ever
  · rw [ha]
    exact hw.named

theorem frame (hw : h.Weave f ever gone) {new : List Hook} (hb : h'.built = h.built ++ new)
    (hnew : ∀ k ∈ new, k.anchor.function ≠ f.id)
    (ha : ∀ a : Anchor, a.function = f.id → h'.active[a]? = h.active[a]?) :
    h'.Weave f ever gone := by
  have hwoven : ∀ b ss, h'.woven f.id b ss = h.woven f.id b ss := by
    intro b ss
    refine woven_congr (fun _ => ha _ rfl) fun s _ a hs => ha a ?_
    exact Statement.function_of_anchor? hs
  constructor
  · intro b
    simp only [hwoven]
    exact hw.bodies
  · exact hw.lifted
  · exact hw.nodup
  · exact hw.below
  · intro k hk hkf
    rw [hb] at hk
    exact hw.apart ((List.mem_append.mp hk).resolve_right fun hn => hnew k hn hkf) hkf
  · exact hw.gone_ever
  · intro a k hk haf
    exact hw.named ((ha a haf).symm.trans hk) haf

theorem body (hw : h.Weave f ever gone) {block : Block} (hb : f.blocks[b]? = some block) :
    ∃ ss, ever[b]? = some ss ∧
      block.statements = (h.woven f.id b ss).filter fun s => s.id ∉ gone := by
  have hbody := hw.bodies (b := b)
  rw [Function.getElem?_bodies, hb] at hbody
  obtain ⟨ss, hss, heq⟩ := Option.map_eq_some_iff.mp hbody.symm
  exact ⟨ss, hss, heq.symm⟩

theorem block (hw : h.Weave f ever gone) (hss : ever[b]? = some ss) :
    ∃ block, f.blocks[b]? = some block ∧
      block.statements = (h.woven f.id b ss).filter fun s => s.id ∉ gone := by
  have hbody := hw.bodies (b := b)
  rw [Function.getElem?_bodies, hss] at hbody
  exact Option.map_eq_some_iff.mp hbody

theorem mem_of_ever (hw : h.Weave f ever gone) (hss : ever[b]? = some ss) (hs : s ∈ ss)
    (hg : s.id ∉ gone) :
    ∃ block, f.blocks[b]? = some block ∧ s ∈ block.statements := by
  obtain ⟨block, hblock, hbody⟩ := hw.block hss
  refine ⟨block, hblock, ?_⟩
  rw [hbody, List.mem_filter]
  exact ⟨mem_woven_of_mem hs, by simpa using hg⟩

theorem ever_of_mem (hw : h.Weave f ever gone) (hc : h.Consistent) (hs : s ∈ f.statements)
    (hl : s.isSynthetic = false) : s ∈ ever.flatten ∧ s.id ∉ gone := by
  obtain ⟨b, block, hb, hmem⟩ := Function.mem_statements.mp hs
  obtain ⟨ss, hss, hbody⟩ := hw.body hb
  rw [hbody, List.mem_filter] at hmem
  refine ⟨?_, by simpa using hmem.2⟩
  rcases mem_woven_cases hmem.1 with hever | ⟨a, k, hk, -, hsk⟩
  · exact List.mem_flatten.mpr ⟨ss, List.mem_of_getElem? hss, hever⟩
  · rw [hc.isSynthetic (hc.active_built hk).1 hsk] at hl
    cases hl

theorem mem_flatten (hss : ever[b]? = some ss) (hs : s ∈ ss) : s ∈ ever.flatten :=
  List.mem_flatten.mpr ⟨ss, List.mem_of_getElem? hss, hs⟩

theorem eq_of_id_eq (hw : h.Weave f ever gone) {t : Statement} (hs : s ∈ ever.flatten)
    (ht : t ∈ ever.flatten) (hid : s.id = t.id) : s = t :=
  List.inj_on_of_nodup_map hw.nodup hs ht hid

/-! ### Detaching -/

theorem attached_erase (hc : h.Consistent) (hacc : h.Accounts f) {k : Hook} {a' : Anchor}
    (hk : h.active[a]? = some k) (ha : a.function = f.id) (ha' : a'.function = f.id) :
    { h with active := h.active.erase a : Hooks }.attached a' =
      (h.attached a').filter fun s => !(s.isSynthetic && k.statementIds.contains s.id) := by
  obtain ⟨hbuilt, rfl⟩ := hc.active_built hk
  by_cases heq : k.anchor = a'
  · subst heq
    rw [attached_of_none ExtTreeMap.getElem?_erase_self, attached_of_some hk, eq_comm,
      List.filter_eq_nil_iff]
    intro s hs
    simp [hc.isSynthetic hbuilt hs, Hook.statementIds, List.mem_map_of_mem hs]
  · have hget : (h.active.erase k.anchor)[a']? = h.active[a']? := Table.getElem?_erase_of_ne heq
    rw [attached_congr hget]
    cases hk' : h.active[a']? with
    | none => rw [attached_of_none hk', List.filter_nil]
    | some k' =>
      obtain ⟨hbuilt', rfl⟩ := hc.active_built hk'
      have hne : k' ≠ k := fun he => heq (he ▸ rfl)
      rw [attached_of_some hk', eq_comm, List.filter_eq_self]
      intro s hs
      have hnot := hacc.disjoint hbuilt' hbuilt ha' ha hne s.id (List.mem_map_of_mem hs)
      simp [hnot]

theorem woven_erase (hc : h.Consistent) (hacc : h.Accounts f) {k : Hook}
    (hk : h.active[a]? = some k) (ha : a.function = f.id) (hl : ∀ s ∈ ss, s.isSynthetic = false) :
    { h with active := h.active.erase a : Hooks }.woven f.id b ss =
      (h.woven f.id b ss).filter fun s => !(s.isSynthetic && k.statementIds.contains s.id) := by
  simp only [woven, List.filter_append, List.filter_flatMap]
  congr 1
  · split
    · exact attached_erase hc hacc hk ha rfl
    · rfl
  · simp only [List.flatMap]
    congr 1
    apply List.map_congr_left
    intro s hs
    have hkeep : [s].filter (fun s => !(s.isSynthetic && k.statementIds.contains s.id)) = [s] := by
      simp [hl s hs]
    unfold around
    split
    · rw [attached_erase hc hacc hk ha rfl, List.filter_cons_of_pos (by simp [hl s hs])]
    · rw [attached_erase hc hacc hk ha rfl, List.filter_append, hkeep]
    · exact hkeep.symm

theorem detach (hw : h.Weave f ever gone) (hc : h.Consistent) (hacc : h.Accounts f) {k : Hook}
    (hk : h.active[a]? = some k) (ha : a.function = f.id) :
    { h with active := h.active.erase a : Hooks }.Weave (f.removeSynthetic k.statementIds) ever
      gone := by
  constructor
  · intro b
    have hbody : (f.removeSynthetic k.statementIds).bodies[b]? = (f.bodies[b]?).map
        fun ss => ss.filter fun s => !(s.isSynthetic && k.statementIds.contains s.id) := by
      simp only [Function.bodies, Function.removeSynthetic, List.getElem?_map, Option.map_map]
      rfl
    rw [hbody, hw.bodies, Option.map_map]
    cases hss : ever[b]? with
    | none => rfl
    | some ss =>
      have hl : ∀ s ∈ ss, s.isSynthetic = false := fun s hs => hw.lifted s (mem_flatten hss hs)
      have hid : (f.removeSynthetic k.statementIds).id = f.id := rfl
      simp only [Option.map_some, Function.comp_apply, hid, woven_erase hc hacc hk ha hl]
      rw [List.filter_filter, List.filter_filter]
      congr 2
      funext s
      rw [Bool.and_comm]
  · exact hw.lifted
  · exact hw.nodup
  · exact hw.below
  · exact hw.apart
  · exact hw.gone_ever
  · intro a' k' hk' ha'
    exact hw.named (Table.getElem?_erase_eq_some hk').2 ha'

/-! ### Attaching -/

/-- What the entry and the statements before a statement contribute to the body, and what those
after it do. -/
theorem woven_split (h : Hooks) (i : FunctionId) (b : BlockId) (before after : List Statement)
    (s : Statement) :
    h.woven i b (before ++ s :: after) =
      h.woven i b before ++ h.around i s ++ after.flatMap (h.around i) := by
  simp only [woven, List.flatMap_append, List.flatMap_cons, List.append_assoc]

theorem filter_hook (hw : h.Weave f ever gone) {k : Hook} (hk : k ∈ h.built)
    (ha : k.anchor.function = f.id) :
    (k.statements.filter fun s => s.id ∉ gone) = k.statements := by
  apply List.filter_eq_self.mpr
  intro s hs
  have hnot : s.id ∉ gone := by
    intro hg
    obtain ⟨t, ht, hid⟩ := hw.gone_ever s.id hg
    exact hw.apart hk ha t ht (hid ▸ List.mem_map_of_mem hs)
  simpa using hnot

/-- The anchor is the entry, or offered by a statement that is still there. -/
def Offers (f : FunctionId) (ever : List (List Statement)) (gone : List StatementId) (a : Anchor) :
    Prop :=
  a = .entry f ∨ ∃ s ∈ ever.flatten, s.id ∉ gone ∧ s.anchor? f = some a

theorem insert_of_not_offered {k : Hook} (hss : ∀ s ∈ ss, s.anchor? i ≠ some k.anchor) :
    ∀ s ∈ ss, ∀ a, s.anchor? i = some a →
      (h.active.insert k.anchor k)[a]? = h.active[a]? := by
  intro s hs a ha
  refine Table.getElem?_insert_of_ne ?_
  rintro rfl
  exact hss s hs ha

theorem nodup_body (hf : f.Numbered) {block : Block} (hb : f.blocks[b]? = some block) :
    block.statements.Nodup := by
  obtain ⟨l, r, hl, -⟩ := Function.statements_split hb
  have hall := List.Nodup.of_map _ hf.nodup
  rw [hl] at hall
  exact (List.nodup_append.mp (List.nodup_append.mp hall).1).2.1

theorem entry_insert (hw : h.Weave f ever gone) {k : Hook} (hk : k ∈ h.built)
    (ha : k.anchor = .entry f.id) (hnone : h.active[k.anchor]? = none) (ss : List Statement) :
    ({ h with active := h.active.insert k.anchor k : Hooks }.woven f.id Function.entryBlock ss).filter
        (fun s => s.id ∉ gone) =
      k.statements ++ (h.woven f.id Function.entryBlock ss).filter fun s => s.id ∉ gone := by
  have hold : h.attached (.entry f.id) = [] := attached_of_none (ha ▸ hnone)
  have hnew : { h with active := h.active.insert k.anchor k : Hooks }.attached (.entry f.id) =
      k.statements := by
    rw [← ha]
    exact attached_of_some ExtTreeMap.getElem?_insert_self
  have hrest : ss.flatMap ({ h with active := h.active.insert k.anchor k : Hooks }.around f.id) =
      ss.flatMap (h.around f.id) := by
    refine flatMap_around_congr (insert_of_not_offered fun s _ hs => ?_)
    rw [ha] at hs
    exact Statement.anchor?_ne_entry hs
  have hmine : k.anchor.function = f.id := by rw [ha]; rfl
  simp only [woven, if_pos, hold, hnew, hrest, List.filter_append, List.nil_append,
    hw.filter_hook hk hmine]

/-- The body around the statement that offers an anchor, before and after its hook comes in. -/
theorem offered_insert (hw : h.Weave f ever gone) {k : Hook} (hk : k ∈ h.built)
    (ha : k.anchor.function = f.id) (hnone : h.active[k.anchor]? = none)
    (hoffer : s.anchor? f.id = some k.anchor) (hg : s.id ∉ gone) (hss : ever[b]? = some ss)
    (hs : s ∈ ss) :
    ∃ before after,
      ((h.woven f.id b ss).filter fun s => s.id ∉ gone) = before ++ s :: after ∧
      (({ h with active := h.active.insert k.anchor k : Hooks }.woven f.id b ss).filter
        fun s => s.id ∉ gone) =
        before ++ { h with active := h.active.insert k.anchor k : Hooks }.around f.id s ++ after := by
  obtain ⟨l, r, rfl⟩ := List.append_of_mem hs
  have hnodup : (l ++ s :: r).Nodup :=
    (List.nodup_flatten.mp (List.Nodup.of_map _ hw.nodup)).1 _ (List.mem_of_getElem? hss)
  have hnot := (List.nodup_cons.mp (List.nodup_middle.mp hnodup)).1
  rw [List.mem_append, not_or] at hnot
  obtain ⟨hl, hr⟩ := hnot
  have hother : ∀ t ∈ l ++ s :: r, t ≠ s → t.anchor? f.id ≠ some k.anchor := by
    intro t ht hne hta
    exact hne (hw.eq_of_id_eq (mem_flatten hss ht) (mem_flatten hss hs)
      (Statement.id_eq_of_anchor? hta hoffer))
  have hbefore : { h with active := h.active.insert k.anchor k : Hooks }.woven f.id b l =
      h.woven f.id b l := by
    refine woven_congr (fun _ => Table.getElem?_insert_of_ne ?_) (insert_of_not_offered ?_)
    · intro he
      rw [he] at hoffer
      exact Statement.anchor?_ne_entry hoffer
    · exact fun t ht => hother t (List.mem_append_left _ ht) fun he => hl (he ▸ ht)
  have hafter : r.flatMap ({ h with active := h.active.insert k.anchor k : Hooks }.around f.id) =
      r.flatMap (h.around f.id) := by
    refine flatMap_around_congr (insert_of_not_offered ?_)
    exact fun t ht => hother t (by simp [ht]) fun he => hr (he ▸ ht)
  have hplain : h.around f.id s = [s] := by
    refine around_of_none fun a hsa => ?_
    rw [hoffer] at hsa
    cases hsa
    exact hnone
  have hkeep : ({ h with active := h.active.insert k.anchor k : Hooks }.around f.id s).filter
      (fun s => s.id ∉ gone) = { h with active := h.active.insert k.anchor k : Hooks }.around f.id s := by
    apply List.filter_eq_self.mpr
    intro t ht
    rcases mem_around_cases ht with rfl | ⟨a, hsa, hta⟩
    · simpa using hg
    · rw [hoffer] at hsa
      cases hsa
      rw [attached_of_some ExtTreeMap.getElem?_insert_self, ← hw.filter_hook hk ha] at hta
      exact (List.mem_filter.mp hta).2
  refine ⟨(h.woven f.id b l).filter fun s => s.id ∉ gone,
    (r.flatMap (h.around f.id)).filter fun s => s.id ∉ gone, ?_, ?_⟩
  · rw [woven_split, hplain]
    simp [hg]
  · rw [woven_split, hbefore, hafter, List.filter_append, List.filter_append, hkeep]

/-- The statement that offers the anchor is in one body only, and its hook comes in around it. -/
theorem body_insert_around (hw : h.Weave f ever gone) (hf : f.Numbered) {k : Hook}
    (hk : k ∈ h.built) (ha : k.anchor.function = f.id) (hnone : h.active[k.anchor]? = none)
    (hs : s ∈ ever.flatten) (hg : s.id ∉ gone) (hoffer : s.anchor? f.id = some k.anchor)
    {block : Block} {before after : List Statement} {t : Statement}
    (hb : f.blocks[b]? = some block) (hbody : block.statements = before ++ t :: after)
    (hid : t.id = s.id) (hss : ever[b]? = some ss) :
    t = s ∧ ({ h with active := h.active.insert k.anchor k : Hooks }.woven f.id b ss).filter
        (fun s => s.id ∉ gone) =
      before ++ { h with active := h.active.insert k.anchor k : Hooks }.around f.id s ++ after := by
  obtain ⟨ss', hmem, hs⟩ := List.mem_flatten.mp hs
  obtain ⟨b', hss'⟩ := List.mem_iff_getElem?.mp hmem
  obtain ⟨block', hb', hs'⟩ := hw.mem_of_ever hss' hs hg
  have ht : t ∈ block.statements := by simp [hbody]
  obtain rfl := hf.eq_of_id_eq (Function.mem_statements.mpr ⟨b, block, hb, ht⟩)
    (Function.mem_statements.mpr ⟨b', block', hb', hs'⟩) hid
  obtain rfl := hf.block_unique hb' hb hs' ht
  obtain rfl := Option.some.inj (hss.symm.trans hss')
  have hwoven : block.statements = (h.woven f.id b' ss).filter fun s => s.id ∉ gone := by
    obtain ⟨ss', hss', heq⟩ := hw.body hb
    obtain rfl := Option.some.inj (hss.symm.trans hss')
    exact heq
  have hnodup : (before ++ t :: after).Nodup := hbody ▸ nodup_body hf hb
  have hnot := (List.nodup_cons.mp (List.nodup_middle.mp hnodup)).1
  obtain ⟨l, r, hold, hnew⟩ := hw.offered_insert hk ha hnone hoffer hg hss hs
  rw [← hwoven, hbody] at hold
  obtain ⟨rfl, -, rfl⟩ := (List.append_cons_inj_of_notMem
    (fun hc => hnot (List.mem_append_left _ hc)) fun hc => hnot (List.mem_append_right _ hc)).mp hold
  exact ⟨rfl, hnew⟩

theorem body_insert (hw : h.Weave f ever gone) (hf : f.Numbered) {k : Hook} (hk : k ∈ h.built)
    (ha : k.anchor.function = f.id) (hnone : h.active[k.anchor]? = none)
    (hoffer : Offers f.id ever gone k.anchor) {block : Block} {before after : List Statement}
    (hb : f.blocks[b]? = some block) (hbody : block.statements = before ++ after)
    (hsits : Function.Sits k.anchor.position b before after) (hss : ever[b]? = some ss) :
    before ++ k.statements ++ after =
      ({ h with active := h.active.insert k.anchor k : Hooks }.woven f.id b ss).filter
        fun s => s.id ∉ gone := by
  have hattached : { h with active := h.active.insert k.anchor k : Hooks }.attached k.anchor =
      k.statements := attached_of_some ExtTreeMap.getElem?_insert_self
  rcases hoffer with he | ⟨s, hs, hg, hoffer⟩
  · rw [he] at hsits
    obtain ⟨rfl, rfl⟩ := hsits
    have hwoven : after = (h.woven f.id Function.entryBlock ss).filter fun s => s.id ∉ gone := by
      obtain ⟨ss', hss', heq⟩ := hw.body hb
      obtain rfl := Option.some.inj (hss.symm.trans hss')
      exact hbody.symm.trans heq
    rw [hw.entry_insert hk he hnone, ← hwoven, List.nil_append]
  · rcases Statement.anchor?_cases hoffer with ⟨target, hkind, he⟩ | ⟨pop, hkind, he⟩
    · -- After a call.
      rw [he] at hsits
      obtain ⟨t, rest, rfl, hid⟩ := hsits
      rw [List.append_assoc, List.singleton_append] at hbody
      obtain ⟨rfl, hnew⟩ := hw.body_insert_around hf hk ha hnone hs hg hoffer hb hbody hid hss
      rw [hnew]
      simp only [around, hkind, ← he, hattached]
      simp
    · -- Before a return.
      rw [he] at hsits
      obtain ⟨t, rest, rfl, hid⟩ := hsits
      obtain ⟨rfl, hnew⟩ := hw.body_insert_around hf hk ha hnone hs hg hoffer hb hbody hid hss
      rw [hnew]
      simp only [around, hkind, ← he, hattached]
      simp

/-- The statement that offers the anchor is where the hook goes, so no other block offers it. -/
theorem not_offered_elsewhere (hw : h.Weave f ever gone) (hf : f.Numbered)
    (hoffer : Offers f.id ever gone a) {block : Block} {before after : List Statement}
    (hb : f.blocks[b]? = some block) (hbody : block.statements = before ++ after)
    (hsits : Function.Sits a.position b before after) {j : BlockId} (hss : ever[j]? = some ss)
    (hbj : b ≠ j) : ∀ s ∈ ss, s.anchor? f.id ≠ some a := by
  intro s hs hsa
  rcases hoffer with rfl | ⟨t, ht, hg, hta⟩
  · exact Statement.anchor?_ne_entry hsa
  · obtain rfl := hw.eq_of_id_eq ht (mem_flatten hss hs) (Statement.id_eq_of_anchor? hta hsa)
    obtain ⟨block', hb', ht'⟩ := hw.mem_of_ever hss hs hg
    have hhere : ∃ u ∈ block.statements, u.id = t.id := by
      rcases Statement.anchor?_cases hta with ⟨-, -, rfl⟩ | ⟨-, -, rfl⟩
      · obtain ⟨u, rest, rfl, hid⟩ := hsits
        exact ⟨u, by simp [hbody], hid⟩
      · obtain ⟨u, rest, rfl, hid⟩ := hsits
        exact ⟨u, by simp [hbody], hid⟩
    obtain ⟨u, hu, hid⟩ := hhere
    obtain rfl := hf.eq_of_id_eq (Function.mem_statements.mpr ⟨b, block, hb, hu⟩)
      (Function.mem_statements.mpr ⟨j, block', hb', ht'⟩) hid
    exact hbj (hf.block_unique hb hb' hu ht')

theorem place (hw : h.Weave f ever gone) (hf : f.Numbered) {k : Hook} (hk : k ∈ h.built)
    (ha : k.anchor.function = f.id) (hnone : h.active[k.anchor]? = none)
    (hoffer : Offers f.id ever gone k.anchor)
    (hg : f.insertSynthetic k.anchor.position k.statements = .ok g) :
    { h with active := h.active.insert k.anchor k : Hooks }.Weave g ever gone := by
  obtain ⟨hfields, -⟩ := Function.insertSynthetic_fields hg
  have hid : g.id = f.id := by rw [hfields]
  have hnext : g.nextStatement = f.nextStatement := by rw [hfields]
  obtain ⟨b, block, before, after, hb, hbody, hsits, rfl⟩ := Function.insertSynthetic_eq_ok hg
  constructor
  · intro j
    rw [Function.getElem?_bodies, Function.getElem?_setBody, Option.map_map]
    have hold := hw.bodies (b := j)
    rw [Function.getElem?_bodies] at hold
    cases hss : ever[j]? with
    | none =>
      rw [hss] at hold
      rw [Option.map_eq_none_iff.mp hold]
      rfl
    | some ss =>
      obtain ⟨block', hb', hbody'⟩ := hw.block hss
      rw [hb']
      simp only [Option.map_some, Function.comp_apply, Option.some.injEq]
      by_cases hbj : b = j
      · subst hbj
        rw [if_pos rfl]
        exact hw.body_insert hf hk ha hnone hoffer hb hbody hsits hss
      · rw [if_neg hbj, hbody']
        refine congrArg _ (Eq.symm (woven_congr ?_ (insert_of_not_offered ?_)))
        · intro hj
          refine Table.getElem?_insert_of_ne fun he => hbj ?_
          rw [he] at hsits
          exact hsits.1.trans hj.symm
        · exact hw.not_offered_elsewhere hf hoffer hb hbody hsits hss hbj
  · exact hw.lifted
  · exact hw.nodup
  · exact hnext ▸ hw.below
  · exact hid ▸ hw.apart
  · exact hw.gone_ever
  · intro a k' hk' ha'
    rcases Table.getElem?_insert_eq_some hk' with ⟨rfl, -⟩ | ⟨-, hk'⟩
    · rcases hoffer with he | ⟨s, hs, -, hsa⟩
      · exact .inl he
      · exact .inr ⟨s, hs, hsa⟩
    · exact hw.named hk' ha'

end Weave

end Hooks

end CallEffects
