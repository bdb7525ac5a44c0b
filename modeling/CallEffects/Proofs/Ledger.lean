import CallEffects.Proofs.Edit
import CallEffects.Proofs.Moves
import CallEffects.Proofs.Tables

/-!
# Hooks keep account of their statements

`Hooks.Consistent` says that the tables of active and last hooks point at built hooks of the right
anchor, and that ids and keys tell built hooks apart. `Hooks.Accounts` ties the tables to one
function: its synthetic statements are exactly those of its active hooks, and no number is shared by
two hooks or by a hook and a lifted statement. Every move of a bench and every lifted edit keep
both, whatever snapshot the moves come from.
-/

namespace CallEffects

open Std

/-- Hooks of an entry write, hooks of a return read, and no hook has a statement of lifted kind. -/
def StatementKind.fits (kind : StatementKind) : HookKind → Bool
  | .entry => (kind matches .touch _ .write)
  | .ret => (kind matches .touch _ .read)
  | .call => kind.isHookOnly

theorem StatementKind.isHookOnly_of_fits {kind : StatementKind} {hook : HookKind}
    (h : kind.fits hook) : kind.isHookOnly := by
  cases hook <;> cases kind <;> first | rfl | cases h

structure Hooks.Consistent (h : Hooks) : Prop where
  active_built : ∀ {a k}, h.active[a]? = some k → k ∈ h.built ∧ k.anchor = a
  last_built : ∀ {a k}, h.last[a]? = some k → k ∈ h.built ∧ k.anchor = a
  key_inj : ∀ {k k'}, k ∈ h.built → k' ∈ h.built → k.key = k'.key → k = k'
  id_inj : ∀ {k k'}, k ∈ h.built → k' ∈ h.built → k.id = k'.id → k = k'
  id_lt : ∀ {k}, k ∈ h.built → k.id.kind = k.anchor.kind ∧ k.id.index < (h.ofKind k.id.kind).length
  origin : ∀ {k}, k ∈ h.built → ∀ s ∈ k.statements, s.origin = .synthetic k.anchor.kind
  nodup : ∀ {k}, k ∈ h.built → k.statementIds.Nodup
  kinds : ∀ {k}, k ∈ h.built → k.statements.map (·.kind) = k.effects.kinds
  fitting : ∀ {k}, k ∈ h.built → ∀ kind ∈ k.effects.kinds, kind.fits k.anchor.kind

structure Hooks.Accounts (h : Hooks) (f : Function) : Prop where
  numbered : f.Numbered
  below : ∀ {k}, k ∈ h.built → k.anchor.function = f.id → ∀ s ∈ k.statements, s.id < f.nextStatement
  apart : ∀ {k}, k ∈ h.built → k.anchor.function = f.id → ∀ s ∈ f.statements,
    s.isSynthetic = false → s.id ∉ k.statementIds
  disjoint : ∀ {k k'}, k ∈ h.built → k' ∈ h.built → k.anchor.function = f.id →
    k'.anchor.function = f.id → k ≠ k' → ∀ id ∈ k.statementIds, id ∉ k'.statementIds
  synthetic_iff : ∀ s, s ∈ f.statements ∧ s.isSynthetic ↔
    ∃ (a : Anchor) (k : Hook), h.active[a]? = some k ∧ a.function = f.id ∧ s ∈ k.statements

theorem mem_touches {access : Access} {locations : List Location} {kind : StatementKind}
    (h : kind ∈ touches access locations) : ∃ l, kind = .touch l access := by
  obtain ⟨l, -, rfl⟩ := List.mem_map.mp h
  exact ⟨l, rfl⟩

/-- Plans consist of the kinds of statements that hooks of their anchor have. -/
theorem Plan.Possible.fitting {cs : Conventions} {ss : Signatures} {p : Plan}
    (h : p.Possible cs ss) : ∀ kind ∈ p.effects.kinds, kind.fits p.key.anchor.kind := by
  intro kind hk
  cases h with
  | entry f c s =>
    obtain ⟨l, rfl⟩ := mem_touches hk
    rfl
  | ret r c s =>
    obtain ⟨l, rfl⟩ := mem_touches hk
    rfl
  | call r c s observed =>
    simp only [ofCall, Convention.callEffects, List.mem_append, List.mem_map] at hk
    rcases hk with ((hk | ⟨l, -, rfl⟩) | hk) | hk
    · obtain ⟨l, rfl⟩ := mem_touches hk
      rfl
    · rfl
    · obtain ⟨l, rfl⟩ := mem_touches hk
      rfl
    · split at hk
      · cases hk
      · obtain rfl := List.mem_singleton.mp hk
        rfl

namespace Hooks

variable {h h' : Hooks} {f g : Function}

theorem consistent_empty : Hooks.empty.Consistent where
  active_built hk := by simp [empty] at hk
  last_built hk := by simp [empty] at hk
  key_inj hk := by simp [empty] at hk
  id_inj hk := by simp [empty] at hk
  id_lt hk := by simp [empty] at hk
  origin hk := by simp [empty] at hk
  nodup hk := by simp [empty] at hk
  kinds hk := by simp [empty] at hk
  fitting hk := by simp [empty] at hk

theorem accounts_empty (hf : f.Numbered) (hs : ∀ s ∈ f.statements, s.isSynthetic = false) :
    Hooks.empty.Accounts f where
  numbered := hf
  below hk := by simp [empty] at hk
  apart hk := by simp [empty] at hk
  disjoint hk := by simp [empty] at hk
  synthetic_iff s := by
    constructor
    · rintro ⟨hmem, hsyn⟩
      rw [hs s hmem] at hsyn
      cases hsyn
    · rintro ⟨a, k, hk, -⟩
      simp [empty] at hk

theorem Consistent.isSynthetic (hc : h.Consistent) {k : Hook} (hk : k ∈ h.built) {s : Statement}
    (hs : s ∈ k.statements) : s.isSynthetic := by
  simp [Statement.isSynthetic, hc.origin hk s hs]

theorem Consistent.find?_id (hc : h.Consistent) {k : Hook} (hk : k ∈ h.built) :
    h.find? k.id = some k := by
  cases hfind : h.find? k.id with
  | none =>
    have hne := List.find?_eq_none.mp hfind k hk
    exact absurd (beq_iff_eq.mpr rfl) hne
  | some k' =>
    have hid : k'.id = k.id := by simpa using List.find?_some hfind
    rw [hc.id_inj (List.mem_of_find?_eq_some hfind) hk hid]

/-- Other hooks may be active, or have been so last, as long as they were built for their anchors. -/
theorem Consistent.retable (hc : h.Consistent) (hb : h'.built = h.built)
    (ha : ∀ {a : Anchor} {k : Hook}, h'.active[a]? = some k → k ∈ h.built ∧ k.anchor = a)
    (hl : ∀ {a : Anchor} {k : Hook}, h'.last[a]? = some k → k ∈ h.built ∧ k.anchor = a) :
    h'.Consistent := by
  cases h'
  simp only at hb ha hl
  subst hb
  exact ⟨ha, hl, hc.key_inj, hc.id_inj, hc.id_lt, hc.origin, hc.nodup, hc.kinds, hc.fitting⟩

theorem Consistent.congr (hc : h.Consistent) (hb : h'.built = h.built) (ha : h'.active = h.active)
    (hl : h'.last = h.last) : h'.Consistent :=
  hc.retable hb (fun hk => hc.active_built (ha ▸ hk)) fun hk => hc.last_built (hl ▸ hk)

theorem Consistent.erase (hc : h.Consistent) (a : Anchor) :
    { h with active := h.active.erase a : Hooks }.Consistent :=
  hc.retable rfl (fun hk => hc.active_built (Table.getElem?_erase_eq_some hk).2) hc.last_built

theorem Consistent.insert (hc : h.Consistent) {hook : Hook} (hk : hook ∈ h.built) :
    { h with active := h.active.insert hook.anchor hook : Hooks }.Consistent := by
  refine hc.retable rfl ?_ hc.last_built
  intro a k hak
  rcases Table.getElem?_insert_eq_some hak with ⟨rfl, rfl⟩ | ⟨-, hak⟩
  · exact ⟨hk, rfl⟩
  · exact hc.active_built hak

theorem Consistent.remember (hc : h.Consistent) {hook : Hook} (hk : hook ∈ h.built) :
    { h with last := h.last.insert hook.anchor hook : Hooks }.Consistent := by
  refine hc.retable rfl hc.active_built ?_
  intro a k hak
  rcases Table.getElem?_insert_eq_some hak with ⟨rfl, rfl⟩ | ⟨-, hak⟩
  · exact ⟨hk, rfl⟩
  · exact hc.last_built hak

theorem Consistent.forget (hc : h.Consistent) (gone : Anchor → Bool) :
    { h with last := h.last.filter fun a _ => !gone a : Hooks }.Consistent := by
  refine hc.retable rfl hc.active_built ?_
  intro a k hak
  rw [ExtTreeMap.getElem?_filter', Option.filter_eq_some_iff] at hak
  exact hc.last_built hak.1

theorem Accounts.frame (hf : h.Accounts f) {new : List Hook} (hb : h'.built = h.built ++ new)
    (hnew : ∀ k ∈ new, k.anchor.function ≠ f.id)
    (ha : ∀ a : Anchor, a.function = f.id → h'.active[a]? = h.active[a]?) : h'.Accounts f := by
  have hold : ∀ {k}, k ∈ h'.built → k.anchor.function = f.id → k ∈ h.built := by
    intro k hk hkf
    rw [hb] at hk
    exact (List.mem_append.mp hk).resolve_right fun hn => hnew k hn hkf
  constructor
  · exact hf.numbered
  · exact fun hk hkf => hf.below (hold hk hkf) hkf
  · exact fun hk hkf => hf.apart (hold hk hkf) hkf
  · exact fun hk hk' hkf hkf' => hf.disjoint (hold hk hkf) (hold hk' hkf') hkf hkf'
  · intro s
    rw [hf.synthetic_iff s]
    constructor
    · rintro ⟨a, k, hk, haf, hs⟩
      exact ⟨a, k, (ha a haf).trans hk, haf, hs⟩
    · rintro ⟨a, k, hk, haf, hs⟩
      exact ⟨a, k, (ha a haf).symm.trans hk, haf, hs⟩

theorem Accounts.congr (hf : h.Accounts f) (hb : h'.built = h.built) (ha : h'.active = h.active) :
    h'.Accounts f :=
  hf.frame (hb.trans (List.append_nil _).symm) (by simp) fun a _ => by rw [ha]

theorem Accounts.not_mem_of_inactive (hc : h.Consistent) (hf : h.Accounts f) {k : Hook}
    (hk : k ∈ h.built) (hkf : k.anchor.function = f.id) (hnone : h.active[k.anchor]? = none) :
    ∀ s ∈ f.statements, s.id ∉ k.statementIds := by
  intro s hs hid
  cases hsyn : s.isSynthetic with
  | false => exact hf.apart hk hkf s hs hsyn hid
  | true =>
    obtain ⟨a, k', hk', haf, hs'⟩ := (hf.synthetic_iff s).mp ⟨hs, hsyn⟩
    obtain ⟨hbuilt, rfl⟩ := hc.active_built hk'
    have hne : k' ≠ k := by
      rintro rfl
      rw [hnone] at hk'
      cases hk'
    exact hf.disjoint hbuilt hk haf hkf hne s.id (List.mem_map_of_mem hs') hid

/-- What an edit of lifted code may do to the statements, as far as hooks are concerned. -/
theorem Accounts.edit (hf : h.Accounts f) (hid : g.id = f.id) (hg : g.Numbered)
    (hnext : f.nextStatement ≤ g.nextStatement)
    (hmem : ∀ s ∈ g.statements, s ∈ f.statements ∨ s.isSynthetic = false ∧ f.nextStatement ≤ s.id)
    (hsyn : ∀ s ∈ f.statements, s.isSynthetic → s ∈ g.statements) : h.Accounts g := by
  constructor
  · exact hg
  · intro k hk hkf s hs
    exact Nat.lt_of_lt_of_le (hf.below hk (hkf.trans hid) s hs) hnext
  · intro k hk hkf s hs hl hmemk
    rcases hmem s hs with hold | ⟨-, hge⟩
    · exact hf.apart hk (hkf.trans hid) s hold hl hmemk
    · obtain ⟨t, ht, hts⟩ := List.mem_map.mp hmemk
      have hlt := hf.below hk (hkf.trans hid) t ht
      exact absurd (hts ▸ hge) (Nat.not_le_of_lt hlt)
  · intro k k' hk hk' hkf hkf'
    exact hf.disjoint hk hk' (hkf.trans hid) (hkf'.trans hid)
  · intro s
    rw [hid, ← hf.synthetic_iff s]
    constructor
    · rintro ⟨hs, hsynt⟩
      rcases hmem s hs with hold | ⟨hl, -⟩
      · exact ⟨hold, hsynt⟩
      · rw [hsynt] at hl
        cases hl
    · rintro ⟨hs, hsynt⟩
      exact ⟨hsyn s hs hsynt, hsynt⟩

end Hooks

/-! ## Lifted edits -/

namespace CodeEdit

variable {f g : Function} {e : CodeEdit}

theorem Effect.statements_cases (he : Effect f g) :
    (g.statements = f.statements ∧ g.nextStatement = f.nextStatement) ∨
    (∃ l s r, f.statements = l ++ r ∧ g.statements = l ++ s :: r ∧ s.isSynthetic = false ∧
      s.id = f.nextStatement ∧ g.nextStatement = f.nextStatement + 1) ∨
    ∃ s ∈ f.statements, s.isSynthetic = false ∧ g.nextStatement = f.nextStatement ∧
      g.statements = f.statements.filter fun t => t.id ≠ s.id := by
  rw [g.statements_eq_flatten, f.statements_eq_flatten]
  cases he with
  | block h hn => exact .inl ⟨by simp [h], hn⟩
  | none h hn => exact .inl ⟨by rw [h], hn⟩
  | push b s hb hs hid h hn =>
    have hb' : b < f.bodies.length := by simpa [Function.bodies] using hb
    obtain ⟨l, r, hold, hnew⟩ := flatten_modify_concat hb' s
    exact .inr (.inl ⟨l, s, r, hold, by rw [h, hnew], hs, hid, hn⟩)
  | remove s hs hl h hn => exact .inr (.inr ⟨s, hs, hl, hn, by rw [h, List.filter_flatten]⟩)

theorem Effect.blocks_ne_nil (he : Effect f g) (hf : f.blocks ≠ []) : g.blocks ≠ [] := by
  have hlen : f.bodies.length ≤ g.bodies.length := by
    cases he with
    | block h | none h | push _ _ _ _ _ h | remove _ _ _ h => simp [h]
  intro hnil
  simp only [Function.bodies, List.length_map, hnil, List.length_nil] at hlen
  exact hf (List.length_eq_zero_iff.mp (Nat.le_zero.mp hlen))

theorem Effect.numbered (he : Effect f g) (hf : f.Numbered) : g.Numbered := by
  have hne := he.blocks_ne_nil hf.blocks_ne_nil
  rcases he.statements_cases with ⟨heq, hn⟩ | ⟨l, s, r, hold, hnew, hs, hid, hn⟩ |
    ⟨s, hs, hl, hn, heq⟩
  · exact ⟨heq ▸ hf.nodup, fun t ht => hn ▸ hf.bounded t (heq ▸ ht), hne⟩
  · have hfresh : s.id ∉ f.statements.map (·.id) := by
      intro hmem
      obtain ⟨t, ht, hts⟩ := List.mem_map.mp hmem
      exact Nat.lt_irrefl _ (hid ▸ hts ▸ hf.bounded t ht)
    have hperm : (g.statements.map (·.id)).Perm (s.id :: f.statements.map (·.id)) := by
      rw [hnew, hold]
      simp
    refine ⟨hperm.nodup_iff.mpr (List.nodup_cons.mpr ⟨hfresh, hf.nodup⟩), ?_, hne⟩
    intro t ht
    rw [hn]
    rcases List.mem_cons.mp (hperm.mem_iff.mp (List.mem_map_of_mem ht)) with htid | htid
    · exact Nat.lt_succ_of_le (Nat.le_of_eq (htid.trans hid))
    · obtain ⟨u, hu, hut⟩ := List.mem_map.mp htid
      exact Nat.lt_succ_of_lt (hut ▸ hf.bounded u hu)
  · refine ⟨?_, fun t ht => ?_, hne⟩
    · rw [heq]
      exact hf.nodup.sublist (List.filter_sublist.map _)
    · rw [hn]
      exact hf.bounded t (List.mem_filter.mp (heq ▸ ht)).1

theorem apply_next_le (hf : f.Numbered) (hl : e.Lifted f) (he : e.apply f = .ok g) :
    f.nextStatement ≤ g.nextStatement := by
  cases apply_effect hf hl he with
  | block h hn | none h hn => exact Nat.le_of_eq hn.symm
  | push b s hb hs hid h hn => exact hn ▸ Nat.le_succ _
  | remove s hs hl h hn => exact Nat.le_of_eq hn.symm

end CodeEdit

theorem Hooks.Accounts.codeEdit {h : Hooks} {f g : Function} {e : CodeEdit} (hf : h.Accounts f)
    (hl : e.Lifted f) (he : e.apply f = .ok g) : h.Accounts g := by
  have heffect := CodeEdit.apply_effect hf.numbered hl he
  have hid := (CodeEdit.apply_fields he).1
  have hg := heffect.numbered hf.numbered
  rcases heffect.statements_cases with ⟨heq, hn⟩ | ⟨l, s, r, hold, hnew, hs, hsid, hn⟩ |
    ⟨s, hs, hls, hn, heq⟩
  · exact hf.edit hid hg (Nat.le_of_eq hn.symm) (fun t ht => .inl (heq ▸ ht)) fun t ht _ => heq ▸ ht
  · refine hf.edit hid hg (hn ▸ Nat.le_succ _) ?_ ?_
    · intro t ht
      rw [hnew, List.mem_append, List.mem_cons] at ht
      rw [hold, List.mem_append]
      rcases ht with ht | rfl | ht
      · exact .inl (.inl ht)
      · exact .inr ⟨hs, Nat.le_of_eq hsid.symm⟩
      · exact .inl (.inr ht)
    · intro t ht _
      rw [hold, List.mem_append] at ht
      rw [hnew, List.mem_append, List.mem_cons]
      exact ht.imp_right .inr
  · refine hf.edit hid hg (Nat.le_of_eq hn.symm)
      (fun t ht => .inl (List.mem_filter.mp (heq ▸ ht)).1) ?_
    intro t ht hsyn
    rw [heq, List.mem_filter]
    refine ⟨ht, ?_⟩
    have hne : t.id ≠ s.id := by
      intro htid
      rw [hf.numbered.eq_of_id_eq ht hs htid, hls] at hsyn
      cases hsyn
    simpa using hne

/-! ## Moves -/

namespace Bench

def Sound (b : Bench) : Prop := b.hooks.Consistent ∧ b.hooks.Accounts b.function

variable {b b' : Bench} {detector : Option Detector} {signatures : Signatures}
  {wanted : Anchor → Prop}

theorem Sound.congr (hb : b.Sound) (hf : b'.function = b.function)
    (hbuilt : b'.hooks.built = b.hooks.built) (ha : b'.hooks.active = b.hooks.active)
    (hl : b'.hooks.last = b.hooks.last) : b'.Sound :=
  ⟨hb.1.congr hbuilt ha hl, hf ▸ hb.2.congr hbuilt ha⟩

theorem Sound.detach (hb : b.Sound) (a : Anchor) (ha : a.function = b.function.id) :
    (b.detach a).Sound := by
  obtain ⟨hc, hf⟩ := hb
  cases hk : b.hooks.active[a]? with
  | none =>
    rw [detach_of_none hk]
    exact ⟨hc, hf⟩
  | some hook =>
    obtain ⟨hbuilt, hanchor⟩ := hc.active_built hk
    rw [detach_of_some hk]
    refine ⟨hc.erase a, hf.numbered.removeSynthetic _, hf.below, ?_, hf.disjoint, ?_⟩
    · intro k hk' hkf s hs
      exact hf.apart hk' hkf s (Function.mem_removeSynthetic.mp hs).1
    · intro s
      rw [Function.mem_removeSynthetic]
      constructor
      · rintro ⟨⟨hs, hout⟩, hsyn⟩
        obtain ⟨a', k, hk', haf, hsk⟩ := (hf.synthetic_iff s).mp ⟨hs, hsyn⟩
        have hne : a ≠ a' := by
          rintro rfl
          rw [hk] at hk'
          cases hk'
          exact hout hsyn (List.mem_map_of_mem hsk)
        exact ⟨a', k, (Table.getElem?_erase_of_ne hne).trans hk', haf, hsk⟩
      · rintro ⟨a', k, hk', haf, hsk⟩
        obtain ⟨hne, hk'⟩ := Table.getElem?_erase_eq_some hk'
        obtain ⟨hs, hsyn⟩ := (hf.synthetic_iff s).mpr ⟨a', k, hk', haf, hsk⟩
        obtain ⟨hbuilt', hanchor'⟩ := hc.active_built hk'
        have hkne : k ≠ hook := by
          rintro rfl
          exact hne (hanchor'.symm.trans hanchor)
        refine ⟨⟨hs, fun _ => ?_⟩, hsyn⟩
        exact hf.disjoint hbuilt' hbuilt (hanchor' ▸ haf) (hanchor ▸ ha) hkne s.id
          (List.mem_map_of_mem hsk)

theorem statementIds_built (b : Bench) (p : Plan) :
    (b.built p).statementIds = List.range' b.function.nextStatement p.effects.kinds.length := by
  simp only [built, Hook.build, Hook.statementIds, List.map_map]
  exact List.zipIdx_map_snd _ _

theorem mem_statementIds_built {p : Plan} {id : StatementId} (h : id ∈ (b.built p).statementIds) :
    b.function.nextStatement ≤ id ∧ id < b.function.nextStatement + p.effects.kinds.length := by
  rw [statementIds_built] at h
  exact List.mem_range'_1.mp h

theorem mem_concat_built {p : Plan} {k : Hook} :
    k ∈ b.hooks.built ++ [b.built p] ↔ k ∈ b.hooks.built ∨ k = b.built p := by
  rw [List.mem_append, List.mem_singleton]

/-- What tells the built hooks apart still does if the new one differs in it from all of them. -/
theorem eq_of_mem_concat_built {α : Type} {value : Hook → α} {p : Plan}
    (hinj : ∀ {k k'}, k ∈ b.hooks.built → k' ∈ b.hooks.built → value k = value k' → k = k')
    (hne : ∀ k ∈ b.hooks.built, value k ≠ value (b.built p)) {k k' : Hook}
    (hk : k ∈ b.hooks.built ++ [b.built p]) (hk' : k' ∈ b.hooks.built ++ [b.built p])
    (heq : value k = value k') : k = k' := by
  rcases mem_concat_built.mp hk with hk | rfl <;> rcases mem_concat_built.mp hk' with hk' | rfl
  · exact hinj hk hk' heq
  · exact absurd heq (hne k hk)
  · exact absurd heq.symm (hne k' hk')
  · rfl

theorem built_consistent (hc : b.hooks.Consistent) {p : Plan} (hnone : b.hooks.cached? p.key = none)
    (hp : ∀ kind ∈ p.effects.kinds, kind.fits p.key.anchor.kind) :
    { b.hooks with built := b.hooks.built ++ [b.built p] : Hooks }.Consistent := by
  have hnew : ∀ k ∈ b.hooks.built, k.key ≠ p.key := by
    intro k hk
    simpa using List.find?_eq_none.mp hnone k hk
  have hlen : ∀ kind : HookKind,
      ({ b.hooks with built := b.hooks.built ++ [b.built p] : Hooks }.ofKind kind).length =
        (b.hooks.ofKind kind).length + ([b.built p].filter (·.id.kind == kind)).length := by
    intro kind
    simp only [Hooks.ofKind, List.filter_append, List.length_append]
  have hidne : ∀ k ∈ b.hooks.built, k.id ≠ (b.built p).id := by
    intro k hk he
    have hlt := (hc.id_lt hk).2
    rw [he] at hlt
    exact Nat.lt_irrefl _ hlt
  constructor
  · intro a k hk
    obtain ⟨hbuilt, hanchor⟩ := hc.active_built hk
    exact ⟨List.mem_append_left _ hbuilt, hanchor⟩
  · intro a k hk
    obtain ⟨hbuilt, hanchor⟩ := hc.last_built hk
    exact ⟨List.mem_append_left _ hbuilt, hanchor⟩
  · exact fun hk hk' hkey => eq_of_mem_concat_built hc.key_inj hnew hk hk' hkey
  · exact fun hk hk' hid => eq_of_mem_concat_built hc.id_inj hidne hk hk' hid
  · intro k hk
    rcases mem_concat_built.mp hk with hk | rfl
    · have hold := hc.id_lt hk
      exact ⟨hold.1, hlen _ ▸ Nat.lt_of_lt_of_le hold.2 (Nat.le_add_right _ _)⟩
    · refine ⟨rfl, ?_⟩
      rw [hlen]
      simp only [beq_self_eq_true, List.filter_cons_of_pos, List.filter_nil, List.length_singleton]
      exact Nat.lt_succ_self _
  · intro k hk s hs
    rcases mem_concat_built.mp hk with hk | rfl
    · exact hc.origin hk s hs
    · obtain ⟨x, -, rfl⟩ := List.mem_map.mp hs
      rfl
  · intro k hk
    rcases mem_concat_built.mp hk with hk | rfl
    · exact hc.nodup hk
    · rw [statementIds_built]
      exact List.nodup_range'
  · intro k hk
    rcases mem_concat_built.mp hk with hk | rfl
    · exact hc.kinds hk
    · simp only [built, Hook.build, List.map_map]
      exact List.zipIdx_map_fst _ _
  · intro k hk
    rcases mem_concat_built.mp hk with hk | rfl
    · exact hc.fitting hk
    · exact hp

theorem built_accounts (hf : b.hooks.Accounts b.function) {p : Plan} :
    { b.hooks with built := b.hooks.built ++ [b.built p] : Hooks }.Accounts
      { b.function with nextStatement := b.function.nextStatement + p.effects.kinds.length } := by
  have hclash : ∀ {k}, k ∈ b.hooks.built → k.anchor.function = b.function.id →
      ∀ id ∈ k.statementIds, id ∉ (b.built p).statementIds := by
    intro k hk hkf id hid hnew
    obtain ⟨s, hs, rfl⟩ := List.mem_map.mp hid
    exact Nat.not_le_of_lt (hf.below hk hkf s hs) (mem_statementIds_built hnew).1
  constructor
  · exact ⟨hf.numbered.nodup,
      fun s hs => Nat.lt_of_lt_of_le (hf.numbered.bounded s hs) (Nat.le_add_right _ _),
      hf.numbered.blocks_ne_nil⟩
  · intro k hk hkf s hs
    rcases mem_concat_built.mp hk with hk | rfl
    · exact Nat.lt_of_lt_of_le (hf.below hk hkf s hs) (Nat.le_add_right _ _)
    · exact (mem_statementIds_built (List.mem_map_of_mem hs)).2
  · intro k hk hkf s hs hl hid
    rcases mem_concat_built.mp hk with hk | rfl
    · exact hf.apart hk hkf s hs hl hid
    · exact Nat.not_le_of_lt (hf.numbered.bounded s hs) (mem_statementIds_built hid).1
  · intro k k' hk hk' hkf hkf' hne id hid hid'
    rcases mem_concat_built.mp hk with hk | rfl <;> rcases mem_concat_built.mp hk' with hk' | rfl
    · exact hf.disjoint hk hk' hkf hkf' hne id hid hid'
    · exact hclash hk hkf id hid hid'
    · exact hclash hk' hkf' id hid' hid
    · exact hne rfl
  · exact hf.synthetic_iff

theorem Sound.obtain (hb : b.Sound) {p : Plan}
    (hp : ∀ kind ∈ p.effects.kinds, kind.fits p.key.anchor.kind) :
    (b.obtain p).2.Sound := by
  cases h : b.hooks.cached? p.key with
  | none =>
    rw [obtain_of_none h]
    exact ⟨built_consistent hb.1 h hp, built_accounts hb.2⟩
  | some hook =>
    rw [obtain_of_cached h]
    exact hb

theorem Sound.place (hb : b.Sound) {hook : Hook} {f : Function} (hk : hook ∈ b.hooks.built)
    (ha : hook.anchor.function = b.function.id) (hnone : b.hooks.active[hook.anchor]? = none)
    (hf : b.function.insertSynthetic hook.anchor.position hook.statements = .ok f) :
    (b.place hook f).Sound := by
  obtain ⟨hc, hacc⟩ := hb
  have hperm := Function.insertSynthetic_statements hf
  have hfields := (Function.insertSynthetic_fields hf).1
  have hid : f.id = b.function.id := by rw [hfields]
  have hnext : f.nextStatement = b.function.nextStatement := by rw [hfields]
  have hfresh := hacc.not_mem_of_inactive hc hk ha hnone
  have hmem : ∀ s, s ∈ f.statements ↔ s ∈ hook.statements ∨ s ∈ b.function.statements :=
    fun s => hperm.mem_iff.trans List.mem_append
  constructor
  · exact hc.insert hk
  · constructor
    · exact hacc.numbered.insertSynthetic hf (hc.nodup hk) (hacc.below hk ha) hfresh
    · intro k hk' hkf s hs
      exact Nat.lt_of_lt_of_le (hacc.below hk' (hkf.trans hid) s hs) (Nat.le_of_eq hnext.symm)
    · intro k hk' hkf s hs hl hids
      rcases (hmem s).mp hs with hs | hs
      · rw [hc.isSynthetic hk hs] at hl
        cases hl
      · exact hacc.apart hk' (hkf.trans hid) s hs hl hids
    · intro k k' hk hk' hkf hkf'
      exact hacc.disjoint hk hk' (hkf.trans hid) (hkf'.trans hid)
    · intro s
      constructor
      · rintro ⟨hs, hsyn⟩
        rcases (hmem s).mp hs with hs | hs
        · exact ⟨hook.anchor, hook, ExtTreeMap.getElem?_insert_self, ha.trans hid.symm, hs⟩
        · obtain ⟨a, k, hka, haf, hsk⟩ := (hacc.synthetic_iff s).mp ⟨hs, hsyn⟩
          have hne : hook.anchor ≠ a := by
            rintro rfl
            rw [hnone] at hka
            cases hka
          exact ⟨a, k, (Table.getElem?_insert_of_ne hne).trans hka, haf.trans hid.symm, hsk⟩
      · rintro ⟨a, k, hka, haf, hsk⟩
        rcases Table.getElem?_insert_eq_some hka with ⟨rfl, rfl⟩ | ⟨-, hka⟩
        · exact ⟨(hmem s).mpr (.inl hsk), hc.isSynthetic hk hsk⟩
        · obtain ⟨hs, hsyn⟩ := (hacc.synthetic_iff s).mpr ⟨a, k, hka, haf.trans hid, hsk⟩
          exact ⟨(hmem s).mpr (.inr hs), hsyn⟩

end Bench

theorem Hooks.observe_fields (h : Hooks) (f : Function) (s : Snapshot) :
    h.observe f s = { h with observed := (h.observe f s).observed } := by
  unfold Hooks.observe
  split <;> rfl

namespace Bench

variable {b b' : Bench} {detector : Option Detector} {signatures : Signatures}
  {wanted : Anchor → Prop}

theorem start_eq (b : Bench) (s : Snapshot) :
    b.start s = { b with hooks := { b.hooks.touch b.function.id with
      observed := ((b.hooks.touch b.function.id).observe b.function s).observed } } := by
  rw [start, Hooks.observe_fields]

theorem Move.sound (h : Move detector signatures wanted b b') (hb : b.Sound) : b'.Sound := by
  cases h with
  | start s =>
    rw [start_eq]
    exact hb.congr rfl rfl rfl rfl
  | resolve callee =>
    obtain ⟨cs, asked, heq, -⟩ := b.resolve_snd detector callee
    rw [heq]
    exact hb.congr rfl rfl rfl rfl
  | count => exact hb.congr rfl rfl rfl rfl
  | detach a ha => exact hb.detach a ha
  | obtain p ha hw hp => exact hb.obtain hp.fitting
  | place hook f ha hw hk hnone hf => exact hb.place hk ha hnone hf
  | remember hook ha hk hactive => exact ⟨hb.1.remember hk, hb.2.congr rfl rfl⟩
  | forget gone hg => exact ⟨hb.1.forget gone, hb.2.congr rfl rfl⟩

theorem Moves.sound (h : Moves detector signatures wanted b b') (hb : b.Sound) : b'.Sound := by
  induction h with
  | refl => exact hb
  | tail _ hm ih => exact hm.sound ih

theorem Move.consistent (h : Move detector signatures wanted b b') (hc : b.hooks.Consistent) :
    b'.hooks.Consistent := by
  cases h with
  | start s =>
    rw [start_eq]
    exact hc.congr rfl rfl rfl
  | resolve callee =>
    obtain ⟨cs, asked, heq, -⟩ := b.resolve_snd detector callee
    rw [heq]
    exact hc
  | count => exact hc
  | detach a ha =>
    cases hk : b.hooks.active[a]? with
    | none =>
      rw [detach_of_none hk]
      exact hc
    | some hook =>
      rw [detach_of_some hk]
      exact hc.erase a
  | obtain p ha hw hp =>
    cases hcached : b.hooks.cached? p.key with
    | none =>
      rw [obtain_of_none hcached]
      exact built_consistent hc hcached hp.fitting
    | some hook =>
      rw [obtain_of_cached hcached]
      exact hc
  | place hook f ha hw hk => exact hc.insert hk
  | remember hook ha hk => exact hc.remember hk
  | forget gone => exact hc.forget gone

theorem Moves.consistent (h : Moves detector signatures wanted b b') (hc : b.hooks.Consistent) :
    b'.hooks.Consistent := by
  induction h with
  | refl => exact hc
  | tail _ hm ih => exact hm.consistent ih

end Bench

end CallEffects
