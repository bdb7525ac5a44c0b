import Std.Data.ExtTreeMap

/-!
# Lookups in tables

What a lookup finds after an entry was put in or taken out, and which entry is the nearest one below
a key, for tables whose order tells keys apart.
-/

namespace CallEffects.Table

open Std

variable {α β : Type} {cmp : α → α → Ordering} [TransCmp cmp] [LawfulEqCmp cmp]
variable {t : ExtTreeMap α β cmp} {k a : α} {v w : β}

theorem getElem?_insert_of_ne (h : k ≠ a) : (t.insert k v)[a]? = t[a]? := by
  rw [ExtTreeMap.getElem?_insert, if_neg fun he => h (LawfulEqCmp.eq_of_compare he)]

theorem getElem?_erase_of_ne (h : k ≠ a) : (t.erase k)[a]? = t[a]? := by
  rw [ExtTreeMap.getElem?_erase, if_neg fun he => h (LawfulEqCmp.eq_of_compare he)]

theorem getElem?_insert_eq_some (h : (t.insert k v)[a]? = some w) :
    (a = k ∧ w = v) ∨ (a ≠ k ∧ t[a]? = some w) := by
  by_cases hk : k = a
  · subst hk
    rw [ExtTreeMap.getElem?_insert_self] at h
    exact .inl ⟨rfl, (Option.some.inj h).symm⟩
  · rw [getElem?_insert_of_ne hk] at h
    exact .inr ⟨fun he => hk he.symm, h⟩

theorem getElem?_erase_eq_some (h : (t.erase k)[a]? = some w) : a ≠ k ∧ t[a]? = some w := by
  by_cases hk : k = a
  · subst hk
    rw [ExtTreeMap.getElem?_erase_self] at h
    cases h
  · rw [getElem?_erase_of_ne hk] at h
    exact ⟨fun he => hk he.symm, h⟩

theorem erase_eq_self (h : t[k]? = none) : t.erase k = t := by
  apply ExtTreeMap.ext_getElem?
  intro a
  by_cases hk : k = a
  · subst hk
    rw [ExtTreeMap.getElem?_erase_self, h]
  · exact getElem?_erase_of_ne hk

theorem insert_eq_self (h : t[k]? = some v) : t.insert k v = t := by
  apply ExtTreeMap.ext_getElem?
  intro a
  by_cases hk : k = a
  · subst hk
    rw [ExtTreeMap.getElem?_insert_self, h]
  · exact getElem?_insert_of_ne hk

theorem insert_comm {k' : α} (h : k ≠ k') (v v' : β) :
    (t.insert k v).insert k' v' = (t.insert k' v').insert k v := by
  apply ExtTreeMap.ext_getElem?
  intro a
  by_cases hk : k = a
  · subst hk
    rw [getElem?_insert_of_ne h.symm, ExtTreeMap.getElem?_insert_self,
      ExtTreeMap.getElem?_insert_self]
  · by_cases hk' : k' = a
    · subst hk'
      rw [getElem?_insert_of_ne hk, ExtTreeMap.getElem?_insert_self,
        ExtTreeMap.getElem?_insert_self]
    · rw [getElem?_insert_of_ne hk', getElem?_insert_of_ne hk, getElem?_insert_of_ne hk,
        getElem?_insert_of_ne hk']

theorem mem_keys_iff : k ∈ t.keys ↔ ∃ v, t[k]? = some v := by
  rw [ExtTreeMap.mem_keys, ExtTreeMap.mem_iff_isSome_getElem?, Option.isSome_iff_exists]

omit [LawfulEqCmp cmp] in
theorem values_eq (t : ExtTreeMap α β cmp) : t.values = t.toList.map Prod.snd := by
  have hfold : t.values = t.foldr (fun _ v values => v :: values) [] := by
    obtain ⟨t⟩ := t
    exact t.inductionOn fun _ => rfl
  rw [hfold, ExtTreeMap.foldr_eq_foldr_toList]
  induction t.toList with
  | nil => rfl
  | cons entry entries ih => exact congrArg (entry.2 :: ·) ih

theorem mem_values_iff : v ∈ t.values ↔ ∃ k : α, t[k]? = some v := by
  rw [values_eq, List.mem_map]
  constructor
  · rintro ⟨entry, hentry, rfl⟩
    exact ⟨entry.1, ExtTreeMap.mem_toList_iff_getElem?_eq_some.mp hentry⟩
  · rintro ⟨k, hk⟩
    exact ⟨(k, v), ExtTreeMap.mem_toList_iff_getElem?_eq_some.mpr hk, rfl⟩

theorem keys_insert_perm (h : t[k]? = none) (v : β) : (t.insert k v).keys.Perm (k :: t.keys) := by
  have hnew : k ∉ t.keys := by
    rw [mem_keys_iff]
    rintro ⟨w, hw⟩
    cases h.symm.trans hw
  refine (List.perm_ext_iff_of_nodup ExtTreeMap.nodup_keys
    (List.nodup_cons.mpr ⟨hnew, ExtTreeMap.nodup_keys⟩)).mpr fun a => ?_
  rw [ExtTreeMap.mem_keys, ExtTreeMap.mem_insert, List.mem_cons, ExtTreeMap.mem_keys,
    LawfulEqCmp.compare_eq_iff_eq, eq_comm]

theorem keys_erase_perm (h : t[k]? = some v) : t.keys.Perm (k :: (t.erase k).keys) := by
  have hback : (t.erase k).insert k v = t := by
    apply ExtTreeMap.ext_getElem?
    intro a
    by_cases hk : k = a
    · subst hk
      rw [ExtTreeMap.getElem?_insert_self, h]
    · rw [getElem?_insert_of_ne hk, getElem?_erase_of_ne hk]
  have hperm := keys_insert_perm (t := t.erase k) ExtTreeMap.getElem?_erase_self v
  rwa [hback] at hperm

theorem filter_keys_congr {t' : ExtTreeMap α β cmp} {p : α → Bool}
    (h : ∀ k, p k → (t'[k]?).isSome = (t[k]?).isSome) :
    t'.keys.filter p = t.keys.filter p := by
  have hmem : ∀ k, k ∈ t'.keys.filter p ↔ k ∈ t.keys.filter p := by
    intro k
    rw [List.mem_filter, List.mem_filter, ExtTreeMap.mem_keys, ExtTreeMap.mem_keys,
      ExtTreeMap.mem_iff_isSome_getElem?, ExtTreeMap.mem_iff_isSome_getElem?]
    exact and_congr_left fun hk => by rw [h k hk]
  have hperm : (t'.keys.filter p).Perm (t.keys.filter p) :=
    (List.perm_ext_iff_of_nodup (ExtTreeMap.nodup_keys.filter p)
      (ExtTreeMap.nodup_keys.filter p)).mpr hmem
  refine hperm.eq_of_pairwise (fun a b _ _ hab hba => ?_) (ExtTreeMap.ordered_keys.filter p)
    (ExtTreeMap.ordered_keys.filter p)
  have hgt : cmp b a = .gt := OrientedCmp.gt_of_lt hab
  rw [hba] at hgt
  cases hgt

/-- In a list in strict order, what is found first comes before all else that might be found. -/
theorem find?_eq_some_iff_of_pairwise {γ : Type} {R : γ → γ → Prop} {p : γ → Bool} {l : List γ}
    {x : γ} (hl : l.Pairwise R) (hasymm : ∀ x y, R x y → ¬R y x) :
    l.find? p = some x ↔ x ∈ l ∧ p x ∧ ∀ y ∈ l, p y → y = x ∨ R x y := by
  constructor
  · intro h
    obtain ⟨hp, before, after, rfl, hbefore⟩ := List.find?_eq_some_iff_append.mp h
    refine ⟨by simp, hp, fun y hy hpy => ?_⟩
    rcases List.mem_append.mp hy with hy | hy
    · exact absurd hpy (by simpa using hbefore y hy)
    rcases List.mem_cons.mp hy with rfl | hy
    · exact .inl rfl
    · exact .inr ((List.pairwise_cons.mp (List.pairwise_append.mp hl).2.1).1 y hy)
  · rintro ⟨hx, hp, hfirst⟩
    obtain ⟨before, after, rfl⟩ := List.append_of_mem hx
    refine List.find?_eq_some_iff_append.mpr ⟨hp, before, after, rfl, fun y hy => ?_⟩
    have hyx : R y x := (List.pairwise_append.mp hl).2.2 y hy x List.mem_cons_self
    cases hpy : p y with
    | false => rfl
    | true =>
      rcases hfirst y (List.mem_append_left _ hy) hpy with rfl | hxy
      · exact absurd hyx (hasymm _ _ hyx)
      · exact absurd hyx (hasymm _ _ hxy)

open DTreeMap.Internal in
omit [LawfulEqCmp cmp] in
theorem getEntryLE?_eq_find? (t : ExtTreeMap α β cmp) (k : α) :
    t.getEntryLE? k = t.toList.reverse.find? fun entry => (cmp entry.1 k).isLE := by
  obtain ⟨t⟩ := t
  refine t.inductionOn fun m => ?_
  let : Ord α := ⟨cmp⟩
  change Impl.Const.getEntryLE? k m.inner = (Impl.Const.toList m.inner).reverse.find? _
  rw [Impl.Const.getEntryLE?_eq_map, Impl.getEntryLE?_eq_findRev? m.wf.ordered,
    List.findRev?_eq_find?_reverse, Impl.Const.toList_eq_toListModel_map, ← List.map_reverse,
    List.find?_map]
  rfl

theorem getEntryLE?_eq_some_iff :
    t.getEntryLE? k = some (a, v) ↔
      t[a]? = some v ∧ (cmp a k).isLE ∧
        ∀ b w, t[b]? = some w → (cmp b k).isLE → (cmp b a).isLE := by
  have hordered := List.pairwise_reverse.mpr (ExtTreeMap.ordered_keys_toList (t := t))
  have hasymm : ∀ x y : α × β, cmp y.1 x.1 = .lt → ¬cmp x.1 y.1 = .lt := by
    intro x y hyx hxy
    rw [OrientedCmp.gt_of_lt hyx] at hxy
    cases hxy
  rw [getEntryLE?_eq_find?, find?_eq_some_iff_of_pairwise hordered hasymm]
  simp only [List.mem_reverse, ExtTreeMap.mem_toList_iff_getElem?_eq_some, Prod.forall,
    Prod.mk.injEq]
  refine and_congr_right fun hget => and_congr_right fun _ => ?_
  refine forall_congr' fun b => forall_congr' fun w => imp_congr_right fun hb =>
    imp_congr_right fun _ => ?_
  constructor
  · rintro (⟨rfl, -⟩ | hlt)
    · exact ReflCmp.isLE_rfl
    · exact Ordering.isLE_of_eq_lt hlt
  · intro hle
    rcases Ordering.isLE_iff_eq_lt_or_eq_eq.mp hle with hlt | heq
    · exact .inr hlt
    · obtain rfl := LawfulEqCmp.eq_of_compare heq
      exact .inl ⟨rfl, Option.some.inj (hb.symm.trans hget)⟩

end CallEffects.Table
