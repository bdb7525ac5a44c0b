import CallEffects.Proofs.Ledger

/-!
# What moves leave alone

A move of a bench changes neither the lifted code of its function, nor the active hooks of any other
function, nor a hook that was built before. `Function.SameCode` and `Bench.Frame` say so for single
moves and for their sequences.
-/

namespace CallEffects

open Std

/-- The functions agree but for their hooks and the numbers these have taken. -/
structure Function.SameCode (f g : Function) : Prop where
  id_eq : g.id = f.id
  entryAddress_eq : g.entryAddress = f.entryAddress
  revision_eq : g.revision = f.revision
  code_eq : g.code = f.code

namespace Function.SameCode

variable {f g k : Function}

theorem refl (f : Function) : f.SameCode f := ⟨rfl, rfl, rfl, rfl⟩

theorem trans (h : f.SameCode g) (h' : g.SameCode k) : f.SameCode k :=
  ⟨h'.id_eq.trans h.id_eq, h'.entryAddress_eq.trans h.entryAddress_eq,
    h'.revision_eq.trans h.revision_eq, h'.code_eq.trans h.code_eq⟩

instance : IsTrans Function Function.SameCode := ⟨fun _ _ _ => trans⟩

theorem ofFunction_eq (h : f.SameCode g) : Callee.ofFunction g = Callee.ofFunction f := by
  simp only [Callee.ofFunction, h.entryAddress_eq, h.id_eq]

end Function.SameCode

namespace Bench

variable {b b' : Bench} {detector : Option Detector} {signatures : Signatures}
  {wanted : Anchor → Prop}

theorem Move.sameCode (h : Move detector signatures wanted b b') (hb : b.Sound) :
    b.function.SameCode b'.function := by
  cases h with
  | start | count | remember | forget => exact .refl _
  | resolve callee =>
    obtain ⟨cs, asked, heq, -⟩ := b.resolve_snd detector callee
    rw [heq]
    exact .refl _
  | detach a =>
    cases h : b.hooks.active[a]? with
    | none =>
      rw [detach_of_none h]
      exact .refl _
    | some hook =>
      rw [detach_of_some h]
      exact ⟨rfl, rfl, rfl, Function.code_removeSynthetic _ _⟩
  | obtain p =>
    cases h : b.hooks.cached? p.key with
    | none =>
      rw [obtain_of_none h]
      exact ⟨rfl, rfl, rfl, rfl⟩
    | some hook =>
      rw [obtain_of_cached h]
      exact .refl _
  | place hook f ha hw hk hnone hf =>
    have hfields := (Function.insertSynthetic_fields hf).1
    refine ⟨?_, ?_, ?_, Function.insertSynthetic_code hf fun s => hb.1.isSynthetic hk⟩ <;>
      · rw [hfields]
        rfl

theorem Moves.sameCode (h : Moves detector signatures wanted b b') (hb : b.Sound) :
    b.function.SameCode b'.function := by
  induction h with
  | refl => exact .refl _
  | tail hms hm ih => exact ih.trans (hm.sameCode (Moves.sound hms hb))

/-- What moves do to the tables, as far as other functions are concerned. -/
structure Frame (b b' : Bench) : Prop where
  built : ∃ new, b'.hooks.built = b.hooks.built ++ new ∧ ∀ k ∈ new, k.anchor.function = b.function.id
  active : ∀ a : Anchor, a.function ≠ b.function.id → b'.hooks.active[a]? = b.hooks.active[a]?
  touched : ∀ i, i ∈ b.hooks.touched → i ∈ b'.hooks.touched
  conventions : b'.conventions.poisoned = b.conventions.poisoned

theorem Frame.of_eq (hb : b'.hooks.built = b.hooks.built) (ha : b'.hooks.active = b.hooks.active)
    (ht : b'.hooks.touched = b.hooks.touched) (hc : b'.conventions.poisoned = b.conventions.poisoned) :
    Frame b b' :=
  ⟨⟨[], by simp [hb], by simp⟩, fun a _ => by rw [ha], fun i hi => ht ▸ hi, hc⟩

theorem Frame.trans {b'' : Bench} (h : Frame b b') (h' : Frame b' b'')
    (hid : b'.function.id = b.function.id) : Frame b b'' := by
  obtain ⟨new, hnew, hown⟩ := h.built
  obtain ⟨new', hnew', hown'⟩ := h'.built
  refine ⟨⟨new ++ new', by rw [hnew', hnew, List.append_assoc], ?_⟩, ?_,
    fun i hi => h'.touched i (h.touched i hi), h'.conventions.trans h.conventions⟩
  · intro k hk
    rcases List.mem_append.mp hk with hk | hk
    · exact hown k hk
    · exact (hown' k hk).trans hid
  · intro a ha
    rw [h'.active a (hid ▸ ha), h.active a ha]

theorem Move.frame (h : Move detector signatures wanted b b') : Frame b b' := by
  cases h with
  | start s =>
    rw [start_eq]
    refine ⟨⟨[], by simp [Hooks.touch], by simp⟩, fun _ _ => rfl, ?_, rfl⟩
    intro i hi
    simp only [Hooks.touch, ExtTreeMap.mem_insert]
    exact .inr hi
  | resolve callee =>
    obtain ⟨cs, asked, heq, -⟩ := b.resolve_snd detector callee
    rw [heq]
    exact .of_eq rfl rfl rfl rfl
  | count | remember | forget => exact .of_eq rfl rfl rfl rfl
  | detach a ha =>
    refine ⟨⟨[], by simp [detach_built], by simp⟩, ?_, ?_, by rw [detach_conventions]⟩
    · intro a' ha'
      rw [detach_active, Table.getElem?_erase_of_ne]
      rintro rfl
      exact ha' ha
    · intro i hi
      unfold Bench.detach
      split <;> exact hi
  | obtain p ha hw hp =>
    cases h : b.hooks.cached? p.key with
    | none =>
      rw [obtain_of_none h]
      refine ⟨⟨[b.built p], rfl, ?_⟩, fun _ _ => rfl, fun _ hi => hi, rfl⟩
      intro k hk
      rw [List.mem_singleton.mp hk]
      exact ha
    | some hook =>
      rw [obtain_of_cached h]
      exact .of_eq rfl rfl rfl rfl
  | place hook f ha =>
    refine ⟨⟨[], by simp [Bench.place], by simp⟩, ?_, fun _ hi => hi, rfl⟩
    intro a ha'
    apply Table.getElem?_insert_of_ne
    rintro rfl
    exact ha' ha

theorem Moves.frame (h : Moves detector signatures wanted b b') : Frame b b' := by
  induction h with
  | refl => exact .of_eq rfl rfl rfl rfl
  | tail hms hm ih => exact ih.trans hm.frame (Moves.function_id hms)

theorem foldl_detach_active (as : List Anchor) (b : Bench) (a : Anchor) :
    (as.foldl detach b).hooks.active[a]? = if a ∈ as then none else b.hooks.active[a]? := by
  induction as generalizing b with
  | nil => rfl
  | cons a' as ih =>
    rw [List.foldl_cons, ih, detach_active, ExtTreeMap.getElem?_erase]
    by_cases ha : a ∈ as
    · simp [ha]
    · by_cases hc : a = a'
      · simp [hc]
      · have hne : compare a' a ≠ .eq := fun he => hc (LawfulEqCmp.eq_of_compare he).symm
        simp [ha, hc, hne]

theorem Move.active_touched (h : Move detector signatures wanted b b')
    (hw : ∀ a, wanted a → b.function.id ∈ b.hooks.touched)
    (hb : ∀ {a : Anchor} {k : Hook}, b.hooks.active[a]? = some k → a.function ∈ b.hooks.touched)
    {a : Anchor} {k : Hook} (hk : b'.hooks.active[a]? = some k) : a.function ∈ b'.hooks.touched := by
  have hstep := h.frame.touched
  cases h with
  | start s =>
    rw [start_eq] at hk
    exact hstep _ (hb hk)
  | count | remember | forget => exact hb hk
  | resolve callee =>
    obtain ⟨cs, asked, heq, -⟩ := b.resolve_snd detector callee
    rw [heq] at hk
    exact hstep _ (hb hk)
  | detach a' =>
    rw [detach_active] at hk
    exact hstep _ (hb (Table.getElem?_erase_eq_some hk).2)
  | obtain p =>
    rw [obtain_active] at hk
    exact hstep _ (hb hk)
  | place hook f ha hwanted =>
    rcases Table.getElem?_insert_eq_some hk with ⟨rfl, -⟩ | ⟨-, hk⟩
    · rw [ha]
      exact hw _ hwanted
    · exact hb hk

theorem Moves.active_touched (h : Moves detector signatures wanted b b')
    (hw : ∀ a, wanted a → b.function.id ∈ b.hooks.touched)
    (hb : ∀ {a : Anchor} {k : Hook}, b.hooks.active[a]? = some k → a.function ∈ b.hooks.touched)
    {a : Anchor} {k : Hook} (hk : b'.hooks.active[a]? = some k) : a.function ∈ b'.hooks.touched := by
  induction h generalizing a k with
  | refl => exact hb hk
  | tail hms hm ih =>
    refine hm.active_touched (fun a ha => ?_) ih hk
    rw [Moves.function_id hms]
    exact (Moves.frame hms).touched _ (hw a ha)

end Bench

end CallEffects
