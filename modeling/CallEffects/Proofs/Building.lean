import CallEffects.Program
import CallEffects.Proofs.History

/-!
# Functions built from a program

The functions a program is built into have lifted code only, with consecutively numbered statements.
They are numbered in the order of their entries, and no two of them have the same entry.
-/

namespace CallEffects

open Std

namespace Program

variable {p : Program} {order : List Address}

theorem prefix_explore (p : Program) (fuel : Nat) (found queue : List Address) :
    found <+: p.explore fuel found queue := by
  induction fuel generalizing found queue with
  | zero => exact List.prefix_rfl
  | succ fuel ih =>
    cases queue with
    | nil => exact List.prefix_rfl
    | cons a queue => exact (List.prefix_append _ _).trans (ih _ _)

theorem functionBlocks_ne_nil (p : Program) (entry : Address) : p.functionBlocks entry ≠ [] := by
  intro h
  have hprefix : [entry] <+: p.functionBlocks entry := p.prefix_explore _ _ _
  rw [h, List.prefix_nil] at hprefix
  cases hprefix

theorem length_liftBlocks (p : Program) (order : List Address) (next : StatementId)
    (as : List Address) : (p.liftBlocks order next as).length = as.length := by
  induction as generalizing next with
  | nil => rfl
  | cons a as ih => rw [liftBlocks, List.length_cons, ih, List.length_cons]

theorem isSynthetic_liftBlocks {next : StatementId} {as : List Address} {s : Statement}
    (hs : s ∈ (p.liftBlocks order next as).flatMap (·.statements)) : s.isSynthetic = false := by
  induction as generalizing next with
  | nil => cases hs
  | cons a as ih =>
    rw [liftBlocks, List.flatMap_cons, List.mem_append] at hs
    rcases hs with hs | hs
    · obtain ⟨x, -, rfl⟩ := List.mem_map.mp hs
      rfl
    · exact ih hs

theorem ids_liftBlocks (p : Program) (order : List Address) (next : StatementId)
    (as : List Address) :
    ((p.liftBlocks order next as).flatMap (·.statements)).map (·.id) =
      List.range' next ((p.liftBlocks order next as).flatMap (·.statements)).length := by
  induction as generalizing next with
  | nil => rfl
  | cons a as ih =>
    rw [liftBlocks, List.flatMap_cons, List.map_append, List.length_append, ih,
      ← List.range'_append_1]
    simp only [List.length_map, List.length_zipIdx, List.map_map]
    congr 1
    exact List.zipIdx_map_snd next _

theorem buildFunction_numbered (p : Program) (id : FunctionId) (entry : Address) :
    (p.buildFunction id entry).Numbered := by
  have hids := p.ids_liftBlocks (p.functionBlocks entry) 0 (p.functionBlocks entry)
  refine ⟨?_, ?_, ?_⟩
  · show (((p.liftBlocks _ 0 _).flatMap (·.statements)).map (·.id)).Nodup
    rw [hids]
    exact List.nodup_range'
  · intro s hs
    have hmem : s.id ∈ ((p.liftBlocks (p.functionBlocks entry) 0
        (p.functionBlocks entry)).flatMap (·.statements)).map (·.id) := List.mem_map_of_mem hs
    rw [hids, List.mem_range'_1, Nat.zero_add] at hmem
    exact hmem.2
  · intro hnil
    have hlength := p.length_liftBlocks (p.functionBlocks entry) 0 (p.functionBlocks entry)
    have hblocks : p.liftBlocks (p.functionBlocks entry) 0 (p.functionBlocks entry) = [] := hnil
    rw [hblocks] at hlength
    exact p.functionBlocks_ne_nil entry (List.eq_nil_of_length_eq_zero hlength.symm)

theorem functionEntries_nodup (p : Program) : p.functionEntries.Nodup := ExtTreeMap.nodup_keys

variable {fs : Functions}

theorem buildFunctions_eq (h : p.buildFunctions = .ok fs) :
    fs = p.functionEntries.zipIdx.map fun x => p.buildFunction x.2 x.1 := by
  simp only [buildFunctions] at h
  split at h
  · cases h
  · exact (Except.ok.inj h).symm

theorem buildFunctions_fresh (h : p.buildFunctions = .ok fs) {r : Round} (hf : r.functions = fs)
    (hh : r.hooks = .empty) : r.Fresh := by
  have hmem : ∀ f ∈ r.functions, ∃ id entry, f = p.buildFunction id entry := by
    intro f hmem
    rw [hf, buildFunctions_eq h] at hmem
    obtain ⟨x, -, rfl⟩ := List.mem_map.mp hmem
    exact ⟨x.2, x.1, rfl⟩
  refine ⟨hh, ?_, ?_, ?_⟩
  · intro i f hi
    rw [hf, buildFunctions_eq h, List.getElem?_map, Option.map_eq_some_iff] at hi
    obtain ⟨x, hx, rfl⟩ := hi
    rw [List.getElem?_zipIdx, Option.map_eq_some_iff] at hx
    obtain ⟨entry, -, rfl⟩ := hx
    exact Nat.zero_add i
  · intro f hf
    obtain ⟨id, entry, rfl⟩ := hmem f hf
    exact p.buildFunction_numbered id entry
  · intro f hf s hs
    obtain ⟨id, entry, rfl⟩ := hmem f hf
    exact isSynthetic_liftBlocks hs

theorem buildFunctions_distinct (h : p.buildFunctions = .ok fs) :
    (fs.map Callee.ofFunction).Nodup := by
  have haddresses : fs.map Callee.ofFunction = p.functionEntries.map Callee.address := by
    rw [buildFunctions_eq h, List.map_map, ← List.zipIdx_map_fst 0 p.functionEntries, List.map_map,
      List.zipIdx_map_fst]
    rfl
  rw [haddresses]
  exact p.functionEntries_nodup.map fun _ _ heq => Callee.address.inj heq

end Program

end CallEffects
