import CallEffects.Proofs.Building
import Mathlib.Data.List.Perm.Subperm

/-!
# A program is divided into its functions

Every address that starts a function gets one, if all of them name blocks. The search for the blocks
of a function keeps a list of the addresses it has found, without repeats, and a queue of those
whose successors it has not looked at. Each address enters the queue once, so the search has fuel
for all of them, and when the queue is empty what has been found is closed under successors: it is
what can be reached from the entry. The blocks are then copied in the order they were found in.
-/

namespace CallEffects

open Std

theorem nodup_eraseDups {α : Type} [BEq α] [LawfulBEq α] : (l : List α) → l.eraseDups.Nodup
  | [] => List.nodup_nil
  | x :: l => by
    rw [List.eraseDups_cons, List.nodup_cons, List.mem_eraseDups]
    exact ⟨by simp, nodup_eraseDups (l.filter fun y => !y == x)⟩
  termination_by l => l.length
  decreasing_by exact Nat.lt_succ_of_le (List.length_filter_le _ _)

theorem eraseDups_map {α β : Type} [BEq α] [LawfulBEq α] [BEq β] [LawfulBEq β] (f : α → β) :
    (l : List α) → (∀ x ∈ l, ∀ y ∈ l, f x = f y → x = y) →
      (l.map f).eraseDups = l.eraseDups.map f
  | [], _ => rfl
  | x :: l, h => by
    have hfilter : (l.map f).filter (fun y => !y == f x) = (l.filter fun y => !y == x).map f := by
      rw [List.filter_map]
      refine congrArg (List.map f) (List.filter_congr fun y hy => ?_)
      by_cases heq : y = x
      · simp [heq]
      · have hne : f y ≠ f x := fun hf =>
          heq (h y (List.mem_cons_of_mem x hy) x List.mem_cons_self hf)
        simp [heq, hne]
    rw [List.map_cons, List.eraseDups_cons, List.eraseDups_cons, List.map_cons, hfilter,
      eraseDups_map f (l.filter fun y => !y == x)]
    intro y hy z hz
    exact h y (List.mem_cons_of_mem x (List.mem_filter.mp hy).1) z
      (List.mem_cons_of_mem x (List.mem_filter.mp hz).1)
  termination_by l => l.length
  decreasing_by exact Nat.lt_succ_of_le (List.length_filter_le _ _)

namespace Program

variable {p : Program} {entry a b : Address} {found queue : List Address}

/-- The address starts a function: it is declared to, or it names a block that is called. -/
def Starts (p : Program) (a : Address) : Prop :=
  a ∈ p.entries ∨ a ∈ p.blocks ∧ ∃ (b : Address) (block : ProgramBlock),
    p.blocks[b]? = some block ∧ ∃ s ∈ block.statements, s.kind = .call (.direct a)

/-- The second address names a block that is a successor of the block at the first. -/
def Edge (p : Program) (a b : Address) : Prop :=
  ∃ block, p.blocks[a]? = some block ∧ b ∈ block.successors ∧ b ∈ p.blocks

abbrev Reaches (p : Program) : Address → Address → Prop := Relation.ReflTransGen p.Edge

/-- Made by adding blocks and entries one after the other. -/
inductive Made : Program → Prop
  | empty : Made .empty
  | addBlock {p q : Program} (block : ProgramBlock) (hp : Made p) (hq : p.addBlock block = .ok q) :
      Made q
  | addEntry {p : Program} (a : Address) (name : Option String) (hp : Made p) :
      Made (p.addEntry a name)

/-- Such a program has every block under its own address. -/
theorem Made.address_eq (hp : p.Made) {block : ProgramBlock} (hblock : p.blocks[a]? = some block) :
    block.address = a := by
  induction hp with
  | empty =>
    rw [Program.empty, ExtTreeMap.getElem?_empty] at hblock
    cases hblock
  | addBlock added hp hq ih =>
    unfold Program.addBlock at hq
    split at hq
    · cases hq
    · obtain rfl := Except.ok.inj hq
      rcases Table.getElem?_insert_eq_some hblock with ⟨rfl, rfl⟩ | ⟨-, hblock⟩
      · rfl
      · exact ih hblock
  | addEntry c name hp ih => exact ih hblock

theorem mem_successors : b ∈ p.successors a ↔ p.Edge a b := by
  unfold successors Edge
  cases p.blocks[a]? with
  | none => simp
  | some block => simp [List.mem_filter]

/-! ## Entries -/

theorem mem_directTargets {block : ProgramBlock} :
    a ∈ directTargets block ↔ ∃ s ∈ block.statements, s.kind = .call (.direct a) := by
  rw [directTargets, List.mem_filterMap]
  refine exists_congr fun s => and_congr_right fun _ => ?_
  cases s.kind with
  | call target => cases target <;> simp [CallTarget.direct?]
  | _ => simp

theorem mem_foldl_insertIfNew {entries : ExtTreeMap Address (Option String)}
    {called : List Address} :
    a ∈ called.foldl (fun entries a => entries.insertIfNew a none) entries ↔
      a ∈ entries ∨ a ∈ called := by
  induction called generalizing entries with
  | nil => simp
  | cons c called ih =>
    rw [List.foldl_cons, ih, ExtTreeMap.mem_insertIfNew, List.mem_cons,
      LawfulEqCmp.compare_eq_iff_eq, eq_comm (a := c)]
    tauto

theorem mem_functionEntries : a ∈ p.functionEntries ↔ p.Starts a := by
  rw [functionEntries, ExtTreeMap.mem_keys, mem_foldl_insertIfNew, List.mem_filter,
    List.mem_flatMap, Starts, ExtTreeMap.contains_iff_mem]
  refine or_congr_right ?_
  rw [and_comm]
  refine and_congr_right fun _ => ?_
  constructor
  · rintro ⟨block, hblock, ha⟩
    obtain ⟨b, hb⟩ := Table.mem_values_iff.mp hblock
    exact ⟨b, block, hb, mem_directTargets.mp ha⟩
  · rintro ⟨b, block, hb, ha⟩
    exact ⟨block, Table.mem_values_iff.mpr ⟨b, hb⟩, mem_directTargets.mpr ha⟩

theorem functionEntries_ascending (p : Program) : p.functionEntries.Pairwise (· < ·) :=
  ExtTreeMap.ordered_keys.imp Std.compare_eq_lt.mp

theorem find?_ascending {l : List Address} {q : Address → Bool} (h : l.Pairwise (· < ·)) :
    l.find? q = some a ↔ a ∈ l ∧ q a ∧ ∀ b ∈ l, q b → a ≤ b := by
  induction l with
  | nil => simp
  | cons x l ih =>
    obtain ⟨hless, h⟩ := List.pairwise_cons.mp h
    by_cases hx : q x
    · rw [List.find?_cons_of_pos hx, Option.some.injEq]
      constructor
      · rintro rfl
        refine ⟨List.mem_cons_self, hx, fun b hb _ => ?_⟩
        rcases List.mem_cons.mp hb with rfl | hb
        · exact UInt64.le_refl b
        · exact UInt64.le_of_lt (hless b hb)
      · rintro ⟨ha, -, hleast⟩
        rcases List.mem_cons.mp ha with rfl | ha
        · rfl
        · exact absurd (hleast x List.mem_cons_self hx) (UInt64.not_le.mpr (hless a ha))
    · rw [List.find?_cons_of_neg hx, ih h]
      constructor
      · rintro ⟨ha, hqa, hleast⟩
        refine ⟨List.mem_cons_of_mem x ha, hqa, fun b hb hqb => ?_⟩
        rcases List.mem_cons.mp hb with rfl | hb
        · exact absurd hqb hx
        · exact hleast b hb hqb
      · rintro ⟨ha, hqa, hleast⟩
        refine ⟨?_, hqa, fun b hb => hleast b (List.mem_cons_of_mem x hb)⟩
        rcases List.mem_cons.mp ha with rfl | ha
        · exact absurd hqa hx
        · exact ha

/-! ## The search -/

/-- What the search keeps: the addresses found name blocks that can be reached, no two are the same,
and all successors of those that are out of the queue have been found. -/
structure Frontier (p : Program) (entry : Address) (found queue : List Address) : Prop where
  nodup : found.Nodup
  named : ∀ a ∈ found, a ∈ p.blocks
  reached : ∀ a ∈ found, p.Reaches entry a
  pending : ∀ a ∈ queue, a ∈ found
  closed : ∀ a ∈ found, a ∈ queue ∨ ∀ b, p.Edge a b → b ∈ found

theorem frontier_start (h : entry ∈ p.blocks) : p.Frontier entry [entry] [entry] where
  nodup := List.nodup_singleton entry
  named := by simpa using h
  reached := by simpa using Relation.ReflTransGen.refl
  pending := fun _ ha => ha
  closed := fun _ ha => .inl ha

theorem mem_fresh :
    b ∈ ((p.successors a).filter fun s => !found.contains s).eraseDups ↔
      p.Edge a b ∧ b ∉ found := by
  rw [List.mem_eraseDups, List.mem_filter, mem_successors]
  simp

theorem Frontier.step (h : p.Frontier entry found (a :: queue)) :
    p.Frontier entry
      (found ++ ((p.successors a).filter fun s => !found.contains s).eraseDups)
      (queue ++ ((p.successors a).filter fun s => !found.contains s).eraseDups) := by
  have ha := h.pending a List.mem_cons_self
  constructor
  · refine List.nodup_append.mpr ⟨h.nodup, nodup_eraseDups _, ?_⟩
    rintro b hb _ hfresh rfl
    exact (mem_fresh.mp hfresh).2 hb
  · intro b hb
    rcases List.mem_append.mp hb with hb | hb
    · exact h.named b hb
    · obtain ⟨⟨-, -, -, hnamed⟩, -⟩ := mem_fresh.mp hb
      exact hnamed
  · intro b hb
    rcases List.mem_append.mp hb with hb | hb
    · exact h.reached b hb
    · exact (h.reached a ha).tail (mem_fresh.mp hb).1
  · intro b hb
    rcases List.mem_append.mp hb with hb | hb
    · exact List.mem_append_left _ (h.pending b (List.mem_cons_of_mem a hb))
    · exact List.mem_append_right _ hb
  · intro b hb
    rcases List.mem_append.mp hb with hb | hb
    · rcases h.closed b hb with hqueue | hclosed
      · rcases List.mem_cons.mp hqueue with rfl | hqueue
        · -- The block that has been looked at: its successors had been found or are found now.
          refine .inr fun c hc => List.mem_append.mpr ?_
          by_cases hfound : c ∈ found
          · exact .inl hfound
          · exact .inr (mem_fresh.mpr ⟨hc, hfound⟩)
        · exact .inl (List.mem_append_left _ hqueue)
      · exact .inr fun c hc => List.mem_append_left _ (hclosed c hc)
    · exact .inl (List.mem_append_right _ hb)

theorem Frontier.length_le (h : p.Frontier entry found queue) : found.length ≤ p.blocks.size := by
  rw [← ExtTreeMap.length_keys]
  have hkeys : found ⊆ p.blocks.keys := fun a ha => ExtTreeMap.mem_keys.mpr (h.named a ha)
  exact (List.subperm_of_subset h.nodup hkeys).length_le

/-- With fuel for the queue and for what has not been found yet the search empties the queue. -/
theorem Frontier.explore {fuel : Nat} (h : p.Frontier entry found queue)
    (hfuel : queue.length + p.blocks.size ≤ fuel + found.length) :
    p.Frontier entry (p.explore fuel found queue) [] := by
  induction fuel generalizing found queue with
  | zero =>
    have hle := h.length_le
    obtain rfl : queue = [] := List.eq_nil_of_length_eq_zero (by omega)
    exact h
  | succ fuel ih =>
    cases queue with
    | nil => exact h
    | cons a queue =>
      refine ih h.step ?_
      simp only [List.length_cons, List.length_append] at hfuel ⊢
      omega

theorem functionBlocks_frontier (h : entry ∈ p.blocks) :
    p.Frontier entry (p.functionBlocks entry) [] := by
  refine (frontier_start h).explore ?_
  simp only [List.length_singleton]
  omega

theorem head?_functionBlocks (p : Program) (entry : Address) :
    (p.functionBlocks entry).head? = some entry := by
  obtain ⟨rest, hrest⟩ : [entry] <+: p.functionBlocks entry := p.prefix_explore _ _ _
  rw [← hrest]
  rfl

theorem mem_functionBlocks (h : entry ∈ p.blocks) :
    a ∈ p.functionBlocks entry ↔ p.Reaches entry a := by
  have hfrontier := functionBlocks_frontier h
  refine ⟨hfrontier.reached a, fun hreach => ?_⟩
  induction hreach with
  | refl => exact List.mem_of_mem_head? (head?_functionBlocks p entry)
  | tail _ hedge ih =>
    rcases hfrontier.closed _ ih with hqueue | hclosed
    · cases hqueue
    · exact hclosed _ hedge

/-! ## Copies of blocks -/

/-- The copy of the block at an address, its statements numbered from `next`. -/
def liftBlock (p : Program) (order : List Address) (next : StatementId) (a : Address) : Block :=
  ⟨some a,
    ((((p.blocks[a]?).map (·.statements)).getD []).zipIdx next).map fun (s, id) =>
      Statement.lifted id s.address s.kind,
    ((p.successors a).filterMap fun s => order.idxOf? s).eraseDups⟩

variable {order as : List Address} {next : StatementId} {block : Block}

theorem map_address_liftBlocks (p : Program) (order : List Address) (next : StatementId)
    (as : List Address) : (p.liftBlocks order next as).map (·.address) = as.map some := by
  induction as generalizing next with
  | nil => rfl
  | cons a as ih => rw [liftBlocks, List.map_cons, ih, List.map_cons]

theorem mem_liftBlocks (h : block ∈ p.liftBlocks order next as) :
    ∃ a next', a ∈ as ∧ block = p.liftBlock order next' a := by
  induction as generalizing next with
  | nil => cases h
  | cons a as ih =>
    rcases List.mem_cons.mp h with rfl | h
    · exact ⟨a, next, List.mem_cons_self, rfl⟩
    · obtain ⟨b, next', hb, rfl⟩ := ih h
      exact ⟨b, next', List.mem_cons_of_mem a hb, rfl⟩

/-- The block is a copy in the function: it has the statements of the source, all of them lifted,
and its successors are the copies of those successors of the source that name blocks. -/
structure Copies (p : Program) (f : Function) (source : ProgramBlock) (block : Block) : Prop where
  statements : block.statements.map (fun s => (s.address, s.kind)) =
    source.statements.map fun s => (s.address, s.kind)
  lifted : ∀ s ∈ block.statements, s.origin = .lifted
  successors : block.successors.map (fun b => (f.blocks[b]?).bind (·.address)) =
    ((source.successors.filter fun a => p.blocks.contains a).eraseDups).map some

/-- The function has exactly the blocks that can be reached from the entry, the entry first, and
each of them once. The address of a block is the one that the program has its source under, which in
a program that was made block by block is the address of the source. -/
structure Covers (p : Program) (entry : Address) (f : Function) : Prop where
  entryAddress : f.entryAddress = some entry
  entryBlock : (f.blocks[Function.entryBlock]?).bind (·.address) = some entry
  once : (f.blocks.map (·.address)).Nodup
  reachable : ∀ a, some a ∈ f.blocks.map (·.address) ↔ p.Reaches entry a
  copies : ∀ block ∈ f.blocks, ∃ a source, block.address = some a ∧ p.blocks[a]? = some source ∧
    p.Copies f source block
  ids : (f.statements.map (·.id)).Nodup

theorem buildFunction_addresses (p : Program) (id : FunctionId) (entry : Address) :
    (p.buildFunction id entry).blocks.map (·.address) = (p.functionBlocks entry).map some :=
  p.map_address_liftBlocks _ 0 _

theorem buildFunction_address (p : Program) (id : FunctionId) (entry : Address) (b : BlockId) :
    (((p.buildFunction id entry).blocks[b]?).bind (·.address)) = (p.functionBlocks entry)[b]? := by
  have hplace := congrArg (·[b]?) (p.buildFunction_addresses id entry)
  rw [List.getElem?_map, List.getElem?_map] at hplace
  cases hblock : (p.buildFunction id entry).blocks[b]? with
  | none =>
    rw [hblock, Option.map_none, eq_comm, Option.map_eq_none_iff] at hplace
    rw [hplace, Option.bind_none]
  | some block =>
    rw [hblock, Option.map_some, eq_comm, Option.map_eq_some_iff] at hplace
    obtain ⟨a, ha, haddress⟩ := hplace
    rw [ha, Option.bind_some, haddress]

theorem map_successors {l : List Address} (hl : ∀ a ∈ l, a ∈ order) :
    ((l.filterMap fun a => order.idxOf? a).eraseDups).map (order[·]?) = l.eraseDups.map some := by
  have hidx : l.filterMap (fun a => order.idxOf? a) = l.map order.idxOf := by
    rw [← List.filterMap_eq_map]
    refine List.filterMap_congr fun a ha => ?_
    obtain ⟨i, hi⟩ := Option.isSome_iff_exists.mp (List.isSome_idxOf?.mpr (hl a ha))
    rw [Function.comp_apply, List.idxOf_eq_getD_idxOf?, hi, Option.getD_some]
  rw [hidx, eraseDups_map, List.map_map]
  · refine List.map_congr_left fun a ha => ?_
    exact List.getElem?_idxOf (hl a (List.mem_eraseDups.mp ha))
  · intro a ha b _ heq
    exact (List.idxOf_inj (hl a ha)).mp heq

theorem buildFunction_covers (id : FunctionId) (h : entry ∈ p.blocks) :
    p.Covers entry (p.buildFunction id entry) := by
  have hfrontier := functionBlocks_frontier h
  refine ⟨rfl, ?_, ?_, ?_, ?_, (p.buildFunction_numbered id entry).nodup⟩
  · rw [buildFunction_address, Function.entryBlock, ← List.head?_eq_getElem?,
      head?_functionBlocks]
  · rw [buildFunction_addresses]
    exact hfrontier.nodup.map fun _ _ heq => Option.some.inj heq
  · intro a
    rw [buildFunction_addresses, ← mem_functionBlocks h, List.mem_map]
    constructor
    · rintro ⟨b, hb, heq⟩
      exact Option.some.inj heq ▸ hb
    · intro ha
      exact ⟨a, ha, rfl⟩
  · intro block hblock
    obtain ⟨a, next, ha, rfl⟩ := mem_liftBlocks hblock
    have hnamed := hfrontier.named a ha
    obtain ⟨source, hsource⟩ := Option.isSome_iff_exists.mp
      (ExtTreeMap.mem_iff_isSome_getElem?.mp hnamed)
    have hsuccessors : p.successors a = source.successors.filter fun a => p.blocks.contains a := by
      rw [successors, hsource]
    refine ⟨a, source, rfl, hsource, ?_, ?_, ?_⟩
    · simp only [liftBlock, hsource, Option.map_some, Option.getD_some, List.map_map]
      conv_rhs => rw [← List.zipIdx_map_fst next source.statements, List.map_map]
      rfl
    · intro s hs
      obtain ⟨x, -, rfl⟩ := List.mem_map.mp hs
      rfl
    · have hclosed : ∀ b ∈ p.successors a, b ∈ p.functionBlocks entry := by
        intro b hb
        rcases hfrontier.closed a ha with hqueue | hclosed
        · cases hqueue
        · exact hclosed b (mem_successors.mp hb)
      rw [← hsuccessors, ← map_successors hclosed]
      exact List.map_congr_left fun b _ => p.buildFunction_address id entry b

/-! ## The division -/

theorem buildFunctions_eq_error :
    p.buildFunctions = .error (.missingEntryBlock a) ↔
      p.functionEntries.find? (fun a => !p.blocks.contains a) = some a := by
  unfold buildFunctions
  dsimp only
  split
  · next missing hmissing => simp [hmissing]
  · next hnone => simp [hnone]

theorem buildFunctions_of_named (h : ∀ a ∈ p.functionEntries, a ∈ p.blocks) :
    p.buildFunctions = .ok (p.functionEntries.zipIdx.map fun x => p.buildFunction x.2 x.1) := by
  have hnone : p.functionEntries.find? (fun a => !p.blocks.contains a) = none := by
    rw [List.find?_eq_none]
    intro a ha
    simpa using h a ha
  unfold buildFunctions
  simp only [hnone]

/-- A program is divided in full or not at all. It is not if some address that starts a function
names no block, and then the smallest such address is reported. Otherwise every address that starts
a function gets one, in ascending order, with exactly the blocks that can be reached from it. -/
theorem buildFunctions_spec (p : Program) :
    (∀ a, p.buildFunctions = .error (.missingEntryBlock a) ↔
      p.Starts a ∧ a ∉ p.blocks ∧ ∀ b, p.Starts b → b ∉ p.blocks → a ≤ b) ∧
    ((∀ a, p.Starts a → a ∈ p.blocks) →
      ∃ (fs : Functions) (entries : List Address), p.buildFunctions = .ok fs ∧
        entries.Pairwise (· < ·) ∧ (∀ a, a ∈ entries ↔ p.Starts a) ∧
        fs.length = entries.length ∧ ∀ i f, fs[i]? = some f →
          f.id = i ∧ ∃ entry, entries[i]? = some entry ∧ p.Covers entry f) := by
  constructor
  · intro a
    rw [buildFunctions_eq_error, find?_ascending p.functionEntries_ascending]
    simp only [mem_functionEntries, Bool.not_eq_true', ← Bool.not_eq_true,
      ExtTreeMap.contains_iff_mem]
  · intro hnamed
    have hentries : ∀ a ∈ p.functionEntries, a ∈ p.blocks :=
      fun a ha => hnamed a (mem_functionEntries.mp ha)
    refine ⟨_, p.functionEntries, buildFunctions_of_named hentries, p.functionEntries_ascending,
      fun a => mem_functionEntries, ?_, ?_⟩
    · rw [List.length_map, List.length_zipIdx]
    · intro i f hf
      rw [List.getElem?_map, Option.map_eq_some_iff] at hf
      obtain ⟨x, hx, rfl⟩ := hf
      rw [List.getElem?_zipIdx, Option.map_eq_some_iff] at hx
      obtain ⟨entry, hentry, rfl⟩ := hx
      refine ⟨Nat.zero_add i, entry, hentry, buildFunction_covers _ ?_⟩
      exact hentries entry (List.mem_of_getElem? hentry)

end Program

end CallEffects
