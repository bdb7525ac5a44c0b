import CallEffects.Function
import Mathlib.Data.List.Nodup

/-!
# Bodies of functions

The statements of a function are numbered apart and below the next number to hand out. This module
says where a statement is, what the edits of a function do to the list of its statements, and that
synthetic edits leave the lifted code, `Function.code`, as it is.
-/

namespace CallEffects

namespace Block

def bare (b : Block) : Block := { b with statements := b.lifted }

theorem bare_eq_self {b : Block} (h : ∀ s ∈ b.statements, s.isSynthetic = false) : b.bare = b := by
  have hl : b.statements.filter (!·.isSynthetic) = b.statements :=
    List.filter_eq_self.mpr fun s hs => by simp [h s hs]
  simp only [bare, lifted, hl]

end Block

namespace Function

/-- What was lifted, whatever hooks are attached. -/
def code (f : Function) : List Block := f.blocks.map Block.bare

def bare (f : Function) : Function := { f with blocks := f.code }

structure Numbered (f : Function) : Prop where
  nodup : (f.statements.map (·.id)).Nodup
  bounded : ∀ s ∈ f.statements, s.id < f.nextStatement
  blocks_ne_nil : f.blocks ≠ []

/-- The number has been handed out. As long as no more than `2 ^ 32` have been, a count in 32 bits
has handed out the same. -/
structure HandedOut (f : Function) (id : StatementId) : Prop where
  lt_next : id < f.nextStatement
  word : f.nextStatement ≤ UInt32.size → (UInt32.ofNat id).toNat = id

variable {f g : Function}

theorem handedOut_of_lt {id : StatementId} (h : id < f.nextStatement) : f.HandedOut id :=
  ⟨h, fun hsize => UInt32.toNat_ofNat_of_lt' (Nat.lt_of_lt_of_le h hsize)⟩

theorem Numbered.handedOut (h : f.Numbered) : ∀ s ∈ f.statements, f.HandedOut s.id :=
  fun s hs => handedOut_of_lt (h.bounded s hs)

theorem mem_statements {s : Statement} :
    s ∈ f.statements ↔
      ∃ (b : BlockId) (block : Block), f.blocks[b]? = some block ∧ s ∈ block.statements := by
  rw [statements, List.mem_flatMap]
  constructor
  · rintro ⟨block, hmem, hs⟩
    obtain ⟨b, hb⟩ := List.mem_iff_getElem?.mp hmem
    exact ⟨b, block, hb, hs⟩
  · rintro ⟨b, block, hb, hs⟩
    exact ⟨block, List.mem_of_getElem? hb, hs⟩

theorem Numbered.eq_of_id_eq (h : f.Numbered) {s t : Statement} (hs : s ∈ f.statements)
    (ht : t ∈ f.statements) (hid : s.id = t.id) : s = t :=
  List.inj_on_of_nodup_map h.nodup hs ht hid

theorem Numbered.statement?_eq_some (h : f.Numbered) {s : Statement} (hs : s ∈ f.statements) :
    f.statement? s.id = some s := by
  cases hf : f.statement? s.id with
  | none => simpa using List.find?_eq_none.mp hf s hs
  | some t =>
    have ht : t ∈ f.statements := List.mem_of_find?_eq_some hf
    have hid : t.id = s.id := by simpa using List.find?_some hf
    rw [h.eq_of_id_eq ht hs hid]

theorem statement?_some {id : StatementId} {s : Statement} (h : f.statement? id = some s) :
    s ∈ f.statements ∧ s.id = id :=
  ⟨List.mem_of_find?_eq_some h, by simpa using List.find?_some h⟩

/-! ## Places -/

theorem locate_eq_some {id : StatementId} {b : BlockId} {i : Nat} (h : f.locate id = some (b, i)) :
    ∃ block before s after, f.blocks[b]? = some block ∧
      block.statements = before ++ s :: after ∧ before.length = i ∧ s.id = id := by
  obtain ⟨⟨block, b'⟩, hmem, hfound⟩ := List.exists_of_findSome?_eq_some h
  obtain ⟨i', hi', heq⟩ := Option.map_eq_some_iff.mp hfound
  obtain ⟨rfl, rfl⟩ := Prod.mk.inj heq
  obtain ⟨hlt, hid, -⟩ := List.findIdx?_eq_some_iff_getElem.mp hi'
  refine ⟨block, block.statements.take i', block.statements[i'], block.statements.drop (i' + 1),
    List.mk_mem_zipIdx_iff_getElem?.mp hmem, ?_, ?_, by simpa using hid⟩
  · rw [List.getElem_cons_drop, List.take_append_drop]
  · simp only [List.length_take]
    omega

theorem locate_ne_none {s : Statement} (hs : s ∈ f.statements) : f.locate s.id ≠ none := by
  intro hnone
  obtain ⟨b, block, hb, hsb⟩ := mem_statements.mp hs
  have hfound := List.findSome?_eq_none_iff.mp hnone (block, b)
    (List.mk_mem_zipIdx_iff_getElem?.mpr hb)
  have hp : block.position? s.id = none := by simpa using hfound
  simpa using List.findIdx?_eq_none_iff.mp hp s hsb

def setBody (f : Function) (b : BlockId) (body : List Statement) : Function :=
  f.modifyBlock b fun block => { block with statements := body }

theorem getElem?_setBody (b j : BlockId) (body : List Statement) :
    (f.setBody b body).blocks[j]? =
      (f.blocks[j]?).map fun block =>
        if b = j then { block with statements := body } else block := by
  simp only [setBody, modifyBlock, List.getElem?_modify]
  split <;> simp [*]

/-- The statements of a block lie between those of the blocks before and after it. -/
theorem statements_split {b : BlockId} {block : Block} (h : f.blocks[b]? = some block) :
    ∃ before after, f.statements = before ++ block.statements ++ after ∧
      ∀ body, (f.setBody b body).statements = before ++ body ++ after := by
  obtain ⟨hlt, hget⟩ := List.getElem?_eq_some_iff.mp h
  refine ⟨(f.blocks.take b).flatMap (·.statements), (f.blocks.drop (b + 1)).flatMap (·.statements),
    ?_, ?_⟩
  · conv_lhs => rw [statements, ← List.take_append_drop b f.blocks, ← List.getElem_cons_drop hlt]
    simp [hget]
  · intro body
    simp [statements, setBody, modifyBlock, List.modify_eq_take_cons_drop hlt]

theorem code_setBody {b : BlockId} {block : Block} {body : List Statement}
    (h : f.blocks[b]? = some block) (hl : body.filter (!·.isSynthetic) = block.lifted) :
    (f.setBody b body).code = f.code := by
  apply List.ext_getElem?
  intro j
  simp only [code, List.getElem?_map, getElem?_setBody, Option.map_map]
  by_cases hj : b = j
  · subst hj
    simp [h, Block.bare, Block.lifted, hl]
  · simp [hj, Function.comp_def]

/-! ## Synthetic edits -/

/-- Where a position is, read off the statements of its block. -/
def Sits (position : InsertPosition) (b : BlockId) (before after : List Statement) : Prop :=
  match position with
  | .blockStart b' => b = b' ∧ before = []
  | .before id => ∃ s rest, after = s :: rest ∧ s.id = id
  | .after id => ∃ s rest, before = rest ++ [s] ∧ s.id = id

theorem modifyBlock_insertAt {b : BlockId} {block : Block} {before after ss : List Statement}
    (hb : f.blocks[b]? = some block) (hbody : block.statements = before ++ after) :
    (f.modifyBlock b fun block => block.insertAt before.length ss) =
      f.setBody b (before ++ ss ++ after) := by
  simp only [setBody, modifyBlock, Function.mk.injEq, true_and, and_true]
  apply List.ext_getElem?
  intro j
  simp only [List.getElem?_modify]
  by_cases hj : b = j
  · subst hj
    simp [hb, Block.insertAt, hbody]
  · simp [hj]

theorem insertSynthetic_eq_ok {position : InsertPosition} {ss : List Statement}
    (h : f.insertSynthetic position ss = .ok g) :
    ∃ b block before after, f.blocks[b]? = some block ∧ block.statements = before ++ after ∧
      Sits position b before after ∧ g = f.setBody b (before ++ ss ++ after) := by
  simp only [insertSynthetic] at h
  cases position with
  | blockStart b =>
    by_cases hb : b < f.blocks.length
    · simp only [resolvePosition, if_pos hb, Except.map, Except.ok.injEq] at h
      have hget := List.getElem?_eq_getElem hb
      exact ⟨b, f.blocks[b], [], f.blocks[b].statements, hget, rfl, ⟨rfl, rfl⟩,
        by rw [← h, ← modifyBlock_insertAt hget (List.nil_append _).symm, List.length_nil]⟩
    · simp [resolvePosition, hb, Except.map] at h
  | before id =>
    cases hp : f.locate id with
    | none => simp [resolvePosition, hp, Except.map] at h
    | some place =>
      obtain ⟨b, i⟩ := place
      obtain ⟨block, before, s, after, hb, hbody, hi, hid⟩ := locate_eq_some hp
      simp only [resolvePosition, hp, Except.map, Except.ok.injEq] at h
      exact ⟨b, block, before, s :: after, hb, hbody, ⟨s, after, rfl, hid⟩,
        by rw [← h, ← hi, modifyBlock_insertAt hb hbody]⟩
  | after id =>
    cases hp : f.locate id with
    | none => simp [resolvePosition, hp, Except.map] at h
    | some place =>
      obtain ⟨b, i⟩ := place
      obtain ⟨block, before, s, after, hb, hbody, hi, hid⟩ := locate_eq_some hp
      have hbody' : block.statements = (before ++ [s]) ++ after := by simp [hbody]
      simp only [resolvePosition, hp, Except.map, Except.ok.injEq] at h
      exact ⟨b, block, before ++ [s], after, hb, hbody', ⟨s, before, rfl, hid⟩,
        by rw [← h, ← modifyBlock_insertAt hb hbody', List.length_append, hi, List.length_singleton]⟩

theorem insertSynthetic_ne_error {position : InsertPosition} {ss : List Statement} {e : IrError}
    (hne : f.blocks ≠ [])
    (h : match position with
      | .blockStart b => b = entryBlock
      | .before id | .after id => ∃ s ∈ f.statements, s.id = id) :
    f.insertSynthetic position ss ≠ .error e := by
  cases position with
  | blockStart b =>
    have hb : b < f.blocks.length := by
      subst h
      exact List.length_pos_iff.mpr hne
    simp [insertSynthetic, resolvePosition, hb, Except.map]
  | before id =>
    obtain ⟨s, hs, rfl⟩ := h
    obtain ⟨place, hp⟩ := Option.ne_none_iff_exists'.mp (locate_ne_none hs)
    simp [insertSynthetic, resolvePosition, hp, Except.map]
  | after id =>
    obtain ⟨s, hs, rfl⟩ := h
    obtain ⟨place, hp⟩ := Option.ne_none_iff_exists'.mp (locate_ne_none hs)
    simp [insertSynthetic, resolvePosition, hp, Except.map]

theorem insertSynthetic_statements {position : InsertPosition} {ss : List Statement}
    (h : f.insertSynthetic position ss = .ok g) : g.statements.Perm (ss ++ f.statements) := by
  obtain ⟨b, block, before, after, hb, hbody, -, rfl⟩ := insertSynthetic_eq_ok h
  obtain ⟨l, r, hf, hg⟩ := statements_split hb
  have hswap := List.perm_append_comm_assoc (l ++ before) ss (after ++ r)
  rw [hg, hf, hbody]
  simpa only [List.append_assoc] using hswap

theorem insertSynthetic_code {position : InsertPosition} {ss : List Statement}
    (h : f.insertSynthetic position ss = .ok g) (hs : ∀ s ∈ ss, s.isSynthetic) :
    g.code = f.code := by
  obtain ⟨b, block, before, after, hb, hbody, -, rfl⟩ := insertSynthetic_eq_ok h
  have hnil : ss.filter (!·.isSynthetic) = [] := by
    simpa [List.filter_eq_nil_iff] using hs
  exact code_setBody hb (by simp [Block.lifted, hbody, hnil])

theorem insertSynthetic_fields {position : InsertPosition} {ss : List Statement}
    (h : f.insertSynthetic position ss = .ok g) :
    g = { f with blocks := g.blocks } ∧ g.blocks.length = f.blocks.length := by
  obtain ⟨b, block, before, after, -, -, -, rfl⟩ := insertSynthetic_eq_ok h
  exact ⟨rfl, by simp [setBody, modifyBlock]⟩

theorem Numbered.insertSynthetic {position : InsertPosition} {ss : List Statement} (hf : f.Numbered)
    (h : f.insertSynthetic position ss = .ok g) (hnodup : (ss.map (·.id)).Nodup)
    (hbelow : ∀ s ∈ ss, s.id < f.nextStatement) (hfresh : ∀ s ∈ f.statements, s.id ∉ ss.map (·.id)) :
    g.Numbered := by
  have hperm := insertSynthetic_statements h
  obtain ⟨hfields, hlen⟩ := insertSynthetic_fields h
  have hnext : g.nextStatement = f.nextStatement := by rw [hfields]
  constructor
  · rw [(hperm.map _).nodup_iff, List.map_append, List.nodup_append]
    refine ⟨hnodup, hf.nodup, ?_⟩
    intro x hx y hy hxy
    obtain ⟨s, hs, rfl⟩ := List.mem_map.mp hy
    exact hfresh s hs (hxy ▸ hx)
  · intro s hs
    rw [hnext]
    rcases List.mem_append.mp (hperm.mem_iff.mp hs) with hs | hs
    · exact hbelow s hs
    · exact hf.bounded s hs
  · intro hnil
    rw [hnil, List.length_nil] at hlen
    exact hf.blocks_ne_nil (List.length_eq_zero_iff.mp hlen.symm)

theorem statements_removeSynthetic (f : Function) (ids : List StatementId) :
    (f.removeSynthetic ids).statements =
      f.statements.filter fun s => !(s.isSynthetic && ids.contains s.id) := by
  simp only [statements, removeSynthetic, List.flatMap_map, List.filter_flatMap]

theorem mem_removeSynthetic {ids : List StatementId} {s : Statement} :
    s ∈ (f.removeSynthetic ids).statements ↔
      s ∈ f.statements ∧ (s.isSynthetic → s.id ∉ ids) := by
  rw [statements_removeSynthetic, List.mem_filter]
  cases s.isSynthetic <;> simp

theorem code_removeSynthetic (f : Function) (ids : List StatementId) :
    (f.removeSynthetic ids).code = f.code := by
  simp only [code, removeSynthetic, List.map_map]
  apply List.map_congr_left
  intro block _
  simp only [Function.comp_apply, Block.bare, Block.lifted, List.filter_filter, Block.mk.injEq,
    true_and, and_true]
  apply List.filter_congr
  intro s _
  cases s.isSynthetic <;> simp

theorem Numbered.removeSynthetic (h : f.Numbered) (ids : List StatementId) :
    (f.removeSynthetic ids).Numbered where
  nodup := by
    rw [statements_removeSynthetic]
    exact h.nodup.sublist (List.filter_sublist.map _)
  bounded := fun s hs => h.bounded s (mem_removeSynthetic.mp hs).1
  blocks_ne_nil := by
    simpa [Function.removeSynthetic] using h.blocks_ne_nil

end Function

end CallEffects
