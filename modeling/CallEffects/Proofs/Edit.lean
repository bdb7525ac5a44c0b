import CallEffects.Proofs.Body

/-!
# Lifted edits

The four edits that change what a function means, as data. `CodeEdit.apply_cases` says everything a
successful edit does to the statements of the blocks; a failed one gives no function back.
-/

namespace CallEffects

namespace Function

def bodies (f : Function) : List (List Statement) := f.blocks.map (·.statements)

variable {f g : Function}

theorem statements_eq_flatten (f : Function) : f.statements = f.bodies.flatten := rfl

theorem getElem?_bodies (f : Function) (b : BlockId) :
    f.bodies[b]? = (f.blocks[b]?).map (·.statements) := by
  rw [bodies, List.getElem?_map]

theorem Numbered.block_unique (h : f.Numbered) {i j : BlockId} {x y : Block} {s : Statement}
    (hi : f.blocks[i]? = some x) (hj : f.blocks[j]? = some y) (hx : s ∈ x.statements)
    (hy : s ∈ y.statements) : i = j := by
  have hpair := (List.nodup_flatMap.mp (List.Nodup.of_map _ h.nodup)).2
  obtain ⟨hil, hi⟩ := List.getElem?_eq_some_iff.mp hi
  obtain ⟨hjl, hj⟩ := List.getElem?_eq_some_iff.mp hj
  subst hi hj
  have hp := List.pairwise_iff_getElem.mp hpair
  rcases Nat.lt_trichotomy i j with hlt | heq | hgt
  · exact absurd hy (hp i j hil hjl hlt hx)
  · exact heq
  · exact absurd hx (hp j i hjl hil hgt hy)

theorem bodies_modifyBlock {change : Block → Block} {k : List Statement → List Statement}
    (h : ∀ block, (change block).statements = k block.statements) (b : BlockId) :
    (f.modifyBlock b change).bodies = f.bodies.modify b k := by
  apply List.ext_getElem?
  intro j
  simp only [bodies, modifyBlock, List.getElem?_map, List.getElem?_modify, Option.map_eq_map,
    Option.map_map]
  congr 1
  funext block
  simp only [Function.comp_apply]
  split
  · exact h block
  · rfl

theorem Numbered.filter_ne (h : f.Numbered) {b : BlockId} {block : Block} {s : Statement}
    {before after : List Statement} (hb : f.blocks[b]? = some block)
    (hbody : block.statements = before ++ s :: after) :
    block.statements.filter (fun t => t.id ≠ s.id) = before ++ after := by
  have hnd : ((before ++ s :: after).map (·.id)).Nodup := by
    obtain ⟨l, r, hf, -⟩ := statements_split hb
    have hall := h.nodup
    rw [hf, hbody, List.map_append, List.map_append] at hall
    exact (List.nodup_append.mp (List.nodup_append.mp hall).1).2.1
  rw [List.map_append, List.map_cons] at hnd
  obtain ⟨-, hafter, hdis⟩ := List.nodup_append.mp hnd
  have hl : before.filter (fun t => decide (t.id ≠ s.id)) = before :=
    List.filter_eq_self.mpr fun t ht => by
      simpa using hdis t.id (List.mem_map_of_mem ht) s.id List.mem_cons_self
  have hr : after.filter (fun t => decide (t.id ≠ s.id)) = after :=
    List.filter_eq_self.mpr fun t ht => by
      have hne : t.id ≠ s.id := fun he =>
        (List.nodup_cons.mp hafter).1 (he ▸ List.mem_map_of_mem ht)
      simpa using hne
  rw [hbody, List.filter_append, hl]
  simp only [ne_eq, not_true_eq_false, decide_false, Bool.false_eq_true, not_false_eq_true,
    List.filter_cons_of_neg]
  rw [hr]

theorem Numbered.filter_ne_of_ne (h : f.Numbered) {b j : BlockId} {x y : Block} {s : Statement}
    (hb : f.blocks[b]? = some x) (hj : f.blocks[j]? = some y) (hs : s ∈ x.statements) (hbj : b ≠ j) :
    y.statements.filter (fun t => t.id ≠ s.id) = y.statements := by
  apply List.filter_eq_self.mpr
  intro t ht
  have hne : t.id ≠ s.id := by
    intro hid
    have hts := h.eq_of_id_eq (mem_statements.mpr ⟨j, y, hj, ht⟩)
      (mem_statements.mpr ⟨b, x, hb, hs⟩) hid
    exact hbj (h.block_unique hb hj hs (hts ▸ ht))
  simpa using hne

theorem bodies_erase (h : f.Numbered) {b : BlockId} {block : Block} {before after : List Statement}
    {s : Statement} (hb : f.blocks[b]? = some block) (hbody : block.statements = before ++ s :: after) :
    f.bodies.modify b (·.eraseIdx before.length) =
      f.bodies.map (·.filter fun t => t.id ≠ s.id) := by
  apply List.ext_getElem?
  intro j
  simp only [List.getElem?_map, List.getElem?_modify, getElem?_bodies, Option.map_eq_map,
    Option.map_map]
  cases hj : f.blocks[j]? with
  | none => rfl
  | some x =>
    simp only [Option.map_some, Function.comp_apply, Option.some.injEq]
    by_cases hbj : b = j
    · subst hbj
      obtain rfl : block = x := Option.some.inj (hb.symm.trans hj)
      rw [if_pos rfl, h.filter_ne hb hbody, hbody, List.eraseIdx_append_of_length_le (Nat.le_refl _),
        Nat.sub_self, List.eraseIdx_cons_zero]
    · rw [if_neg hbj, h.filter_ne_of_ne hb hj (by simp [hbody]) hbj]

end Function

inductive CodeEdit where
  | addBlock (address : Option Address)
  | addEdge (source target : BlockId)
  | push (block : BlockId) (address : Option Address) (kind : StatementKind)
  | remove (statement : StatementId)
deriving DecidableEq, Repr

namespace CodeEdit

def apply (f : Function) : CodeEdit → Except IrError Function
  | .addBlock address => .ok (f.addBlock address).2
  | .addEdge source target => f.addEdge source target
  | .push b address kind => (f.push b address kind).map (·.2)
  | .remove id => (f.remove id).map (·.2)

/-- An edit of lifted code: a removal names a lifted statement or none at all. -/
def Lifted (f : Function) : CodeEdit → Prop
  | .remove id => ∀ s ∈ f.statements, s.id = id → s.isSynthetic = false
  | _ => True

instance (f : Function) (e : CodeEdit) : Decidable (e.Lifted f) := by
  cases e <;> unfold Lifted <;> infer_instance

variable {f g : Function} {e : CodeEdit}

theorem flatten_modify_concat {bodies : List (List Statement)} {b : BlockId} (hb : b < bodies.length)
    (s : Statement) :
    ∃ l r, bodies.flatten = l ++ r ∧ (bodies.modify b (· ++ [s])).flatten = l ++ s :: r := by
  have hsplit : bodies = bodies.take b ++ bodies[b] :: bodies.drop (b + 1) := by
    rw [List.getElem_cons_drop, List.take_append_drop]
  refine ⟨(bodies.take b).flatten ++ bodies[b], (bodies.drop (b + 1)).flatten, ?_, ?_⟩
  · conv_lhs => rw [hsplit]
    rw [List.flatten_append, List.flatten_cons, List.append_assoc]
  · rw [List.modify_eq_take_cons_drop hb]
    simp

theorem flatten_modify_concat_perm {bodies : List (List Statement)} {b : BlockId}
    (hb : b < bodies.length) (s : Statement) :
    (bodies.modify b (· ++ [s])).flatten.Perm (s :: bodies.flatten) := by
  obtain ⟨l, r, hold, hnew⟩ := flatten_modify_concat hb s
  rw [hold, hnew]
  exact List.perm_middle

/-- What an edit does to the statements. -/
inductive Effect (f g : Function) : Prop
  | block (h : g.bodies = f.bodies ++ [[]]) (hn : g.nextStatement = f.nextStatement)
  | none (h : g.bodies = f.bodies) (hn : g.nextStatement = f.nextStatement)
  | push (b : BlockId) (s : Statement) (hb : b < f.blocks.length) (hs : s.isSynthetic = false)
    (hid : s.id = f.nextStatement) (h : g.bodies = f.bodies.modify b (· ++ [s]))
    (hn : g.nextStatement = f.nextStatement + 1)
  | remove (s : Statement) (hs : s ∈ f.statements) (hl : s.isSynthetic = false)
    (h : g.bodies = f.bodies.map (·.filter fun t => t.id ≠ s.id))
    (hn : g.nextStatement = f.nextStatement)

theorem apply_effect (hf : f.Numbered) (hl : e.Lifted f) (h : e.apply f = .ok g) : Effect f g := by
  cases e with
  | addBlock address =>
    obtain rfl := Except.ok.inj h
    refine .block ?_ rfl
    simp [Function.addBlock, Function.raiseRevision, Function.bodies, Block.empty]
  | addEdge source target =>
    simp only [apply, Function.addEdge] at h
    split at h
    · cases h
    · split at h
      · cases h
      · obtain rfl := Except.ok.inj h
        refine .none ?_ rfl
        have hkeep : ∀ block : Block,
            (block.addSuccessor target).statements = id block.statements := by
          intro block
          unfold Block.addSuccessor
          split <;> rfl
        exact (Function.bodies_modifyBlock hkeep source).trans (List.modify_id source f.bodies)
  | push b address kind =>
    simp only [apply, Function.push] at h
    split at h
    · cases h
    · next hb =>
      obtain rfl := Except.ok.inj h
      exact .push b (.lifted f.nextStatement address kind) (Nat.lt_of_not_le hb) rfl rfl
        (Function.bodies_modifyBlock (fun _ => rfl) b) rfl
  | remove id =>
    simp only [apply, Function.remove] at h
    split at h
    · next s b i hs hp =>
      obtain rfl := Except.ok.inj h
      obtain ⟨hmem, hid⟩ := Function.statement?_some hs
      obtain ⟨block, before, t, after, hb, hbody, hi, hit⟩ := Function.locate_eq_some hp
      have ht : t ∈ f.statements := Function.mem_statements.mpr ⟨b, block, hb, by simp [hbody]⟩
      obtain rfl : t = s := hf.eq_of_id_eq ht hmem (hit.trans hid.symm)
      refine .remove t ht (hl t ht hit) ?_ rfl
      subst hi
      exact (Function.bodies_modifyBlock (fun _ => rfl) b).trans (Function.bodies_erase hf hb hbody)
    · cases h

theorem apply_fields (h : e.apply f = .ok g) :
    g.id = f.id ∧ g.entryAddress = f.entryAddress ∧ g.revision = f.revision + 1 := by
  cases e with
  | addBlock address =>
    obtain rfl := Except.ok.inj h
    exact ⟨rfl, rfl, rfl⟩
  | addEdge source target =>
    simp only [apply, Function.addEdge] at h
    split at h
    · cases h
    · split at h
      · cases h
      · obtain rfl := Except.ok.inj h
        exact ⟨rfl, rfl, rfl⟩
  | push b address kind =>
    simp only [apply, Function.push] at h
    split at h
    · cases h
    · obtain rfl := Except.ok.inj h
      exact ⟨rfl, rfl, rfl⟩
  | remove id =>
    simp only [apply, Function.remove] at h
    split at h
    · obtain rfl := Except.ok.inj h
      exact ⟨rfl, rfl, rfl⟩
    · cases h

end CodeEdit

end CallEffects
