import CallEffects.Proofs.Validity

/-!
# The two kinds of edits

Whoever puts statements in by hand and takes them out again does not touch the code that was lifted.
Whoever edits the code raises the revision, or fails and changes nothing. The code is also edited
past what was put in, with one exception: `Function.remove` takes the first statement with the id,
and that may be a synthetic one. Then the code stays as it is, and still the revision goes up.

Whatever is done, statements stay numbered apart and below the next number to hand out, as long as
each statement that is put in has a number that was handed out and is free.
-/

namespace CallEffects

namespace Function

variable {f g : Function} {b j : BlockId} {id : StatementId} {s : Statement}

/-- The synthetic statements of a block, none if there is no such block. -/
def syntheticAt (f : Function) (b : BlockId) : List Statement :=
  ((f.blocks[b]?).map Block.synthetic).getD []

/-- The number was handed out, and no statement has it. -/
def Free (f : Function) (id : StatementId) : Prop :=
  id < f.nextStatement ∧ ∀ s ∈ f.statements, s.id ≠ id

instance (f : Function) (id : StatementId) : Decidable (f.Free id) := by
  unfold Free
  infer_instance

theorem free_allocate (hf : f.Numbered) : f.allocate.2.Free f.allocate.1 := by
  constructor
  · exact Nat.lt_succ_self f.nextStatement
  · intro s hs
    exact Nat.ne_of_lt (hf.bounded s hs)

/-! ## The statement that an id finds -/

theorem position?_eq_some {block : Block} {i : Nat} (h : block.position? id = some i) :
    ∃ before s after, block.statements = before ++ s :: after ∧ before.length = i ∧ s.id = id ∧
      ∀ t ∈ before, t.id ≠ id := by
  obtain ⟨hlt, hid, hbefore⟩ := List.findIdx?_eq_some_iff_getElem.mp h
  refine ⟨block.statements.take i, block.statements[i], block.statements.drop (i + 1), ?_, ?_,
    by simpa using hid, ?_⟩
  · rw [List.getElem_cons_drop, List.take_append_drop]
  · rw [List.length_take]
    omega
  · intro t ht
    obtain ⟨k, hk, rfl⟩ := List.getElem_of_mem ht
    rw [List.length_take] at hk
    have hne := hbefore k (by omega)
    simpa using hne

/-- What is at the place of an id is the first statement with the id, whatever ids there are. -/
theorem locate_statement? {i : Nat} (h : f.locate id = some (b, i)) :
    ∃ block before s after, f.blocks[b]? = some block ∧
      block.statements = before ++ s :: after ∧ before.length = i ∧ f.statement? id = some s := by
  obtain ⟨earlier, ⟨block, b'⟩, later, hzip, hfound, hearlier⟩ := List.findSome?_eq_some_iff.mp h
  obtain ⟨i', hi, heq⟩ := Option.map_eq_some_iff.mp hfound
  obtain ⟨rfl, rfl⟩ := Prod.mk.inj heq
  obtain ⟨before, s, after, hbody, hlen, hid, hbefore⟩ := position?_eq_some hi
  have hmem : (block, b') ∈ f.blocks.zipIdx := by simp [hzip]
  have hblocks : f.blocks = earlier.map (·.1) ++ block :: later.map (·.1) := by
    rw [← List.zipIdx_map_fst 0 f.blocks, hzip, List.map_append, List.map_cons]
  have hstatements : f.statements = ((earlier.map (·.1)).flatMap (·.statements) ++ before) ++
      s :: (after ++ (later.map (·.1)).flatMap (·.statements)) := by
    rw [statements, hblocks, List.flatMap_append, List.flatMap_cons, hbody]
    simp only [List.append_assoc, List.cons_append]
  refine ⟨block, before, s, after, List.mk_mem_zipIdx_iff_getElem?.mp hmem, hbody, hlen, ?_⟩
  refine List.find?_eq_some_iff_append.mpr ⟨by simpa using hid, _, _, hstatements, fun t ht => ?_⟩
  rcases List.mem_append.mp ht with ht | ht
  · -- The blocks before this one do not have the id.
    obtain ⟨block', hblock', ht⟩ := List.mem_flatMap.mp ht
    obtain ⟨entry, hentry, rfl⟩ := List.mem_map.mp hblock'
    have hnone : entry.1.position? id = none := by simpa using hearlier entry hentry
    simpa using List.findIdx?_eq_none_iff.mp hnone t ht
  · simpa using hbefore t ht

theorem remove_eq_ok (h : f.remove id = .ok (s, g)) :
    f.statement? id = some s ∧ ∃ b block before after, f.blocks[b]? = some block ∧
      block.statements = before ++ s :: after ∧
      g = raiseRevision (f.setBody b (before ++ after)) := by
  unfold remove at h
  split at h
  · next t b i ht hp =>
    obtain ⟨rfl, rfl⟩ := Prod.mk.inj (Except.ok.inj h)
    obtain ⟨block, before, t', after, hb, hbody, hi, ht'⟩ := locate_statement? hp
    obtain rfl := Option.some.inj (ht.symm.trans ht')
    refine ⟨ht, b, block, before, after, hb, hbody, ?_⟩
    have herase : block.statements.eraseIdx i = before ++ after := by
      rw [hbody, List.eraseIdx_append_of_length_le (Nat.le_of_eq hi), hi, Nat.sub_self,
        List.eraseIdx_cons_zero]
    congr 1
    simp only [setBody, modifyBlock, Function.mk.injEq, true_and, and_true]
    apply List.ext_getElem?
    intro j
    by_cases hj : b = j
    · subst hj
      simp [hb, herase]
    · simp [hj]
  · cases h

/-! ## Synthetic statements -/

theorem syntheticAt_modifyBlock {change : Block → Block}
    (h : ∀ block, (change block).synthetic = block.synthetic) :
    (f.modifyBlock b change).syntheticAt j = f.syntheticAt j := by
  simp only [syntheticAt, modifyBlock, List.getElem?_modify, Option.map_eq_map, Option.map_map]
  congr 2
  funext block
  by_cases hj : b = j <;> simp [hj, h]

theorem syntheticAt_setBody {block : Block} (hb : f.blocks[b]? = some block)
    (body : List Statement) :
    (f.setBody b body).syntheticAt j =
      if b = j then body.filter (·.isSynthetic) else f.syntheticAt j := by
  rw [syntheticAt, getElem?_setBody]
  by_cases hj : b = j
  · subst hj
    simp [hb, Block.synthetic]
  · simp [hj, syntheticAt]

end Function

namespace CodeEdit

variable {f g : Function} {e : CodeEdit}

def taken? (f : Function) : CodeEdit → Option Statement
  | .remove id => f.statement? id
  | _ => none

theorem apply_remove_eq_ok {id : StatementId} (h : (remove id).apply f = .ok g) :
    ∃ s, f.remove id = .ok (s, g) := by
  change (f.remove id).map (·.2) = .ok g at h
  cases hr : f.remove id with
  | error error =>
    rw [hr] at h
    cases h
  | ok removed =>
    rw [hr] at h
    exact ⟨removed.1, by rw [← Except.ok.inj h]⟩

theorem apply_syntheticAt (h : e.apply f = .ok g) (ht : ∀ s ∈ e.taken? f, s.isSynthetic = false)
    (b : BlockId) : g.syntheticAt b = f.syntheticAt b := by
  cases e with
  | addBlock address =>
    obtain rfl := Except.ok.inj h
    simp only [Function.syntheticAt, Function.addBlock, Function.raiseRevision,
      List.getElem?_append]
    split
    · rfl
    · next hlen =>
      rw [List.getElem?_eq_none (Nat.le_of_not_lt hlen)]
      cases b - f.blocks.length <;> rfl
  | addEdge source target =>
    simp only [apply, Function.addEdge] at h
    split at h
    · cases h
    · split at h
      · cases h
      · obtain rfl := Except.ok.inj h
        apply Function.syntheticAt_modifyBlock
        intro block
        unfold Block.addSuccessor
        split <;> rfl
  | push b' address kind =>
    simp only [apply, Function.push] at h
    split at h
    · cases h
    · obtain rfl := Except.ok.inj h
      apply Function.syntheticAt_modifyBlock
      intro block
      simp [Block.synthetic, Statement.isSynthetic, Statement.lifted]
  | remove id =>
    obtain ⟨s, hr⟩ := apply_remove_eq_ok h
    obtain ⟨hs, b', block, before, after, hb, hbody, rfl⟩ := Function.remove_eq_ok hr
    have hlifted : s.isSynthetic = false := ht s hs
    have hset := Function.syntheticAt_setBody (j := b) hb (before ++ after)
    refine hset.trans ?_
    split
    · next hbb =>
      subst hbb
      simp [Function.syntheticAt, hb, Block.synthetic, hbody, hlifted]
    · rfl

theorem apply_takes (h : e.apply f = .ok g) {s : Statement} (hs : s ∈ e.taken? f)
    (hsyn : s.isSynthetic) :
    g.code = f.code ∧ ∃ b before after, f.syntheticAt b = before ++ s :: after ∧
      g.syntheticAt b = before ++ after ∧ ∀ j, j ≠ b → g.syntheticAt j = f.syntheticAt j := by
  cases e with
  | addBlock | addEdge | push => cases hs
  | remove id =>
    obtain ⟨t, hr⟩ := apply_remove_eq_ok h
    obtain ⟨ht, b, block, before, after, hb, hbody, rfl⟩ := Function.remove_eq_ok hr
    obtain rfl := Option.some.inj (ht.symm.trans hs)
    have hset : ∀ j, (f.setBody b (before ++ after)).raiseRevision.syntheticAt j =
        if b = j then (before ++ after).filter (·.isSynthetic) else f.syntheticAt j :=
      fun j => Function.syntheticAt_setBody hb _
    refine ⟨Function.code_setBody hb (by simp [Block.lifted, hbody, hsyn]), b,
      before.filter (·.isSynthetic), after.filter (·.isSynthetic), ?_, ?_, ?_⟩
    · simp [Function.syntheticAt, hb, Block.synthetic, hbody, hsyn]
    · rw [hset, if_pos rfl, List.filter_append]
    · intro j hj
      rw [hset, if_neg hj.symm]

theorem attempt_numbered (hf : f.Numbered) (e : CodeEdit) : (e.attempt f).Numbered := by
  rcases e.attempt_cases f with ⟨-, he⟩ | ⟨-, he⟩
  · generalize e.attempt f = g at he
    cases e with
    | addBlock | addEdge | push =>
      apply Effect.numbered _ hf
      exact apply_effect hf (by simp [Lifted]) he
    | remove id =>
      obtain ⟨s, hr⟩ := apply_remove_eq_ok he
      obtain ⟨-, b, block, before, after, hb, hbody, rfl⟩ := Function.remove_eq_ok hr
      obtain ⟨l, r, hold, hnew⟩ := Function.statements_split hb
      have hsub : ((f.setBody b (before ++ after)).statements).Sublist f.statements := by
        rw [hold, hnew, hbody]
        apply List.Sublist.append_right
        apply List.Sublist.append_left
        exact List.Sublist.append_left (List.sublist_cons_self s after) before
      refine ⟨hf.nodup.sublist (hsub.map _), fun t ht => hf.bounded t (hsub.subset ht), ?_⟩
      have hne := hf.blocks_ne_nil
      simpa [Function.raiseRevision, Function.setBody, Function.modifyBlock] using hne
  · rw [he]
    exact hf

end CodeEdit

/-! ## Edits of both kinds -/

/-- All that may be done to the body of a function. -/
inductive BodyEdit where
  | code (e : CodeEdit)
  | allocate
  | insert (position : InsertPosition) (statements : List Statement)
  | strip (ids : List StatementId)
deriving DecidableEq, Repr

namespace BodyEdit

variable {f : Function}

def attempt (f : Function) : BodyEdit → Function
  | .code e => e.attempt f
  | .allocate => f.allocate.2
  | .insert position ss =>
    match f.insertSynthetic position ss with
    | .ok g => g
    | .error _ => f
  | .strip ids => f.removeSynthetic ids

def attemptAll (f : Function) (es : List BodyEdit) : Function := es.foldl attempt f

/-- The edit deals in synthetic statements only. -/
def Synthetic : BodyEdit → Prop
  | .code _ => False
  | .insert _ ss => ∀ s ∈ ss, s.isSynthetic
  | .allocate | .strip _ => True

def numbers : BodyEdit → List StatementId
  | .insert _ ss => ss.map (·.id)
  | _ => []

/-- What is put in has free numbers, no two the same. -/
def Proper (f : Function) (e : BodyEdit) : Prop := e.numbers.Nodup ∧ ∀ id ∈ e.numbers, f.Free id

instance (f : Function) (e : BodyEdit) : Decidable (e.Proper f) := by
  unfold Proper
  infer_instance

/-- Every edit is proper when its turn comes. -/
def AllProper (f : Function) : List BodyEdit → Prop
  | [] => True
  | e :: es => e.Proper f ∧ AllProper (e.attempt f) es

theorem attempt_insert_cases (f : Function) (position : InsertPosition) (ss : List Statement) :
    f.insertSynthetic position ss = .ok (attempt f (.insert position ss)) ∨
      attempt f (.insert position ss) = f := by
  simp only [attempt]
  cases f.insertSynthetic position ss with
  | ok g => exact .inl rfl
  | error error => exact .inr rfl

theorem attempt_sameCode {e : BodyEdit} (he : e.Synthetic) : f.SameCode (e.attempt f) := by
  cases e with
  | code e => exact he.elim
  | allocate => exact ⟨rfl, rfl, rfl, rfl⟩
  | insert position ss =>
    rcases attempt_insert_cases f position ss with hok | hfails
    · have hcode := Function.insertSynthetic_code hok he
      have hfields := (Function.insertSynthetic_fields hok).1
      constructor
      · rw [hfields]
      · rw [hfields]
      · rw [hfields]
      · exact hcode
    · rw [hfails]
      exact .refl f
  | strip ids => exact ⟨rfl, rfl, rfl, f.code_removeSynthetic ids⟩

theorem attempt_numbered {e : BodyEdit} (hf : f.Numbered) (he : e.Proper f) :
    (e.attempt f).Numbered := by
  cases e with
  | code e => exact CodeEdit.attempt_numbered hf e
  | allocate => exact ⟨hf.nodup, fun s hs => Nat.lt_succ_of_lt (hf.bounded s hs), hf.blocks_ne_nil⟩
  | insert position ss =>
    obtain ⟨hnodup, hfree⟩ := he
    rcases attempt_insert_cases f position ss with hok | hfails
    · apply hf.insertSynthetic hok hnodup
      · exact fun s hs => (hfree s.id (List.mem_map_of_mem hs)).1
      · exact fun t ht hmem => (hfree t.id hmem).2 t ht rfl
    · rw [hfails]
      exact hf
  | strip ids => exact hf.removeSynthetic ids

theorem attempt_free {e : BodyEdit} {id : StatementId} (h : f.Free id) (hid : id ∉ e.numbers) :
    (e.attempt f).Free id := by
  cases e with
  | code e =>
    rcases e.attempt_cases f with ⟨-, he⟩ | ⟨-, he⟩
    · obtain ⟨-, hnext, hmem⟩ := CodeEdit.apply_adds_lifted he
      refine ⟨Nat.lt_of_lt_of_le h.1 hnext, fun s hs => ?_⟩
      rcases hmem s hs with hs | ⟨-, hnew⟩
      · exact h.2 s hs
      · rw [hnew]
        exact Nat.ne_of_gt h.1
    · rw [attempt, he]
      exact h
  | allocate => exact ⟨Nat.lt_succ_of_lt h.1, h.2⟩
  | insert position ss =>
    rcases attempt_insert_cases f position ss with hok | hfails
    · refine ⟨?_, fun s hs hsid => ?_⟩
      · rw [(Function.insertSynthetic_fields hok).1]
        exact h.1
      · rcases List.mem_append.mp ((Function.insertSynthetic_statements hok).subset hs) with hs | hs
        · exact hid (hsid ▸ List.mem_map_of_mem hs)
        · exact h.2 s hs hsid
    · rw [hfails]
      exact h
  | strip ids => exact ⟨h.1, fun s hs => h.2 s (Function.mem_removeSynthetic.mp hs).1⟩

theorem attemptAll_numbered {es : List BodyEdit} (hf : f.Numbered) (hes : AllProper f es) :
    (attemptAll f es).Numbered := by
  induction es generalizing f with
  | nil => exact hf
  | cons e es ih => exact ih (attempt_numbered hf hes.1) hes.2

/-- Synthetic edits leave the lifted code, its edges and the revision as they are. An edit of the
code that fails changes nothing. One that succeeds raises the revision and leaves the synthetic
statements of every block alone, unless the very statement that it removes is one of them: then this
statement is all that goes. Statements stay numbered apart, and below the next number, through all
edits that are proper when their turn comes; a number just handed out is free, and stays so until it
is put in. These numbers are the ones that a count in 32 bits hands out, as long as it has not handed
out more than `2 ^ 32`. -/
theorem edits_keep_apart (f : Function) :
    (∀ e : BodyEdit, e.Synthetic → f.SameCode (e.attempt f)) ∧
    (∀ e : CodeEdit, e.succeeds f = false → e.attempt f = f) ∧
    (∀ e : CodeEdit, e.succeeds f = true →
      f.revision < (e.attempt f).revision ∧
      ((∀ s ∈ e.taken? f, s.isSynthetic = false) →
        ∀ b, (e.attempt f).syntheticAt b = f.syntheticAt b) ∧
      ∀ s ∈ e.taken? f, s.isSynthetic → (e.attempt f).code = f.code ∧
        ∃ b before after, f.syntheticAt b = before ++ s :: after ∧
          (e.attempt f).syntheticAt b = before ++ after ∧
          ∀ j, j ≠ b → (e.attempt f).syntheticAt j = f.syntheticAt j) ∧
    (f.Numbered → f.allocate.2.Free f.allocate.1 ∧
      ∀ es, AllProper f es → (attemptAll f es).Numbered ∧
        ∀ s ∈ (attemptAll f es).statements, (attemptAll f es).HandedOut s.id) ∧
    ∀ (e : BodyEdit) (id : StatementId), f.Free id → id ∉ e.numbers → (e.attempt f).Free id := by
  refine ⟨fun e he => attempt_sameCode he, fun e hfails => ?_, fun e hsucceeds => ?_,
    fun hf => ⟨Function.free_allocate hf, fun es hes =>
      ⟨attemptAll_numbered hf hes, (attemptAll_numbered hf hes).handedOut⟩⟩,
    fun e id h hid => attempt_free h hid⟩
  · rcases e.attempt_cases f with ⟨hs, -⟩ | ⟨-, he⟩
    · rw [hs] at hfails
      cases hfails
    · exact he
  · rcases e.attempt_cases f with ⟨-, he⟩ | ⟨hs, -⟩
    · refine ⟨?_, CodeEdit.apply_syntheticAt he, fun s hs hsyn => CodeEdit.apply_takes he hs hsyn⟩
      rw [(CodeEdit.apply_fields he).2.2]
      exact Nat.lt_succ_self f.revision
    · rw [hs] at hsucceeds
      cases hsucceeds

/-- A number is taken, and a statement with it put in after the call of the sample. -/
def annotating : List BodyEdit :=
  [.allocate, .insert (.after 0) [.synthetic 2 .call (.kill .flags)]]

def annotated : Function := attemptAll Function.sample annotating

/-- Lifted statements go, and what was put in stays, until it goes too. -/
theorem annotated_keeps_apart :
    Function.sample.Numbered ∧ AllProper Function.sample annotating ∧ annotated.Numbered ∧
      annotated.syntheticAt 0 = [.synthetic 2 .call (.kill .flags)] ∧
      (CodeEdit.remove 0).succeeds annotated = true ∧
      annotated.revision < ((CodeEdit.remove 0).attempt annotated).revision ∧
      ((CodeEdit.remove 0).attempt annotated).syntheticAt 0 = annotated.syntheticAt 0 ∧
      (CodeEdit.remove 3).attempt annotated = annotated ∧
      annotated.SameCode ((BodyEdit.strip [2]).attempt annotated) := by
  have hsample : Function.sample.Numbered := ⟨by decide, by decide, by decide⟩
  have hproper : AllProper Function.sample annotating := ⟨by decide, by decide, trivial⟩
  have hsucceeds : (CodeEdit.remove 0).succeeds annotated = true := by decide
  obtain ⟨-, -, -, hnumbered, -⟩ := edits_keep_apart Function.sample
  obtain ⟨hsynthetic, hfails, hcode, -⟩ := edits_keep_apart annotated
  obtain ⟨hrevision, hkeeps, -⟩ := hcode (.remove 0) hsucceeds
  exact ⟨hsample, hproper, ((hnumbered hsample).2 annotating hproper).1, by decide, hsucceeds, hrevision,
    hkeeps (by decide) 0, hfails (.remove 3) (by decide), hsynthetic (.strip [2]) trivial⟩

/-- A removal that is given the number of a synthetic statement takes it out, although it is an edit
of the code. -/
theorem removal_crosses_over :
    annotated.Numbered ∧ (CodeEdit.remove 2).succeeds annotated = true ∧
      annotated.syntheticAt 0 = [.synthetic 2 .call (.kill .flags)] ∧
      ((CodeEdit.remove 2).attempt annotated).syntheticAt 0 = [] :=
  ⟨⟨by decide, by decide, by decide⟩, by decide, by decide, by decide⟩

end BodyEdit

end CallEffects
