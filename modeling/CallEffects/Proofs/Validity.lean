import CallEffects.Proofs.Footing

/-!
# How long a snapshot serves

Functions are instrumented and deinstrumented, with snapshots old and new, and their lifted code is
edited in between, with or without success. `Act.performAll` is what comes of it. A snapshot serves
its function as long as none of the edits of that function has succeeded, and is refused for ever
after, without a trace. Statements put in by hand may be anything, provided that a synthetic call
among them has a number which was handed out for it; otherwise a hook may get that number, and take
the call with it when it goes.
-/

namespace CallEffects

open Std

/-! ## Edits -/

namespace Function

variable {f : Function}

theorem mem_modifyBlock {b : BlockId} {change : Block → Block} {s : Statement}
    (h : s ∈ (f.modifyBlock b change).statements) :
    s ∈ f.statements ∨ ∃ block ∈ f.blocks, s ∈ (change block).statements := by
  obtain ⟨j, block, hj, hs⟩ := mem_statements.mp h
  simp only [modifyBlock, List.getElem?_modify, Option.map_eq_map, Option.map_eq_some_iff] at hj
  obtain ⟨block', hj, rfl⟩ := hj
  split at hs
  · exact .inr ⟨block', List.mem_of_getElem? hj, hs⟩
  · exact .inl (mem_statements.mpr ⟨j, block', hj, hs⟩)

theorem mem_statements_of_block {block : Block} (hb : block ∈ f.blocks) {s : Statement}
    (hs : s ∈ block.statements) : s ∈ f.statements :=
  List.mem_flatMap.mpr ⟨block, hb, hs⟩

end Function

namespace CodeEdit

variable {f g : Function} {e : CodeEdit}

/-- Whatever is there, an edit takes no block away and puts in nothing but a lifted statement with
the next number. -/
theorem apply_adds_lifted (h : e.apply f = .ok g) :
    f.blocks.length ≤ g.blocks.length ∧ f.nextStatement ≤ g.nextStatement ∧
      ∀ s ∈ g.statements, s ∈ f.statements ∨ (s.isSynthetic = false ∧ s.id = f.nextStatement) := by
  cases e with
  | addBlock address =>
    obtain rfl := Except.ok.inj h
    refine ⟨by simp [Function.addBlock, Function.raiseRevision], Nat.le_refl _, fun s hs => .inl ?_⟩
    simpa [Function.statements, Function.addBlock, Function.raiseRevision, Block.empty] using hs
  | addEdge source target =>
    simp only [apply, Function.addEdge] at h
    split at h
    · cases h
    · split at h
      · cases h
      · obtain rfl := Except.ok.inj h
        refine ⟨Nat.le_of_eq (List.length_modify ..).symm, Nat.le_refl _, fun s hs => .inl ?_⟩
        rcases Function.mem_modifyBlock hs with hs | ⟨block, hblock, hs⟩
        · exact hs
        · unfold Block.addSuccessor at hs
          split at hs <;> exact Function.mem_statements_of_block hblock hs
  | push b address kind =>
    simp only [apply, Function.push] at h
    split at h
    · cases h
    · obtain rfl := Except.ok.inj h
      refine ⟨Nat.le_of_eq (List.length_modify ..).symm, Nat.le_succ _, fun s hs => ?_⟩
      rcases Function.mem_modifyBlock hs with hs | ⟨block, hblock, hs⟩
      · exact .inl hs
      · rcases List.mem_append.mp hs with hs | hs
        · exact .inl (Function.mem_statements_of_block hblock hs)
        · obtain rfl := List.mem_singleton.mp hs
          exact .inr ⟨rfl, rfl⟩
  | remove id =>
    simp only [apply, Function.remove] at h
    split at h
    · obtain rfl := Except.ok.inj h
      refine ⟨Nat.le_of_eq (List.length_modify ..).symm, Nat.le_refl _, fun s hs => .inl ?_⟩
      rcases Function.mem_modifyBlock hs with hs | ⟨block, hblock, hs⟩
      · exact hs
      · exact Function.mem_statements_of_block hblock (List.mem_of_mem_eraseIdx hs)
    · cases h

def attempt (e : CodeEdit) (f : Function) : Function :=
  match e.apply f with
  | .ok g => g
  | .error _ => f

def succeeds (e : CodeEdit) (f : Function) : Bool := (e.apply f).toOption.isSome

theorem attempt_cases (e : CodeEdit) (f : Function) :
    (e.succeeds f = true ∧ e.apply f = .ok (e.attempt f)) ∨
      (e.succeeds f = false ∧ e.attempt f = f) := by
  unfold attempt succeeds
  cases e.apply f with
  | ok g => exact .inl ⟨rfl, rfl⟩
  | error error => exact .inr ⟨rfl, rfl⟩

end CodeEdit

theorem Hooks.Avoids.edit {h : Hooks} {f g : Function} {e : CodeEdit} (hf : h.Avoids f)
    (he : e.apply f = .ok g) : h.Avoids g := by
  obtain ⟨hlen, hnext, hmem⟩ := CodeEdit.apply_adds_lifted he
  apply hf.change (CodeEdit.apply_fields he).1
  · intro hnil
    rw [hnil, List.length_nil] at hlen
    exact hf.blocks_ne_nil (List.length_eq_zero_iff.mp (Nat.le_zero.mp hlen))
  · exact hnext
  · exact fun s hs => (hmem s hs).imp_right fun hnew => clear_of_lifted hnew.1

theorem Hooks.avoids_empty (h : Hooks) (id : FunctionId) (name : String)
    (entry : Option Address) : h.Avoids (Function.empty id name entry) :=
  ⟨by simp [Function.empty], by simp [Function.empty, Function.statements, Block.empty]⟩

/-! ## Rounds -/

theorem Functions.getElem?_modify_cases {fs : Functions} {i j : Nat} {change : Function → Function}
    {g : Function} (h : (fs.modify i change)[j]? = some g) :
    fs[j]? = some g ∨ ∃ f, i = j ∧ fs[j]? = some f ∧ g = change f := by
  simp only [List.getElem?_modify, Option.map_eq_map, Option.map_eq_some_iff] at h
  obtain ⟨f, hf, rfl⟩ := h
  split
  · next hij => exact .inr ⟨f, hij, hf, rfl⟩
  · exact .inl hf

namespace Round

variable {r : Round} {f g : Function} {i : FunctionId}

/-- The tables are in order, and every function is where its id says. -/
structure Placed (r : Round) : Prop where
  consistent : r.hooks.Consistent
  ids : ∀ {i : Nat} {f : Function}, r.functions[i]? = some f → f.id = i

/-- Besides, hooks keep off the synthetic calls of every function. -/
structure Firm (r : Round) : Prop extends Placed r where
  avoids : ∀ f ∈ r.functions, r.hooks.Avoids f

theorem Fresh.placed (h : r.Fresh) : r.Placed := ⟨h.inOrder.consistent, h.ids⟩

theorem Fresh.firm (h : r.Fresh) : r.Firm :=
  ⟨h.placed, fun f hf => (h.inOrder.accounts f hf).avoids h.inOrder.consistent⟩

namespace Placed

theorem modify (h : r.Placed) (i : FunctionId) {change : Function → Function}
    (hchange : ∀ f, r.functions[i]? = some f → (change f).id = f.id) :
    { r with functions := r.functions.modify i change }.Placed := by
  refine ⟨h.consistent, fun {j g} hg => ?_⟩
  rcases Functions.getElem?_modify_cases hg with hg | ⟨f, rfl, hf, rfl⟩
  · exact h.ids hg
  · exact (hchange f hf).trans (h.ids hf)

theorem putBack (h : r.Placed) {detector : Option Detector} {signatures : Signatures}
    {wanted : Anchor → Prop} {b : Bench}
    (hm : Bench.Moves detector signatures wanted (r.bench f) b) : (r.putBack b).Placed := by
  have hid : b.function.id = f.id := Bench.Moves.function_id hm
  refine ⟨Bench.Moves.consistent hm h.consistent, fun {j g} hg => ?_⟩
  rcases getElem?_putBack_cases hid hg with ⟨rfl, rfl⟩ | ⟨-, hg⟩
  · exact hid
  · exact h.ids hg

end Placed

namespace Firm

theorem bench (h : r.Firm) (hf : r.functions[i]? = some f) : (r.bench f).Firm :=
  ⟨h.consistent, h.avoids f (List.mem_of_getElem? hf)⟩

theorem modify (h : r.Firm) (i : FunctionId) {change : Function → Function}
    (hchange : ∀ f, r.functions[i]? = some f → (change f).id = f.id ∧ r.hooks.Avoids (change f)) :
    { r with functions := r.functions.modify i change }.Firm := by
  refine ⟨h.toPlaced.modify i fun f hf => (hchange f hf).1, fun g hg => ?_⟩
  obtain ⟨j, hj⟩ := List.mem_iff_getElem?.mp hg
  rcases Functions.getElem?_modify_cases hj with hj | ⟨f, rfl, hf, rfl⟩
  · exact h.avoids g (List.mem_of_getElem? hj)
  · exact (hchange f hf).2

theorem putBack (h : r.Firm) (hf : r.functions[i]? = some f) {detector : Option Detector}
    {signatures : Signatures} {wanted : Anchor → Prop} {b : Bench}
    (hm : Bench.Moves detector signatures wanted (r.bench f) b) : (r.putBack b).Firm := by
  obtain ⟨hfirm, -⟩ := Bench.Moves.firm hm (h.bench hf)
  obtain ⟨new, hnew, hown⟩ := (Bench.Moves.frame hm).built
  have hid : b.function.id = f.id := Bench.Moves.function_id hm
  refine ⟨h.toPlaced.putBack hm, fun g hg => ?_⟩
  obtain ⟨j, hj⟩ := List.mem_iff_getElem?.mp hg
  rcases getElem?_putBack_cases hid hj with ⟨-, rfl⟩ | ⟨hne, hj⟩
  · exact hfirm.2
  · -- The hooks that are new are of the function on the bench.
    have hother : ∀ k ∈ b.hooks.built, k.anchor.function = g.id → k ∈ r.hooks.built := by
      intro k hk hkg
      rw [hnew, List.mem_append] at hk
      refine hk.resolve_right fun hk => hne ?_
      exact (h.ids hj).symm.trans (hkg.symm.trans (hown k hk))
    have hg := h.avoids g (List.mem_of_getElem? hj)
    exact hg.frame rfl hg.blocks_ne_nil (Nat.le_refl _) (fun k hk hkg => .inl (hother k hk hkg))
      fun _ => .inl

end Firm

end Round

/-! ## Acts -/

/-- What may be done to an engine and its functions. -/
inductive Act where
  | create (name : String) (entryAddress : Option Address)
  | edit (function : FunctionId) (edit : CodeEdit)
  | instrument (function : FunctionId) (snapshot : Snapshot)
  | deinstrument (function : FunctionId)
  | observe (function : FunctionId) (snapshot : Snapshot)
  /-- A change of what the engine consults. -/
  | exchange (sources : Sources) (conventions : Guarded Conventions)

namespace Act

variable {x : Sources × Round} {f : Function} {i : FunctionId}

/-- What becomes of a round if something is done to one of its functions. -/
def onFunction (r : Round) (i : FunctionId) (change : Function → Round) : Round :=
  match r.functions[i]? with
  | none => r
  | some f => change f

/-- What fails half way leaves what it has done. -/
def perform (x : Sources × Round) : Act → Sources × Round
  | .create name entryAddress =>
    (x.1, { x.2 with functions := (x.2.functions.add name entryAddress).2 })
  | .edit i e => (x.1, { x.2 with functions := x.2.functions.modify i e.attempt })
  | .instrument i s => (x.1, onFunction x.2 i fun f => Round.left (x.2.instrument x.1 f s))
  | .deinstrument i => (x.1, onFunction x.2 i x.2.deinstrument)
  | .observe i s => (x.1, onFunction x.2 i fun f => { x.2 with hooks := x.2.hooks.observe f s })
  | .exchange sources conventions => (sources, { x.2 with conventions })

def performAll (x : Sources × Round) (acts : List Act) : Sources × Round := acts.foldl perform x

def edits (i : FunctionId) (x : Sources × Round) : Act → Bool
  | .edit j e => j == i && (x.2.functions[i]?).any e.succeeds
  | _ => false

def editsOf (i : FunctionId) (x : Sources × Round) : List Act → Nat
  | [] => 0
  | a :: acts => (if a.edits i x then 1 else 0) + editsOf i (perform x a) acts

theorem onFunction_cases (r : Round) (i : FunctionId) (change : Function → Round) :
    onFunction r i change = r ∨
      ∃ f, r.functions[i]? = some f ∧ onFunction r i change = change f := by
  unfold onFunction
  cases r.functions[i]? with
  | none => exact .inl rfl
  | some f => exact .inr ⟨f, rfl, rfl⟩

/-- All that an act may come to. -/
inductive Outcome (x : Sources × Round) : Act → Round → Prop
  | still (a : Act) (r : Round) (ha : ∀ i, a.edits i x = false)
      (hf : r.functions = x.2.functions) (hc : r.hooks.Consistent)
      (hb : r.hooks.built = x.2.hooks.built) : Outcome x a r
  | created (name : String) (entryAddress : Option Address) :
      Outcome x (.create name entryAddress)
        { x.2 with functions := (x.2.functions.add name entryAddress).2 }
  | edited (i : FunctionId) (e : CodeEdit) :
      Outcome x (.edit i e) { x.2 with functions := x.2.functions.modify i e.attempt }
  | moved (a : Act) (ha : ∀ i, a.edits i x = false) {g : Function} {j : FunctionId} {b : Bench}
      {detector : Option Detector} {signatures : Signatures} {wanted : Anchor → Prop}
      (hg : x.2.functions[j]? = some g)
      (hm : Bench.Moves detector signatures wanted (x.2.bench g) b) : Outcome x a (x.2.putBack b)

theorem perform_outcome (hx : x.2.Placed) (a : Act) : Outcome x a (perform x a).2 := by
  cases a with
  | create name entryAddress => exact .created name entryAddress
  | edit i e => exact .edited i e
  | exchange => exact .still _ _ (fun _ => rfl) rfl hx.consistent rfl
  | instrument i s =>
    have hnone : Outcome x (.instrument i s) x.2 :=
      .still _ _ (fun _ => rfl) rfl hx.consistent rfl
    rcases onFunction_cases x.2 i fun f => Round.left (x.2.instrument x.1 f s) with
      heq | ⟨f, hf, heq⟩
    · simp only [perform, heq]
      exact hnone
    · simp only [perform, heq]
      have hid := hx.ids hf
      rcases Round.instrument_cases x.2 x.1 s (hid ▸ hf) with hrefused | ⟨-, hm⟩
      · rw [hrefused]
        exact hnone
      · rw [Round.left_instrument]
        exact .moved _ (fun _ => rfl) hf (.head (.start _ s) hm)
  | deinstrument i =>
    rcases onFunction_cases x.2 i x.2.deinstrument with heq | ⟨f, hf, heq⟩
    · simp only [perform, heq]
      exact .still _ _ (fun _ => rfl) rfl hx.consistent rfl
    · simp only [perform, heq]
      have hm : Bench.Moves none .empty (fun _ => False) (x.2.bench f) _ :=
        (x.2.bench f).deinstrument_moves
      exact .moved _ (fun _ => rfl) hf hm
  | observe i s =>
    rcases onFunction_cases x.2 i fun f => { x.2 with hooks := x.2.hooks.observe f s } with
      heq | ⟨f, hf, heq⟩
    · simp only [perform, heq]
      exact .still _ _ (fun _ => rfl) rfl hx.consistent rfl
    · simp only [perform, heq]
      rw [Hooks.observe_fields]
      exact .still _ _ (fun _ => rfl) rfl (hx.consistent.congr rfl rfl rfl) rfl

theorem perform_placed (hx : x.2.Placed) (a : Act) : (perform x a).2.Placed := by
  have houtcome := perform_outcome hx a
  generalize (perform x a).2 = r at houtcome
  cases houtcome with
  | still a r ha hf hc hb => exact ⟨hc, fun hg => hx.ids (hf ▸ hg)⟩
  | created name entryAddress =>
    refine ⟨hx.consistent, fun {i f} hf => ?_⟩
    by_cases hlt : i < x.2.functions.length
    · rw [Functions.add, List.getElem?_append_left hlt] at hf
      exact hx.ids hf
    · have hi := (List.getElem?_eq_some_iff.mp hf).1
      simp only [Functions.add, List.length_append, List.length_singleton] at hi
      obtain rfl : i = x.2.functions.length := by omega
      rw [Functions.add, List.getElem?_concat_length] at hf
      exact (congrArg Function.id (Option.some.inj hf)).symm
  | edited i e =>
    apply hx.modify
    intro f hf
    rcases e.attempt_cases f with ⟨-, he⟩ | ⟨-, he⟩
    · exact (CodeEdit.apply_fields he).1
    · rw [he]
  | moved a ha hg hm => exact hx.putBack hm

theorem perform_firm (hx : x.2.Firm) (a : Act) : (perform x a).2.Firm := by
  have hplaced := perform_placed hx.toPlaced a
  have houtcome := perform_outcome hx.toPlaced a
  generalize (perform x a).2 = r at houtcome hplaced
  cases houtcome with
  | still a r ha hf hc hb => exact ⟨hplaced, fun g hg => (hx.avoids g (hf ▸ hg)).congr hb⟩
  | created name entryAddress =>
    refine ⟨hplaced, fun f hf => ?_⟩
    rcases List.mem_append.mp hf with hf | hf
    · exact hx.avoids f hf
    · obtain rfl := List.mem_singleton.mp hf
      exact Hooks.avoids_empty _ _ _ _
  | edited i e =>
    apply hx.modify
    intro f hf
    have havoids := hx.avoids f (List.mem_of_getElem? hf)
    rcases e.attempt_cases f with ⟨-, he⟩ | ⟨-, he⟩
    · exact ⟨(CodeEdit.apply_fields he).1, havoids.edit he⟩
    · rw [he]
      exact ⟨rfl, havoids⟩
  | moved a ha hg hm => exact hx.putBack hg hm

theorem perform_cases (hx : x.2.Firm) (hf : x.2.functions[i]? = some f) (a : Act) :
    ∃ f', (perform x a).2.functions[i]? = some f' ∧
      ((a.edits i x = false ∧ f.Endures f') ∨
        (a.edits i x = true ∧ f'.revision = f.revision + 1)) := by
  have houtcome := perform_outcome hx.toPlaced a
  generalize (perform x a).2 = r at houtcome
  cases houtcome with
  | still a r ha hfs => exact ⟨f, hfs ▸ hf, .inl ⟨ha i, .refl f⟩⟩
  | created name entryAddress =>
    refine ⟨f, ?_, .inl ⟨rfl, .refl f⟩⟩
    rw [Functions.add, List.getElem?_append_left (List.getElem?_eq_some_iff.mp hf).1, hf]
  | edited j e =>
    by_cases hji : j = i
    · subst hji
      refine ⟨e.attempt f, by simp [hf], ?_⟩
      simp only [edits, hf, beq_self_eq_true, Bool.true_and, Option.any_some]
      rcases e.attempt_cases f with ⟨hs, he⟩ | ⟨hs, he⟩
      · exact .inr ⟨hs, (CodeEdit.apply_fields he).2.2⟩
      · exact .inl ⟨hs, by rw [he]; exact .refl f⟩
    · exact ⟨f, by simp [hji, hf], .inl ⟨by simp [edits, hji], .refl f⟩⟩
  | @moved _ ha g j b detector signatures wanted hg hm =>
    obtain ⟨-, hendures⟩ := Bench.Moves.firm hm (hx.bench hg)
    have hid : b.function.id = j := (Bench.Moves.function_id hm).trans (hx.ids hg)
    rw [Round.functions_putBack hid]
    by_cases hji : j = i
    · subst hji
      obtain rfl := Option.some.inj (hf.symm.trans hg)
      have hlt := (List.getElem?_eq_some_iff.mp hf).1
      exact ⟨b.function, List.getElem?_set_self hlt, .inl ⟨ha j, hendures⟩⟩
    · exact ⟨f, by rw [List.getElem?_set_ne hji, hf], .inl ⟨ha i, .refl f⟩⟩

/-- A sequence of acts raises the revision once for each edit that succeeds. -/
theorem performAll_spec (hx : x.2.Firm) (hf : x.2.functions[i]? = some f) (acts : List Act) :
    (performAll x acts).2.Firm ∧ ∃ f', (performAll x acts).2.functions[i]? = some f' ∧
      f'.revision = f.revision + editsOf i x acts ∧ (editsOf i x acts = 0 → f.Endures f') := by
  induction acts generalizing x f with
  | nil => exact ⟨hx, f, hf, rfl, fun _ => .refl f⟩
  | cons a acts ih =>
    obtain ⟨f₁, hf₁, hcases⟩ := perform_cases hx hf a
    obtain ⟨hfirm, f', hf', hrevision, hendures⟩ := ih (perform_firm hx a) hf₁
    refine ⟨hfirm, f', hf', ?_⟩
    rw [editsOf]
    rcases hcases with ⟨hno, hone⟩ | ⟨hyes, hone⟩
    · rw [hno, if_neg Bool.false_ne_true, Nat.zero_add]
      exact ⟨hrevision.trans (by rw [hone.revision_eq]), fun h => hone.trans (hendures h)⟩
    · rw [hyes, if_pos rfl]
      refine ⟨by omega, fun h => absurd h (by omega)⟩

end Act

/-- Engines with functions that acts have made, and hands: what the hands put in `fits`. -/
inductive Arises (fits : Hooks → Function → Statement → Prop) : Sources × Round → Prop
  | start (sources : Sources) (r : Round) (h : r.Fresh) : Arises fits (sources, r)
  | act {x : Sources × Round} (h : Arises fits x) (a : Act) : Arises fits (a.perform x)
  | insert {x : Sources × Round} (h : Arises fits x) (i : FunctionId) (f g : Function)
      (position : InsertPosition) (ss : List Statement) (hf : x.2.functions[i]? = some f)
      (hg : f.insertSynthetic position ss = .ok g) (hss : ∀ s ∈ ss, fits x.2.hooks f s) :
      Arises fits (x.1, { x.2 with functions := x.2.functions.modify i fun _ => g })
  | remove {x : Sources × Round} (h : Arises fits x) (i : FunctionId) (ids : List StatementId) :
      Arises fits (x.1, { x.2 with functions := x.2.functions.modify i (·.removeSynthetic ids) })
  | allocate {x : Sources × Round} (h : Arises fits x) (i : FunctionId) :
      Arises fits (x.1, { x.2 with functions := x.2.functions.modify i (·.allocate.2) })

namespace Arises

theorem performAll {fits : Hooks → Function → Statement → Prop} {x : Sources × Round}
    (h : Arises fits x) (acts : List Act) : Arises fits (Act.performAll x acts) := by
  induction acts generalizing x with
  | nil => exact h
  | cons a acts ih => exact ih (h.act a)

theorem placed {fits : Hooks → Function → Statement → Prop} {x : Sources × Round}
    (h : Arises fits x) : x.2.Placed := by
  induction h with
  | start sources r h => exact h.placed
  | act h a ih => exact Act.perform_placed ih a
  | insert h i f g position ss hf hg hss ih =>
    apply ih.modify
    intro f' hf'
    obtain rfl := Option.some.inj (hf.symm.trans hf')
    rw [(Function.insertSynthetic_fields hg).1]
  | remove h i ids ih => exact ih.modify i fun _ _ => rfl
  | allocate h i ih => exact ih.modify i fun _ _ => rfl

theorem firm {x : Sources × Round} (h : Arises Hooks.Clear x) : x.2.Firm := by
  induction h with
  | start sources r h => exact h.firm
  | act h a ih => exact Act.perform_firm ih a
  | insert h i f g position ss hf hg hss ih =>
    apply ih.modify
    intro f' hf'
    obtain rfl := Option.some.inj (hf.symm.trans hf')
    have havoids := ih.avoids f (List.mem_of_getElem? hf)
    refine ⟨?_, havoids.insertSynthetic hg hss⟩
    rw [(Function.insertSynthetic_fields hg).1]
  | remove h i ids ih =>
    exact ih.modify i fun f hf => ⟨rfl, (ih.avoids f (List.mem_of_getElem? hf)).removeSynthetic ids⟩
  | allocate h i ih =>
    refine ih.modify i fun f hf => ⟨rfl, ?_⟩
    have havoids := ih.avoids f (List.mem_of_getElem? hf)
    exact havoids.change rfl havoids.blocks_ne_nil (Nat.le_succ _) fun _ => .inl

end Arises

theorem Snapshot.mismatch?_of_revision_ne {s : Snapshot} {f : Function} (hid : s.function = f.id)
    (hrevision : s.revision ≠ f.revision) :
    s.mismatch? f = some (.staleSnapshot f.id s.revision f.revision) := by
  simp only [mismatch?, hid, hrevision, ne_eq, not_true_eq_false, not_false_eq_true, if_false,
    if_true]

namespace Round

variable {sources : Sources} {r : Round} {f g : Function} {i : FunctionId}

theorem instrument_stale (hr : r.Firm) (hf : r.functions[i]? = some f) (hid : g.id = f.id)
    (hrevision : g.revision ≠ f.revision) :
    r.instrument sources f (.take g) = .error ⟨r, .staleSnapshot i g.revision f.revision⟩ := by
  have hmismatch : (Snapshot.take g).mismatch? (r.bench f).function =
      some (.staleSnapshot f.id g.revision f.revision) :=
    Snapshot.mismatch?_of_revision_ne hid hrevision
  have hback : r.putBack (r.bench f) = r := putBack_bench ((hr.ids hf).symm ▸ hf)
  unfold instrument
  rw [Bench.instrument_of_mismatch hmismatch]
  dsimp only
  rw [hback, hr.ids hf]

theorem instrument_total (hr : r.Firm) (hf : r.functions[i]? = some f) (h : g.Endures f)
    (hc : r.conventions.poisoned = false) (hss : sources.signatures.poisoned = false) :
    ∃ r', r.instrument sources f (.take g) = .ok r' := by
  have hserves : (Snapshot.take g).mismatch? (r.bench f).function = none :=
    Snapshot.mismatch?_eq_none.mpr ⟨h.id_eq.symm, h.revision_eq.symm⟩
  have hhosts : ∀ a ∈ (Snapshot.take g).anchors f.id, f.Hosts a := by
    intro a ha
    rw [h.id_eq] at ha
    exact h.hosts (Snapshot.take_hosts ha)
  obtain ⟨b, hb⟩ := Bench.instrument_total (hr.bench hf) hserves hhosts hc hss
  exact ⟨r.putBack b, instrument_of_ok hb⟩

def obstacle? : Except Stopped Round → Option AnalysisError
  | .ok _ => none
  | .error stopped => some stopped.cause

end Round

/-! ## A call put in by hand -/

namespace Act

/-- The function with a call of `0x2000` put in by hand before its first statement. -/
def patched (f : Function) (id : StatementId) : Function :=
  let forged := Statement.synthetic id .call (.call (.direct 0x2000))
  (f.insertSynthetic (.before 0) [forged]).toOption.getD f

def bystander : Sources := ⟨none, .sound .empty⟩

/-- The sample with a call whose number was handed out for it. -/
def patchedWell : Sources × Round :=
  (bystander, { Round.sample with functions := [patched Function.sample.allocate.2 2] })

/-- The sample with a call whose number a hook will be given. -/
def patchedBadly : Sources × Round :=
  (bystander, { Round.sample with functions := [patched Function.sample 9] })

theorem patchedWell_arises : Arises Hooks.Clear patchedWell := by
  have hstart : Arises Hooks.Clear (bystander, Round.sample) := .start _ _ Round.sample_fresh
  have hallocate := hstart.allocate 0
  apply hallocate.insert 0 Function.sample.allocate.2 _ (.before 0)
    [.synthetic 2 .call (.call (.direct 0x2000))] rfl rfl
  intro s hs
  obtain rfl := List.mem_singleton.mp hs
  exact fun _ _ => ⟨by decide, fun k hk => absurd hk List.not_mem_nil⟩

theorem patchedBadly_arises : Arises (fun _ _ _ => True) patchedBadly := by
  have hstart : Arises (fun _ _ _ => True) (bystander, Round.sample) :=
    .start _ _ Round.sample_fresh
  exact hstart.insert 0 Function.sample _ (.before 0)
    [.synthetic 9 .call (.call (.direct 0x2000))] rfl rfl fun _ _ => trivial

/-- The function is instrumented and loses its hooks again, and an edit fails in between. -/
def thereAndBack (f : Function) : List Act :=
  [.instrument 0 (.take f), .edit 0 (.remove 99), .deinstrument 0]

/-! ## How long a snapshot serves -/

variable {x : Sources × Round} {f : Function} {i : FunctionId}

/-- Whatever is done after a snapshot was taken of a function: as long as no edit of the function
has succeeded, instrumenting it with the snapshot succeeds exactly if the registries can be read;
once one has, the snapshot is refused as stale, and functions and engine are left as they are. -/
theorem snapshot_serves_until_edited (hx : Arises Hooks.Clear x)
    (hf : x.2.functions[i]? = some f) (acts : List Act) :
    ∃ f', (performAll x acts).2.functions[i]? = some f' ∧
      f'.revision = f.revision + editsOf i x acts ∧
      (editsOf i x acts = 0 →
        ((∃ r, (performAll x acts).2.instrument (performAll x acts).1 f' (.take f) = .ok r) ↔
          (performAll x acts).2.conventions.poisoned = false ∧
            (performAll x acts).1.signatures.poisoned = false)) ∧
      (0 < editsOf i x acts →
        (performAll x acts).2.instrument (performAll x acts).1 f' (.take f) =
          .error ⟨(performAll x acts).2, .staleSnapshot i f.revision f'.revision⟩) := by
  obtain ⟨hfirm, f', hf', hrevision, hendures⟩ := performAll_spec hx.firm hf acts
  refine ⟨f', hf', hrevision, fun hnone => ⟨?_, ?_⟩, fun hsome => ?_⟩
  · rintro ⟨r, hok⟩
    obtain ⟨b, hb, -⟩ := Round.instrument_eq_ok hok
    exact (Bench.readable_of_instrument_eq_ok hb).2
  · rintro ⟨hc, hss⟩
    exact Round.instrument_total hfirm hf' (hendures hnone) hc hss
  · have hid : f.id = f'.id := (hx.firm.ids hf).trans (hfirm.ids hf').symm
    apply Round.instrument_stale hfirm hf' hid
    omega

/-- With the number that was handed out the call stays, and the snapshot serves; after an edit it no
longer does. -/
theorem patched_snapshot_serves : ∃ f x f' r y f'' stopped,
    f.statements.any (fun s => s.isSynthetic && s.isCall) ∧
    x = performAll patchedWell (thereAndBack f) ∧ x.2.functions[0]? = some f' ∧
    x.2.instrument bystander f' (.take f) = .ok r ∧
    y = performAll patchedWell (thereAndBack f ++ [.edit 0 (.push 0 none .nop)]) ∧
    y.2.functions[0]? = some f'' ∧
    y.2.instrument bystander f'' (.take f) = .error stopped ∧ stopped.round = y.2 ∧
    stopped.cause = .staleSnapshot 0 0 1 := by
  have hf : patchedWell.2.functions[0]? = some (patched Function.sample.allocate.2 2) := rfl
  obtain ⟨f', hf', -, hserves, -⟩ := snapshot_serves_until_edited patchedWell_arises hf
    (thereAndBack (patched Function.sample.allocate.2 2))
  obtain ⟨f'', hf'', hrevision, -, hstale⟩ := snapshot_serves_until_edited patchedWell_arises hf
    (thereAndBack (patched Function.sample.allocate.2 2) ++ [.edit 0 (.push 0 none .nop)])
  have hnone : editsOf 0 patchedWell (thereAndBack (patched Function.sample.allocate.2 2)) = 0 := by
    decide +kernel
  have hone : editsOf 0 patchedWell (thereAndBack (patched Function.sample.allocate.2 2) ++
      [.edit 0 (.push 0 none .nop)]) = 1 := by
    decide +kernel
  obtain ⟨r, hr⟩ := (hserves hnone).mpr ⟨by decide +kernel, by decide +kernel⟩
  rw [hone] at hrevision hstale
  refine ⟨_, _, f', r, _, f'', _, by decide, rfl, hf', hr, rfl, hf'', hstale Nat.one_pos, rfl, ?_⟩
  rw [hrevision]
  rfl

/-- With a number that was not, the call goes with the hook that gets it, and with a registry that
cannot be read nothing is instrumented at all. -/
theorem unedited_snapshot_fails :
    (∃ f x f', Arises (fun _ _ _ => True) patchedBadly ∧
      patchedBadly.2.functions[0]? = some f ∧ x = performAll patchedBadly (thereAndBack f) ∧
      editsOf 0 patchedBadly (thereAndBack f) = 0 ∧ x.2.functions[0]? = some f' ∧
      Round.obstacle? (x.2.instrument x.1 f' (.take f)) = some (.ir (.statementNotFound 0 9))) ∧
    ∃ x f, Arises Hooks.Clear x ∧ x.2.functions[0]? = some f ∧
      Round.obstacle? (x.2.instrument x.1 f (.take f)) = some (.poisoned .conventions) := by
  constructor
  · have hany : ((performAll patchedBadly (thereAndBack (patched Function.sample 9))).2.functions[
        0]?).any fun f' => Round.obstacle? ((performAll patchedBadly (thereAndBack
          (patched Function.sample 9))).2.instrument bystander f'
            (.take (patched Function.sample 9))) = some (.ir (.statementNotFound 0 9)) := by
      decide +kernel
    obtain ⟨f', hf', hfails⟩ := (Option.any_eq_true _ _).mp hany
    exact ⟨patched Function.sample 9, _, f', patchedBadly_arises, rfl, rfl, by decide +kernel, hf',
      of_decide_eq_true hfails⟩
  · let locked : Round := { Round.sample with conventions := Round.sample.conventions.poison }
    have hfresh : locked.Fresh :=
      ⟨rfl, Round.sample_fresh.ids, Round.sample_fresh.numbered, Round.sample_fresh.lifted⟩
    exact ⟨(bystander, locked), Function.sample, .start _ _ hfresh, rfl, rfl⟩

end Act

end CallEffects
