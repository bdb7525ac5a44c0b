import CallEffects.Proofs.Repetition
import CallEffects.Proofs.Validity

/-!
# Snapshots that list nothing twice

A snapshot lists calls and returns by the ids of their statements, so it lists none twice if the
statements of its function are numbered apart. New functions are; lifted edits give out numbers that
were never used; and hooks bring in statements with numbers of their own, once at a time. The last
of these needs that a new function is not mistaken for one that hooks were built for before, so
besides the order of the round it is carried along that all hooks ever built belong to functions
that are there.
-/

namespace CallEffects

namespace Snapshot

variable {s : Snapshot} {g : Function}

def listed (s : Snapshot) : List StatementId := s.calls.map (·.statement) ++ s.returns

theorem take_calls_call {site : CallSite} (hsite : site ∈ (take g).calls) :
    ∃ t ∈ g.statements, t.id = site.statement ∧ ∃ target, t.kind = .call target := by
  obtain ⟨x, hx, hsite⟩ := List.mem_filterMap.mp hsite
  obtain ⟨target, hk, hid, -⟩ := callSite?_some hsite
  exact ⟨x.1, Function.mem_of_mem_reachableStates hx, hid.symm, target, hk⟩

/-- With statements numbered apart, what is called is not returned from. -/
theorem take_listed_nodup (hg : g.Numbered) : (take g).listed.Nodup := by
  have hdistinct := take_distinct hg
  refine List.nodup_append.mpr ⟨hdistinct.calls, hdistinct.returns, ?_⟩
  rintro id hcall ret hret rfl
  obtain ⟨site, hsite, rfl⟩ := List.mem_map.mp hcall
  obtain ⟨t, ht, hid, target, hk⟩ := take_calls_call hsite
  obtain ⟨u, hu, -, hid', pop, hk'⟩ := take_returns_lifted hret
  obtain rfl := hg.eq_of_id_eq ht hu (hid.trans hid'.symm)
  rw [hk] at hk'
  cases hk'

theorem distinct_of_listed (h : s.listed.Nodup) : s.Distinct := by
  obtain ⟨hcalls, hreturns, -⟩ := List.nodup_append.mp h
  exact ⟨hcalls, hreturns⟩

theorem not_mem_returns (h : s.listed.Nodup) {site : CallSite} (hsite : site ∈ s.calls) :
    site.statement ∉ s.returns := by
  obtain ⟨-, -, hdisjoint⟩ := List.nodup_append.mp h
  exact fun hret => hdisjoint _ (List.mem_map_of_mem hsite) _ hret rfl

end Snapshot

namespace Function

@[simp] theorem statements_empty (id : FunctionId) (name : String) (entryAddress : Option Address) :
    (empty id name entryAddress).statements = [] := rfl

theorem numbered_empty (id : FunctionId) (name : String) (entryAddress : Option Address) :
    (empty id name entryAddress).Numbered :=
  ⟨by simp, by simp, List.cons_ne_nil _ _⟩

end Function

theorem Hooks.Consistent.accounts {h : Hooks} (hc : h.Consistent) {f : Function} (hf : f.Numbered)
    (hs : ∀ s ∈ f.statements, s.isSynthetic = false)
    (hb : ∀ k ∈ h.built, k.anchor.function ≠ f.id) : h.Accounts f := by
  have hbuilt : h.built = empty.built ++ h.built := rfl
  refine (accounts_empty hf hs).frame hbuilt hb fun a ha => ?_
  cases hk : h.active[a]? with
  | none => simp [empty]
  | some k =>
    obtain ⟨hmem, rfl⟩ := hc.active_built hk
    exact absurd ha (hb k hmem)

theorem Functions.length_add (fs : Functions) (name : String) (entryAddress : Option Address) :
    (fs.add name entryAddress).2.length = fs.length + 1 :=
  List.length_append

namespace Round

variable {r : Round} {f : Function} {i : FunctionId}

/-- In order, with all hooks that were ever built belonging to functions of the round. -/
structure Housed (r : Round) : Prop extends InOrder r where
  built_present : ∀ k ∈ r.hooks.built, k.anchor.function < r.functions.length

theorem Fresh.housed (h : r.Fresh) : r.Housed := by
  refine ⟨h.inOrder, fun k hk => ?_⟩
  rw [h.hooks] at hk
  cases hk

theorem InOrder.placed (h : r.InOrder) : r.Placed := ⟨h.consistent, h.ids⟩

theorem InOrder.attempt (h : r.InOrder) {e : CodeEdit}
    (hl : ∀ f ∈ r.functions[i]?, e.Lifted f) :
    { r with functions := r.functions.modify i e.attempt }.InOrder := by
  cases hf : r.functions[i]? with
  | none =>
    rw [List.modify_eq_self (List.getElem?_eq_none_iff.mp hf)]
    exact h
  | some f =>
    have hset : r.functions.modify i e.attempt = r.functions.set i (e.attempt f) := by
      rw [List.modify_eq_set_getElem?, hf]
      rfl
    rw [hset]
    rcases e.attempt_cases f with ⟨-, he⟩ | ⟨-, he⟩
    · have hid : f.id = i := h.ids hf
      rw [← hid]
      exact h.edit (List.mem_of_getElem? hf) (hl f hf) he
    · obtain ⟨hlt, hget⟩ := List.getElem?_eq_some_iff.mp hf
      rw [he, ← hget, List.set_getElem_self]
      exact h

end Round

namespace Act

variable {x : Sources × Round} {acts : List Act}

/-- What the act edits, if it is an edit, is lifted code. -/
def Lifted (x : Sources × Round) : Act → Prop
  | .edit i e => ∀ f ∈ x.2.functions[i]?, e.Lifted f
  | _ => True

def AllLifted (x : Sources × Round) : List Act → Prop
  | [] => True
  | act :: acts => act.Lifted x ∧ AllLifted (perform x act) acts

theorem AllLifted.of_append {acts' : List Act} (h : AllLifted x (acts ++ acts')) :
    AllLifted x acts := by
  induction acts generalizing x with
  | nil => trivial
  | cons act acts ih => exact ⟨h.1, ih h.2⟩

/-- Something holds after a change of one function if it held before and the change, of whichever
function, brings it about. -/
theorem onFunction_rule {P : Round → Prop} {r : Round} {i : FunctionId} {change : Function → Round}
    (h : P r) (hchange : ∀ f ∈ r.functions, P (change f)) : P (onFunction r i change) := by
  rcases onFunction_cases r i change with heq | ⟨f, hf, heq⟩
  · rw [heq]
    exact h
  · rw [heq]
    exact hchange f (List.mem_of_getElem? hf)

theorem perform_inOrder (hx : x.2.Housed) {act : Act} (hact : act.Lifted x) :
    (perform x act).2.InOrder := by
  have hin := hx.toInOrder
  cases act with
  | create name entryAddress =>
    have hplaced := perform_placed hin.placed (.create name entryAddress)
    refine ⟨hin.consistent, hplaced.ids, fun f hf => ?_, hin.touched, fun hk => ?_⟩
    · rcases List.mem_append.mp hf with hf | hf
      · exact hin.accounts f hf
      · obtain rfl := List.mem_singleton.mp hf
        exact hin.consistent.accounts (Function.numbered_empty _ _ _) (by simp)
          fun k hk => Nat.ne_of_lt (hx.built_present k hk)
    · rw [perform, Functions.length_add]
      exact Nat.lt_succ_of_lt (hin.present hk)
  | edit i e => exact hin.attempt hact
  | exchange => exact hin.congr rfl rfl rfl rfl rfl
  | instrument i s => exact onFunction_rule hin fun f hf => hin.instrument hf s
  | deinstrument i => exact onFunction_rule hin fun f hf => hin.deinstrument hf
  | observe i s =>
    refine onFunction_rule hin fun f hf => ?_
    rw [Hooks.observe_fields]
    exact hin.congr rfl rfl rfl rfl rfl

theorem perform_housed (hx : x.2.Housed) {act : Act} (hact : act.Lifted x) :
    (perform x act).2.Housed := by
  refine ⟨perform_inOrder hx hact, ?_⟩
  have hpresent := hx.built_present
  have houtcome := perform_outcome hx.placed act
  generalize (perform x act).2 = r at houtcome
  cases houtcome with
  | still a r ha hf hc hb => rwa [hf, hb]
  | created name entryAddress =>
    intro k hk
    rw [Functions.length_add]
    exact Nat.lt_succ_of_lt (hpresent k hk)
  | edited i e => simpa using hpresent
  | @moved _ _ g j b _ _ _ hg hm =>
    obtain ⟨new, hnew, hown⟩ := (Bench.Moves.frame hm).built
    have hid : b.function.id = j := (Bench.Moves.function_id hm).trans (hx.ids hg)
    intro k hk
    rw [Round.functions_putBack hid, List.length_set]
    rcases List.mem_append.mp (hnew ▸ hk) with hk | hk
    · exact hpresent k hk
    · have hmine : k.anchor.function = j := (hown k hk).trans (hx.ids hg)
      rw [hmine]
      exact (List.getElem?_eq_some_iff.mp hg).1

theorem performAll_housed (hx : x.2.Housed) (hacts : AllLifted x acts) :
    (performAll x acts).2.Housed := by
  induction acts generalizing x with
  | nil => exact hx
  | cons act acts ih => exact ih (perform_housed hx hacts.1) hacts.2

theorem taken_listed_nodup (hx : x.2.Fresh) (hacts : AllLifted x acts) {f : Function}
    (hf : f ∈ (performAll x acts).2.functions) : (Snapshot.take f).listed.Nodup :=
  Snapshot.take_listed_nodup ((performAll_housed hx.housed hacts).accounts f hf).numbered

end Act

end CallEffects
