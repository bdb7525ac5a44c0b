import CallEffects.Proofs.Answers

/-!
# Benches that mirror each other

What has been done to other functions changes the hooks of those, the numbers of hooks still to be
built and what the registry has been asked, and nothing else that counts when a function is
instrumented. `Bench.Mirrors` relates two benches with the same function that have nothing else in
common. Whatever one does to both, they go on mirroring each other, and their registries are asked
the same questions in the same order. The order does not matter.
-/

namespace CallEffects

open Std

/-! ## Questions -/

namespace Conventions

variable {cs cs' : Conventions} {detector : Option Detector} {callee callee' : Callee}
variable {c : Convention} {guess : Bool}

/-- The registry after a question about the callee, which is put to the detector if need be. -/
def ask (detector : Option Detector) (cs : Conventions) (callee : Callee) : Conventions :=
  match cs.lookup? callee, detector with
  | none, some d => d.detect [] callee cs
  | _, _ => cs

theorem ask_of_decided (h : Decided detector cs callee) : cs.ask detector callee = cs := by
  unfold ask
  split
  · next d hnone =>
    refine (h.resolve_left ?_) d rfl [] cs
    rw [hnone]
    exact Bool.false_ne_true
  · rfl

theorem ask_of_unknown {d : Detector} (h : cs.lookup? callee = none) :
    cs.ask (some d) callee = d.detect [] callee cs := by
  simp only [ask, h]

theorem Asked.ask (h : Asked detector cs cs') (hd : ∀ d ∈ detector, d.IsBuiltin)
    (callee : Callee) : Asked detector cs (cs'.ask detector callee) := by
  unfold Conventions.ask
  split
  · next d hnone => exact h.detect rfl (hd d rfl) hnone []
  · exact h

theorem Asked.foldl_ask (h : Asked detector cs cs') (hd : ∀ d ∈ detector, d.IsBuiltin)
    (callees : List Callee) : Asked detector cs (callees.foldl (Conventions.ask detector) cs') := by
  induction callees generalizing cs' with
  | nil => exact h
  | cons callee callees ih => exact ih (h.ask hd callee)

theorem AllRegistered.ask (h : cs.AllRegistered) (hd : ∀ d ∈ detector, d.IsBuiltin)
    (callee : Callee) : Answered detector cs (cs.ask detector callee) :=
  ((Asked.refl h).ask hd callee).answered

theorem not_decided_fixed (h : ¬Decided (some (.fixed c guess)) cs callee) :
    cs.lookup? callee = none ∧ ¬(callee.isIndirect && !guess) := by
  obtain ⟨hnone, hanswers⟩ := not_or.mp h
  exact ⟨Option.not_isSome_iff_eq_none.mp hnone, fun hg => hanswers (Detector.refuses_fixed hg)⟩

theorem detect_fixed_eq (h : cs.AllRegistered) (hn : cs.lookup? callee = none)
    (hg : ¬(callee.isIndirect && !guess)) (asked : List Callee) :
    (Detector.fixed c guess).detect asked callee cs =
      { registered := (cs.register c).2.registered
        assignments := cs.assignments.insert callee (cs.register c).1
        revision := cs.revision + 1 } := by
  have hnone : (cs.register c).2.assigned? callee = none :=
    (cs.assigned?_register c callee).trans (h.lookup?_eq_none.mp hn)
  have hsame : (cs.register c).2.assignments = cs.assignments ∧
      (cs.register c).2.revision = cs.revision := by
    unfold register
    split <;> exact ⟨rfl, rfl⟩
  simp only [Detector.detect_fixed_of hg, assign, hnone, hsame.1, hsame.2]
  rfl

/-- Two callees are assigned the convention, which is registered once. -/
theorem ask_ask_fixed (h : cs.AllRegistered) (hne : callee ≠ callee')
    (hn : cs.lookup? callee = none) (hn' : cs.lookup? callee' = none)
    (hg : ¬(callee.isIndirect && !guess)) (hg' : ¬(callee'.isIndirect && !guess)) :
    (cs.ask (some (.fixed c guess)) callee).ask (some (.fixed c guess)) callee' =
      { registered := (cs.register c).2.registered
        assignments :=
          (cs.assignments.insert callee (cs.register c).1).insert callee' (cs.register c).1
        revision := cs.revision + 1 + 1 } := by
  have hbuiltin : ∀ d ∈ some (Detector.fixed c guess), d.IsBuiltin := by
    rintro d ⟨⟩
    exact .fixed c guess
  have hfirst : cs.ask (some (.fixed c guess)) callee = _ := ask_of_unknown hn
  have hregistry : (cs.ask (some (.fixed c guess)) callee).AllRegistered :=
    (h.ask hbuiltin callee).registered
  obtain ⟨hid, hregistered⟩ :
      (((Detector.fixed c guess).detect [] callee cs).register c).1 = (cs.register c).1 ∧
        (((Detector.fixed c guess).detect [] callee cs).register c).2.registered =
          (cs.register c).2.registered := register_detect_fixed c guess [] callee cs
  have hsecond : (cs.ask (some (.fixed c guess)) callee).lookup? callee' = none := by
    rw [hfirst, Detector.detect_fixed_of hg]
    exact (h.lookup?_enlisted c hne).trans hn'
  rw [ask_of_unknown hsecond, detect_fixed_eq hregistry hsecond hg', hfirst, hid, hregistered,
    detect_fixed_eq h hn hg]

theorem ask_comm (h : cs.AllRegistered) (hd : ∀ d ∈ detector, d.IsBuiltin)
    (callee callee' : Callee) :
    (cs.ask detector callee).ask detector callee' =
      (cs.ask detector callee').ask detector callee := by
  by_cases hx : Decided detector cs callee
  · rw [ask_of_decided hx, ask_of_decided (hx.answered (h.ask hd callee'))]
  by_cases hy : Decided detector cs callee'
  · rw [ask_of_decided hy, ask_of_decided (hy.answered (h.ask hd callee))]
  by_cases hne : callee = callee'
  · rw [hne]
  cases detector with
  | none => exact absurd (.inr fun d hd => by cases hd) hx
  | some d =>
    cases hd d rfl with
    | silent => exact absurd (.inr (Detector.refuses_silent callee)) hx
    | fixed c guess =>
      obtain ⟨hnone, hg⟩ := not_decided_fixed hx
      obtain ⟨hnone', hg'⟩ := not_decided_fixed hy
      -- Whoever comes first, the convention gets the same id.
      rw [ask_ask_fixed h hne hnone hnone' hg hg',
        ask_ask_fixed h (Ne.symm hne) hnone' hnone hg' hg, Table.insert_comm hne]

theorem foldl_ask_perm (h : cs.AllRegistered) (hd : ∀ d ∈ detector, d.IsBuiltin)
    {callees callees' : List Callee} (hp : callees.Perm callees') :
    callees.foldl (ask detector) cs = callees'.foldl (ask detector) cs := by
  induction hp generalizing cs with
  | nil => rfl
  | cons callee hp ih => exact ih (h.ask hd callee).registered
  | swap callee callee' callees =>
    rw [List.foldl_cons, List.foldl_cons, List.foldl_cons, List.foldl_cons, ask_comm h hd]
  | trans hp hp' ih ih' => exact (ih h).trans (ih' h)

theorem foldl_ask_comm (h : cs.AllRegistered) (hd : ∀ d ∈ detector, d.IsBuiltin)
    (callees callees' : List Callee) :
    callees'.foldl (ask detector) (callees.foldl (ask detector) cs) =
      callees.foldl (ask detector) (callees'.foldl (ask detector) cs) := by
  rw [← List.foldl_append, ← List.foldl_append]
  exact foldl_ask_perm h hd List.perm_append_comm

end Conventions

/-! ## Contents of hooks -/

def Hook.content (h : Hook) : HookKey × HookEffects × List Statement :=
  (h.key, h.effects, h.statements)

theorem Hook.key_eq {k k' : Hook} (h : k'.content = k.content) : k'.key = k.key :=
  congrArg (·.1) h

theorem Hook.statements_eq {k k' : Hook} (h : k'.content = k.content) :
    k'.statements = k.statements := congrArg (·.2.2) h

namespace Hooks

variable {h : Hooks} {k : Hook} {key : HookKey}

def shown? (h : Hooks) (a : Anchor) : Option (HookKey × HookEffects × List Statement) :=
  (h.active[a]?).map Hook.content

def said? (h : Hooks) (key : HookKey) : Option (HookKey × HookEffects × List Statement) :=
  (h.cached? key).map Hook.content

theorem Consistent.any_id_eq (hc : h.Consistent) (hk : k ∈ h.built) :
    ((h.active[k.anchor]?).any fun active => active.id == k.id) =
      decide (h.shown? k.anchor = some k.content) := by
  unfold shown?
  cases hactive : h.active[k.anchor]? with
  | none => rfl
  | some k' =>
    have hk' := (hc.active_built hactive).1
    simp only [Option.any_some, Option.map_some, Option.some.injEq]
    rw [Bool.eq_iff_iff, beq_iff_eq, decide_eq_true_iff]
    constructor
    · intro hid
      rw [hc.id_inj hk' hk hid]
    · intro hcontent
      rw [hc.key_inj hk' hk (Hook.key_eq hcontent)]

theorem cached?_append (h : Hooks) (k : Hook) (key : HookKey) :
    ({ h with built := h.built ++ [k] } : Hooks).cached? key =
      (h.cached? key).or (if k.key == key then some k else none) := by
  simp only [cached?, List.find?_append, List.find?_singleton]

/-- To observe the returns of the snapshot once more would tell nothing new. -/
def Knows (h : Hooks) (f : Function) (s : Snapshot) : Prop :=
  ∀ pop ∈ popOf? f s, h.observed[Callee.ofFunction f]? = some pop

/-- The hooks of the function are the same but for their ids. -/
structure Agrees (f : FunctionId) (h h' : Hooks) : Prop where
  active : ∀ a : Anchor, a.function = f → h'.shown? a = h.shown? a
  built : ∀ key : HookKey, key.anchor.function = f → h'.said? key = h.said? key

namespace Agrees

variable {f : FunctionId} {h' h'' : Hooks}

theorem refl (f : FunctionId) (h : Hooks) : Agrees f h h := ⟨fun _ _ => rfl, fun _ _ => rfl⟩

theorem symm (hs : Agrees f h h') : Agrees f h' h :=
  ⟨fun a ha => (hs.active a ha).symm, fun key hkey => (hs.built key hkey).symm⟩

theorem trans (hs : Agrees f h h') (hs' : Agrees f h' h'') : Agrees f h h'' :=
  ⟨fun a ha => (hs'.active a ha).trans (hs.active a ha),
    fun key hkey => (hs'.built key hkey).trans (hs.built key hkey)⟩

end Agrees

end Hooks

/-! ## Mirrored benches -/

/-- Where two benches set out: with the same function, having observed the same, each with its
registry. -/
structure Outset where
  sources : Sources
  function : FunctionId
  observed : ExtTreeMap Callee Nat
  first : Conventions
  second : Conventions

/-- The second registry is the first one after some questions, to which there is one answer. -/
structure Outset.Fair (o : Outset) : Prop where
  builtin : ∀ d ∈ o.sources.detector, d.IsBuiltin
  registered : o.first.AllRegistered
  asked : Conventions.Asked o.sources.detector o.first o.second

namespace Bench

variable {o : Outset} {b b' : Bench} {a : Anchor} {k k' : Hook} {s : Snapshot}
variable {sources : Sources} {signatures : Signatures}

/-- The benches differ in what other functions have come to and in the ids of hooks only, and their
registries have been asked the same questions. -/
structure Mirrors (o : Outset) (b b' : Bench) : Prop where
  id_eq : b.function.id = o.function
  function : b'.function = b.function
  observed : b.hooks.observed = o.observed
  observed' : b'.hooks.observed = o.observed
  hooks : b.hooks.Agrees o.function b'.hooks
  poisoned : b'.conventions.poisoned = b.conventions.poisoned
  asked : ∃ callees : List Callee,
    b.conventions.value = callees.foldl (Conventions.ask o.sources.detector) o.first ∧
      b'.conventions.value = callees.foldl (Conventions.ask o.sources.detector) o.second
  consistent : b.hooks.Consistent
  consistent' : b'.hooks.Consistent

theorem resolve_eq_ask (b : Bench) {detector : Option Detector}
    (hd : ∀ d ∈ detector, d.IsBuiltin) (callee : Callee) :
    ∃ asked, (b.resolve detector callee).2 =
      { b with
        conventions := { b.conventions with value := b.conventions.value.ask detector callee }
        asked := asked } := by
  unfold resolve Conventions.ask
  cases b.conventions.value.lookup? callee with
  | some known => exact ⟨b.asked, rfl⟩
  | none =>
    cases detector with
    | none => exact ⟨b.asked, rfl⟩
    | some d =>
      dsimp only
      rw [(hd d rfl).detect_eq]
      exact ⟨_, rfl⟩

theorem start_of_knows (h : b.hooks.Knows b.function s) :
    b.start s = { b with hooks := b.hooks.touch b.function.id } := by
  have hsame : (b.hooks.touch b.function.id).observe b.function s = b.hooks.touch b.function.id :=
    Hooks.observe_eq_self h
  rw [start, hsame]

theorem instrument_of_poisoned (hs : s.mismatch? b.function = none)
    (hc : b.conventions.poisoned = true) :
    b.instrument sources s = .error ⟨b.start s, .poisoned .conventions⟩ := by
  simp only [instrument, hs]
  exact if_pos hc

theorem instrument_of_poisoned_signatures (hs : s.mismatch? b.function = none)
    (hc : b.conventions.poisoned = false) (hss : sources.signatures.poisoned = true) :
    b.instrument sources s =
      .error ⟨b.informed sources.detector s, .poisoned .signatures⟩ := by
  simp only [instrument, hs]
  change (if (b.start s).conventions.poisoned then _ else _) = _
  rw [if_neg (by rw [start_eq]; simp [hc])]
  exact if_pos hss

namespace Mirrors

theorem registry (h : Mirrors o b b') (ho : o.Fair) :
    Conventions.Asked o.sources.detector o.first b.conventions.value ∧
      Conventions.Asked o.sources.detector o.first b'.conventions.value := by
  have hfirst : Conventions.Asked o.sources.detector o.first o.first := .refl ho.registered
  obtain ⟨callees, hb, hb'⟩ := h.asked
  rw [hb, hb']
  exact ⟨hfirst.foldl_ask ho.builtin callees, ho.asked.foldl_ask ho.builtin callees⟩

theorem active_none_iff (h : Mirrors o b b') (ha : a.function = o.function) :
    b'.hooks.active[a]? = none ↔ b.hooks.active[a]? = none := by
  have hsame := h.hooks.active a ha
  unfold Hooks.shown? at hsame
  rw [← Option.map_eq_none_iff, hsame, Option.map_eq_none_iff]

theorem exists_active (h : Mirrors o b b') (ha : a.function = o.function)
    (hk : b.hooks.active[a]? = some k) :
    ∃ k', b'.hooks.active[a]? = some k' ∧ k'.content = k.content := by
  have hsame := h.hooks.active a ha
  unfold Hooks.shown? at hsame
  rw [hk, Option.map_some] at hsame
  exact Option.map_eq_some_iff.mp hsame

theorem resolve (h : Mirrors o b b') (ho : o.Fair) (callee : Callee) :
    (b'.resolve o.sources.detector callee).1 = (b.resolve o.sources.detector callee).1 ∧
      Mirrors o (b.resolve o.sources.detector callee).2
        (b'.resolve o.sources.detector callee).2 := by
  obtain ⟨hasked, hasked'⟩ := h.registry ho
  have hanswer : ∀ c : Bench, Conventions.Asked o.sources.detector o.first c.conventions.value →
      (c.resolve o.sources.detector callee).1 =
        Conventions.answer? o.sources.detector o.first callee := by
    intro c hc
    obtain ⟨-, hdecided⟩ := resolve_answered ho.builtin hc.answered.registered callee
    rw [resolve_fst]
    exact (resolve_asked callee ho.builtin hc).lookup?_eq hdecided
  refine ⟨(hanswer b' hasked').trans (hanswer b hasked).symm, ?_⟩
  obtain ⟨callees, hb, hb'⟩ := h.asked
  obtain ⟨asked, heq⟩ := b.resolve_eq_ask ho.builtin callee
  obtain ⟨asked', heq'⟩ := b'.resolve_eq_ask ho.builtin callee
  rw [heq, heq']
  refine ⟨h.id_eq, h.function, h.observed, h.observed', h.hooks, h.poisoned,
    ⟨callees ++ [callee], ?_, ?_⟩, h.consistent, h.consistent'⟩
  · rw [List.foldl_append, ← hb]
    rfl
  · rw [List.foldl_append, ← hb']
    rfl

theorem countUnresolved (h : Mirrors o b b') : Mirrors o b.countUnresolved b'.countUnresolved :=
  ⟨h.id_eq, h.function, h.observed, h.observed', h.hooks, h.poisoned, h.asked,
    h.consistent, h.consistent'⟩

theorem detach (h : Mirrors o b b') (ha : a.function = o.function) :
    Mirrors o (b.detach a) (b'.detach a) := by
  cases hk : b.hooks.active[a]? with
  | none => rwa [detach_of_none hk, detach_of_none ((h.active_none_iff ha).mpr hk)]
  | some k =>
    obtain ⟨k', hk', hcontent⟩ := h.exists_active ha hk
    have hids : k'.statementIds = k.statementIds :=
      congrArg (List.map Statement.id) (Hook.statements_eq hcontent)
    rw [detach_of_some hk, detach_of_some hk', h.function, hids]
    refine ⟨h.id_eq, rfl, h.observed, h.observed', ⟨fun a' ha' => ?_, h.hooks.built⟩, h.poisoned,
      h.asked, h.consistent.erase a, h.consistent'.erase a⟩
    have hsame := h.hooks.active a' ha'
    simp only [Hooks.shown?, ExtTreeMap.getElem?_erase] at hsame ⊢
    split
    · rfl
    · exact hsame

theorem foldl_detach (h : Mirrors o b b') (as : List Anchor)
    (ha : ∀ a ∈ as, a.function = o.function) :
    Mirrors o (as.foldl Bench.detach b) (as.foldl Bench.detach b') := by
  induction as generalizing b b' with
  | nil => exact h
  | cons a as ih =>
    exact ih (h.detach (ha a List.mem_cons_self)) fun a' ha' => ha a' (List.mem_cons_of_mem _ ha')

theorem forget (h : Mirrors o b b') (gone : Anchor → Bool) :
    Mirrors o (b.forget gone) (b'.forget gone) :=
  ⟨h.id_eq, h.function, h.observed, h.observed', ⟨h.hooks.active, h.hooks.built⟩, h.poisoned,
    h.asked, h.consistent.forget gone, h.consistent'.forget gone⟩

theorem dropUnseen (h : Mirrors o b b') (kind : HookKind) (seen : List Anchor) :
    Mirrors o (b.dropUnseen kind seen) (b'.dropUnseen kind seen) := by
  have hdrop : ∀ c : Bench, c.function = b.function → c.dropUnseen kind seen =
      ((c.hooks.active.keys.filter fun a =>
        a.kind == kind && a.function == b.function.id && !seen.contains a).foldl Bench.detach
          c).forget fun a => a.kind == kind && a.function == b.function.id && !seen.contains a := by
    intro c hc
    rw [← hc]
    rfl
  rw [hdrop b rfl, hdrop b' h.function]
  generalize hunseen : (fun a : Anchor =>
    a.kind == kind && a.function == b.function.id && !seen.contains a) = unseen
  have hown : ∀ a, unseen a → a.function = o.function := by
    intro a ha
    simp only [← hunseen, Bool.and_eq_true, beq_iff_eq] at ha
    exact ha.1.2.trans h.id_eq
  have hkeys : b'.hooks.active.keys.filter unseen = b.hooks.active.keys.filter unseen := by
    apply Table.filter_keys_congr
    intro a ha
    have hsame := congrArg Option.isSome (h.hooks.active a (hown a ha))
    simpa only [Hooks.shown?, Option.isSome_map] using hsame
  rw [hkeys]
  exact (h.foldl_detach _ fun a ha => hown a (List.mem_filter.mp ha).2).forget unseen

theorem obtain (h : Mirrors o b b') {p : Plan} (ha : p.key.anchor.function = o.function)
    (hp : ∀ kind ∈ p.effects.kinds, kind.fits p.key.anchor.kind) :
    (b'.obtain p).1.content = (b.obtain p).1.content ∧
      Mirrors o (b.obtain p).2 (b'.obtain p).2 := by
  have hsame := h.hooks.built p.key ha
  unfold Hooks.said? at hsame
  cases hcached : b.hooks.cached? p.key with
  | some k =>
    rw [hcached, Option.map_some] at hsame
    obtain ⟨k', hcached', hcontent⟩ := Option.map_eq_some_iff.mp hsame
    rw [obtain_of_cached hcached, obtain_of_cached hcached']
    exact ⟨hcontent, h⟩
  | none =>
    rw [hcached, Option.map_none, Option.map_eq_none_iff] at hsame
    have hcontent : (b'.built p).content = (b.built p).content := by
      simp only [built, Hook.build, Hook.content, h.function]
    rw [obtain_of_none hcached, obtain_of_none hsame, h.function]
    refine ⟨hcontent, h.id_eq, rfl, h.observed, h.observed', ⟨h.hooks.active, fun key hkey => ?_⟩,
      h.poisoned, h.asked, built_consistent h.consistent hcached hp,
      built_consistent h.consistent' hsame hp⟩
    have hkey := h.hooks.built key hkey
    simp only [Hooks.said?, Hooks.cached?_append, Option.map_or] at hkey ⊢
    have hbuilt : (b'.built p).key = (b.built p).key := Hook.key_eq hcontent
    rw [hkey, hbuilt]
    congr 1
    split
    · exact congrArg some hcontent
    · rfl

theorem remember (h : Mirrors o b b') (hk : k ∈ b.hooks.built) (hk' : k' ∈ b'.hooks.built) :
    Mirrors o (b.remember k) (b'.remember k') :=
  ⟨h.id_eq, h.function, h.observed, h.observed', ⟨h.hooks.active, h.hooks.built⟩, h.poisoned,
    h.asked, h.consistent.remember hk, h.consistent'.remember hk'⟩

theorem place (h : Mirrors o b b') (hk : k ∈ b.hooks.built) (hk' : k' ∈ b'.hooks.built)
    (hcontent : k'.content = k.content) {f : Function} (hid : f.id = o.function) :
    Mirrors o (b.place k f) (b'.place k' f) := by
  refine ⟨hid, rfl, h.observed, h.observed', ⟨fun a ha => ?_, h.hooks.built⟩, h.poisoned, h.asked,
    h.consistent.insert hk, h.consistent'.insert hk'⟩
  have hanchor : k'.anchor = k.anchor := congrArg HookKey.anchor (Hook.key_eq hcontent)
  have hsame := h.hooks.active a ha
  simp only [Hooks.shown?, Bench.place, ExtTreeMap.getElem?_insert, hanchor] at hsame ⊢
  split
  · exact congrArg some hcontent
  · exact hsame

end Mirrors

/-- Both have succeeded, or both have stopped for the same reason. -/
inductive Paired (o : Outset) : Except Halt Bench → Except Halt Bench → Prop
  | ok {b b' : Bench} (h : Mirrors o b b') : Paired o (.ok b) (.ok b')
  | error {b b' : Bench} (h : Mirrors o b b') (cause : AnalysisError) :
      Paired o (.error ⟨b, cause⟩) (.error ⟨b', cause⟩)

namespace Paired

variable {x x' : Except Halt Bench}

theorem left (h : Paired o x x') : Mirrors o (Bench.left x) (Bench.left x') := by
  cases h with
  | ok h | error h => exact h

theorem bind {act act' : Bench → Except Halt Bench} (h : Paired o x x')
    (hact : ∀ b b', Mirrors o b b' → Paired o (act b) (act' b')) :
    Paired o (x >>= act) (x' >>= act') := by
  cases h with
  | ok h => exact hact _ _ h
  | error h cause => exact .error h cause

theorem foldlM {α : Type} {act : Bench → α → Except Halt Bench} (h : Mirrors o b b') (xs : List α)
    (hact : ∀ b b' x, Mirrors o b b' → Paired o (act b x) (act b' x)) :
    Paired o (xs.foldlM act b) (xs.foldlM act b') := by
  induction xs generalizing b b' with
  | nil => exact .ok h
  | cons x xs ih =>
    rw [List.foldlM_cons, List.foldlM_cons]
    exact (hact b b' x h).bind fun c c' hc => ih hc

end Paired

namespace Mirrors

theorem attach (h : Mirrors o b b') (hk : k ∈ b.hooks.built) (hk' : k' ∈ b'.hooks.built)
    (hcontent : k'.content = k.content) (ha : k.anchor.function = o.function) :
    Paired o (b.attach k) (b'.attach k') := by
  have hanchor : k'.anchor = k.anchor := congrArg HookKey.anchor (Hook.key_eq hcontent)
  have hany : ((b'.hooks.active[k'.anchor]?).any fun active => active.id == k'.id) =
      (b.hooks.active[k.anchor]?).any fun active => active.id == k.id := by
    rw [h.consistent.any_id_eq hk, h.consistent'.any_id_eq hk', hanchor, hcontent,
      h.hooks.active _ ha]
  by_cases hactive : (b.hooks.active[k.anchor]?).any fun active => active.id == k.id
  · rw [attach_of_active hactive, attach_of_active (hany.trans hactive)]
    exact .ok (h.remember hk hk')
  · have hdetach := h.detach ha
    have hinsert : (b'.detach k'.anchor).function.insertSynthetic k'.anchor.position
          k'.statements =
        (b.detach k.anchor).function.insertSynthetic k.anchor.position k.statements := by
      rw [hanchor, Hook.statements_eq hcontent, hdetach.function]
    rw [← hany] at hactive
    cases hf : (b.detach k.anchor).function.insertSynthetic k.anchor.position k.statements with
    | error e =>
      rw [attach_of_error (hany ▸ hactive) hf, attach_of_error hactive (hinsert.trans hf), hanchor]
      exact .error hdetach (.ir e)
    | ok f =>
      rw [attach_of_ok (hany ▸ hactive) hf, attach_of_ok hactive (hinsert.trans hf), hanchor]
      have hk := (b.detach_built k.anchor).symm ▸ hk
      have hk' := (b'.detach_built k.anchor).symm ▸ hk'
      have hid : f.id = o.function := by
        rw [(Function.insertSynthetic_fields hf).1]
        exact hdetach.id_eq
      exact .ok ((hdetach.place hk hk' hcontent hid).remember hk hk')

theorem settle (h : Mirrors o b b') {plan : Option Plan} (a : Anchor) (ha : a.function = o.function)
    (hp : ∀ p ∈ plan, p.key.anchor = a ∧ ∀ kind ∈ p.effects.kinds, kind.fits p.key.anchor.kind) :
    Paired o (b.settle a plan) (b'.settle a plan) := by
  cases plan with
  | none => exact .ok (h.detach ha).countUnresolved
  | some p =>
    obtain ⟨rfl, hfits⟩ := hp p rfl
    obtain ⟨hcontent, hmirrors⟩ := h.obtain ha hfits
    obtain ⟨hk, hkey⟩ := b.obtain_mem_built p
    obtain ⟨hk', -⟩ := b'.obtain_mem_built p
    rw [settle_some, settle_some]
    refine hmirrors.attach hk hk' hcontent ?_
    rw [Hook.anchor, hkey]
    exact ha

theorem settleCall (h : Mirrors o b b') (ho : o.Fair) (site : CallSite) :
    Paired o (settleCall o.sources.detector signatures b site)
      (settleCall o.sources.detector signatures b' site) := by
  have hcall : b'.callAt site = b.callAt site := by rw [callAt, h.function, callAt]
  obtain ⟨hsame, hmirrors⟩ := h.resolve ho (.ofCall (b.callAt site) site.target)
  rw [resolve_fst, resolve_fst] at hsame
  have hspares : Spares b
      (b.resolve o.sources.detector (.ofCall (b.callAt site) site.target)).2 _ := b.resolve_spares _
  rw [settleCall_eq, settleCall_eq, hcall]
  generalize (b.resolve o.sources.detector (.ofCall (b.callAt site) site.target)).2 = c
    at hsame hmirrors hspares ⊢
  generalize (b'.resolve o.sources.detector (.ofCall (b.callAt site) site.target)).2 = c'
    at hsame hmirrors ⊢
  have hsite : c.callAt site = b.callAt site := by rw [callAt, hspares.function_id, callAt]
  have hplan : c'.callPlan signatures site = c.callPlan signatures site := by
    apply callPlan_congr (congrArg Function.id hmirrors.function)
    · rw [hsite]
      exact hsame
    · rw [hmirrors.observed, hmirrors.observed']
  rw [hplan]
  refine hmirrors.settle _ h.id_eq fun p hp => ⟨?_, (callPlan_possible _ _ site p hp).fitting⟩
  obtain ⟨x, -, rfl⟩ := Option.map_eq_some_iff.mp hp
  exact congrArg Anchor.call hsite

theorem start (h : Mirrors o b b') (hk : b.hooks.Knows b.function s) :
    Mirrors o (b.start s) (b'.start s) := by
  have hk' : b'.hooks.Knows b'.function s := by
    intro pop hpop
    rw [h.function] at hpop ⊢
    rw [h.observed', ← h.observed]
    exact hk pop hpop
  rw [start_of_knows hk, start_of_knows hk']
  exact ⟨h.id_eq, h.function, h.observed, h.observed', ⟨h.hooks.active, h.hooks.built⟩, h.poisoned,
    h.asked, h.consistent.congr rfl rfl rfl, h.consistent'.congr rfl rfl rfl⟩

theorem informed (h : Mirrors o b b') (ho : o.Fair) (hk : b.hooks.Knows b.function s) :
    Mirrors o (b.informed o.sources.detector s) (b'.informed o.sources.detector s) ∧
      (b'.informed o.sources.detector s).entryPlan signatures =
        (b.informed o.sources.detector s).entryPlan signatures ∧
      (b'.informed o.sources.detector s).returnPlan signatures =
        (b.informed o.sources.detector s).returnPlan signatures := by
  obtain ⟨hsame, hmirrors⟩ := (h.start hk).resolve ho (.ofFunction b.function)
  rw [resolve_fst, resolve_fst] at hsame
  have hinformed : ((b.start s).resolve o.sources.detector (.ofFunction b.function)).2 =
      b.informed o.sources.detector s := rfl
  have hinformed' : b'.informed o.sources.detector s =
      ((b'.start s).resolve o.sources.detector (.ofFunction b.function)).2 := by
    rw [Bench.informed, h.function]
  have hfunction : (b.informed o.sources.detector s).function = b.function := b.informed_function s
  rw [hinformed, ← hinformed'] at hsame hmirrors
  have hfunction' := hmirrors.function.trans hfunction
  refine ⟨hmirrors, ?_, funext fun ret => ?_⟩
  · simp only [entryPlan, hfunction, hfunction', hsame]
  · simp only [returnPlan, hfunction, hfunction', hsame]

/-- Whatever comes of instrumenting one of the benches comes of instrumenting the other. -/
theorem instrument (h : Mirrors o b b') (ho : o.Fair) (hk : b.hooks.Knows b.function s) :
    Paired o (b.instrument o.sources s) (b'.instrument o.sources s) := by
  cases hs : s.mismatch? b.function with
  | some e =>
    rw [instrument_of_mismatch hs, instrument_of_mismatch (h.function ▸ hs)]
    exact .error h e
  | none =>
  have hs' : s.mismatch? b'.function = none := h.function ▸ hs
  cases hc : b.conventions.poisoned with
  | true =>
    rw [instrument_of_poisoned hs hc, instrument_of_poisoned hs' (h.poisoned.trans hc)]
    exact .error (h.start hk) _
  | false =>
  have hc' := h.poisoned.trans hc
  obtain ⟨hinformed, hentry, hreturn⟩ := h.informed ho hk
  cases hss : o.sources.signatures.poisoned with
  | true =>
    rw [instrument_of_poisoned_signatures hs hc hss, instrument_of_poisoned_signatures hs' hc' hss]
    exact .error hinformed _
  | false =>
  rw [instrument_eq hs hc hss, instrument_eq hs' hc' hss, hentry, hreturn, h.function]
  refine (hinformed.settle (.entry _) h.id_eq (b.informed_entryPlan_fits s)).bind fun c c' hc => ?_
  refine (Paired.foldlM hc s.calls fun _ _ site hd => hd.settleCall ho site).bind fun c c' hc => ?_
  refine (Paired.foldlM (hc.dropUnseen .call _) s.returns fun _ _ ret hd => ?_).bind
    fun c c' hc => .ok (hc.dropUnseen .ret _)
  exact hd.settle (.ret ⟨_, ret⟩) h.id_eq (b.informed_returnPlan_fits s ret)

end Mirrors

end Bench

end CallEffects
