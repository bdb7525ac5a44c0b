import CallEffects.Proofs.Footing
import CallEffects.Proofs.Resolution
import CallEffects.Proofs.Settlement

/-!
# Hooks that come to stay

If every active hook is the one that its plan asks for, settling takes no hook off. `Bench.Calm`
says so of all anchors that a fresh snapshot lists, and is kept by settling them one by one.
`Tally.Gains` compares what is known and counted before and after: hooks are kept, callees keep
their conventions, and as long as no hook is attached the registry stays as it is.
-/

namespace CallEffects

open Std

/-- What a callee's convention asks for at an anchor. -/
def Plan.for? (cs : Conventions) (ss : Signatures) (observed : ExtTreeMap Callee Nat) (a : Anchor)
    (callee : Callee) : Option Plan :=
  (cs.lookup? callee).map fun c =>
    match a with
    | .entry f => .ofEntry f c (ss.function? callee)
    | .ret r => .ofReturn r c (ss.function? callee)
    | .call r => .ofCall r c (ss.forCall? r callee) observed[callee]?

theorem Plan.for?_possible (cs : Conventions) (ss : Signatures) (observed : ExtTreeMap Callee Nat)
    (a : Anchor) (callee : Callee) :
    ∀ p ∈ Plan.for? cs ss observed a callee, p.key.anchor = a ∧ p.Possible cs ss := by
  intro p hp
  obtain ⟨c, hc, rfl⟩ := Option.map_eq_some_iff.mp hp
  cases a with
  | entry f => exact ⟨rfl, .entry f c _ (Conventions.get?_of_lookup? hc) fun x hx => ⟨_, hx⟩⟩
  | ret r => exact ⟨rfl, .ret r c _ (Conventions.get?_of_lookup? hc) fun x hx => ⟨_, hx⟩⟩
  | call r => exact ⟨rfl, Bench.Plan.possible_ofCall hc _⟩

theorem Plan.isSome_for? {cs : Conventions} {ss : Signatures} {observed : ExtTreeMap Callee Nat}
    {a : Anchor} {callee : Callee} :
    (Plan.for? cs ss observed a callee).isSome ↔ (cs.lookup? callee).isSome := by
  rw [for?, Option.isSome_map]

/-- If a hook is active on the anchor, it is the one of the plan. -/
def Hooks.Stands (h : Hooks) (a : Anchor) (plan : Option Plan) : Prop :=
  ∀ k, h.active[a]? = some k → ∃ p ∈ plan, k.key = p.key

theorem Hooks.Stands.congr {h h' : Hooks} {a : Anchor} {plan : Option Plan} (hs : h.Stands a plan)
    (ha : h'.active[a]? = h.active[a]?) : h'.Stands a plan :=
  fun k hk => hs k (ha ▸ hk)

theorem Hooks.Stands.isSome {h : Hooks} {a : Anchor} {k : Hook} {cs : Conventions}
    {ss : Signatures} {observed : ExtTreeMap Callee Nat} {callee : Callee}
    (hs : h.Stands a (Plan.for? cs ss observed a callee)) (hk : h.active[a]? = some k) :
    (cs.lookup? callee).isSome := by
  obtain ⟨p, hp, -⟩ := hs k hk
  exact Plan.isSome_for?.mp (Option.isSome_iff_exists.mpr ⟨p, hp⟩)

theorem Hooks.Stands.answered {h : Hooks} {a : Anchor} {detector : Option Detector}
    {cs cs' : Conventions} {ss : Signatures} {observed : ExtTreeMap Callee Nat} {callee : Callee}
    (hs : h.Stands a (Plan.for? cs ss observed a callee))
    (hc : Conventions.Answered detector cs cs') :
    h.Stands a (Plan.for? cs' ss observed a callee) := by
  intro k hk
  obtain ⟨p, hp, hkey⟩ := hs k hk
  obtain ⟨c, hc', rfl⟩ := Option.map_eq_some_iff.mp hp
  exact ⟨_, Option.map_eq_some_iff.mpr ⟨c, hc.kept callee c hc', rfl⟩, hkey⟩

theorem Bench.Bears.stands {b : Bench} {a : Anchor} {plan : Option Plan} (h : b.Bears a plan) :
    b.hooks.Stands a plan := by
  intro k hk
  cases plan with
  | none =>
    have hn : b.hooks.active[a]? = none := h
    rw [hn] at hk
    cases hk
  | some p =>
    obtain ⟨k', hk', hkey⟩ := h
    obtain rfl := Option.some.inj (hk'.symm.trans hk)
    exact ⟨p, rfl, hkey⟩

namespace Hooks

variable {h : Hooks} {f : Function} {s : Snapshot}

theorem getElem?_observe_self {pop : Nat} (hpop : pop ∈ popOf? f s) :
    (h.observe f s).observed[Callee.ofFunction f]? = some pop := by
  have hsome : popOf? f s = some pop := hpop
  simp only [observe, hsome, ExtTreeMap.getElem?_insert_self]

theorem getElem?_observe_of_ne {callee : Callee} (hc : Callee.ofFunction f ≠ callee) :
    (h.observe f s).observed[callee]? = h.observed[callee]? := by
  unfold observe
  split
  · rfl
  · exact Table.getElem?_insert_of_ne hc

theorem observe_eq_self
    (ho : ∀ pop ∈ popOf? f s, h.observed[Callee.ofFunction f]? = some pop) :
    h.observe f s = h := by
  unfold observe
  split
  · rfl
  · next pop hpop => rw [Table.insert_eq_self (ho pop hpop)]

end Hooks

/-! ## Gains -/

/-- What a bench and a round have in common. -/
structure Tally where
  hooks : Hooks
  conventions : Guarded Conventions
  stats : InstrumentStats

def Bench.tally (b : Bench) : Tally := ⟨b.hooks, b.conventions, b.stats⟩

def Round.tally (r : Round) : Tally := ⟨r.hooks, r.conventions, r.stats⟩

/-- The anchor has a hook, or its callee has no convention and will not get one. -/
def Tally.Closed (t : Tally) (detector : Option Detector) (a : Anchor) (callee : Callee) : Prop :=
  t.hooks.active[a]? = none →
    t.conventions.value.lookup? callee = none ∧ Detector.Refuses detector callee

structure Tally.Gains (detector : Option Detector) (t t' : Tally) : Prop where
  answered : Conventions.Answered detector t.conventions.value t'.conventions.value
  poisoned : t'.conventions.poisoned = t.conventions.poisoned
  observed : t'.hooks.observed = t.hooks.observed
  kept : ∀ {a : Anchor} {k : Hook}, t.hooks.active[a]? = some k → t'.hooks.active[a]? = some k
  detached : t'.stats.detached = t.stats.detached
  removed : t'.stats.removed = t.stats.removed
  attached_le : t.stats.attached ≤ t'.stats.attached
  /-- The registry changes for a callee that gets a hook only. -/
  idle : t'.stats.attached = t.stats.attached → t'.conventions = t.conventions
  busy : t.stats.attached < t'.stats.attached → ∃ a : Anchor, t.hooks.active[a]? = none ∧
    ∃ k, t'.hooks.active[a]? = some k

namespace Tally

variable {t t' t'' : Tally} {detector : Option Detector} {a : Anchor} {callee : Callee}

theorem Gains.refl (h : t.conventions.value.AllRegistered) : t.Gains detector t :=
  ⟨.refl h, rfl, rfl, fun hk => hk, rfl, rfl, Nat.le_refl _, fun _ => rfl,
    fun hlt => absurd hlt (Nat.lt_irrefl _)⟩

theorem Gains.none_of_none (h : t.Gains detector t') (ha : t'.hooks.active[a]? = none) :
    t.hooks.active[a]? = none := by
  cases hk : t.hooks.active[a]? with
  | none => rfl
  | some k =>
    rw [h.kept hk] at ha
    cases ha

theorem Gains.trans (h : t.Gains detector t') (h' : t'.Gains detector t'') :
    t.Gains detector t'' := by
  have hle := h.attached_le
  have hle' := h'.attached_le
  refine ⟨h.answered.trans h'.answered, h'.poisoned.trans h.poisoned,
    h'.observed.trans h.observed, fun hk => h'.kept (h.kept hk), h'.detached.trans h.detached,
    h'.removed.trans h.removed, Nat.le_trans hle hle', ?_, ?_⟩
  · intro heq
    exact (h'.idle (by omega)).trans (h.idle (by omega))
  · intro hlt
    by_cases hfirst : t.stats.attached < t'.stats.attached
    · obtain ⟨a, ha, k, hk⟩ := h.busy hfirst
      exact ⟨a, ha, k, h'.kept hk⟩
    · obtain ⟨a, ha, hk⟩ := h'.busy (by omega)
      exact ⟨a, h.none_of_none ha, hk⟩

theorem Closed.gains (hc : t.Closed detector a callee) (h : t.Gains detector t') :
    t'.Closed detector a callee := by
  intro ha
  obtain ⟨hlookup, hrefuses⟩ := hc (h.none_of_none ha)
  exact ⟨(h.answered.refused callee hrefuses).trans hlookup, hrefuses⟩

end Tally

/-! ## Where hooks can go -/

namespace Function

variable {f g : Function} {a : Anchor} {callee : Callee}

/-- The anchor is the entry, or a lifted statement offers it. -/
def Offers (f : Function) (a : Anchor) : Prop :=
  a = .entry f.id ∨ ∃ s ∈ f.statements, s.isSynthetic = false ∧ s.anchor? f.id = some a

theorem Asks.offers (hf : f.Orderly) (h : f.Asks a callee) : f.Offers a :=
  Snapshot.take_anchors hf h.mem_anchors

theorem Offers.of_code (h : f.Offers a) (hid : g.id = f.id) (hcode : g.code = f.code) :
    g.Offers a := by
  rcases h with rfl | ⟨s, hs, hl, hsa⟩
  · exact .inl (by rw [hid])
  · exact .inr ⟨s, mem_of_code hcode hs hl, hl, hid ▸ hsa⟩

theorem Offers.same (h : f.Offers a) (hg : f.SameCode g) : g.Offers a :=
  h.of_code hg.id_eq hg.code_eq

theorem Offers.hosts (h : f.Offers a) : f.Hosts a := by
  rcases h with rfl | ⟨s, hs, hl, hsa⟩
  · rfl
  · have hheld : f.Holds s.id := by
      refine ⟨s, hs, rfl, fun hsyn => ?_⟩
      rw [hl] at hsyn
      cases hsyn
    rcases Statement.anchor?_cases hsa with ⟨-, -, rfl⟩ | ⟨-, -, rfl⟩ <;> exact ⟨rfl, hheld⟩

theorem Asks.unique (hf : f.Numbered) {callee' : Callee} (h : f.Asks a callee)
    (h' : f.Asks a callee') : callee = callee' := by
  cases h with
  | entry => cases h'; rfl
  | ret => cases h'; rfl
  | @call site hsite =>
    generalize ha : Anchor.call ⟨f.id, site.statement⟩ = a at h'
    cases h' with
    | entry | ret => cases ha
    | @call site' hsite' =>
      have hid : site.statement = site'.statement := by simpa using ha
      rw [List.inj_on_of_nodup_map (Snapshot.calls_nodup hf) hsite hsite' hid]

end Function

namespace Bench

variable {b b' : Bench} {a : Anchor} {plan : Option Plan} {detector : Option Detector}
variable {signatures : Signatures} {f : Function} {callee : Callee}

theorem obtain_of_active (hb : b.hooks.Consistent) {p : Plan} {k : Hook}
    (hk : b.hooks.active[p.key.anchor]? = some k) (hkey : k.key = p.key) : b.obtain p = (k, b) := by
  have hbuilt := (hb.active_built hk).1
  cases hc : b.hooks.cached? p.key with
  | none =>
    have hnot := List.find?_eq_none.mp hc k hbuilt
    simp [hkey] at hnot
  | some k' =>
    have hkey' : k'.key = p.key := by simpa using List.find?_some hc
    have hmem := List.mem_of_find?_eq_some hc
    rw [obtain_of_cached hc, hb.key_inj hmem hbuilt (hkey'.trans hkey.symm)]

theorem settle_of_active (hb : b.hooks.Consistent) {p : Plan} {k : Hook}
    (hk : b.hooks.active[p.key.anchor]? = some k) (hkey : k.key = p.key) :
    b.settle p.key.anchor (some p) = .ok (b.remember k) := by
  have hanchor : k.anchor = p.key.anchor := by rw [Hook.anchor, hkey]
  rw [settle_some, obtain_of_active hb hk hkey]
  exact attach_of_active (by rw [hanchor, hk]; simp)

theorem obtain_fields (b : Bench) (p : Plan) :
    (b.obtain p).2.function.blocks = b.function.blocks ∧
      ∃ n, (b.obtain p).2.stats = { b.stats with synthesized := n } := by
  cases hc : b.hooks.cached? p.key with
  | none =>
    rw [obtain_of_none hc]
    exact ⟨rfl, _, rfl⟩
  | some k =>
    rw [obtain_of_cached hc]
    exact ⟨rfl, _, rfl⟩

theorem settle_of_inactive (hb : b.Sound) {p : Plan} (hk : b.hooks.active[p.key.anchor]? = none)
    (ho : b.function.Offers p.key.anchor) :
    ∃ g, b.settle p.key.anchor (some p) =
      .ok (((b.obtain p).2.place (b.obtain p).1 g).remember (b.obtain p).1) := by
  have hanchor : (b.obtain p).1.anchor = p.key.anchor := by
    rw [Hook.anchor, (b.obtain_mem_built p).2]
  have hnone : (b.obtain p).2.hooks.active[(b.obtain p).1.anchor]? = none := by
    rw [obtain_active, hanchor, hk]
  have hinactive : ¬((b.obtain p).2.hooks.active[(b.obtain p).1.anchor]?).any
      fun active => active.id == (b.obtain p).1.id := by
    rw [hnone]
    simp
  have hdetach : (b.obtain p).2.detach (b.obtain p).1.anchor = (b.obtain p).2 :=
    detach_of_none hnone
  have hblocks := (b.obtain_fields p).1
  have hoffers : (b.obtain p).2.function.Offers p.key.anchor := by
    rw [Function.Offers, obtain_function_id, Function.statements, hblocks]
    exact ho
  obtain ⟨g, hg⟩ := hoffers.hosts.insertSynthetic (hblocks ▸ hb.2.numbered.blocks_ne_nil)
    (b.obtain p).1.statements
  rw [← hanchor] at hg
  have hattach := attach_of_ok hinactive (by rw [hdetach]; exact hg)
  rw [hdetach] at hattach
  exact ⟨g, hattach⟩

/-- Settling an anchor whose hook is the right one, or that has none, succeeds and detaches nothing;
a hook is attached if there is a plan and none was active. -/
theorem settle_stands (hb : b.Sound) (hp : ∀ p ∈ plan, p.key.anchor = a) (hs : b.hooks.Stands a plan)
    (ho : b.function.Offers a) :
    ∃ b', b.settle a plan = .ok b' ∧ b'.stats.detached = b.stats.detached ∧
      b'.stats.removed = b.stats.removed ∧
      ((b'.stats.attached = b.stats.attached ∧ b'.hooks.active = b.hooks.active ∧
          (plan.isSome → (b.hooks.active[a]?).isSome)) ∨
        b'.stats.attached = b.stats.attached + 1 ∧ b.hooks.active[a]? = none ∧ plan.isSome) := by
  cases plan with
  | none =>
    have hnone : b.hooks.active[a]? = none := by
      cases hk : b.hooks.active[a]? with
      | none => rfl
      | some k =>
        obtain ⟨p, hp, -⟩ := hs k hk
        cases hp
    have hsettle : b.settle a none = .ok b.countUnresolved := by
      simp only [settle, detach_of_none hnone]
      rfl
    exact ⟨_, hsettle, rfl, rfl, .inl ⟨rfl, rfl, by simp⟩⟩
  | some p =>
    obtain rfl := hp p rfl
    cases hk : b.hooks.active[p.key.anchor]? with
    | some k =>
      obtain ⟨q, hq, hkey⟩ := hs k hk
      obtain rfl := Option.some.inj hq
      exact ⟨_, settle_of_active hb.1 hk hkey, rfl, rfl, .inl ⟨rfl, rfl, fun _ => rfl⟩⟩
    | none =>
      obtain ⟨g, hsettle⟩ := settle_of_inactive hb hk ho
      obtain ⟨-, n, hstats⟩ := b.obtain_fields p
      refine ⟨_, hsettle, ?_, ?_, .inr ⟨?_, rfl, rfl⟩⟩ <;>
      · simp only [remember, place, hstats]

/-- A built-in detector changes the registry for a callee without a convention only, and gives it
one. -/
theorem resolve_cases (hd : ∀ d ∈ detector, d.IsBuiltin) (hr : b.conventions.value.AllRegistered)
    (callee : Callee) :
    (b.resolve detector callee).2 = b ∨
      b.conventions.value.lookup? callee = none ∧
        ((b.resolve detector callee).2.conventions.value.lookup? callee).isSome := by
  unfold resolve
  split
  · exact .inl rfl
  · exact .inl rfl
  · next d hn =>
    cases hd d rfl with
    | fixed c guess =>
      by_cases hg : callee.isIndirect && !guess
      · left
        rw [Detector.refuses_fixed (c := c) hg _ rfl]
        rfl
      · exact .inr ⟨hn, (Conventions.detect_fixed hr hn hg b.asked).2⟩
    | silent => exact .inl rfl

/-! ## Calm -/

def wish (b : Bench) (ss : Signatures) (a : Anchor) (callee : Callee) : Option Plan :=
  Plan.for? b.conventions.value ss b.hooks.observed a callee

theorem closed_of_bears {ss : Signatures} (h : b'.Bears a (b.wish ss a callee))
    (hc : b'.conventions = b.conventions)
    (hd : Conventions.Decided detector b.conventions.value callee) :
    b'.tally.Closed detector a callee := by
  intro hnone
  have hactive : b'.hooks.active[a]? = none := hnone
  have hlookup : b.conventions.value.lookup? callee = none := by
    rw [← Option.not_isSome_iff_eq_none]
    intro hsome
    have hsome := h.isSome_iff.mpr (Plan.isSome_for?.mpr hsome)
    rw [hactive] at hsome
    cases hsome
  refine ⟨by rw [tally, hc]; exact hlookup, hd.resolve_left ?_⟩
  rw [hlookup]
  simp

/-- A function whose anchors have no hook but the right one; `f` is the function when its snapshot
was taken. -/
structure Calm (f : Function) (ss : Signatures) (b : Bench) : Prop where
  sound : b.Sound
  same : f.SameCode b.function
  registered : b.conventions.value.AllRegistered
  stands : ∀ {a : Anchor} {callee : Callee}, f.Asks a callee →
    b.hooks.Stands a (b.wish ss a callee)
  anchored : ∀ {a : Anchor} {k : Hook}, b.hooks.active[a]? = some k → a.function = f.id →
    ∃ callee, f.Asks a callee

namespace Calm

variable {ss : Signatures}

/-- An anchor that has been settled has the right hook or none, and the other anchors keep theirs. -/
theorem settled (h : Calm f ss b) (hf : f.Numbered) (ha : f.Asks a callee)
    (hok : b.settle a (b.wish ss a callee) = .ok b') : Calm f ss b' := by
  have hplan : ∀ p ∈ b.wish ss a callee, p.key.anchor = a ∧ p.Possible b.conventions.value ss :=
    Plan.for?_possible _ _ _ _ _
  have hid : a.function = b.function.id := ha.function_eq.trans h.same.id_eq.symm
  obtain ⟨hbears, hspares, hconventions, hsound⟩ := settle_ok h.sound hid
    (fun p hp => ⟨(hplan p hp).1, (hplan p hp).2.fitting⟩) hok
  have hmoves : Moves none ss (fun _ => True) b b' := by
    have hleft : Moves none ss (fun _ => True) b (left (b.settle a (b.wish ss a callee))) :=
      settle_moves hid (fun _ => trivial) hplan
    rwa [hok] at hleft
  refine ⟨hsound, h.same.trans (Moves.sameCode hmoves h.sound), ?_, ?_, ?_⟩
  · rw [hconventions]
    exact h.registered
  · intro a' callee' ha'
    rw [wish, hconventions, hspares.observed]
    by_cases hane : a' = a
    · subst hane
      rw [ha'.unique hf ha]
      exact hbears.stands
    · exact (h.stands ha').congr (hspares.active a' hane)
  · intro a' k hk ha'
    by_cases hane : a' = a
    · exact ⟨callee, hane ▸ ha⟩
    · exact h.anchored ((hspares.active a' hane).symm.trans hk) ha'

theorem settle (h : Calm f ss b) (hf : f.Orderly) (ha : f.Asks a callee)
    (detector : Option Detector) :
    ∃ b', b.settle a (b.wish ss a callee) = .ok b' ∧ Calm f ss b' ∧
      b.tally.Gains detector b'.tally ∧ b'.conventions = b.conventions ∧
      b'.Bears a (b.wish ss a callee) ∧
      (b'.stats.attached = b.stats.attached → (b.wish ss a callee).isSome →
        (b.hooks.active[a]?).isSome) := by
  have hplan : ∀ p ∈ b.wish ss a callee, p.key.anchor = a ∧ p.Possible b.conventions.value ss :=
    Plan.for?_possible _ _ _ _ _
  have hid : a.function = b.function.id := ha.function_eq.trans h.same.id_eq.symm
  obtain ⟨b', hsettle, hdetached, hremoved, hattached⟩ := settle_stands h.sound
    (fun p hp => (hplan p hp).1) (h.stands ha) ((ha.offers hf).same h.same)
  obtain ⟨hbears, hspares, hconventions, -⟩ := settle_ok h.sound hid
    (fun p hp => ⟨(hplan p hp).1, (hplan p hp).2.fitting⟩) hsettle
  have hkept : ∀ {a' : Anchor} {k : Hook}, b.hooks.active[a']? = some k →
      b'.hooks.active[a']? = some k := by
    intro a' k hk
    rcases hattached with ⟨-, hsame, -⟩ | ⟨-, hnone, -⟩
    · rw [hsame, hk]
    · by_cases ha' : a' = a
      · subst ha'
        rw [hnone] at hk
        cases hk
      · exact (hspares.active a' ha').trans hk
  refine ⟨b', hsettle, h.settled hf.numbered ha hsettle,
    ⟨?_, ?_, hspares.observed, hkept, hdetached, hremoved, ?_, fun _ => hconventions, ?_⟩,
    hconventions, hbears, ?_⟩
  · rw [tally, tally, hconventions]
    exact .refl h.registered
  · rw [tally, tally, hconventions]
  · rcases hattached with ⟨hsame, -⟩ | ⟨hmore, -⟩
    · exact Nat.le_of_eq hsame.symm
    · exact hmore ▸ Nat.le_succ _
  · intro hlt
    rcases hattached with ⟨hsame, -⟩ | ⟨-, hnone, hsome⟩
    · exact absurd hlt (hsame ▸ Nat.lt_irrefl _)
    · exact ⟨a, hnone, Option.isSome_iff_exists.mp (hbears.isSome_iff.mpr hsome)⟩
  · intro heq hsome
    rcases hattached with ⟨-, -, hactive⟩ | ⟨hmore, -⟩
    · exact hactive hsome
    · exact absurd (hmore.symm.trans heq) (Nat.succ_ne_self _)

theorem answered (h : Calm f ss b) {b' : Bench} (hf : b'.function = b.function)
    (hh : b'.hooks = b.hooks)
    (hc : Conventions.Answered detector b.conventions.value b'.conventions.value) : Calm f ss b' := by
  refine ⟨?_, hf ▸ h.same, hc.registered, ?_, hh ▸ h.anchored⟩
  · rw [Sound, hh, hf]
    exact h.sound
  · intro a callee ha
    rw [wish, hh]
    exact (h.stands ha).answered hc

/-- Asking for the convention of a callee first. The registry changes for a callee without one only,
and then the anchor gets a hook. -/
theorem ask (h : Calm f ss b) (hf : f.Orderly) (hd : ∀ d ∈ detector, d.IsBuiltin)
    (ha : f.Asks a callee) :
    ∃ b', (b.resolve detector callee).2.settle a ((b.resolve detector callee).2.wish ss a callee) =
        .ok b' ∧ Calm f ss b' ∧ b.tally.Gains detector b'.tally ∧
      b'.tally.Closed detector a callee ∧
      b'.conventions = (b.resolve detector callee).2.conventions := by
  obtain ⟨hanswered, hdecided⟩ := resolve_answered hd h.registered callee
  have hcases := resolve_cases hd h.registered callee
  obtain ⟨cs, asked, heq, -⟩ := b.resolve_snd detector callee
  rw [heq] at hanswered hdecided hcases ⊢
  have hcalm : Calm f ss { b with conventions := { b.conventions with value := cs }, asked } :=
    h.answered rfl rfl hanswered
  obtain ⟨b', hsettle, hcalm', hgains, hconventions, hbears, hattached⟩ :=
    hcalm.settle hf ha detector
  refine ⟨b', hsettle, hcalm', ⟨?_, ?_, hgains.observed, hgains.kept, hgains.detached,
    hgains.removed, hgains.attached_le, ?_, hgains.busy⟩, ?_, ?_⟩
  · rw [tally, tally, hconventions]
    exact hanswered
  · rw [tally, tally, hconventions]
  · intro hidle
    rcases hcases with hsame | ⟨hnone, hsome⟩
    · rw [tally, tally, hconventions]
      exact congrArg (·.conventions) hsame
    · have hactive := hattached hidle (Plan.isSome_for?.mpr hsome)
      obtain ⟨k, hk⟩ := Option.isSome_iff_exists.mp hactive
      have hfound := (h.stands ha).isSome hk
      rw [hnone] at hfound
      cases hfound
  · exact closed_of_bears hbears hconventions hdecided
  · exact hconventions

theorem settleCalls (h : Calm f ss b) (hf : f.Orderly) (hd : ∀ d ∈ detector, d.IsBuiltin)
    {sites : List CallSite} (hsites : ∀ site ∈ sites, site ∈ (Snapshot.take f).calls) :
    ∃ b', sites.foldlM (settleCall detector ss) b = .ok b' ∧ Calm f ss b' ∧
      b.tally.Gains detector b'.tally ∧ ∀ site ∈ sites, b'.tally.Closed detector
        (.call ⟨f.id, site.statement⟩) (.ofCall ⟨f.id, site.statement⟩ site.target) := by
  induction sites generalizing b with
  | nil => exact ⟨b, rfl, h, .refl h.registered, by simp⟩
  | cons site sites ih =>
    obtain ⟨b₁, hsettle, hcalm, hgains, hclosed, -⟩ :=
      h.ask hf hd (.call (hsites site List.mem_cons_self))
    have hone : settleCall detector ss b site = .ok b₁ := by
      rw [← hsettle, settleCall, h.same.id_eq, wish, Plan.for?, ← resolve_fst]
    obtain ⟨b₂, hrest, hcalm', hgains', hclosed'⟩ :=
      ih hcalm fun site' hsite' => hsites site' (List.mem_cons_of_mem _ hsite')
    refine ⟨b₂, by rw [List.foldlM_cons, hone]; exact hrest, hcalm', hgains.trans hgains', ?_⟩
    intro site' hsite'
    rcases List.mem_cons.mp hsite' with rfl | hsite'
    · exact hclosed.gains hgains'
    · exact hclosed' site' hsite'

theorem settleReturns (h : Calm f ss b) (hf : f.Orderly) {plan : StatementId → Option Plan}
    {rets : List StatementId} (hrets : ∀ ret ∈ rets, ret ∈ (Snapshot.take f).returns)
    (hplan : ∀ ret, plan ret = b.wish ss (.ret ⟨f.id, ret⟩) (.ofFunction f))
    (hd : Conventions.Decided detector b.conventions.value (.ofFunction f)) :
    ∃ b', rets.foldlM (fun b ret => b.settle (.ret ⟨f.id, ret⟩) (plan ret)) b = .ok b' ∧
      Calm f ss b' ∧ b.tally.Gains detector b'.tally ∧
      ∀ ret ∈ rets, b'.tally.Closed detector (.ret ⟨f.id, ret⟩) (.ofFunction f) := by
  induction rets generalizing b with
  | nil => exact ⟨b, rfl, h, .refl h.registered, by simp⟩
  | cons ret rets ih =>
    obtain ⟨b₁, hsettle, hcalm, hgains, hconventions, hbears, -⟩ :=
      h.settle hf (.ret (hrets ret List.mem_cons_self)) detector
    have hobserved : b₁.hooks.observed = b.hooks.observed := hgains.observed
    have hplan' : ∀ ret, plan ret = b₁.wish ss (.ret ⟨f.id, ret⟩) (.ofFunction f) := by
      intro ret
      rw [hplan, wish, wish, hconventions, hobserved]
    obtain ⟨b₂, hrest, hcalm', hgains', hclosed⟩ :=
      ih hcalm (fun ret' hret' => hrets ret' (List.mem_cons_of_mem _ hret')) hplan'
        (hconventions ▸ hd)
    refine ⟨b₂, ?_, hcalm', hgains.trans hgains', ?_⟩
    · rw [List.foldlM_cons, hplan, hsettle]
      exact hrest
    · intro ret' hret'
      rcases List.mem_cons.mp hret' with rfl | hret'
      · exact (closed_of_bears hbears hconventions hd).gains hgains'
      · exact hclosed ret' hret'

theorem dropUnseen (h : Calm f ss b) {kind : HookKind} {seen : List Anchor}
    (hseen : ∀ a callee, f.Asks a callee → a.kind = kind → a ∈ seen)
    (detector : Option Detector) :
    Calm f ss (b.dropUnseen kind seen) ∧
      b.tally.Gains detector (b.dropUnseen kind seen).tally := by
  have hsound := dropUnseen_sound h.sound kind seen
  have heq := b.dropUnseen_of_inactive kind seen (by
    rintro a ⟨hkind, ha, hunseen⟩
    cases hk : b.hooks.active[a]? with
    | none => rfl
    | some k =>
      obtain ⟨callee, hcallee⟩ := h.anchored hk (ha.trans h.same.id_eq)
      exact absurd (hseen a callee hcallee hkind) hunseen)
  rw [heq] at hsound ⊢
  refine ⟨⟨hsound, h.same, h.registered, h.stands, h.anchored⟩, .refl h.registered, rfl, rfl,
    fun hk => hk, rfl, rfl, Nat.le_refl _, fun _ => rfl, fun hlt => absurd hlt (Nat.lt_irrefl _)⟩

theorem dropCalls (h : Calm f ss b) (detector : Option Detector) :
    Calm f ss (b.dropUnseen .call
        ((Snapshot.take f).calls.map fun site => .call ⟨f.id, site.statement⟩)) ∧
      b.tally.Gains detector (b.dropUnseen .call
        ((Snapshot.take f).calls.map fun site => .call ⟨f.id, site.statement⟩)).tally := by
  refine h.dropUnseen (fun a callee ha hkind => ?_) detector
  cases ha with
  | entry | ret => cases hkind
  | call hsite => exact List.mem_map_of_mem hsite

theorem dropReturns (h : Calm f ss b) (detector : Option Detector) :
    Calm f ss (b.dropUnseen .ret ((Snapshot.take f).returns.map fun ret => .ret ⟨f.id, ret⟩)) ∧
      b.tally.Gains detector
        (b.dropUnseen .ret ((Snapshot.take f).returns.map fun ret => .ret ⟨f.id, ret⟩)).tally := by
  refine h.dropUnseen (fun a callee ha hkind => ?_) detector
  cases ha with
  | entry | call => cases hkind
  | ret hret => exact List.mem_map_of_mem hret

theorem start (h : Calm b.function ss b) (ho : ∀ pop ∈ Hooks.popOf? b.function (.take b.function),
    b.hooks.observed[Callee.ofFunction b.function]? = some pop) (detector : Option Detector) :
    Calm b.function ss (b.start (.take b.function)) ∧
      b.tally.Gains detector (b.start (.take b.function)).tally := by
  have hstart : b.start (.take b.function) = { b with hooks := b.hooks.touch b.function.id } := by
    have htouched : ∀ pop ∈ Hooks.popOf? b.function (.take b.function),
        (b.hooks.touch b.function.id).observed[Callee.ofFunction b.function]? = some pop := ho
    rw [Bench.start, Hooks.observe_eq_self htouched]
  rw [hstart]
  refine ⟨⟨h.sound.congr rfl rfl rfl rfl, h.same, h.registered, h.stands, h.anchored⟩,
    .refl h.registered, rfl, rfl, fun hk => hk, rfl, rfl, Nat.le_refl _, fun _ => rfl, ?_⟩
  exact fun hlt => absurd hlt (Nat.lt_irrefl _)

theorem instrument {sources : Sources} (h : Calm b.function sources.signatures.value b)
    (hf : b.function.Orderly) (hd : ∀ d ∈ sources.detector, d.IsBuiltin)
    (hc : b.conventions.poisoned = false) (hss : sources.signatures.poisoned = false)
    (ho : ∀ pop ∈ Hooks.popOf? b.function (.take b.function),
      b.hooks.observed[Callee.ofFunction b.function]? = some pop) :
    ∃ b', b.instrument sources (.take b.function) = .ok b' ∧
      Calm b.function sources.signatures.value b' ∧ b.tally.Gains sources.detector b'.tally ∧
      ∀ a callee, b.function.Asks a callee → b'.tally.Closed sources.detector a callee := by
  obtain ⟨hcalm, hgains⟩ := h.start ho sources.detector
  have hdecided := (resolve_answered hd hcalm.registered (Callee.ofFunction b.function)).2
  obtain ⟨b₁, h₁, hcalm₁, hgains₁, hclosed₁, hconventions⟩ := hcalm.ask hf hd .entry
  obtain ⟨b₂, h₂, hcalm₂, hgains₂, hclosed₂⟩ := hcalm₁.settleCalls hf hd fun _ hsite => hsite
  obtain ⟨hcalm₃, hgains₃⟩ := hcalm₂.dropCalls sources.detector
  have hanswered := hgains₂.answered.trans hgains₃.answered
  rw [← hconventions] at hdecided
  have hplan : ∀ ret, (b.informed sources.detector (.take b.function)).returnPlan
      sources.signatures.value ret = (b₂.dropUnseen .call ((Snapshot.take b.function).calls.map
        fun site => .call ⟨b.function.id, site.statement⟩)).wish sources.signatures.value
          (.ret ⟨b.function.id, ret⟩) (.ofFunction b.function) := by
    intro ret
    have hlookup := hdecided.lookup?_eq hanswered
    simp only [tally] at hlookup
    rw [returnPlan, informed_function, wish, Plan.for?, hlookup, hconventions]
    rfl
  obtain ⟨b₃, h₃, hcalm₄, hgains₄, hclosed₄⟩ :=
    hcalm₃.settleReturns hf (fun _ hret => hret) hplan (hdecided.answered hanswered)
  obtain ⟨hcalm₅, hgains₅⟩ := hcalm₄.dropReturns sources.detector
  have hentry : (b.informed sources.detector (.take b.function)).entryPlan sources.signatures.value =
      (b.informed sources.detector (.take b.function)).wish sources.signatures.value
        (.entry b.function.id) (.ofFunction b.function) := by
    rw [entryPlan, informed_function, wish, Plan.for?]
  have hserves : (Snapshot.take b.function).mismatch? b.function = none :=
    Snapshot.mismatch?_eq_none.mpr ⟨rfl, rfl⟩
  refine ⟨_, ?_, hcalm₅, (((hgains.trans hgains₁).trans hgains₂).trans hgains₃).trans
    (hgains₄.trans hgains₅), ?_⟩
  · have hinformed : (b.informed sources.detector (.take b.function)).settle (.entry b.function.id)
        ((b.informed sources.detector (.take b.function)).wish sources.signatures.value
          (.entry b.function.id) (.ofFunction b.function)) = .ok b₁ := h₁
    rw [instrument_eq hserves hc hss, hentry, hinformed]
    simp only [bind, Except.bind, h₂, h₃]
  · intro a callee ha
    cases ha with
    | entry => exact hclosed₁.gains (((hgains₂.trans hgains₃).trans hgains₄).trans hgains₅)
    | call hsite => exact (hclosed₂ _ hsite).gains ((hgains₃.trans hgains₄).trans hgains₅)
    | ret hret => exact (hclosed₄ _ hret).gains hgains₅

end Calm

end Bench

end CallEffects
