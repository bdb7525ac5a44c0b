import CallEffects.Proofs.Grants
import Mathlib.Data.List.Dedup

/-!
# One key, one hook

`Round.Session` is any sequence of turns, with a journal of the hooks that were granted and of the
numbers that lifted statements have had. However long it is, a key stands for one hook that never
changes, no number belongs to two hooks or to a hook and a lifted statement, and as many hooks are
cached as keys were asked for. So an unedited function reads the same whenever an instrumentation
asks for the same keys.
-/

namespace CallEffects

open Std

/-- What a session has granted, oldest first, and the numbers that lifted statements have had. -/
structure Journal where
  grants : List Grant
  lifted : List StatementRef

/-- A key stands for one hook, and a number for one statement. -/
structure Journal.Identifies (j : Journal) (h : Hooks) : Prop where
  /-- A hook is granted again exactly when its key is asked for again. -/
  hook_iff : ∀ g ∈ j.grants, ∀ g' ∈ j.grants, g.hook = g'.hook ↔ g.key = g'.key
  id_iff : ∀ g ∈ j.grants, ∀ g' ∈ j.grants, g.hook.id = g'.hook.id ↔ g.key = g'.key
  /-- A hook is found by its id as it was when it was granted. -/
  unchanged : ∀ g ∈ j.grants, g.hook.key = g.key ∧ h.find? g.hook.id = some g.hook
  active : ∀ (a : Anchor) (k : Hook), h.active[a]? = some k →
    ∃ g ∈ j.grants, g.hook = k ∧ g.key.anchor = a
  disjoint : ∀ g ∈ j.grants, ∀ g' ∈ j.grants, g.hook ≠ g'.hook →
    g.key.anchor.function = g'.key.anchor.function →
      g.hook.statementIds.Disjoint g'.hook.statementIds
  apart : ∀ g ∈ j.grants, ∀ ref ∈ j.lifted, ref.function = g.key.anchor.function →
    ref.statement ∉ g.hook.statementIds
  cached : ∀ k, k ∈ h.built ↔ ∃ g ∈ j.grants, g.hook = k
  /-- As many hooks are cached as keys have been asked for. -/
  count : h.built.length = (j.grants.map (·.key)).dedup.length

/-- The numbers of the journal have been handed out by the functions they belong to. -/
structure Journal.HandedOut (j : Journal) (fs : Functions) : Prop where
  grants : ∀ g ∈ j.grants, ∀ f ∈ fs, f.id = g.key.anchor.function →
    ∀ id ∈ g.hook.statementIds, f.HandedOut id
  lifted : ∀ ref ∈ j.lifted, ∀ f ∈ fs, f.id = ref.function → f.HandedOut ref.statement

namespace Round

variable {r r' : Round} {f g : Function} {sources sources' : Sources} {s : Snapshot} {b : Bench}
variable {serves serves' : Function → Snapshot → Prop} {x₀ x x' : Sources × Round} {j : Journal}
variable {ref : StatementRef}

def liftedRefs (r : Round) : List StatementRef :=
  r.functions.flatMap fun f =>
    (f.statements.filter (!·.isSynthetic)).map fun s => ⟨f.id, s.id⟩

/-- The number has been handed out, and not to a hook. -/
structure SetAside (r : Round) (ref : StatementRef) : Prop where
  handed_out : ∃ f, r.functions[ref.function]? = some f ∧ ref.statement < f.nextStatement
  not_hook : ∀ k ∈ r.hooks.built, k.anchor.function = ref.function → ref.statement ∉ k.statementIds

theorem InOrder.setAside (h : r.InOrder) : ∀ ref ∈ r.liftedRefs, r.SetAside ref := by
  intro ref href
  obtain ⟨f, hf, href⟩ := List.mem_flatMap.mp href
  obtain ⟨s, hs, rfl⟩ := List.mem_map.mp href
  obtain ⟨hs, hl⟩ := List.mem_filter.mp hs
  have hacc := h.accounts f hf
  exact ⟨⟨f, h.getElem? hf, hacc.numbered.bounded s hs⟩,
    fun k hk hkf => hacc.apart hk hkf s hs (by simpa using hl)⟩

/-! ## Numbers from turn to turn -/

/-- What has been built took its numbers from those its function had not handed out. -/
structure Mints (r r' : Round) : Prop where
  next_le : Functions.Each (fun f g => f.nextStatement ≤ g.nextStatement) r.functions r'.functions
  built : ∃ new, r'.hooks.built = r.hooks.built ++ new ∧ ∀ k ∈ new, ∃ f : Function,
    r.functions[k.anchor.function]? = some f ∧ ∀ id ∈ k.statementIds, f.nextStatement ≤ id

theorem Mints.of_eq (hf : r'.functions = r.functions) (hb : r'.hooks.built = r.hooks.built) :
    r.Mints r' :=
  ⟨hf ▸ .refl (fun _ => Nat.le_refl _) _, [], by simp [hb], by simp⟩

theorem Mints.present (hm : r.Mints r')
    (h : ∀ k ∈ r.hooks.built, k.anchor.function < r.functions.length) :
    ∀ k ∈ r'.hooks.built, k.anchor.function < r'.functions.length := by
  obtain ⟨new, hnew, hids⟩ := hm.built
  intro k hk
  rw [hm.next_le.length_eq]
  rw [hnew] at hk
  rcases List.mem_append.mp hk with hk | hk
  · exact h k hk
  · obtain ⟨f, hf, -⟩ := hids k hk
    exact (List.getElem?_eq_some_iff.mp hf).1

theorem SetAside.mints (h : r.SetAside ref) (hm : r.Mints r') : r'.SetAside ref := by
  obtain ⟨f, hf, hlt⟩ := h.handed_out
  obtain ⟨g, hg, hle⟩ := hm.next_le.related hf
  obtain ⟨new, hnew, hids⟩ := hm.built
  refine ⟨⟨g, hg, Nat.lt_of_lt_of_le hlt hle⟩, ?_⟩
  intro k hk hkf hmem
  rw [hnew] at hk
  rcases List.mem_append.mp hk with hk | hk
  · exact h.not_hook k hk hkf hmem
  · obtain ⟨f', hf', hids⟩ := hids k hk
    rw [hkf, hf] at hf'
    obtain rfl := Option.some.inj hf'
    exact Nat.not_lt_of_le (hids _ hmem) hlt

theorem InOrder.putBack_mints (h : r.InOrder) (hf : f ∈ r.functions)
    {detector : Option Detector} {signatures : Signatures} {wanted : Anchor → Prop}
    (hm : Bench.Moves detector signatures wanted (r.bench f) b) : r.Mints (r.putBack b) := by
  have hid : b.function.id = f.id := Bench.Moves.function_id hm
  have hmints := Bench.Moves.mints hm
  obtain ⟨new, hnew, hmine⟩ := hmints.built
  refine ⟨?_, new, hnew, ?_⟩
  · rw [functions_putBack hid]
    exact .set (fun _ => Nat.le_refl _) (h.getElem? hf) hmints.next_le
  · intro k hk
    obtain ⟨hfunction, hids⟩ := hmine k hk
    exact ⟨f, hfunction ▸ h.getElem? hf, hids⟩

theorem Turn.mints (h : Turn serves x x') (hx : x.2.InOrder) : x.2.Mints x'.2 := by
  cases h with
  | conventions | signFunction | signCall | detector | note => exact .of_eq rfl rfl
  | edit sources r f g e hf hl he =>
    refine ⟨.set (fun _ => Nat.le_refl _) (hx.getElem? hf) ?_, [], by simp, by simp⟩
    exact CodeEdit.apply_next_le (hx.accounts f hf).numbered hl he
  | observe sources r f s =>
    rw [Hooks.observe_fields]
    exact .of_eq rfl rfl
  | instrument sources r f s hf =>
    rcases instrument_cases r sources s (hx.getElem? hf) with heq | ⟨-, hm⟩
    · rw [heq]
      exact .of_eq rfl rfl
    · rw [left_instrument]
      exact hx.putBack_mints hf (.head (.start _ s) hm)
  | deinstrument sources r f hf =>
    have hm : Bench.Moves none .empty (fun _ => False) (r.bench f) _ :=
      (r.bench f).deinstrument_moves
    exact hx.putBack_mints hf hm

/-! ## Sessions -/

/-- Turns taken one after the other, with the journal kept on them. -/
inductive Session (serves : Function → Snapshot → Prop) (x₀ : Sources × Round) :
    Journal → Sources × Round → Prop
  | start : Session serves x₀ ⟨[], x₀.2.liftedRefs⟩ x₀
  | instrument {j : Journal} {sources : Sources} {r : Round}
      (h : Session serves x₀ j (sources, r)) (f : Function) (s : Snapshot) (hf : f ∈ r.functions)
      (hs : serves f s) :
      Session serves x₀
        ⟨j.grants ++ (r.bench f).instrumentGrants sources s,
          j.lifted ++ (left (r.instrument sources f s)).liftedRefs⟩
        (sources, left (r.instrument sources f s))
  | other {j : Journal} {x x' : Sources × Round} (h : Session serves x₀ j x)
      (ht : Turn (fun _ _ => False) x x') :
      Session serves x₀ ⟨j.grants, j.lifted ++ x'.2.liftedRefs⟩ x'

theorem Session.mono (hserves : ∀ f s, serves f s → serves' f s) (h : Session serves x₀ j x) :
    Session serves' x₀ j x := by
  induction h with
  | start => exact .start
  | instrument h f s hf hs ih => exact ih.instrument f s hf (hserves f s hs)
  | other h ht ih => exact ih.other ht

theorem Session.turns (h : Session serves x₀ j x) : Turns serves x₀ x := by
  induction h with
  | start => exact .refl
  | instrument h f s hf hs ih => exact ih.tail (.instrument _ _ f s hf hs)
  | other h ht ih => exact ih.tail (ht.mono fun _ _ h => h.elim)

theorem Session.next (h : Session serves x₀ j x) (ht : Turn serves x x') :
    ∃ j', Session serves x₀ j' x' := by
  cases ht with
  | instrument sources r f s hf hs => exact ⟨_, h.instrument f s hf hs⟩
  | conventions sources r cs hcs => exact ⟨_, h.other (.conventions sources r cs hcs)⟩
  | signFunction sources r callee s => exact ⟨_, h.other (.signFunction sources r callee s)⟩
  | signCall sources r call s => exact ⟨_, h.other (.signCall sources r call s)⟩
  | detector sources r d => exact ⟨_, h.other (.detector sources r d)⟩
  | edit sources r f g e hf hl he => exact ⟨_, h.other (.edit sources r f g e hf hl he)⟩
  | observe sources r f s => exact ⟨_, h.other (.observe sources r f s)⟩
  | deinstrument sources r f hf => exact ⟨_, h.other (.deinstrument sources r f hf)⟩
  | note sources r snapshots cancellation asked stats =>
    exact ⟨_, h.other (.note sources r snapshots cancellation asked stats)⟩

theorem Turns.exists_session (h : Turns serves x₀ x) : ∃ j, Session serves x₀ j x := by
  induction h with
  | refl => exact ⟨_, .start⟩
  | tail _ ht ih =>
    obtain ⟨j, hj⟩ := ih
    exact hj.next ht

theorem Turn.built_eq (h : Turn (fun _ _ => False) x x') : x'.2.hooks.built = x.2.hooks.built := by
  cases h with
  | conventions | signFunction | signCall | detector | edit | note => rfl
  | observe sources r f s => rw [Hooks.observe_fields]
  | instrument sources r f s hf hs => exact hs.elim
  | deinstrument sources r f hf => exact Bench.foldl_detach_built _ (r.bench f)

/-- What the journal says of the hooks and the numbers that are there now. -/
structure Logged (j : Journal) (r : Round) : Prop where
  granted : ∀ g ∈ j.grants, g.hook ∈ r.hooks.built ∧ g.hook.key = g.key
  built : ∀ k ∈ r.hooks.built, ⟨k.key, k⟩ ∈ j.grants
  keys_nodup : (r.hooks.built.map (·.key)).Nodup
  present : ∀ k ∈ r.hooks.built, k.anchor.function < r.functions.length
  lifted : ∀ ref ∈ j.lifted, r.SetAside ref

theorem Fresh.logged (h : r.Fresh) : Logged ⟨[], r.liftedRefs⟩ r := by
  refine ⟨by simp, ?_, ?_, ?_, h.inOrder.setAside⟩ <;> simp [h.hooks, Hooks.empty]

theorem setAside_append (hm : r.Mints r') (hin : r'.InOrder) {lifted : List StatementRef}
    (h : ∀ ref ∈ lifted, r.SetAside ref) : ∀ ref ∈ lifted ++ r'.liftedRefs, r'.SetAside ref := by
  intro ref href
  rcases List.mem_append.mp href with href | href
  · exact (h ref href).mints hm
  · exact hin.setAside ref href

theorem Logged.other (h : Logged j x.2) (hx : x.2.InOrder) (ht : Turn (fun _ _ => False) x x') :
    Logged ⟨j.grants, j.lifted ++ x'.2.liftedRefs⟩ x'.2 := by
  have hbuilt := ht.built_eq
  constructor
  · rw [hbuilt]
    exact h.granted
  · rw [hbuilt]
    exact h.built
  · rw [hbuilt]
    exact h.keys_nodup
  · exact (ht.mints hx).present h.present
  · exact setAside_append (ht.mints hx) (ht.inOrder hx) h.lifted

theorem InOrder.instrument_keys_nodup (h : r.InOrder) (hf : f ∈ r.functions) (s : Snapshot)
    (hn : (r.hooks.built.map (·.key)).Nodup) :
    ((left (r.instrument sources f s)).hooks.built.map (·.key)).Nodup := by
  rcases instrument_cases r sources s (h.getElem? hf) with heq | ⟨-, hm⟩
  · rwa [heq]
  · rw [left_instrument]
    have hmoves : Bench.Moves sources.detector sources.signatures.value (· ∈ s.anchors f.id)
        (r.bench f) _ := .head (.start _ s) hm
    exact hmoves.keys_nodup hn

theorem Logged.instrument (h : Logged j r) (hin : r.InOrder) (hf : f ∈ r.functions)
    (s : Snapshot) :
    Logged ⟨j.grants ++ (r.bench f).instrumentGrants sources s,
        j.lifted ++ (left (r.instrument sources f s)).liftedRefs⟩
      (left (r.instrument sources f s)) := by
  have hturn : Turn (fun _ _ => True) (sources, r) (sources, left (r.instrument sources f s)) :=
    .instrument sources r f s hf trivial
  have hlogs := (r.bench f).instrument_logs sources s
  have hbuilt : (left (r.instrument sources f s)).hooks.built =
      (Bench.left ((r.bench f).instrument sources s)).hooks.built := by
    rw [left_instrument]
    rfl
  obtain ⟨new, hnew, hlisted⟩ := hlogs.built
  constructor
  · intro g hg
    rw [hbuilt]
    rcases List.mem_append.mp hg with hg | hg
    · obtain ⟨hmem, hkey⟩ := h.granted g hg
      exact ⟨hnew ▸ List.mem_append_left _ hmem, hkey⟩
    · exact hlogs.granted g hg
  · intro k hk
    rw [hbuilt, hnew] at hk
    rcases List.mem_append.mp hk with hk | hk
    · exact List.mem_append_left _ (h.built k hk)
    · exact List.mem_append_right _ (hlisted k hk)
  · exact hin.instrument_keys_nodup hf s h.keys_nodup
  · exact (hturn.mints hin).present h.present
  · exact setAside_append (hturn.mints hin) (hturn.inOrder hin) h.lifted

theorem Session.logged (h : Session serves x₀ j x) (hfresh : x₀.2.Fresh) : Logged j x.2 := by
  induction h with
  | start => exact hfresh.logged
  | instrument h f s hf hs ih =>
    exact ih.instrument (h.turns.inOrder hfresh.inOrder) hf s
  | other h ht ih => exact ih.other (h.turns.inOrder hfresh.inOrder) ht

theorem Logged.disjoint (h : Logged j r) (hin : r.InOrder) {k k' : Hook} (hk : k ∈ r.hooks.built)
    (hk' : k' ∈ r.hooks.built) (hne : k ≠ k') (hf : k.anchor.function = k'.anchor.function) :
    k.statementIds.Disjoint k'.statementIds := by
  have hget := List.getElem?_eq_getElem (h.present k hk)
  have hid := hin.ids hget
  exact fun id => (hin.accounts _ (List.mem_of_getElem? hget)).disjoint hk hk' hid.symm
    (hf.symm.trans hid.symm) hne id

theorem Logged.count (h : Logged j r) :
    r.hooks.built.length = (j.grants.map (·.key)).dedup.length := by
  have hperm : (r.hooks.built.map (·.key)).Perm (j.grants.map (·.key)).dedup := by
    refine (List.perm_ext_iff_of_nodup h.keys_nodup (List.nodup_dedup _)).mpr fun key => ?_
    rw [List.mem_dedup]
    constructor
    · intro hmem
      obtain ⟨k, hk, rfl⟩ := List.mem_map.mp hmem
      exact List.mem_map_of_mem (h.built k hk)
    · intro hmem
      obtain ⟨g, hg, rfl⟩ := List.mem_map.mp hmem
      obtain ⟨hbuilt, hkey⟩ := h.granted g hg
      exact hkey ▸ List.mem_map_of_mem hbuilt
  simpa using hperm.length_eq

theorem Logged.identifies (h : Logged j r) (hin : r.InOrder) : j.Identifies r.hooks := by
  have hc := hin.consistent
  have hkeys : ∀ g ∈ j.grants, ∀ g' ∈ j.grants, g.key = g'.key → g.hook = g'.hook := by
    intro g hg g' hg' hkey
    obtain ⟨hmem, hgk⟩ := h.granted g hg
    obtain ⟨hmem', hgk'⟩ := h.granted g' hg'
    exact hc.key_inj hmem hmem' (hgk.trans (hkey.trans hgk'.symm))
  have hhooks : ∀ g ∈ j.grants, ∀ g' ∈ j.grants, g.hook = g'.hook → g.key = g'.key := by
    intro g hg g' hg' hhook
    rw [← (h.granted g hg).2, ← (h.granted g' hg').2, hhook]
  constructor
  · exact fun g hg g' hg' => ⟨hhooks g hg g' hg', hkeys g hg g' hg'⟩
  · intro g hg g' hg'
    constructor
    · exact fun hid => hhooks g hg g' hg' (hc.id_inj (h.granted g hg).1 (h.granted g' hg').1 hid)
    · exact fun hkey => congrArg Hook.id (hkeys g hg g' hg' hkey)
  · exact fun g hg => ⟨(h.granted g hg).2, hc.find?_id (h.granted g hg).1⟩
  · intro a k hk
    obtain ⟨hbuilt, ha⟩ := hc.active_built hk
    exact ⟨_, h.built k hbuilt, rfl, ha⟩
  · intro g hg g' hg' hne hfunction
    obtain ⟨hmem, hkey⟩ := h.granted g hg
    obtain ⟨hmem', hkey'⟩ := h.granted g' hg'
    rw [← hkey, ← hkey'] at hfunction
    exact h.disjoint hin hmem hmem' hne hfunction
  · intro g hg ref href hfunction
    obtain ⟨hmem, hkey⟩ := h.granted g hg
    rw [← hkey] at hfunction
    exact (h.lifted ref href).not_hook _ hmem hfunction.symm
  · intro k
    constructor
    · exact fun hk => ⟨_, h.built k hk, rfl⟩
    · rintro ⟨g, hg, rfl⟩
      exact (h.granted g hg).1
  · exact h.count

theorem Logged.handedOut (h : Logged j r) (hin : r.InOrder) : j.HandedOut r.functions := by
  constructor
  · intro g hg f hf hid id hmem
    obtain ⟨hbuilt, hkey⟩ := h.granted g hg
    rw [← hkey] at hid
    obtain ⟨t, ht, rfl⟩ := List.mem_map.mp hmem
    exact Function.handedOut_of_lt ((hin.accounts f hf).below hbuilt hid.symm t ht)
  · intro ref href f hf hid
    obtain ⟨f', hf', hlt⟩ := (h.lifted ref href).handed_out
    rw [← hid, hin.getElem? hf] at hf'
    obtain rfl := Option.some.inj hf'
    exact Function.handedOut_of_lt hlt

/-- What an instrumentation asks for, in terms of the round it begins with. -/
theorem instrument_madeOf {g : Grant} (hg : g ∈ (r.bench f).instrumentGrants sources s) :
    ∃ cs : Conventions, r.conventions.value.Extends cs ∧
      cs.Extends (left (r.instrument sources f s)).conventions.value ∧
      g.key.MadeOf cs sources.signatures.value (r.hooks.observe f s).observed f s := by
  obtain ⟨c, hstart, hend, hmade⟩ := Bench.instrument_madeOf hg
  have hobserved : ((r.bench f).start s).hooks.observed = (r.hooks.observe f s).observed := by
    simp only [Bench.start, Hooks.observe, bench]
    split <;> rfl
  refine ⟨c.conventions.value, hstart.grown, ?_, ?_⟩
  · rw [left_instrument]
    exact hend.grown
  · rw [← hobserved, ← hstart.observed]
    exact hmade

/-! ## Bodies -/

/-- Right after an instrumentation a woven function reads as its code with its hooks. -/
theorem InOrder.instrument_reads (h : r.InOrder) (hw : r.Woven) (hf : f ∈ r.functions)
    (hs : s.Genuine f) (hok : r.instrument sources f s = .ok r') :
    ∃ f', r'.functions[f.id]? = some f' ∧ f.SameCode f' ∧ f'.Reads r'.hooks := by
  obtain ⟨b, hb, rfl⟩ := instrument_eq_ok hok
  have hsound := h.bench_sound hf
  obtain ⟨ever, gone, hweave⟩ := hw f hf
  obtain ⟨b₁, b₂, hcourse⟩ := Bench.instrument_course hsound hb
  have hoffers := hs.offers hcourse.serves h.consistent hweave
  have hmoves : Bench.Moves sources.detector sources.signatures.value
      (· ∈ s.anchors f.id) (r.bench f) b := Bench.moves_of_instrument_eq_ok hb
  have hid : b.function.id = f.id := Bench.Moves.function_id hmoves
  refine ⟨b.function, h.getElem?_putBack hf hid, Bench.Moves.sameCode hmoves hsound, ?_⟩
  intro i block hblock
  refine (Bench.Moves.weave hmoves hsound hoffers hweave).reads hcourse.sound.1 ?_ hblock
  intro a k hk ha
  rw [hid] at ha ⊢
  exact hoffers a (hcourse.anchors hk ha)

theorem Turns.built_prefix (h : Turns serves x x') (hx : x.2.InOrder) :
    x.2.hooks.built <+: x'.2.hooks.built := by
  induction h with
  | refl => exact List.prefix_rfl
  | tail hts ht ih =>
    obtain ⟨new, hnew, -⟩ := (ht.mints (Turns.inOrder hts hx)).built
    exact ih.trans ⟨new, hnew.symm⟩

/-- What one instrumentation and a later one of the same function ask for says which hooks are
active after either. -/
theorem InOrder.active_eq_of_keys {q q' : Round} {t : Snapshot} (hr : r.InOrder) (hq : q.InOrder)
    (hf : f ∈ r.functions) (hg : g ∈ q.functions) (hid : g.id = f.id) (hs : s.Genuine f)
    (ht : t.Genuine g) (hok : r.instrument sources f s = .ok r')
    (hok' : q.instrument sources' g t = .ok q') (hc : q'.hooks.Consistent)
    (hbuilt : r'.hooks.built <+: q'.hooks.built)
    (hkeys : ∀ key, key ∈ (r.bench f).instrumentKeys sources s ↔
      key ∈ (q.bench g).instrumentKeys sources' t) {a : Anchor} (ha : a.function = f.id) :
    q'.hooks.active[a]? = r'.hooks.active[a]? := by
  obtain ⟨b, hb, rfl⟩ := instrument_eq_ok hok
  obtain ⟨c, hc', rfl⟩ := instrument_eq_ok hok'
  have ha' : a.function = (q.bench g).function.id := ha.trans hid.symm
  apply Option.ext
  intro k
  have hleft := Bench.instrument_active_iff_key (a := a) (k := k) (hr.bench_sound hf)
    (hs.distinct (Bench.readable_of_instrument_eq_ok hb).1) hb hc hbuilt
  have hright := Bench.instrument_active_iff_key (a := a) (k := k) (hq.bench_sound hg)
    (ht.distinct (Bench.readable_of_instrument_eq_ok hc').1) hc' hc List.prefix_rfl
  rw [hkeys k.key, ← hright] at hleft
  exact ⟨fun hk => (hleft.mpr ⟨hk, ha'⟩).1, fun hk => (hleft.mp ⟨hk, ha⟩).1⟩

/-- With no edit in between, a function is the same after two instrumentations that ask for the same
keys. -/
theorem Session.blocks_eq {q q' : Round} {t : Snapshot} (hr : r.InOrder) (hw : r.Woven)
    (hf : f ∈ r.functions) (hs : s.Genuine f) (hok : r.instrument sources f s = .ok r')
    (h : Session (fun f s => s.Genuine f) (sources, r') j (sources', q)) (hg : g ∈ q.functions)
    (hid : g.id = f.id) (hrevision : g.revision = f.revision) (ht : t.Genuine g)
    (hok' : q.instrument sources' g t = .ok q')
    (hkeys : ∀ key, key ∈ (r.bench f).instrumentKeys sources s ↔
      key ∈ (q.bench g).instrumentKeys sources' t) :
    (q'.functions[f.id]?).map (·.blocks) = (r'.functions[f.id]?).map (·.blocks) := by
  have hfirst : Turn (fun f s => s.Genuine f) (sources, r) (sources, r') := by
    have hturn : Turn (fun f s => s.Genuine f) (sources, r) _ := .instrument sources r f s hf hs
    rwa [hok] at hturn
  have hsecond : Turn (fun f s => s.Genuine f) (sources', q) (sources', q') := by
    have hturn : Turn (fun f s => s.Genuine f) (sources', q) _ := .instrument sources' q g t hg ht
    rwa [hok'] at hturn
  have hbetween : Turns (fun f s => s.Genuine f) (sources, r') (sources', q) := h.turns
  have hr' : r'.InOrder := hfirst.inOrder hr
  have hq : q.InOrder := Turns.inOrder hbetween hr'
  have hq' : q'.InOrder := hsecond.inOrder hq
  have hwq : q.Woven := Turns.woven hbetween hr' (hfirst.woven hr hw)
  obtain ⟨f', hf', hsame, hreads⟩ := hr.instrument_reads hw hf hs hok
  obtain ⟨g', hg', hsame', hreads'⟩ := hq.instrument_reads hwq hg ht hok'
  obtain ⟨k, hk, hlater⟩ := (Turns.later hbetween hr').related hf'
  have hplace := hq.getElem? hg
  rw [hid, hk] at hplace
  obtain rfl := Option.some.inj hplace
  have hunedited : f'.SameCode k := by
    have heq : k.revision = f'.revision := hrevision.trans hsame.revision_eq.symm
    exact ⟨hlater.id_eq, hlater.entryAddress_eq, heq, hlater.code_eq heq⟩
  have hbuilt := Turns.built_prefix (hbetween.tail hsecond) hr'
  have hrehooked : f'.Rehooked g' r'.hooks q'.hooks :=
    ⟨hunedited.trans hsame', hr'.consistent, hq'.consistent, hreads, hreads'⟩
  have hblocks : g'.blocks = f'.blocks := hrehooked.blocks_eq fun a ha =>
    hr.active_eq_of_keys hq hf hg hid hs ht hok hok' hq'.consistent hbuilt hkeys
      (ha.trans hsame.id_eq)
  rw [hf', ← hid, hg', Option.map_some, Option.map_some, hblocks]

/-- Whatever was done since no hook was there, a key stands for one hook and a number for one
statement; the numbers are those that a count in 32 bits gives while a function has had at most
`2 ^ 32` of them. What the next instrumentation asks for is made of an anchor of the snapshot, the
convention of the callee, the signature in force and the adjustment of the stack. If it succeeds, the
active hooks of the function are those that were granted, and whenever the same keys are asked for
again, with no edit of the function in between, it has the same blocks again. -/
theorem keys_identify_hooks (hfresh : x₀.2.Fresh) (h : Session serves x₀ j x) :
    j.Identifies x.2.hooks ∧ j.HandedOut x.2.functions ∧
      (∀ f s, ∀ g ∈ (x.2.bench f).instrumentGrants x.1 s, ∃ cs : Conventions,
        x.2.conventions.value.Extends cs ∧
          cs.Extends (left (x.2.instrument x.1 f s)).conventions.value ∧
          g.key.MadeOf cs x.1.signatures.value (x.2.hooks.observe f s).observed f s) ∧
      ((∀ f s, serves f s → s.Genuine f) → ∀ f ∈ x.2.functions, ∀ s, serves f s →
        ∀ r', x.2.instrument x.1 f s = .ok r' →
          (∀ (a : Anchor) (k : Hook), r'.hooks.active[a]? = some k ∧ a.function = f.id ↔
            ∃ g ∈ (x.2.bench f).instrumentGrants x.1 s, g.hook = k ∧ g.key.anchor = a) ∧
          ∀ j' y, Session serves (x.1, r') j' y → ∀ g ∈ y.2.functions, g.id = f.id →
            g.revision = f.revision → ∀ t, serves g t → ∀ r'', y.2.instrument y.1 g t = .ok r'' →
            (∀ key, key ∈ (x.2.bench f).instrumentKeys x.1 s ↔
              key ∈ (y.2.bench g).instrumentKeys y.1 t) →
            (r''.functions[f.id]?).map (·.blocks) = (r'.functions[f.id]?).map (·.blocks)) := by
  have hin : x.2.InOrder := h.turns.inOrder hfresh.inOrder
  refine ⟨(h.logged hfresh).identifies hin, (h.logged hfresh).handedOut hin,
    fun f s g hg => instrument_madeOf hg, ?_⟩
  intro hserves f hf s hs r' hok
  have hw : x.2.Woven := (h.mono hserves).turns.woven hfresh.inOrder hfresh.woven
  constructor
  · intro a k
    obtain ⟨b, hb, rfl⟩ := instrument_eq_ok hok
    have hdistinct := (hserves f s hs).distinct (Bench.readable_of_instrument_eq_ok hb).1
    exact Bench.instrument_active (hin.bench_sound hf) hdistinct hb
  · intro j' y h' g hg hid hrevision t ht r'' hok' hkeys
    exact Session.blocks_eq hin hw hf (hserves f s hs) hok (h'.mono hserves) hg hid hrevision
      (hserves g t ht) hok' hkeys

def hookedSample : Round :=
  left (sample.instrument ⟨none, .sound .empty⟩ Function.sample (.take Function.sample))

/-- Once its function has been instrumented, what it calls gets a convention of its own. -/
def reassignedSample : Round :=
  let conventions := (hookedSample.conventions.value.register .stdcall).2
  { hookedSample with
    conventions := { hookedSample.conventions with
      value := conventions.assign (.address 0x2000) 1 } }

/-- The second time the entry and the return get the hooks they have, and the call gets another. -/
theorem sample_keys_identify_hooks :
    ∃ (j : Journal) (x : Sources × Round),
      Session (fun f s => s.Genuine f) (⟨none, .sound .empty⟩, sample) j x ∧
        j.grants.length = 6 ∧ x.2.hooks.built.length = 4 ∧ j.Identifies x.2.hooks := by
  have hmem : Function.sample ∈ sample.functions := List.mem_singleton_self _
  have hfirst : (Snapshot.take Function.sample).Genuine Function.sample :=
    sample_fresh.inOrder.genuine_take hmem (.refl _)
  have hsame : Function.sample.SameCode (hookedSample.functions.headD Function.sample) :=
    ⟨by decide +kernel, by decide +kernel, by decide +kernel, by decide +kernel⟩
  have hsecond := sample_fresh.inOrder.genuine_take hmem hsame
  have hmem' : hookedSample.functions.headD Function.sample ∈ reassignedSample.functions := by
    decide +kernel
  have hassign : Turn (fun _ _ => False) (⟨none, .sound .empty⟩, hookedSample)
      (⟨none, .sound .empty⟩, reassignedSample) :=
    .conventions _ _ _ (Conventions.extends_register _ .stdcall)
  have hsession : Session (fun f s => s.Genuine f) (⟨none, .sound .empty⟩, sample) _ _ :=
    ((Session.start.instrument _ _ hmem hfirst).other hassign).instrument _ _ hmem' hsecond
  refine ⟨_, _, hsession, ?_, ?_, (keys_identify_hooks sample_fresh hsession).1⟩
  · decide +kernel
  · decide +kernel

end Round

/-- Whatever happens to a workspace, whole runs included, is a session. -/
theorem Workspace.History.exists_session {w₀ w : Workspace} {taken : List Snapshot}
    (h : History w₀ taken w) {sources₀ : Sources} {r₀ : Round}
    (h₀ : w₀.round? = some (sources₀, r₀)) (hr₀ : r₀.InOrder) :
    ∃ sources r j, w.round? = some (sources, r) ∧
      Round.Session (fun f s => s.Genuine f) (sources₀, r₀) j (sources, r) := by
  obtain ⟨sources, r, hr, hturns, -⟩ := h.turns h₀ hr₀
  obtain ⟨j, hj⟩ := Round.Turns.exists_session hturns
  exact ⟨sources, r, j, hr, hj⟩

end CallEffects
