import CallEffects.Proofs.Settlement

/-!
# Revisions of a registry

A registry answers requests and is handed back, in assignments, only ids that it has given out. Then
names stay apart, conventions keep their ids, and a request raises the revision, by one, exactly if
it changes what is found for some callee. So whoever compares revisions compares all answers.
-/

namespace CallEffects.Conventions

open Std

variable {cs cs' cs'' : Conventions} {c : Convention} {callee : Callee} {id : ConventionId}
variable {name : String}

/-! ## Names -/

/-- No two registered conventions have one name. -/
def NamesApart (cs : Conventions) : Prop :=
  ∀ id id' c c', cs.get? id = some c → cs.get? id' = some c' → c.name = c'.name → id = id'

theorem find?_eq_none_iff :
    cs.find? name = none ↔ ∀ id c, cs.get? id = some c → c.name ≠ name := by
  rw [find?, List.findIdx?_eq_none_iff]
  constructor
  · intro h id c hc
    simpa using h c (List.mem_of_getElem? hc)
  · intro h c hc
    obtain ⟨id, hid⟩ := List.mem_iff_getElem?.mp hc
    simpa using h id c hid

theorem get?_of_find? (h : cs.find? name = some id) :
    ∃ c, cs.get? id = some c ∧ c.name = name := by
  obtain ⟨hlt, hname, -⟩ := List.findIdx?_eq_some_iff_getElem.mp h
  exact ⟨cs.registered[id], List.getElem?_eq_getElem hlt, by simpa using hname⟩

theorem NamesApart.find?_eq_some_iff (h : cs.NamesApart) :
    cs.find? name = some id ↔ ∃ c, cs.get? id = some c ∧ c.name = name := by
  refine ⟨get?_of_find?, ?_⟩
  rintro ⟨c, hc, hname⟩
  cases hfind : cs.find? name with
  | none => exact absurd hname (find?_eq_none_iff.mp hfind id c hc)
  | some id' =>
    obtain ⟨c', hc', hname'⟩ := get?_of_find? hfind
    rw [h id' id c' c hc' hc (hname'.trans hname.symm)]

/-- Registering adds one convention at most, under the id that is given back. -/
theorem get?_register_iff {id : ConventionId} {d : Convention} :
    (cs.register c).2.get? id = some d ↔
      cs.get? id = some d ∨ (cs.find? c.name = none ∧ id = (cs.register c).1 ∧ d = c) := by
  obtain ⟨id', hfind, heq⟩ | ⟨hfind, heq⟩ := cs.register_cases c
  · simp [heq, hfind]
  · rw [heq]
    simp only [get?, hfind, true_and]
    rcases Nat.lt_trichotomy id cs.registered.length with hlt | rfl | hgt
    · rw [List.getElem?_append_left hlt]
      exact (or_iff_left fun h => Nat.ne_of_lt hlt h.1).symm
    · simp [eq_comm]
    · have hnone : (cs.registered ++ [c])[id]? = none :=
        List.getElem?_eq_none (by rw [List.length_append]; exact hgt)
      rw [hnone, List.getElem?_eq_none (Nat.le_of_lt hgt)]
      simp [Nat.ne_of_gt hgt]

theorem NamesApart.register (h : cs.NamesApart) (c : Convention) :
    (cs.register c).2.NamesApart := by
  intro id id' d d' hd hd' hname
  rw [get?_register_iff] at hd hd'
  rcases hd with hd | ⟨hfind, rfl, rfl⟩ <;> rcases hd' with hd' | ⟨hfind', rfl, rfl⟩
  · exact h id id' d d' hd hd' hname
  · exact absurd hname (find?_eq_none_iff.mp hfind' id d hd)
  · exact absurd hname.symm (find?_eq_none_iff.mp hfind id' d' hd')
  · rfl

theorem NamesApart.find?_register (h : cs.NamesApart) (c : Convention) :
    (cs.register c).2.find? c.name = some (cs.register c).1 := by
  obtain ⟨id, hfind, heq⟩ | ⟨hfind, -⟩ := cs.register_cases c
  · rw [heq]
    exact hfind
  · exact (h.register c).find?_eq_some_iff.mpr
      ⟨c, get?_register_iff.mpr (.inr ⟨hfind, rfl, rfl⟩), rfl⟩

theorem NamesApart.find?_register_of_ne (h : cs.NamesApart) (hne : c.name ≠ name) :
    (cs.register c).2.find? name = cs.find? name := by
  refine Option.ext fun id => ?_
  rw [(h.register c).find?_eq_some_iff, h.find?_eq_some_iff]
  constructor
  · rintro ⟨d, hd, hname⟩
    rcases get?_register_iff.mp hd with hd | ⟨-, -, rfl⟩
    · exact ⟨d, hd, hname⟩
    · exact absurd hname hne
  · rintro ⟨d, hd, hname⟩
    exact ⟨d, get?_register_iff.mpr (.inl hd), hname⟩

/-! ## Assignments -/

theorem AllRegistered.unassign (h : cs.AllRegistered) (callee : Callee) :
    (cs.unassign callee).2.AllRegistered :=
  fun callee' id' hid' => h callee' id' (Table.getElem?_erase_eq_some hid').2

/-- What one request may change: no answer, or some answer and the revision with it. -/
def Counts (cs cs' : Conventions) : Prop :=
  (cs'.revision = cs.revision ∧ ∀ callee, cs'.lookup? callee = cs.lookup? callee) ∨
  (cs'.revision = cs.revision + 1 ∧ ∃ callee, cs'.lookup? callee ≠ cs.lookup? callee)

theorem Counts.refl (cs : Conventions) : Counts cs cs := .inl ⟨rfl, fun _ => rfl⟩

theorem AllRegistered.counts_register (h : cs.AllRegistered) (c : Convention) :
    Counts cs (cs.register c).2 := by
  refine .inl ⟨?_, h.lookup?_register c⟩
  obtain ⟨id, -, heq⟩ | ⟨-, heq⟩ := cs.register_cases c <;> rw [heq]

theorem counts_assign (hid : ∃ c, cs.get? id = some c) : Counts cs (cs.assign callee id) := by
  obtain ⟨c, hc⟩ := hid
  by_cases hsame : cs.assigned? callee = some id
  · have heq : cs.assign callee id = cs := by
      rw [assign, if_pos hsame, Table.insert_eq_self hsame]
    rw [heq]
    exact .refl cs
  · refine .inr ⟨if_neg hsame, callee, fun heq => hsame ?_⟩
    have hnew : (cs.assign callee id).lookup? callee = some (id, c) :=
      lookup?_eq_some.mpr ⟨ExtTreeMap.getElem?_insert_self, hc⟩
    exact (lookup?_eq_some.mp (heq.symm.trans hnew)).1

theorem AllRegistered.counts_unassign (h : cs.AllRegistered) (callee : Callee) :
    Counts cs (cs.unassign callee).2 := by
  cases hid : cs.assigned? callee with
  | none =>
    have heq : (cs.unassign callee).2 = cs := by
      rw [Conventions.unassign, Table.erase_eq_self hid, hid]
      rfl
    rw [heq]
    exact .refl cs
  | some id =>
    refine .inr ⟨by simp [Conventions.unassign, hid], callee, fun heq => ?_⟩
    have hnone : (cs.unassign callee).2.lookup? callee = none :=
      (h.unassign callee).lookup?_eq_none.mpr ExtTreeMap.getElem?_erase_self
    rw [h.lookup?_eq_none.mp (heq.symm.trans hnone)] at hid
    cases hid

/-! ## Requests -/

inductive Request where
  | register (c : Convention)
  | registerPreset (name : String)
  | assign (callee : Callee) (id : ConventionId)
  | unassign (callee : Callee)

def Request.perform (cs : Conventions) : Request → Option ConventionId × Conventions
  | .register c => (some (cs.register c).1, (cs.register c).2)
  | .registerPreset name =>
    match cs.registerPreset name with
    | some (id, cs') => (some id, cs')
    | none => (none, cs)
  | .assign callee id => (none, cs.assign callee id)
  | .unassign callee => cs.unassign callee

def Request.convention? : Request → Option Convention
  | .register c => some c
  | .registerPreset name => Convention.preset? name
  | .assign _ _ | .unassign _ => none

/-- A registry with the ids that it has given out, and with an index in which the first registration
under each name has entered the id that it was given. -/
structure Log where
  given : List ConventionId
  index : ExtTreeMap String ConventionId
  conventions : Conventions

namespace Log

variable {l : Log} {r : Request}

def start : Log := ⟨[], ∅, .empty⟩

def record (l : Log) (r : Request) : Log where
  given := l.given ++ (r.perform l.conventions).1.toList
  index :=
    match r.convention?, (r.perform l.conventions).1 with
    | some c, some id => l.index.insertIfNew c.name id
    | _, _ => l.index
  conventions := (r.perform l.conventions).2

def recordAll (l : Log) (rs : List Request) : Log := rs.foldl record l

def Allows (l : Log) : Request → Prop
  | .assign _ id => id ∈ l.given
  | _ => True

instance (l : Log) : DecidablePred l.Allows
  | .assign _ id => inferInstanceAs (Decidable (id ∈ l.given))
  | .register _ | .registerPreset _ | .unassign _ => inferInstanceAs (Decidable True)

def AllowsAll (l : Log) : List Request → Prop
  | [] => True
  | r :: rs => l.Allows r ∧ (l.record r).AllowsAll rs

instance decidableAllowsAll (l : Log) : (rs : List Request) → Decidable (l.AllowsAll rs)
  | [] => inferInstanceAs (Decidable True)
  | r :: rs =>
    have := decidableAllowsAll (l.record r) rs
    inferInstanceAs (Decidable (l.Allows r ∧ (l.record r).AllowsAll rs))

theorem allowsAll_append {rs rs' : List Request} :
    l.AllowsAll (rs ++ rs') ↔ l.AllowsAll rs ∧ (l.recordAll rs).AllowsAll rs' := by
  induction rs generalizing l with
  | nil => simp [AllowsAll, recordAll]
  | cons r rs ih =>
    rw [List.cons_append, AllowsAll, ih, AllowsAll, and_assoc]
    rfl

theorem record_registerPreset (l : Log) (name : String) :
    l.record (.registerPreset name) = l ∨
      ∃ c, l.record (.registerPreset name) = l.record (.register c) := by
  cases hc : Convention.preset? name with
  | none =>
    refine .inl ?_
    simp only [record, Request.perform, Request.convention?, registerPreset, hc, Option.map_none,
      Option.toList_none, List.append_nil]
  | some c =>
    refine .inr ⟨c, ?_⟩
    simp only [record, Request.perform, Request.convention?, registerPreset, hc, Option.map_some]

structure Sound (l : Log) : Prop where
  apart : l.conventions.NamesApart
  given : ∀ id, id ∈ l.given ↔ ∃ c, l.conventions.get? id = some c
  index : ∀ name, l.index[name]? = l.conventions.find? name
  assigned : l.conventions.AllRegistered

theorem sound_start : start.Sound := by
  refine ⟨fun id id' c c' hc => ?_, fun id => ?_, fun name => ?_, fun callee id hid => ?_⟩
  · simp [start, empty, get?] at hc
  · simp [start, empty, get?]
  · simp [start, empty, find?]
  · simp [start, empty, assigned?] at hid

/-- The index says what a search says, also of the name that is being registered. -/
theorem Sound.index_register (h : l.Sound) (c : Convention) (name : String) :
    (l.record (.register c)).index[name]? = (l.conventions.register c).2.find? name := by
  simp only [Log.record, Request.perform, Request.convention?, ExtTreeMap.getElem?_insertIfNew,
    LawfulEqCmp.compare_eq_iff_eq, ExtTreeMap.mem_iff_isSome_getElem?, h.index]
  by_cases hname : c.name = name
  · subst hname
    rw [h.apart.find?_register]
    obtain ⟨id, hfind, heq⟩ | ⟨hfind, -⟩ := l.conventions.register_cases c
    · simp [hfind, heq]
    · simp [hfind]
  · rw [if_neg fun hcond => hname hcond.1, h.apart.find?_register_of_ne hname]

theorem Sound.register (h : l.Sound) (c : Convention) : (l.record (.register c)).Sound := by
  refine ⟨h.apart.register c, fun id => ?_, fun name => ?_, h.assigned.register c⟩
  · simp only [record, Request.perform, Option.toList_some, List.mem_append, List.mem_singleton,
      h.given]
    constructor
    · rintro (⟨d, hd⟩ | rfl)
      · exact ⟨d, get?_register_iff.mpr (.inl hd)⟩
      · exact l.conventions.get?_register c
    · rintro ⟨d, hd⟩
      rcases get?_register_iff.mp hd with hd | ⟨-, rfl, -⟩
      · exact .inl ⟨d, hd⟩
      · exact .inr rfl
  · exact h.index_register c name

theorem Sound.record (h : l.Sound) (hr : l.Allows r) : (l.record r).Sound := by
  cases r with
  | register c => exact h.register c
  | registerPreset name =>
    obtain heq | ⟨c, heq⟩ := l.record_registerPreset name <;> rw [heq]
    · exact h
    · exact h.register c
  | assign callee id =>
    refine ⟨h.apart, fun id' => ?_, h.index, h.assigned.assign ((h.given id).mp hr)⟩
    simp only [Log.record, Request.perform, Option.toList_none, List.append_nil]
    exact h.given id'
  | unassign callee =>
    refine ⟨h.apart, fun id => ?_, h.index, h.assigned.unassign callee⟩
    have hback : ∀ id ∈ (l.conventions.unassign callee).1.toList, id ∈ l.given := by
      intro id hid
      exact (h.given id).mpr (h.assigned callee id (Option.mem_toList.mp hid))
    simp only [Log.record, Request.perform, List.mem_append]
    rw [or_iff_left_of_imp (hback id)]
    exact h.given id

theorem Sound.counts (h : l.Sound) (hr : l.Allows r) :
    Counts l.conventions (l.record r).conventions := by
  cases r with
  | register c => exact h.assigned.counts_register c
  | registerPreset name =>
    obtain heq | ⟨c, heq⟩ := l.record_registerPreset name <;> rw [heq]
    · exact .refl _
    · exact h.assigned.counts_register c
  | assign callee id => exact counts_assign ((h.given id).mp hr)
  | unassign callee => exact h.assigned.counts_unassign callee

theorem extends_record (l : Log) (r : Request) :
    l.conventions.Extends (l.record r).conventions := by
  cases r with
  | register c => exact extends_register _ c
  | registerPreset name =>
    obtain heq | ⟨c, heq⟩ := l.record_registerPreset name <;> rw [heq]
    · exact List.prefix_rfl
    · exact extends_register _ c
  | assign callee id => exact List.prefix_rfl
  | unassign callee => exact List.prefix_rfl

end Log

/-- What a registry comes to in the course of requests. -/
structure Later (cs cs' : Conventions) : Prop where
  extended : cs.Extends cs'
  revision_le : cs.revision ≤ cs'.revision
  unchanged : cs'.revision = cs.revision → ∀ callee, cs'.lookup? callee = cs.lookup? callee

theorem Later.refl (cs : Conventions) : Later cs cs :=
  ⟨List.prefix_rfl, Nat.le_refl _, fun _ _ => rfl⟩

theorem Later.trans (h : Later cs cs') (h' : Later cs' cs'') : Later cs cs'' := by
  refine ⟨h.extended.trans h'.extended, Nat.le_trans h.revision_le h'.revision_le,
    fun heq callee => ?_⟩
  have hle := h.revision_le
  have hle' := h'.revision_le
  rw [h'.unchanged (by omega), h.unchanged (by omega)]

theorem Counts.later (h : Counts cs cs') (hextended : cs.Extends cs') : Later cs cs' := by
  rcases h with ⟨hrevision, hsame⟩ | ⟨hrevision, -⟩
  · exact ⟨hextended, Nat.le_of_eq hrevision.symm, fun _ => hsame⟩
  · exact ⟨hextended, by omega, by omega⟩

namespace Log

variable {l : Log}

theorem Sound.recordAll (h : l.Sound) {rs : List Request} (hrs : l.AllowsAll rs) :
    (l.recordAll rs).Sound ∧ Later l.conventions (l.recordAll rs).conventions := by
  induction rs generalizing l with
  | nil => exact ⟨h, .refl _⟩
  | cons r rs ih =>
    obtain ⟨hr, hrs⟩ := hrs
    obtain ⟨hsound, hlater⟩ := ih (h.record hr) hrs
    exact ⟨hsound, ((h.counts hr).later (l.extends_record r)).trans hlater⟩

/-- At any two moments of a registry: names are apart and tell where conventions are, as an index
would; what was given out is what is registered; ids keep their conventions; and revisions are equal
only if all answers are. A request that changes an answer raises the revision by one, and any other
leaves it. -/
theorem revisions_tell_answers (earlier later : List Request)
    (h : start.AllowsAll (earlier ++ later)) :
    let first := start.recordAll earlier
    let before := first.conventions
    let after := (start.recordAll (earlier ++ later)).conventions
    (∀ id id' c c', before.get? id = some c → before.get? id' = some c' → c.name = c'.name →
      id = id') ∧
    (∀ name id, before.find? name = some id ↔ ∃ c, before.get? id = some c ∧ c.name = name) ∧
    (∀ name, first.index[name]? = before.find? name) ∧
    (∀ id, id ∈ first.given ↔ ∃ c, before.get? id = some c) ∧
    (∀ id c, before.get? id = some c → after.get? id = some c) ∧
    (before.revision = after.revision → ∀ callee, before.lookup? callee = after.lookup? callee) ∧
    (∀ callee, before.lookup? callee ≠ after.lookup? callee → before.revision < after.revision) ∧
    (∀ r, later = [r] → Counts before after) := by
  obtain ⟨hearlier, hlater⟩ := allowsAll_append.mp h
  obtain ⟨hsound, -⟩ := sound_start.recordAll hearlier
  obtain ⟨-, hchange⟩ := hsound.recordAll hlater
  have hafter : start.recordAll (earlier ++ later) = (start.recordAll earlier).recordAll later :=
    List.foldl_append
  intro first before after
  rw [← hafter] at hchange
  refine ⟨hsound.apart, fun name id => hsound.apart.find?_eq_some_iff, hsound.index, hsound.given,
    fun id c hc => hchange.extended.get? hc,
    fun heq callee => (hchange.unchanged heq.symm callee).symm, fun callee hne => ?_, ?_⟩
  · refine Nat.lt_of_le_of_ne hchange.revision_le fun heq => hne ?_
    exact (hchange.unchanged heq.symm callee).symm
  · rintro r rfl
    have hone : after = ((start.recordAll earlier).record r).conventions :=
      congrArg Log.conventions hafter
    rw [hone]
    exact hsound.counts hlater.1

/-- A callee is given one of two conventions. -/
def enrolled : List Request :=
  [.register .cdecl, .registerPreset "stdcall", .assign (.address 0x2000) 0]

/-- It is given the same one again, then the other one, and then none. -/
def reassigned : List Request :=
  [.registerPreset "cdecl", .assign (.address 0x2000) 0, .assign (.address 0x2000) 1,
    .unassign (.address 0x2000)]

theorem reassigned_tells :
    start.AllowsAll (enrolled ++ reassigned) ∧
    (start.recordAll enrolled).conventions.find? "stdcall" = some 1 ∧
    (∃ c, (start.recordAll (enrolled ++ reassigned)).conventions.get? 1 = some c ∧
      c.name = "stdcall") ∧
    (start.recordAll enrolled).conventions.lookup? (.address 0x2000) ≠
      (start.recordAll (enrolled ++ reassigned)).conventions.lookup? (.address 0x2000) ∧
    (start.recordAll enrolled).conventions.revision <
      (start.recordAll (enrolled ++ reassigned)).conventions.revision := by
  have hallowed : start.AllowsAll (enrolled ++ reassigned) := by decide +kernel
  have hfind : (start.recordAll enrolled).conventions.find? "stdcall" = some 1 := by decide +kernel
  have hdiffers : (start.recordAll enrolled).conventions.lookup? (.address 0x2000) ≠
      (start.recordAll (enrolled ++ reassigned)).conventions.lookup? (.address 0x2000) := by
    decide +kernel
  obtain ⟨-, hnames, -, -, hkept, -, hraised, -⟩ :=
    revisions_tell_answers enrolled reassigned hallowed
  obtain ⟨c, hc, hname⟩ := (hnames "stdcall" 1).mp hfind
  exact ⟨hallowed, hfind, ⟨c, hkept 1 c hc, hname⟩, hdiffers, hraised _ hdiffers⟩

end Log

end CallEffects.Conventions
