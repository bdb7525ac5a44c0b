import CallEffects.Proofs.Resolution

/-!
# Recognizing hooked calls

An analysis takes a call for hooked when a statement of a call hook comes right after it; it does
not look at the table of active hooks. A hook that has statements is always recognized. In the other
direction the statements behind a call can belong to another call that stood there once: as long as
their hook is not taken off, the call in front of them passes for hooked. A hook without statements
leaves nothing to recognize.
-/

namespace CallEffects

open Std

theorem mem_callsOf {ss : List Statement} {known : Constants} {site : CallSite}
    (h : site ∈ callsOf ss known) :
    ∃ (before : List Statement) (s : Statement) (after : List Statement) (target : CallTarget),
      ss = before ++ s :: after ∧ s.kind = .call target ∧ site.statement = s.id ∧
        site.instrumented = isHookedCall after.head? := by
  induction ss generalizing known with
  | nil => cases h
  | cons x xs ih =>
    rw [callsOf_cons, List.mem_append, Option.mem_toList] at h
    rcases h with h | h
    · unfold callSite? at h
      split at h
      · next target hk =>
        cases h
        exact ⟨[], x, xs, target, rfl, hk, rfl, rfl⟩
      · cases h
    · obtain ⟨before, s, after, target, rfl, hs⟩ := ih h
      exact ⟨x :: before, s, after, target, rfl, hs⟩

namespace Hooks

variable {h : Hooks} {f : Function} {ever : List (List Statement)} {gone : List StatementId}
  {ss : List Statement}

/-- The hook of the call is active and has statements. -/
def Marks (h : Hooks) (call : StatementRef) : Prop :=
  ∃ k : Hook, h.active[Anchor.call call]? = some k ∧ k.statements ≠ []

/-- The statements of a call hook are still there, but the call is not. -/
def Orphaned (h : Hooks) (f : Function) (call : StatementId) : Prop :=
  h.Marks ⟨f.id, call⟩ ∧ ∀ s ∈ f.statements, s.id ≠ call

theorem marks_iff {call : StatementRef} : h.Marks call ↔ h.attached (.call call) ≠ [] := by
  constructor
  · rintro ⟨k, hk, hne⟩
    rwa [attached_of_some hk]
  · intro hne
    cases hk : h.active[Anchor.call call]? with
    | none => exact absurd (attached_of_none hk) hne
    | some k => exact ⟨k, hk, by rwa [attached_of_some hk] at hne⟩

instance (h : Hooks) (call : StatementRef) : Decidable (h.Marks call) :=
  decidable_of_iff _ marks_iff.symm

namespace Weave

theorem not_mem_of_gone (hw : h.Weave f ever gone) (hc : h.Consistent) (hacc : h.Accounts f)
    {id : StatementId} (hg : id ∈ gone) : ∀ s ∈ f.statements, s.id ≠ id := by
  rintro s hs rfl
  cases hl : s.isSynthetic with
  | false => exact (hw.ever_of_mem hc hs hl).2 hg
  | true =>
    obtain ⟨a, k, hk, ha, hsk⟩ := (hacc.synthetic_iff s).mp ⟨hs, hl⟩
    obtain ⟨hbuilt, rfl⟩ := hc.active_built hk
    obtain ⟨t, ht, hid⟩ := hw.gone_ever s.id hg
    exact hw.apart hbuilt ha t ht (hid ▸ List.mem_map_of_mem hsk)

theorem call_split (hw : h.Weave f ever gone) (hc : h.Consistent) (hacc : h.Accounts f)
    {b : BlockId} {block : Block} {before after : List Statement} {s : Statement}
    {target : CallTarget} (hb : f.blocks[b]? = some block)
    (hbody : block.statements = before ++ s :: after) (hk : s.kind = .call target)
    (hl : s.isSynthetic = false) :
    ∃ rest : List Statement, (∀ t ∈ rest, t.isSynthetic = false) ∧ after = h.attached (.call ⟨f.id, s.id⟩) ++
      (rest.flatMap (h.around f.id)).filter fun t => t.id ∉ gone := by
  obtain ⟨ss, hss, hwoven⟩ := hw.body hb
  have hmem : s ∈ block.statements := by simp [hbody]
  have hever : s ∈ ss := by
    obtain ⟨hs, -⟩ := List.mem_filter.mp (hwoven ▸ hmem)
    rcases mem_woven_cases hs with hs | ⟨a, k, hk, -, hsk⟩
    · exact hs
    · rw [hc.isSynthetic (hc.active_built hk).1 hsk] at hl
      cases hl
  have hkept : s.id ∉ gone := by
    obtain ⟨-, hs⟩ := List.mem_filter.mp (hwoven ▸ hmem)
    simpa using hs
  obtain ⟨l, rest, rfl⟩ := List.append_of_mem hever
  have haround : h.around f.id s = s :: h.attached (.call ⟨f.id, s.id⟩) := by
    simp only [around, hk]
  have hattached := hw.filter_attached hc (a := .call ⟨f.id, s.id⟩) rfl
  rw [woven_split, haround, List.filter_append, List.filter_append,
    List.filter_cons_of_pos (by simpa using hkept), hattached, hbody, List.append_assoc,
    List.cons_append] at hwoven
  have hnodup : (before ++ s :: after).Nodup := hbody ▸ nodup_body hacc.numbered hb
  have hnot := (List.nodup_cons.mp (List.nodup_middle.mp hnodup)).1
  rw [List.mem_append, not_or] at hnot
  obtain ⟨-, -, hafter⟩ := (List.append_cons_inj_of_notMem hnot.1 hnot.2).mp hwoven
  refine ⟨rest, fun t ht => hw.lifted t (mem_flatten hss ?_), hafter⟩
  exact List.mem_append_right _ (List.mem_cons_of_mem _ ht)

/-- What a statement contributes to the body does not start with a call hook, unless its call has been
removed and the hook stayed. -/
theorem head_around (hw : h.Weave f ever gone) (hc : h.Consistent) {s : Statement}
    (hl : s.isSynthetic = false) (hm : s.id ∈ gone → ¬h.Marks ⟨f.id, s.id⟩) :
    isHookedCall ((h.around f.id s).filter fun t => t.id ∉ gone).head? = false := by
  by_cases hg : s.id ∈ gone
  · cases hfirst : ((h.around f.id s).filter fun t => t.id ∉ gone) with
    | nil => rfl
    | cons t ts =>
      have ht : t ∈ h.around f.id s :=
        (List.mem_filter.mp (hfirst ▸ List.mem_cons_self)).1
      rcases mem_around_cases ht with rfl | ⟨a, hsa, hta⟩
      · exact isHookedCall_of_lifted hl
      · rcases Statement.anchor?_cases hsa with ⟨-, -, rfl⟩ | ⟨-, -, rfl⟩
        · rw [Classical.not_not.mp (mt marks_iff.mpr (hm hg))] at hta
          cases hta
        · simp [isHookedCall, (hc.attached hta).1, Anchor.kind]
  · rw [hw.filter_around hc hg]
    have hone : ∀ t ∈ [s], t.isSynthetic = false := by simpa using hl
    have hplain := hc.plain (i := f.id) hone
    rwa [List.flatMap_singleton] at hplain

/-- A statement that is still there hides the call hooks behind it. -/
theorem orphan_of_head (hw : h.Weave f ever gone) (hc : h.Consistent)
    (hl : ∀ s ∈ ss, s.isSynthetic = false)
    (hhead : isHookedCall ((ss.flatMap (h.around f.id)).filter fun t => t.id ∉ gone).head?) :
    ∃ id ∈ gone, h.Marks ⟨f.id, id⟩ := by
  induction ss with
  | nil => cases hhead
  | cons s ss ih =>
    have hs := hl s List.mem_cons_self
    rw [List.flatMap_cons, List.filter_append] at hhead
    by_cases hm : s.id ∈ gone ∧ h.Marks ⟨f.id, s.id⟩
    · exact ⟨s.id, hm⟩
    · have hquiet := hw.head_around hc hs (not_and.mp hm)
      cases hfirst : (h.around f.id s).filter (fun t => t.id ∉ gone) with
      | nil =>
        rw [hfirst, List.nil_append] at hhead
        exact ih (fun t ht => hl t (List.mem_cons_of_mem _ ht)) hhead
      | cons t ts =>
        rw [hfirst] at hhead hquiet
        rw [List.cons_append, List.head?_cons] at hhead
        rw [List.head?_cons, hhead] at hquiet
        cases hquiet

theorem instrumented_iff (hw : h.Weave f ever gone) (hc : h.Consistent) (hacc : h.Accounts f)
    (hf : f.Orderly) {site : CallSite} (hsite : site ∈ (Snapshot.take f).calls) :
    (h.Marks ⟨f.id, site.statement⟩ → site.instrumented) ∧
      (site.instrumented → h.Marks ⟨f.id, site.statement⟩ ∨ ∃ call, h.Orphaned f call) := by
  obtain ⟨b, block, known, hb, -, hsite⟩ := Function.mem_calls.mp hsite
  obtain ⟨before, s, after, target, hbody, hk, hid, hinst⟩ := mem_callsOf hsite
  have hmem : s ∈ f.statements := Function.mem_statements.mpr ⟨b, block, hb, by simp [hbody]⟩
  obtain ⟨rest, hrest, rfl⟩ := hw.call_split hc hacc hb hbody hk (hf.lifted_of_call hmem hk)
  rw [hinst, hid, marks_iff]
  cases hat : h.attached (.call ⟨f.id, s.id⟩) with
  | nil =>
    refine ⟨fun hne => absurd rfl hne, fun hhead => .inr ?_⟩
    rw [List.nil_append] at hhead
    obtain ⟨call, hg, hm⟩ := hw.orphan_of_head hc hrest hhead
    exact ⟨call, hm, hw.not_mem_of_gone hc hacc hg⟩
  | cons t ts =>
    have ht : t.origin = .synthetic .call :=
      (hc.attached (a := .call ⟨f.id, s.id⟩) (hat ▸ List.mem_cons_self)).1
    refine ⟨fun _ => ?_, fun _ => .inl (List.cons_ne_nil _ _)⟩
    simp [isHookedCall, ht]

end Weave

end Hooks

/-! ## Histories -/

namespace Workspace

variable {w₀ w : Workspace} {sources₀ sources : Sources} {r₀ r : Round} {f : Function}

/-- Whatever was done since the workspace was fresh, the analysis of a function recognizes every call
that has an active hook with statements, and it takes no other call for hooked as long as every
active call hook of the function still has its call. -/
theorem calls_recognized {taken : List Snapshot} {site : CallSite}
    (h₀ : w₀.round? = some (sources₀, r₀)) (hfresh : r₀.Fresh) (h : History w₀ taken w)
    (hr : w.round? = some (sources, r)) (hf : f ∈ r.functions)
    (hsite : site ∈ (Snapshot.take f).calls) :
    (r.hooks.Marks ⟨f.id, site.statement⟩ → site.instrumented) ∧
      (site.instrumented →
        r.hooks.Marks ⟨f.id, site.statement⟩ ∨ ∃ call, r.hooks.Orphaned f call) := by
  obtain ⟨sources', r', hr', hturns, -⟩ := h.turns h₀ hfresh.inOrder
  obtain ⟨rfl, rfl⟩ := Prod.mk.inj (Option.some.inj (hr.symm.trans hr'))
  have hin : r.InOrder := Round.Turns.inOrder hturns hfresh.inOrder
  obtain ⟨ever, gone, hweave⟩ := Round.Turns.woven hturns hfresh.inOrder hfresh.woven f hf
  exact hweave.instrumented_iff hin.consistent (hin.accounts f hf) (hin.orderly hf) hsite

/-- The call of the sample, hooked and recognized. -/
theorem sample_call_recognized :
    ∃ w sources r, History sample [] w ∧ w.round? = some (sources, r) ∧
      ∃ f ∈ r.functions, ∃ site ∈ (Snapshot.take f).calls,
        r.hooks.Marks ⟨f.id, site.statement⟩ ∧ site.instrumented := by
  have hhistory : History sample [] (left (sample.run .standard)) := .step .start (.run _ _)
  have hexists : ((left (sample.run .standard)).round?).any fun x =>
      ∃ f ∈ x.2.functions, ∃ site ∈ (Snapshot.take f).calls,
        x.2.hooks.Marks ⟨f.id, site.statement⟩ := by
    decide +kernel
  obtain ⟨⟨sources, r⟩, hr, hany⟩ := (Option.any_eq_true _ _).mp hexists
  obtain ⟨f, hf, site, hsite, hmarks⟩ := of_decide_eq_true hany
  exact ⟨_, sources, r, hhistory, hr, f, hf, site, hsite, hmarks,
    (calls_recognized round?_sample Round.sample_fresh hhistory hr hf hsite).1 hmarks⟩

/-- The sample with a convention that says nothing. -/
def mute : Workspace :=
  let convention : Convention := { Convention.cdecl with
    name := "mute", speculativeStackArguments := 0, returnValues := [], clobbered := [] }
  let conventions := (Conventions.empty.register convention).2
  { sample with conventions := some (.sound (conventions.assign (.address 0x2000) 0)) }

/-- A call through a register, and right behind it a call that has a convention. -/
def neighbours : Workspace :=
  let statements := [Statement.lifted 0 (some 0x1000) (.call (.indirect (.register 0))),
    Statement.lifted 1 (some 0x1005) (.call (.direct 0x2000))]
  { sample with functions := some [{ Function.sample with
    blocks := [⟨some 0x1000, statements, []⟩] }] }

/-- The analysis misses a call whose active hook has no statements, and takes a call without a hook
for hooked when the call behind it has been removed and its hook stayed. -/
theorem recognition_fails :
    (∃ w sources r, History mute [] w ∧ w.round? = some (sources, r) ∧
      ∃ f ∈ r.functions, ∃ site ∈ (Snapshot.take f).calls,
        (r.hooks.active[Anchor.call ⟨f.id, site.statement⟩]?).isSome ∧
          site.instrumented = false) ∧
    ∃ w sources r, History neighbours [] w ∧ w.round? = some (sources, r) ∧
      ∃ f ∈ r.functions, ∃ site ∈ (Snapshot.take f).calls,
        r.hooks.active[Anchor.call ⟨f.id, site.statement⟩]? = none ∧ site.instrumented = true := by
  constructor
  · have hexists : ((left (mute.run .standard)).round?).any fun x =>
        ∃ f ∈ x.2.functions, ∃ site ∈ (Snapshot.take f).calls,
          (x.2.hooks.active[Anchor.call ⟨f.id, site.statement⟩]?).isSome ∧
            site.instrumented = false := by
      decide +kernel
    obtain ⟨⟨sources, r⟩, hr, hany⟩ := (Option.any_eq_true _ _).mp hexists
    exact ⟨_, sources, r, .step .start (.run _ .standard), hr, of_decide_eq_true hany⟩
  · have hexists : ((left (neighbours.run .standard)).functions).any fun fs =>
        ∃ f ∈ fs, (CodeEdit.remove 1).Lifted f ∧ ((CodeEdit.remove 1).apply f).toOption.any fun g =>
          (({ left (neighbours.run .standard) with functions := some (fs.set f.id g) } :
            Workspace).round?).any fun x =>
              ∃ f ∈ x.2.functions, ∃ site ∈ (Snapshot.take f).calls,
                x.2.hooks.active[Anchor.call ⟨f.id, site.statement⟩]? = none ∧
                  site.instrumented = true := by
      decide +kernel
    obtain ⟨fs, hfs, hany⟩ := (Option.any_eq_true _ _).mp hexists
    obtain ⟨f, hf, hl, hany⟩ := of_decide_eq_true hany
    obtain ⟨g, hg, hany⟩ := exists_of_any_toOption hany
    obtain ⟨⟨sources, r⟩, hr, hany⟩ := (Option.any_eq_true _ _).mp hany
    have hrun : History neighbours [] (left (neighbours.run .standard)) :=
      .step .start (.run _ .standard)
    have hedit : History neighbours []
        { left (neighbours.run .standard) with functions := some (fs.set f.id g) } :=
      .step hrun (.edit _ fs f g (.remove 1) hfs hf hl hg)
    exact ⟨_, sources, r, hedit, hr, of_decide_eq_true hany⟩

end Workspace

end CallEffects
