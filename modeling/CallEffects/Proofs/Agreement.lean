import CallEffects.Proofs.Renewal

/-!
# Callers and callees agree

The hook of a call and the hooks of the function that it calls are worked out separately, in
different functions and from different kinds of signatures. Once a run has converged both come from
the convention and the signature of the same address, so they tell of the same arguments and the
same return values. Only the stack is seen from different places: at the entry of a function the
return address lies in front of the arguments.
-/

namespace CallEffects

open Std

/-! ## Returns that are reached -/

namespace Function

variable {f : Function} {s : Statement}

/-- A lifted return in a block that is reachable from the entry. -/
def Returns (f : Function) (s : Statement) : Prop :=
  ∃ (b : BlockId) (block : Block), f.Reaches b ∧ f.blocks[b]? = some block ∧ s ∈ block.lifted ∧
    s.isReturn

theorem liftedReturn?_of_mem_lifted {block : Block} (hs : s ∈ block.lifted) (hret : s.isReturn) :
    liftedReturn? s = some s.id := by
  rw [liftedReturn?, hret, lifted_of_mem s hs]
  rfl

theorem mem_returns {id : StatementId} :
    id ∈ (Snapshot.take f).returns ↔ ∃ s, f.Returns s ∧ s.id = id := by
  rw [take_returns, List.mem_flatMap]
  constructor
  · rintro ⟨⟨bare, b⟩, hmem, hid⟩
    have hcode : f.code[b]? = some bare := List.mk_mem_zipIdx_iff_getElem?.mp hmem
    obtain ⟨block, hblock, rfl⟩ := by simpa [code] using hcode
    split at hid
    · next hfacts =>
      obtain ⟨s, hs, hret⟩ := List.mem_filterMap.mp hid
      obtain ⟨pop, hkind, -, hsid⟩ := liftedReturn?_some hret
      have hvisited : ∃ entry : Constants, f.blockFacts[b]? = some entry := by
        rwa [ExtTreeMap.contains_eq_isSome_getElem?, Option.isSome_iff_exists] at hfacts
      have hb := (f.blockFacts_solved.mem_iff.mp hvisited).1
      exact ⟨s, ⟨b, block, hb, hblock, hs, by rw [Statement.isReturn, hkind]; rfl⟩, hsid⟩
    · cases hid
  · rintro ⟨s, ⟨b, block, hb, hblock, hs, hret⟩, rfl⟩
    have hlt : b < f.blocks.length := (List.getElem?_eq_some_iff.mp hblock).1
    have hvisited := f.blockFacts_solved.mem_iff.mpr ⟨hb, hlt⟩
    have hfacts : f.blockFacts.contains b := by
      rwa [ExtTreeMap.contains_eq_isSome_getElem?, Option.isSome_iff_exists]
    refine ⟨(block.bare, b), List.mk_mem_zipIdx_iff_getElem?.mpr (by simp [code, hblock]), ?_⟩
    rw [if_pos hfacts]
    exact List.mem_filterMap.mpr ⟨s, hs, liftedReturn?_of_mem_lifted hs hret⟩

end Function

/-! ## Arguments -/

namespace Convention

/-- One argument as a caller and the callee see it. -/
def SameArgument (c : Convention) (i : Nat) (atCall atEntry : Location) : Prop :=
  if i < c.registerArguments.length then atEntry = atCall
  else ∃ offset, atCall = .stack offset ∧
    atEntry = .stack (offset + Int64.ofNat c.returnAddressSize)

theorem sameArgument (c : Convention) (i : Nat) :
    c.SameArgument i (c.argumentLocation i .call) (c.argumentLocation i .entry) := by
  unfold SameArgument argumentLocation
  split
  · next h => rw [List.getElem?_eq_getElem h]
  · next h =>
    rw [List.getElem?_eq_none (Nat.le_of_not_lt h)]
    exact ⟨_, rfl, rfl⟩

theorem argumentLocation_of_getElem? {c : Convention} {count i : Nat} {site : Site} {l : Location}
    (h : (c.argumentLocations count site)[i]? = some l) : l = c.argumentLocation i site := by
  obtain ⟨n, hn, rfl⟩ := by simpa [argumentLocations] using h
  obtain ⟨-, rfl⟩ := List.getElem?_eq_some_iff.mp hn
  simp

/-- The hook of a call and that of the entry it leads to describe one calling sequence. -/
structure Joins (c : Convention) (call entry : Hook) : Prop where
  convention : entry.key.convention = call.key.convention
  signature : entry.key.signature = call.key.signature
  arity : entry.effects.arguments.length = call.effects.arguments.length
  argument : ∀ (i : Nat) (l l' : Location), call.effects.arguments[i]? = some l →
    entry.effects.arguments[i]? = some l' → c.SameArgument i l l'

end Convention

def Hook.Fulfils (k : Hook) (p : Plan) : Prop := k.key = p.key ∧ k.effects = p.effects

namespace Plan

variable {ss : Signatures} {call : StatementRef} {callee : Callee} {observed : Option Nat}
variable {x : ConventionId × Convention} {k k' : Hook} {f : FunctionId}

theorem forCall?_of_not_own (hown : ss.call? call = none) :
    ss.forCall? call callee = (ss.function? callee).map fun y => (.callee y.1, .ofFunction y.2) := by
  rw [Signatures.forCall?, hown]

theorem joins (hown : ss.call? call = none)
    (hk : k.Fulfils (.ofCall call x (ss.forCall? call callee) observed))
    (hk' : k'.Fulfils (.ofEntry f x (ss.function? callee))) : x.2.Joins k k' := by
  rw [forCall?_of_not_own hown] at hk
  obtain ⟨hkey, heffects⟩ := hk
  obtain ⟨hkey', heffects'⟩ := hk'
  -- One arity for both, whether the callee has a signature or not.
  have harity : ∃ n, k.effects.arguments = x.2.argumentLocations n .call ∧
      k'.effects.arguments = x.2.argumentLocations n .entry := by
    rw [heffects, heffects']
    cases ss.function? callee with
    | none => exact ⟨_, rfl, rfl⟩
    | some y => exact ⟨_, rfl, rfl⟩
  obtain ⟨n, harguments, harguments'⟩ := harity
  refine ⟨by rw [hkey, hkey']; rfl, ?_, ?_, ?_⟩
  · rw [hkey, hkey']
    cases ss.function? callee <;> rfl
  · rw [harguments, harguments', Convention.argumentLocations, Convention.argumentLocations,
      List.length_map, List.length_map]
  · intro i l l' hl hl'
    rw [harguments] at hl
    rw [harguments'] at hl'
    rw [Convention.argumentLocation_of_getElem? hl, Convention.argumentLocation_of_getElem? hl']
    exact x.2.sameArgument i

theorem returnValues_eq (hown : ss.call? call = none) {ret : StatementRef}
    (hk : k.Fulfils (.ofCall call x (ss.forCall? call callee) observed))
    (hk' : k'.Fulfils (.ofReturn ret x (ss.function? callee))) :
    k'.effects.returnValues = k.effects.returnValues := by
  rw [forCall?_of_not_own hown] at hk
  rw [hk.2, hk'.2]
  cases ss.function? callee <;> rfl

end Plan

/-! ## Hooks of functions at rest -/

theorem Bench.Bears.exists_hook {b : Bench} {a : Anchor} {p : Plan} {cs : Conventions}
    {ss : Signatures} (h : b.Bears a (some p)) (hc : b.hooks.Coherent cs ss) (hs : b.Sound)
    (hp : p.Possible cs ss) : ∃ k, b.hooks.active[a]? = some k ∧ k.Fulfils p := by
  obtain ⟨k, hk, hkey⟩ := h
  exact ⟨k, hk, hkey, (hc.effects (hs.1.active_built hk).1 p hp hkey.symm).symm⟩

namespace Round.Finished

variable {r : Round} {sources : Sources} {cs : Conventions} {f : Function} {s : Statement}
variable {x : ConventionId × Convention}

/-- The bench of a function at rest, at a time when so much has been observed. -/
theorem exists_bench (h : r.Finished sources cs) (hf : f ∈ r.functions) :
    ∃ o, ((r.seeing o).bench f).Finished sources cs := by
  obtain ⟨o, hrests⟩ := h.rests.exists_rests hf
  exact ⟨o, h.bench hf hrests⟩

theorem entry_hook (h : r.Finished sources cs) (hf : f ∈ r.functions)
    (hx : r.conventions.value.lookup? (.ofFunction f) = some x) :
    ∃ k, r.hooks.active[Anchor.entry f.id]? = some k ∧
      k.Fulfils (.ofEntry f.id x (sources.signatures.value.function? (.ofFunction f))) := by
  obtain ⟨o, hbench⟩ := h.exists_bench hf
  have hplan : ((r.seeing o).bench f).entryPlan sources.signatures.value =
      some (.ofEntry f.id x (sources.signatures.value.function? (.ofFunction f))) :=
    congrArg (Option.map _) hx
  have hbears := hbench.rests.entry
  rw [hplan] at hbears
  exact hbears.exists_hook hbench.coherent hbench.sound
    (Bench.entryPlan_possible _ _ hplan).2

theorem return_hook (h : r.Finished sources cs) (hf : f ∈ r.functions) (hs : f.Returns s)
    (hx : r.conventions.value.lookup? (.ofFunction f) = some x) :
    ∃ k, r.hooks.active[Anchor.ret ⟨f.id, s.id⟩]? = some k ∧
      k.Fulfils (.ofReturn ⟨f.id, s.id⟩ x (sources.signatures.value.function? (.ofFunction f))) := by
  obtain ⟨o, hbench⟩ := h.exists_bench hf
  have hplan : ((r.seeing o).bench f).returnPlan sources.signatures.value s.id =
      some (.ofReturn ⟨f.id, s.id⟩ x (sources.signatures.value.function? (.ofFunction f))) :=
    congrArg (Option.map _) hx
  have hbears := hbench.rests.returns s.id (Function.mem_returns.mpr ⟨s, hs, rfl⟩)
  rw [hplan] at hbears
  exact hbears.exists_hook hbench.coherent hbench.sound
    (Bench.returnPlan_possible _ _ _ hplan).2

theorem call_hook (h : r.Finished sources cs) (hf : f ∈ r.functions) {site : CallSite}
    (hsite : site ∈ (Snapshot.take f).calls) {k : Hook}
    (hk : r.hooks.active[Anchor.call ⟨f.id, site.statement⟩]? = some k) :
    ∃ x observed,
      r.conventions.value.lookup? (.ofCall ⟨f.id, site.statement⟩ site.target) = some x ∧
      k.Fulfils (.ofCall ⟨f.id, site.statement⟩ x (sources.signatures.value.forCall?
        ⟨f.id, site.statement⟩ (.ofCall ⟨f.id, site.statement⟩ site.target)) observed) := by
  obtain ⟨o, hbench⟩ := h.exists_bench hf
  have hbears := (hbench.rests.calls site hsite).1
  obtain ⟨p, hp, hkey, heffects⟩ := hbears.hook hbench.coherent hbench.sound
    (Bench.callPlan_possible _ _ site) hk
  obtain ⟨x, hx, rfl⟩ := Option.map_eq_some_iff.mp hp
  exact ⟨x, _, hx, hkey.symm, heffects.symm⟩

end Round.Finished

namespace Workspace

variable {w w' : Workspace} {p : Program} {ss : Signatures} {fs : Functions} {c : Configuration}
variable {stats : ScheduleStats}

/-- Once a run on a program has converged, the hook of every call of one of its functions agrees
with the hooks of that function, unless the call has a signature of its own: the entry and all the
returns that are reached have hooks, for the same convention and the same signature, with the same
arguments in the same places and the same return values. -/
theorem calls_agree_with_callees (h : w.StartsFrom p ss) (hb : p.buildFunctions = .ok fs)
    (hregistered : w.currentConventions.value.AllRegistered) (hn : ss.Numbered)
    (hend : c.deinstrumentAtEnd = false) (hok : w.run c = .ok (w', stats))
    (hconverged : stats.converged) :
    ∃ sources r, w'.round? = some (sources, r) ∧
      r.functions.map Function.source = fs.map Function.source ∧
      ∀ (call : StatementRef) (k : Hook) (snapshot : Snapshot) (site : CallSite) (a : Address)
        (g : Function), r.hooks.active[Anchor.call call]? = some k →
        r.snapshots[call.function]? = some snapshot → site ∈ snapshot.calls →
        site.statement = call.statement → site.target = some a →
        g ∈ r.functions → g.entryAddress = some a → ss.call? call = none →
        ∃ convention entry, r.conventions.value.get? k.key.convention = some convention ∧
          r.hooks.active[Anchor.entry g.id]? = some entry ∧ convention.Joins k entry ∧
          ∀ s, g.Returns s → ∃ ret, r.hooks.active[Anchor.ret ⟨g.id, s.id⟩]? = some ret ∧
            ret.effects.returnValues = k.effects.returnValues := by
  obtain ⟨w₁, hrun, hprepared, hshares⟩ := h.prepared hb c
  rw [hrun] at hok
  have hfresh : (w.firstRound fs).Fresh := Program.buildFunctions_fresh hb rfl rfl
  have hd := w.configuredDetector_isBuiltin c
  obtain ⟨r, hr, hfinished, hsource, -⟩ := run_finished hshares.round (hfresh.dependable hn)
    hregistered hd hend hok hconverged
  obtain ⟨q, q', hsince, hlast, hedits, hr'⟩ :=
    run_last hshares.round hfresh.inOrder hregistered hd hend hok hconverged
  obtain ⟨-, rfl⟩ := Prod.mk.inj (Option.some.inj (hr.symm.trans hr'))
  have hcurrent := hsince.current hd hlast hedits
  refine ⟨_, _, hr, hsource, ?_⟩
  intro call k snapshot site a g hk hsnapshot hsite hcall ha hg hentry hown
  -- The call belongs to a function, and the snapshot is of that function as it is.
  have hlt : call.function < q'.functions.length := hfinished.inOrder.present hk
  have hf : q'.functions[call.function] ∈ q'.functions := List.getElem_mem hlt
  have hid : (q'.functions[call.function]).id = call.function :=
    hfinished.inOrder.ids (List.getElem?_eq_getElem hlt)
  obtain rfl := Option.some.inj (hsnapshot.symm.trans (hid ▸ hcurrent _ hf))
  have hcall : (⟨(q'.functions[call.function]).id, site.statement⟩ : StatementRef) = call := by
    rw [hid, hcall]
  rw [← hcall] at hk hown
  obtain ⟨x, observed, hx, hfulfils⟩ := hfinished.call_hook hf hsite hk
  have hcallee : Callee.ofCall ⟨(q'.functions[call.function]).id, site.statement⟩ site.target =
      Callee.ofFunction g := by
    rw [ha, Callee.ofFunction, hentry]
    rfl
  rw [hcallee] at hx hfulfils
  obtain ⟨entry, hactive, hentry⟩ := hfinished.entry_hook hg hx
  refine ⟨x.2, entry, ?_, hactive, Plan.joins hown hfulfils hentry, ?_⟩
  · rw [hfulfils.1]
    exact Conventions.get?_of_lookup? hx
  · intro s hs
    obtain ⟨ret, hret, hret'⟩ := hfinished.return_hook hg hs hx
    exact ⟨ret, hret, Plan.returnValues_eq hown hfulfils hret'⟩

end Workspace

/-- Two functions that call each other. The second one releases stack on return. -/
def Program.pair : Program :=
  let blocks := Program.empty.blocks.insert 0x1000
    ⟨0x1000, [⟨some 0x1000, .call (.direct 0x2000)⟩, ⟨some 0x1005, .ret 0⟩], []⟩
  { Program.empty.addEntry 0x1000 none with
    blocks := blocks.insert 0x2000
      ⟨0x2000, [⟨some 0x2000, .call (.direct 0x1000)⟩, ⟨some 0x2005, .ret 8⟩], []⟩ }

/-- The second function takes two arguments in registers and two on the stack. -/
def Signatures.pair : Signatures :=
  (Signatures.empty.setFunction (.address 0x2000)
    ⟨none, [.pointer, .signed 32, .signed 32, .signed 32], some (.signed 32), false⟩).2

def Workspace.pair : Workspace :=
  { Workspace.empty with
    program := some .pair
    conventions := some (.sound
      (((Conventions.empty.register .fastcall).2.assign (.address 0x1000) 0).assign
        (.address 0x2000) 0))
    signatures := some (.sound .pair) }

namespace Workspace

theorem pair_startsFrom : pair.StartsFrom .pair .pair := ⟨rfl, rfl, rfl, rfl, rfl⟩

theorem pair_registered : pair.currentConventions.value.AllRegistered := by
  intro callee id hid
  rcases Table.getElem?_insert_eq_some hid with ⟨-, rfl⟩ | ⟨-, hid⟩
  · exact ⟨.fastcall, rfl⟩
  · rcases Table.getElem?_insert_eq_some hid with ⟨-, rfl⟩ | ⟨-, hid⟩
    · exact ⟨.fastcall, rfl⟩
    · cases hid

/-- The first function is instrumented before the second one has been looked at. -/
theorem pair_agrees :
    ∃ (w' : Workspace) (stats : ScheduleStats) (sources : Sources) (r : Round) (k entry : Hook)
      (convention : Convention), pair.run .standard = .ok (w', stats) ∧ stats.converged ∧
      w'.round? = some (sources, r) ∧ r.hooks.active[Anchor.call ⟨0, 0⟩]? = some k ∧
      k.effects.arguments = [.register 1, .register 2, .stack 0, .stack 4] ∧
      r.hooks.active[Anchor.entry 1]? = some entry ∧ convention.Joins k entry := by
  have hbuild : (Program.pair.buildFunctions).toOption.any fun fs => fs.length == 2 := by
    decide +kernel
  have hrun : (pair.run .standard).toOption.any fun done => done.2.converged &&
      done.1.round?.any fun x =>
        ((x.2.hooks.active[Anchor.call ⟨0, 0⟩]?).any fun k =>
          k.effects.arguments == [.register 1, .register 2, .stack 0, .stack 4]) &&
        ((x.2.snapshots[0]?).any fun s => s.calls.any fun site =>
          site.statement == 0 && site.target == some 0x2000) &&
        (x.2.functions[1]?).any fun g => g.id == 1 && g.entryAddress == some 0x2000 := by
    decide +kernel
  obtain ⟨fs, hb, -⟩ := exists_of_any_toOption hbuild
  obtain ⟨⟨w', stats⟩, hok, hdone⟩ := exists_of_any_toOption hrun
  rw [Bool.and_eq_true] at hdone
  obtain ⟨hconverged, hdone⟩ := hdone
  obtain ⟨⟨sources, r⟩, hr, hdone⟩ := (Option.any_eq_true _ _).mp hdone
  simp only [Bool.and_eq_true] at hdone
  obtain ⟨⟨hcall, hsnapshot⟩, hcallee⟩ := hdone
  obtain ⟨k, hk, harguments⟩ := (Option.any_eq_true _ _).mp hcall
  obtain ⟨snapshot, hsnapshot, hsite⟩ := (Option.any_eq_true _ _).mp hsnapshot
  obtain ⟨site, hsite, hsite'⟩ := List.any_eq_true.mp hsite
  obtain ⟨g, hg, hg'⟩ := (Option.any_eq_true _ _).mp hcallee
  simp only [Bool.and_eq_true, beq_iff_eq] at harguments hsite' hg'
  have hn : Signatures.pair.Numbered := Signatures.numbered_empty.setFunction _ _
  obtain ⟨sources', r', hr', -, hagree⟩ :=
    calls_agree_with_callees pair_startsFrom hb pair_registered hn rfl hok hconverged
  obtain ⟨rfl, rfl⟩ := Prod.mk.inj (Option.some.inj (hr.symm.trans hr'))
  obtain ⟨convention, entry, -, hentry, hjoins, -⟩ := hagree ⟨0, 0⟩ k snapshot site 0x2000 g hk
    hsnapshot hsite hsite'.1 hsite'.2 (List.mem_of_getElem? hg) hg'.2 rfl
  rw [hg'.1] at hentry
  exact ⟨w', stats, sources, r, k, entry, convention, hok, hconverged, hr, hk, harguments, hentry,
    hjoins⟩

end Workspace

end CallEffects
