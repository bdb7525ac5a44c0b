import CallEffects.Proofs.Fixpoint

/-!
# Answers of a detector

A built-in detector gives one convention to every callee it answers for, and registering it again
changes nothing. So it does not matter when, or after which other questions, a detector is asked:
what a callee ends up with is what asking for it first would have given.
-/

namespace CallEffects

open Std

namespace Conventions

variable {cs cs' cs'' : Conventions} {detector : Option Detector} {callee : Callee}
variable {c : Convention}

/-- What the registry knows of the callee, or else what the detector would add. -/
def answer? (detector : Option Detector) (cs : Conventions) (callee : Callee) :
    Option (ConventionId × Convention) :=
  (cs.lookup? callee).or (detector.bind fun d => (d.detect [] callee cs).lookup? callee)

theorem register_congr (h : cs'.registered = cs.registered) (c : Convention) :
    (cs'.register c).1 = (cs.register c).1 ∧
      (cs'.register c).2.registered = (cs.register c).2.registered := by
  simp only [register, find?, h]
  split
  · exact ⟨rfl, h⟩
  · exact ⟨rfl, rfl⟩

theorem register_again (cs : Conventions) (c : Convention) :
    ((cs.register c).2.register c).1 = (cs.register c).1 ∧
      ((cs.register c).2.register c).2.registered = (cs.register c).2.registered := by
  obtain ⟨id, -, heq⟩ | ⟨hnone, heq⟩ := cs.register_cases c
  · rw [heq]
    exact ⟨congrArg Prod.fst heq, by rw [heq]⟩
  · have hfound : ({ cs with registered := cs.registered ++ [c] } : Conventions).find? c.name =
        some cs.registered.length := by
      have hnone : cs.registered.findIdx? (·.name == c.name) = none := hnone
      simp [find?, List.findIdx?_append, hnone, List.findIdx?_cons]
    rw [heq, register, hfound]
    exact ⟨rfl, rfl⟩

/-- A registry that has come of another one by asking the detector. -/
structure Asked (detector : Option Detector) (cs cs' : Conventions) : Prop where
  answered : Answered detector cs cs'
  answers : ∀ callee x, cs'.lookup? callee = some x → answer? detector cs callee = some x
  /-- The convention of the detector goes where it would have gone at first. -/
  place : ∀ c guess, detector = some (.fixed c guess) → (cs'.register c).1 = (cs.register c).1 ∧
    (cs'.register c).2.registered = (cs.register c).2.registered

theorem Asked.refl (h : cs.AllRegistered) : Asked detector cs cs where
  answered := .refl h
  answers callee x hx := by rw [answer?, hx, Option.some_or]
  place _ _ _ := ⟨rfl, rfl⟩

theorem Asked.lookup?_eq (h : Asked detector cs cs') (hd : Decided detector cs' callee) :
    cs'.lookup? callee = answer? detector cs callee := by
  cases hx : cs'.lookup? callee with
  | some x => exact (h.answers callee x hx).symm
  | none =>
    have hrefuses : Detector.Refuses detector callee := hd.resolve_left (by simp [hx])
    have hnone : cs.lookup? callee = none := (h.answered.refused callee hrefuses).symm.trans hx
    cases detector with
    | none => rw [answer?, hnone, Option.bind_none, Option.or_none]
    | some d => rw [answer?, hnone, Option.bind_some, hrefuses d rfl, hnone, Option.or_none]

theorem lookup?_detect_fixed {guess : Bool} (hg : ¬(callee.isIndirect && !guess))
    (asked : List Callee) :
    ((Detector.fixed c guess).detect asked callee cs).lookup? callee =
      ((cs.register c).2.registered[(cs.register c).1]?).map ((cs.register c).1, ·) := by
  have hself : ((cs.register c).2.assign callee (cs.register c).1).assigned? callee =
      some (cs.register c).1 := ExtTreeMap.getElem?_insert_self
  simp only [Detector.detect_fixed_of hg, lookup?, hself]
  cases hget : (cs.register c).2.registered[(cs.register c).1]? with
  | none => simp [get?, assign, hget]
  | some c' => simp [get?, assign, hget]

/-- The convention of a detector goes where it would have gone before. -/
theorem register_detect_fixed (c : Convention) (guess : Bool) (asked : List Callee)
    (callee : Callee) (cs : Conventions) :
    (((Detector.fixed c guess).detect asked callee cs).register c).1 = (cs.register c).1 ∧
      (((Detector.fixed c guess).detect asked callee cs).register c).2.registered =
        (cs.register c).2.registered := by
  by_cases hg : callee.isIndirect && !guess
  · rw [Detector.refuses_fixed (c := c) hg _ rfl]
    exact ⟨rfl, rfl⟩
  · rw [Detector.detect_fixed_of hg]
    have hassign : ((cs.register c).2.assign callee (cs.register c).1).registered =
        (cs.register c).2.registered := rfl
    obtain ⟨hid, hregistered⟩ := register_congr hassign c
    obtain ⟨hid', hregistered'⟩ := register_again cs c
    exact ⟨hid.trans hid', hregistered.trans hregistered'⟩

theorem Asked.detect (h : Asked detector cs cs') {d : Detector} (hd : d ∈ detector)
    (hb : d.IsBuiltin) (hn : cs'.lookup? callee = none) (asked : List Callee) :
    Asked detector cs (d.detect asked callee cs') := by
  obtain rfl : detector = some d := hd
  have hanswered := (detect_answered hb h.answered.registered hn asked).1
  refine ⟨h.answered.trans hanswered, ?_, ?_⟩
  · cases hb with
    | silent => exact h.answers
    | fixed c guess =>
      by_cases hg : callee.isIndirect && !guess
      · rw [Detector.refuses_fixed (c := c) hg _ rfl]
        exact h.answers
      intro callee' x hx
      by_cases hne : callee = callee'
      · subst hne
        have hnone : cs.lookup? callee = none := by
          refine Option.eq_none_iff_forall_ne_some.mpr fun y hy => ?_
          rw [h.answered.kept callee y hy] at hn
          cases hn
        obtain ⟨hid, hregistered⟩ := h.place c guess rfl
        rw [lookup?_detect_fixed hg, hid, hregistered, ← lookup?_detect_fixed hg []] at hx
        rw [answer?, hnone, Option.none_or, Option.bind_some]
        exact hx
      · refine h.answers callee' x ?_
        rw [Detector.detect_fixed_of hg, h.answered.registered.lookup?_enlisted c hne] at hx
        exact hx
  · intro c guess heq
    obtain rfl := Option.some.inj heq
    obtain ⟨hid, hregistered⟩ := h.place c guess rfl
    obtain ⟨hid', hregistered'⟩ := register_detect_fixed c guess asked callee cs'
    exact ⟨hid'.trans hid, hregistered'.trans hregistered⟩

end Conventions

namespace Bench

variable {b b' : Bench} {detector : Option Detector} {signatures : Signatures}
variable {wanted : Anchor → Prop} {cs : Conventions}

theorem resolve_asked (callee : Callee) (hd : ∀ d ∈ detector, d.IsBuiltin)
    (ha : Conventions.Asked detector cs b.conventions.value) :
    Conventions.Asked detector cs (b.resolve detector callee).2.conventions.value := by
  unfold resolve
  split
  · exact ha
  · exact ha
  · next d hn => exact ha.detect rfl (hd d rfl) hn _

theorem Move.asked (h : Move detector signatures wanted b b') (hd : ∀ d ∈ detector, d.IsBuiltin)
    (ha : Conventions.Asked detector cs b.conventions.value) :
    Conventions.Asked detector cs b'.conventions.value := by
  cases h with
  | resolve callee => exact resolve_asked callee hd ha
  | detach a =>
    rw [detach_conventions]
    exact ha
  | obtain p =>
    rw [obtain_conventions]
    exact ha
  | start | count | place | remember | forget => exact ha

theorem Moves.asked (h : Moves detector signatures wanted b b') (hd : ∀ d ∈ detector, d.IsBuiltin)
    (ha : Conventions.Asked detector cs b.conventions.value) :
    Conventions.Asked detector cs b'.conventions.value := by
  induction h with
  | refl => exact ha
  | tail _ hm ih => exact hm.asked hd ih

end Bench

end CallEffects
