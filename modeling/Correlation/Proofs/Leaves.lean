import Correlation.Proofs.Runs
import Correlation.Proofs.Summary

/-!
# Single events

The typing of a skeleton without parts says what its event does: it provides what the event gives a
value to, as fresh as the event makes it (`freshness_event`), and it needs what the event needs
(`mem_needed_event`).
-/

namespace Correlation

open Skeleton

/-! ## Single events -/

section Event

variable {ctx : Context} {table : NameTable Typing} {l : Location}

theorem Typing.freshness_provide (t : Typing) (p : Path) (fresh : Bool) (l : Location) :
    (t.provide p fresh).providedCorrelation.freshness l =
      if p.isCorrelation && decide (p.location = l) then some fresh
      else t.providedCorrelation.freshness l := by
  rw [provide]
  by_cases hp : p.isCorrelation = true
  · rw [if_pos hp, hp, Bool.true_and]
    refine (ProvidedSet.freshness_insert _ _ l).trans ?_
    simp only [decide_eq_true_eq]
    rfl
  · rw [if_neg hp, eq_false_of_ne_true hp, Bool.false_and]
    rfl

theorem Typing.freshness_foldl_provide (ps : List Path) (t : Typing) (fresh : Bool) (l : Location) :
    (ps.foldl (fun t p => t.provide p fresh) t).providedCorrelation.freshness l =
      if ps.any fun p => p.isCorrelation && decide (p.location = l) then some fresh
      else t.providedCorrelation.freshness l := by
  induction ps generalizing t with
  | nil => rfl
  | cons p ps ih =>
    rw [List.foldl_cons, ih, freshness_provide, List.any_cons]
    cases p.isCorrelation && decide (p.location = l) <;>
      cases ps.any fun p => p.isCorrelation && decide (p.location = l) <;> rfl

theorem Context.any_keysFor (ctx : Context) (operation : String) (span : Span) (l : Location) :
    ((ctx.keysFor operation span).any fun p => p.isCorrelation && decide (p.location = l)) =
      ctx.routes operation l := by
  rw [keysFor, routes]
  cases ctx.routing.setFor operation with
  | none => rfl
  | some set => exact List.any_map

/-- The keys of an operation are the variables that route it. -/
theorem Context.mem_keysFor_iff {operation : String} {span : Span} :
    (l.isCorrelation = true ∧ ∃ p ∈ ctx.keysFor operation span, p.location = l) ↔
      ctx.routes operation l = true := by
  rw [← ctx.any_keysFor operation span, List.any_eq_true]
  simp only [Bool.and_eq_true, decide_eq_true_eq]
  constructor
  · rintro ⟨hl, p, hp, rfl⟩
    exact ⟨p, hp, hl, rfl⟩
  · rintro ⟨p, hp, hl, rfl⟩
    exact ⟨hl, p, hp, rfl⟩

theorem Typing.noteInput_eq (t : Typing) (operation : String) (starter : Bool) :
    (t.noteInput operation starter).providedCorrelation = t.providedCorrelation ∧
      (t.noteInput operation starter).neededKeys = t.neededKeys := by
  cases starter <;> exact ⟨rfl, rfl⟩

theorem freshness_initialTyping (span : Span) (target : Path) (value : Initializer)
    (entry : Typing) (l : Location) :
    (Check.initialTyping span target value entry).1.providedCorrelation.freshness l =
      if target.isCorrelation && decide (target.location = l) then value.freshFor target
      else none := by
  unfold Check.initialTyping
  cases value with
  | constant | fresh => exact Typing.freshness_provide _ _ _ l
  | update path =>
    dsimp only [Initializer.freshFor]
    by_cases htarget : target.isCorrelation = true
    · by_cases hpath : path.location = target.location
      · rw [if_neg (by simp [hpath]), if_pos hpath]
        exact Typing.freshness_provide _ _ _ l
      · rw [if_pos (by simp [htarget, hpath]), if_neg hpath, ite_self]
        rfl
    · rw [if_neg (by simp [htarget])]
      refine (Typing.freshness_provide _ _ _ l).trans ?_
      rw [eq_false_of_ne_true htarget]
      rfl
  | copy source =>
    dsimp only [Initializer.freshFor]
    by_cases hsource : source.isStatic = true
    · rw [if_pos hsource, if_pos hsource]
      split
      · exact Typing.freshness_provide _ _ _ l
      · split
        · refine (Typing.freshness_provide _ _ _ l).trans ?_
          rw [show (Typing.empty.need (source.locatedIn span)).providedCorrelation =
            Typing.empty.providedCorrelation from congrArg Prod.fst (Typing.steady_need _ _)]
          rfl
        · next htarget =>
          rw [eq_false_of_ne_true htarget]
          rfl
    · rw [if_neg hsource, if_neg hsource, ite_self]
      rfl
  | other => exact (ite_self none).symm

/-- What a single event does is what the typing says. -/
theorem freshness_event {x : Bool × Skeleton} {e : Event} (he : x.2.event x.1 = some e) :
    (provided ctx table x).freshness l = e.freshness ctx l := by
  obtain ⟨starter, k⟩ := x
  cases k with
  | idle | request => cases he; rfl
  | input span operation receive =>
    cases he
    rw [provided, typing, Event.freshness]
    by_cases hmode : ctx.execution = .single
    · rw [if_pos hmode, decide_eq_true hmode, Bool.not_true, Bool.and_false, Bool.false_and]
      rfl
    · rw [if_neg hmode, decide_eq_false hmode, (Typing.noteInput_eq _ _ _).1, Check.inputTyping]
      cases starter with
      | true =>
        refine (Typing.freshness_foldl_provide _ _ true l).trans ?_
        rw [ctx.any_keysFor]
        rfl
      | false =>
        have hkeeps := foldl_keeps Typing.steady
          (fun t p (_ : p ∈ ctx.keysFor operation span) => Typing.steady_need t p) Typing.empty
        exact congrArg (ProvidedSet.freshness · l) (congrArg Prod.fst hkeeps)
  | assign span target value =>
    cases he
    rw [provided, typing, Event.freshness]
    by_cases htarget : target.isStatic = true
    · rw [if_pos htarget, freshness_initialTyping, htarget, Bool.true_and]
      rfl
    · rw [if_neg htarget, eq_false_of_ne_true htarget]
      rfl
  | invalidate span paths =>
    cases he
    have hkeeps := foldl_keeps Typing.steady
      (fun t (p : Path) (_ : p ∈ paths) => Typing.steady_invalidate t (p.locatedIn span)) .empty
    rw [provided, typing]
    exact congrArg (ProvidedSet.freshness · l) (congrArg Prod.fst hkeeps)
  | _ => cases he

/-- A leaf grants what its event defines. -/
theorem grants_event (table : NameTable Typing) {x : Bool × Skeleton} {e : Event}
    (he : x.2.event x.1 = some e) :
    grants ctx table l x = e.defines ctx l := by
  rw [grants_eq_isSome, freshness_event he, Event.defines]

/-- What a single event needs is what the typing says. -/
theorem mem_needed_event {x : Bool × Skeleton} {e : Event} (he : x.2.event x.1 = some e) :
    l ∈ needed ctx table x ↔ e.needs ctx l = true := by
  obtain ⟨starter, k⟩ := x
  cases k with
  | idle | request =>
    cases he
    exact iff_of_false (Typing.not_mem_neededKeys_empty l) Bool.false_ne_true
  | input span operation receive =>
    cases he
    rw [needed, typing, Event.needs]
    by_cases hmode : ctx.execution = .single
    · rw [if_pos hmode, decide_eq_true hmode, Bool.not_true, Bool.and_false, Bool.false_and]
      exact iff_of_false (Typing.not_mem_neededKeys_empty l) Bool.false_ne_true
    · rw [if_neg hmode, decide_eq_false hmode, (Typing.noteInput_eq _ _ _).2, Check.inputTyping]
      cases starter with
      | true =>
        have hkeeps := foldl_keeps Typing.neededKeys
          (fun t p (_ : p ∈ ctx.keysFor operation span) => Typing.neededKeys_provide t p true)
          Typing.empty
        refine (Iff.of_eq (congrArg (l ∈ ·) hkeeps)).trans ?_
        exact iff_of_false (Typing.not_mem_neededKeys_empty l) Bool.false_ne_true
      | false =>
        refine Typing.mem_neededKeys_foldl_need.trans ?_
        rw [or_iff_right (Typing.not_mem_neededKeys_empty l), Context.mem_keysFor_iff]
        rfl
  | assign span target value =>
    cases he
    rw [needed, typing, Event.needs]
    by_cases htarget : target.isStatic = true
    · rw [if_pos htarget, mem_neededKeys_initialTyping Typing.sorted_empty, htarget]
      simp only [Bool.and_eq_true, true_and]
      constructor
      · rintro ⟨hkey, hcopies, hl, _⟩
        exact ⟨⟨hkey, hl⟩, hcopies⟩
      · rintro ⟨⟨hkey, hl⟩, hcopies⟩
        exact ⟨hkey, hcopies, hl, List.not_mem_nil⟩
    · rw [if_neg htarget, eq_false_of_ne_true htarget]
      exact iff_of_false (Typing.not_mem_neededKeys_empty l) Bool.false_ne_true
  | invalidate span paths =>
    cases he
    have hkeeps := foldl_keeps Typing.neededKeys
      (fun t (p : Path) (_ : p ∈ paths) => Typing.neededKeys_invalidate t (p.locatedIn span)) .empty
    rw [needed, typing]
    refine (Iff.of_eq (congrArg (l ∈ ·) hkeeps)).trans ?_
    exact iff_of_false (Typing.not_mem_neededKeys_empty l) Bool.false_ne_true
  | _ => cases he

end Event

end Correlation
