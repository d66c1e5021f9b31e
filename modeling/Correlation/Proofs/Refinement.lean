import Correlation.Proofs.Monotone
import Correlation.Proofs.Places
import Correlation.Proofs.Summary

/-!
# Skeletons that ask for no more

Two tables of typings are compared, a new one and an old one.  A skeleton *improves* on another one
if its typing by the new table refines the typing of the other by the old table, from every entry
in which no less is defined.

If the parts of a skeleton improve on those of another one that is put together in the same way, the
skeleton does (`improves_of_alike`), and it has the same faults (`faults_of_alike`).  So a skeleton
improves on itself if the calls in it do (`improves_self`).
-/

namespace Correlation

namespace Skeleton

/-- A skeleton asks for no more by the new table than another one does by the old table, if no less
is defined before it. -/
def Improves (ctx : Context) (new old : NameTable Typing) (x y : Bool × Skeleton) : Prop :=
  ∀ entry other : Typing, entry.Covers other →
    (typing ctx new x.1 x.2 entry).Refines (typing ctx old y.1 y.2 other)

/-- What a skeleton calls asks for no more by the new table than by the old one. -/
def CallsRefine (ctx : Context) (new old : NameTable Typing) (x : Bool × Skeleton) : Prop :=
  ∀ y ∈ visited ctx.execution x.1 x.2, ∀ span name, y.2 = .call span name →
    (called new name).Refines (called old name)

section Improves

variable {ctx : Context} {new old : NameTable Typing} {starter : Bool} {k k' : Skeleton}

theorem CallsRefine.child {x c : Bool × Skeleton} (h : CallsRefine ctx new old x)
    (hc : c ∈ children ctx.execution x.1 x.2) : CallsRefine ctx new old c :=
  fun y hy => h y (mem_visited_of_child hc hy)

theorem CallsRefine.part {x y : Bool × Skeleton} (h : CallsRefine ctx new old x)
    (hy : y ∈ visited ctx.execution x.1 x.2) : CallsRefine ctx new old y :=
  fun z hz => h z (visited_subset hy hz)

/-- A join asks for no more if its parts ask for no more. -/
theorem refines_join {join : List Typing → Typing × List Violation}
    (hk : join? starter k = some join) {ts us : List Typing} (hts : ∀ t ∈ ts, t.Sorted)
    (hus : ∀ u ∈ us, u.Sorted) (h : List.Forall₂ Typing.Refines ts us) :
    (join ts).1.Refines (join us).1 := by
  cases k with
  | parallel => cases hk; exact Typing.Refines.parallel hts hus h
  | choice | conditional => cases hk; exact Typing.Refines.choice hts hus h _ _ _
  | _ => cases hk

variable (hnew : SortedTable new) (hold : SortedTable old)

include hnew hold

/-- A sequence asks for no more if its parts improve. -/
theorem refines_sequel {parts others : List Skeleton} {starter other : Bool}
    (h : List.Forall₂ (Improves ctx new old) (flagged ctx.execution starter parts)
      (flagged ctx.execution other others)) {s r : Sequel} (hs : s.Refines r) :
    (sequel ctx new starter parts s).Refines (sequel ctx old other others r) := by
  induction parts generalizing starter other others s r with
  | nil =>
    cases others with
    | nil => exact hs
    | cons y others => cases h
  | cons x rest ih =>
    cases others with
    | nil => cases h
    | cons y others =>
      obtain ⟨hhead, htail⟩ := List.forall₂_cons.mp h
      refine ih htail (hs.append ?_ ?_ (hhead s.running r.running hs.running))
      · exact sorted_typing ctx hnew starter x s.running
      · exact sorted_typing ctx hold other y r.running

/-- A skeleton improves on one that is put together in the same way if its parts do. -/
theorem improves_of_alike (hk : Alike k k')
    (hcall : ∀ span name, k = .call span name → (called new name).Refines (called old name))
    (hparts : List.Forall₂ (Improves ctx new old) (children ctx.execution starter k)
      (children ctx.execution starter k')) :
    Improves ctx new old (starter, k) (starter, k') := by
  intro entry other hentry
  have hjoin : ∀ join, join? starter k = some join → join? starter k' = some join →
      (typing ctx new starter k entry).Refines (typing ctx old starter k' other) := by
    intro join hjoin hjoin'
    rw [typing_join ctx new hjoin, typing_join ctx old hjoin']
    refine refines_join hjoin (List.forall_mem_map.mpr fun c _ => sorted_typing ctx hnew c.1 c.2 _)
      (List.forall_mem_map.mpr fun c _ => sorted_typing ctx hold c.1 c.2 _) ?_
    rw [List.forall₂_map_left_iff, List.forall₂_map_right_iff]
    exact hparts.imp fun c c' hc => hc entry other hentry
  cases hk with
  | leaf hk =>
    cases k with
    | idle | request | input | invalidate => rw [typing, typing]; exact .refl _
    | assign span target value =>
      rw [typing, typing]
      split
      · exact hentry.initialTyping span (target.locatedIn span) value
      · exact .refl .empty
    | call span name =>
      rw [typing, typing]
      exact hcall span name rfl
    | _ => cases hk
  | sequence parts others =>
    rw [typing, typing]
    exact (refines_sequel hnew hold hparts (Sequel.refines_start hentry)).result
  | parallel | choice | conditional => exact hjoin _ rfl rfl
  | repeated span body other =>
    rw [typing, typing]
    exact ((List.forall₂_cons.mp hparts).1 _ _ hentry).repeated span

/-- A skeleton has the faults of one that is put together in the same way, if its parts improve on
those of the other. -/
theorem faults_of_alike (hk : Alike k k')
    (hparts : List.Forall₂ (Improves ctx new old) (children ctx.execution starter k)
      (children ctx.execution starter k')) (insideInit : Bool) :
    faults ctx new insideInit starter k .empty = faults ctx old insideInit starter k' .empty := by
  have hsteady : List.Forall₂ (fun c c' : Bool × Skeleton =>
      (typing ctx new c.1 c.2 .empty).steady = (typing ctx old c'.1 c'.2 .empty).steady)
        (children ctx.execution starter k) (children ctx.execution starter k') :=
    hparts.imp fun c c' hc => (hc .empty .empty (.refl .empty)).steady
  have hall : k.shape = .all → k'.shape = .all →
      faults ctx new insideInit starter k .empty = faults ctx old insideInit starter k' .empty := by
    intro hshape hshape'
    have hprovided : (children ctx.execution starter k).map (provided ctx new) =
        (children ctx.execution starter k').map (provided ctx old) :=
      map_eq_of_forall₂ (hsteady.imp fun c c' hc => congrArg Prod.fst hc)
    rw [faults_all hnew hshape, faults_all hold hshape', hprovided]
  have hone : ∀ join, join? starter k = some join → join? starter k' = some join →
      faults ctx new insideInit starter k .empty = faults ctx old insideInit starter k' .empty := by
    intro join hjoin hjoin'
    rw [faults_join ctx new hjoin, faults_join ctx old hjoin']
    refine (join_congr hjoin ?_).2
    rw [List.map_map, List.map_map]
    exact map_eq_of_forall₂ hsteady
  cases hk with
  | leaf hk =>
    cases k with
    | idle | request | input | assign | invalidate | call => rw [faults, faults]
    | _ => cases hk
  | sequence | parallel => exact hall rfl rfl
  | choice | conditional => exact hone _ rfl rfl
  | repeated span body other =>
    have hprovided : (typing ctx new starter body .empty).providedCorrelation =
        (typing ctx old starter other .empty).providedCorrelation :=
      congrArg Prod.fst (List.forall₂_cons.mp hsteady).1
    rw [faults, faults, Typing.repeated, Typing.repeated, hprovided]

/-- A skeleton improves on itself if its calls do. -/
theorem improves_self (x : Bool × Skeleton) (hcalls : CallsRefine ctx new old x) :
    Improves ctx new old x x := by
  obtain ⟨starter, k⟩ := x
  induction starter, k using induction_children ctx.execution with
  | step starter k ih =>
    refine improves_of_alike hnew hold (.refl k) (hcalls _ (mem_visited_self _ _ _)) ?_
    exact List.forall₂_same.mpr fun c hc => ih c hc (hcalls.child hc)

/-- A skeleton then has the faults that it had. -/
theorem faults_self (x : Bool × Skeleton) (hcalls : CallsRefine ctx new old x)
    (insideInit : Bool) :
    faults ctx new insideInit x.1 x.2 .empty = faults ctx old insideInit x.1 x.2 .empty :=
  faults_of_alike hnew hold (.refl x.2) (List.forall₂_same.mpr fun c hc =>
    improves_self hnew hold c (hcalls.child hc)) insideInit

end Improves

/-- Before any session starts an input needs no routing, so less is wrong there. -/
theorem faults_insideInit_subset (ctx : Context) (table : NameTable Typing) (insideInit : Bool)
    (x : Bool × Skeleton) (entry : Typing) :
    faults ctx table insideInit x.1 x.2 entry ⊆ faults ctx table false x.1 x.2 entry := by
  obtain ⟨starter, k⟩ := x
  cases insideInit with
  | false => exact List.Subset.refl _
  | true =>
    cases k with
    | input span operation receive =>
      simp only [faults, Bool.not_true, Bool.and_false, Bool.false_and]
      split
      · exact List.Subset.refl _
      · rw [if_neg Bool.false_ne_true, List.append_nil]
        exact List.subset_append_left _ _
    | _ => rw [faults, faults]; exact List.Subset.refl _

end Skeleton

end Correlation
