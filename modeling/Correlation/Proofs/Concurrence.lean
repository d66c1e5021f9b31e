import Correlation.Proofs.Erasure
import Correlation.Proofs.Resemblance
import Mathlib.Data.List.Induction

/-!
# Statements at the same time, in any order

Statements that run at the same time have no order, but their typings are joined one after the
other.  Most of what they come to together does not depend on that.

* What they need, what they define, what they invalidate and which inputs they take in is the union
  of what each of them does (`collects_parallel`).
* A correlation variable that some of them provide is reported for each of these but the first
  (`count_parallel`).

The data that they provide is another matter.  A typing that is joined takes away what was provided
before it, but not what will be provided after it.  So the last statement that provides a variable
or invalidates it decides (`mem_providedData_parallel`).  The order makes no difference as long as
no statement provides what another one before it invalidates (`parallel_of_perm`).
-/

namespace Correlation

/-- A correlation variable gets a value twice, wherever that is. -/
def Violation.clashAt (l : Location) : Violation := ⟨.unknown, .definedMoreThanOnce ⟨l, .unknown⟩⟩

theorem Violation.clashAt_injective : Function.Injective clashAt := fun _ _ h => by cases h; rfl

/-! ## How often a variable is reported -/

namespace ProvidedSet

variable {l : Location}

/-- A variable that two sets have is reported once. -/
theorem count_clashes (before next : ProvidedSet) (l : Location) :
    ((before.clashes next).map Violation.eraseSpans).count (.clashAt l) =
      (before.contains l && next.contains l).toNat := by
  have herase : (before.clashes next).map Violation.eraseSpans =
      ((next.toList.filter fun p => before.contains p.location).map
        ProvidedPath.location).map Violation.clashAt := by
    rw [clashes, List.map_map, List.map_map]
    rfl
  have hnodup : ((next.toList.filter fun p => before.contains p.location).map
      ProvidedPath.location).Nodup := next.nodup.sublist (List.filter_sublist.map _)
  have hmem : l ∈ (next.toList.filter fun p => before.contains p.location).map
      ProvidedPath.location ↔ (before.contains l && next.contains l) = true := by
    rw [Bool.and_eq_true, OrderedSet.contains_iff_mem_keys (s := next)]
    constructor
    · intro hl
      obtain ⟨p, hp, rfl⟩ := List.mem_map.mp hl
      obtain ⟨hnext, hbefore⟩ := List.mem_filter.mp hp
      exact ⟨hbefore, List.mem_map_of_mem hnext⟩
    · rintro ⟨hbefore, hl⟩
      obtain ⟨p, hp, rfl⟩ := List.mem_map.mp hl
      exact List.mem_map_of_mem (List.mem_filter.mpr ⟨hp, hbefore⟩)
  rw [herase, List.count_map_of_injective _ _ Violation.clashAt_injective, hnodup.count]
  by_cases hboth : (before.contains l && next.contains l) = true
  · rw [if_pos (hmem.mpr hboth), hboth]
    rfl
  · rw [if_neg (mt hmem.mp hboth), eq_false_of_ne_true hboth]
    rfl

/-- A variable is reported for each set that has it but the first. -/
theorem count_gather (sets : List ProvidedSet) (acc : ProvidedSet × List Violation) (l : Location) :
    ((sets.foldl gather acc).2.map Violation.eraseSpans).count (.clashAt l) =
      (acc.2.map Violation.eraseSpans).count (.clashAt l) +
        ((acc.1.contains l).toNat + sets.countP (fun s => s.contains l) - 1) := by
  induction sets generalizing acc with
  | nil =>
    rw [List.foldl_nil, List.countP_nil]
    cases acc.1.contains l <;> rfl
  | cons s rest ih =>
    rw [List.foldl_cons, ih, gather, List.map_append, List.count_append, count_clashes,
      OrderedSet.contains_union, List.countP_cons]
    cases acc.1.contains l <;> cases s.contains l <;> simp
    omega

end ProvidedSet

/-! ## What statements come to together -/

namespace Typing

variable {t : Typing} {ts us : List Typing} {l : Location}

/-- A variable that several statements provide is reported for each of them but the first. -/
theorem count_parallel (ts : List Typing) (l : Location) :
    ((parallel ts).2.map Violation.eraseSpans).count (.clashAt l) =
      ts.countP (fun t => t.providedCorrelation.contains l) - 1 := by
  rw [violations_parallel, ProvidedSet.count_gather, List.countP_map]
  exact (Nat.zero_add _).trans (congrArg (· - 1) (Nat.zero_add _))

/-- Nothing else is wrong with statements at the same time. -/
theorem cause_of_parallel {v : Violation} (hv : v ∈ (parallel ts).2) :
    ∃ path, v.cause = .definedMoreThanOnce path := by
  rw [violations_parallel] at hv
  have hshape := shape_of_gather hv
  cases hcause : v.cause with
  | definedMoreThanOnce path => exact ⟨path, rfl⟩
  | _ => rw [hcause] at hshape; cases hshape

/-- Looking back from the last statement, one that provides the data has to come before any that
invalidates it.  The last statement that does either decides, so the induction is from the end. -/
theorem mem_providedData_parallel (hts : ∀ t ∈ ts, t.Sorted) :
    l ∈ (parallel ts).1.providedData.keys ↔
      MeetsBefore (fun t => l ∈ t.providedData.keys ∧ l ∉ t.invalidatedData.keys)
        (fun t => l ∈ t.invalidatedData.keys) ts.reverse := by
  induction ts using List.reverseRecOn with
  | nil => exact iff_of_false List.not_mem_nil id
  | append_singleton ts t ih =>
    have ht : t.Sorted := hts t (List.mem_append_right ts (List.mem_singleton_self t))
    have hlast : (parallel (ts ++ [t])).1 = ((parallel ts).1.beside t).1 := by
      rw [parallel, List.foldl_append]
      rfl
    rw [hlast, mem_providedData_beside ht, List.reverse_concat, MeetsBefore,
      ih fun u hu => hts u (List.mem_append_left [t] hu)]
    tauto

/-- Data is provided if some statement provides it and none invalidates it, as long as no statement
provides it after another one has invalidated it.  So the statements before the one that decides
keep the data. -/
theorem mem_providedData_parallel_of_pairwise (hts : ∀ t ∈ ts, t.Sorted)
    (hpairs : ts.Pairwise fun t u => l ∈ t.invalidatedData.keys → l ∉ u.providedData.keys) :
    l ∈ (parallel ts).1.providedData.keys ↔
      (∃ t ∈ ts, l ∈ t.providedData.keys) ∧ ∀ t ∈ ts, l ∉ t.invalidatedData.keys := by
  rw [mem_providedData_parallel hts, meetsBefore_iff_exists]
  constructor
  · rintro ⟨later, t, earlier, hsplit, ⟨hprovided, hkept⟩, hlater⟩
    have hmem : ∀ u, u ∈ ts ↔ u ∈ later ∨ u = t ∨ u ∈ earlier := fun u => by
      rw [← List.mem_reverse, hsplit, List.mem_append, List.mem_cons]
    have hearlier : ∀ u ∈ earlier, l ∉ u.invalidatedData.keys := by
      rw [← List.pairwise_reverse, hsplit, List.pairwise_append, List.pairwise_cons] at hpairs
      exact fun u hu hlost => hpairs.2.1.1 u hu hlost hprovided
    refine ⟨⟨t, (hmem t).mpr (Or.inr (Or.inl rfl)), hprovided⟩, fun u hu => ?_⟩
    rcases (hmem u).mp hu with hu | rfl | hu
    · exact hlater u hu
    · exact hkept
    · exact hearlier u hu
  · rintro ⟨⟨t, ht, hprovided⟩, hkept⟩
    obtain ⟨later, earlier, hsplit⟩ := List.append_of_mem (List.mem_reverse.mpr ht)
    refine ⟨later, t, earlier, hsplit, ⟨hprovided, hkept t ht⟩, fun u hu => hkept u ?_⟩
    rw [← List.mem_reverse, hsplit]
    exact List.mem_append_left _ hu

end Typing

/-- Statements at the same time come to the same in whatever order their typings are joined, as long
as none of them provides data that another one before it invalidates. -/
theorem parallel_of_perm {order branches : List Typing} (hperm : order.Perm branches)
    (hsorted : ∀ b ∈ branches, b.Sorted) :
    (Typing.parallel order).1.Collects branches ∧
    (∀ l, (order.Pairwise fun b c => l ∈ b.invalidatedData.keys → l ∉ c.providedData.keys) →
      (l ∈ (Typing.parallel order).1.providedData.keys ↔
        (∃ b ∈ branches, l ∈ b.providedData.keys) ∧
          ∀ b ∈ branches, l ∉ b.invalidatedData.keys)) ∧
    (∀ l, ((Typing.parallel order).2.map Violation.eraseSpans).count (.clashAt l) =
      branches.countP (fun b => b.providedCorrelation.contains l) - 1) ∧
    ∀ v ∈ (Typing.parallel order).2, ∃ path, v.cause = .definedMoreThanOnce path := by
  have horder : ∀ b ∈ order, b.Sorted := fun b hb => hsorted b (hperm.mem_iff.mp hb)
  refine ⟨(Typing.collects_parallel horder).of_perm hperm, fun l hpairs => ?_, fun l => ?_,
    fun v hv => Typing.cause_of_parallel hv⟩
  · rw [Typing.mem_providedData_parallel_of_pairwise horder hpairs]
    simp only [hperm.mem_iff]
  · rw [Typing.count_parallel, hperm.countP_eq]

/-- Two statements that provide the key and some data, and one that invalidates other data. -/
def sharedKey : List Typing :=
  [(Typing.empty.provide sampleKey true).provide (sampleData "x") false,
    (Typing.empty.provide sampleKey false).provide (sampleData "x") false,
    (Typing.empty.provide sampleKey true).invalidate (sampleData "y")]

/-- In the opposite order the key is reported twice as well, and the data is provided. -/
theorem parallel_sharedKey :
    (sampleData "x").location ∈ (Typing.parallel sharedKey.reverse).1.providedData.keys ∧
      ((Typing.parallel sharedKey.reverse).2.map Violation.eraseSpans).count
        (.clashAt sampleKey.location) = 2 := by
  have hsorted : ∀ b ∈ sharedKey, b.Sorted := by
    refine List.forall_mem_cons.mpr ⟨(Typing.sorted_empty.provide _ _).provide _ _, ?_⟩
    refine List.forall_mem_cons.mpr ⟨(Typing.sorted_empty.provide _ _).provide _ _, ?_⟩
    exact List.forall_mem_singleton.mpr ((Typing.sorted_empty.provide _ _).invalidate _)
  obtain ⟨_, hdata, hcount, _⟩ := parallel_of_perm (List.reverse_perm sharedKey) hsorted
  refine ⟨(hdata (sampleData "x").location ?_).mpr ?_, (hcount sampleKey.location).trans ?_⟩
  · decide +kernel
  · decide +kernel
  · decide +kernel

/-- Without that condition the order decides.  A statement that invalidates data takes away only
what has been provided before it. -/
theorem not_parallel_of_perm :
    ¬ ∀ order branches : List Typing, order.Perm branches →
      (∀ b ∈ branches, b.Sorted ∧ ∀ l ∈ b.providedData.keys, l ∉ b.invalidatedData.keys) →
        ∀ l, l ∈ (Typing.parallel order).1.providedData.keys ↔
          (∃ b ∈ branches, l ∈ b.providedData.keys) ∧
            ∀ b ∈ branches, l ∉ b.invalidatedData.keys := by
  intro h
  let branches := [Typing.empty.invalidate (sampleData "x"),
    Typing.empty.provide (sampleData "x") false]
  have hbranches : ∀ b ∈ branches,
      b.Sorted ∧ ∀ l ∈ b.providedData.keys, l ∉ b.invalidatedData.keys := by
    refine List.forall_mem_cons.mpr ⟨⟨Typing.sorted_empty.invalidate _, by decide +kernel⟩, ?_⟩
    exact List.forall_mem_singleton.mpr
      ⟨Typing.sorted_empty.provide _ _, by decide +kernel⟩
  have hdata := h branches branches (.refl _) hbranches (sampleData "x").location
  have hprovided : (sampleData "x").location ∈ (Typing.parallel branches).1.providedData.keys := by
    decide +kernel
  exact (hdata.mp hprovided).2 _ List.mem_cons_self (by decide +kernel)

end Correlation
