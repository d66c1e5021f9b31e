import Correlation.Proofs.Causes
import Correlation.Proofs.Regrouping
import Correlation.Proofs.Starters
import Mathlib.Data.List.Perm.Basic

/-!
# Typings that resemble each other

The order in which a program is written shows in its typings: it is the order of their sets, and of
several provisions of a variable it decides which one is kept.  Two typings *resemble* each other if
they tell the same apart from that.

* Of every location they say the same.  A correlation variable has the same freshness.
* They note the same inputs of running sessions.

Statements that run at the same time may provide data and invalidate it, and it is the last of them
that decides whether the data is provided after all.  A *lax* comparison leaves open whether data is
provided that both typings invalidate.  After a sequence nothing is left open, since a sequence does
not provide what it invalidates (`Sequel.Resembles.append`).

Typings that resemble each other one by one do so when they are joined, and typings in another order
do (`resembles_parallel_of_perm`, `resembles_alternatives_of_perm`).  Nothing is wrong with the one
join exactly if nothing is wrong with the other, since both are told by what the typings have in
common (`ProvidedSet.gather_eq_nil_iff`, `choice_eq_nil_iff`, `starts_eq_nil_iff`).
-/

namespace Correlation

/-! ## Gathering without clashes -/

namespace ProvidedSet

/-- Nothing is wrong with gathered sets if no two of them have the same variable. -/
theorem gather_eq_nil_iff {sets : List ProvidedSet} :
    (sets.foldl gather (.empty, [])).2 = [] ↔
      ∀ l, sets.countP (fun s => s.contains l) ≤ 1 := by
  have hclash : ∀ l, (∃ v ∈ (sets.foldl gather (.empty, [])).2, v.ClashesAt l) ↔
      2 ≤ sets.countP fun s => s.contains l := by
    intro l
    refine (exists_clash_gather sets (.empty, [])).trans ?_
    refine (or_iff_right ?_).trans (Iff.of_eq (congrArg (2 ≤ ·) (Nat.zero_add _)))
    rintro ⟨v, hv, _⟩
    cases hv
  constructor
  · intro hnil l
    by_contra hmany
    obtain ⟨v, hv, _⟩ := (hclash l).mpr (Nat.lt_of_not_le hmany)
    rw [hnil] at hv
    cases hv
  · intro hone
    refine List.eq_nil_iff_forall_not_mem.mpr fun v hv => ?_
    have hshape := shape_of_gather hv
    cases hcause : v.cause with
    | definedMoreThanOnce path =>
      have hmany := (hclash path.location).mp ⟨v, hv, path, hcause, rfl⟩
      exact absurd (hone path.location) (Nat.not_le_of_lt hmany)
    | _ => rw [hcause] at hshape; cases hshape

end ProvidedSet

namespace Typing

/-- Two typings tell the same.  A lax comparison leaves open whether data is provided that is
invalidated besides. -/
structure Resembles (lax : Prop) (t u : Typing) : Prop where
  neededKeys : ∀ l, l ∈ t.neededKeys ↔ l ∈ u.neededKeys
  neededData : ∀ l, l ∈ t.neededData.keys ↔ l ∈ u.neededData.keys
  freshness : ∀ l, t.providedCorrelation.freshness l = u.providedCorrelation.freshness l
  invalidatedData : ∀ l, l ∈ t.invalidatedData.keys ↔ l ∈ u.invalidatedData.keys
  providedData : ∀ l, (lax → l ∉ t.invalidatedData.keys) →
    (l ∈ t.providedData.keys ↔ l ∈ u.providedData.keys)
  operations : ∀ operation,
    operation ∈ t.sessionOperations.keys ↔ operation ∈ u.sessionOperations.keys

variable {lax : Prop} {t u v : Typing}

theorem Resembles.refl (lax : Prop) (t : Typing) : t.Resembles lax t :=
  ⟨fun _ => .rfl, fun _ => .rfl, fun _ => rfl, fun _ => .rfl, fun _ _ => .rfl, fun _ => .rfl⟩

theorem Resembles.symm (h : t.Resembles lax u) : u.Resembles lax t where
  neededKeys l := (h.neededKeys l).symm
  neededData l := (h.neededData l).symm
  freshness l := (h.freshness l).symm
  invalidatedData l := (h.invalidatedData l).symm
  providedData l hl := (h.providedData l fun hlax => mt (h.invalidatedData l).mp (hl hlax)).symm
  operations o := (h.operations o).symm

theorem Resembles.trans (htu : t.Resembles lax u) (huv : u.Resembles lax v) :
    t.Resembles lax v where
  neededKeys l := (htu.neededKeys l).trans (huv.neededKeys l)
  neededData l := (htu.neededData l).trans (huv.neededData l)
  freshness l := (htu.freshness l).trans (huv.freshness l)
  invalidatedData l := (htu.invalidatedData l).trans (huv.invalidatedData l)
  providedData l hl := (htu.providedData l hl).trans
    (huv.providedData l fun hlax => mt (htu.invalidatedData l).mpr (hl hlax))
  operations o := (htu.operations o).trans (huv.operations o)

/-- What resembles in full resembles in a lax comparison. -/
theorem Resembles.weaken (h : t.Resembles False u) : t.Resembles lax u :=
  { h with providedData := fun l _ => h.providedData l False.elim }

/-- Two typings may be compared in a lax way where that is allowed. -/
theorem Resembles.relax (h : t.Resembles True u) (hlax : lax) : t.Resembles lax u :=
  { h with providedData := fun l hl => h.providedData l fun _ => hl hlax }

/-- Nothing is left open between typings that invalidate none of the data that they provide. -/
theorem Resembles.strict (h : t.Resembles lax u)
    (ht : lax → ∀ l ∈ t.providedData.keys, l ∉ t.invalidatedData.keys)
    (hu : lax → ∀ l ∈ u.providedData.keys, l ∉ u.invalidatedData.keys) : t.Resembles False u :=
  { h with
    providedData := fun l _ =>
      ⟨fun hl => (h.providedData l fun hlax => ht hlax l hl).mp hl,
        fun hl => (h.symm.providedData l fun hlax => hu hlax l hl).mp hl⟩ }

/-- Typings that resemble each other provide the same correlation variables. -/
theorem Resembles.mem_keys (h : t.Resembles lax u) (l : Location) :
    l ∈ t.providedCorrelation.keys ↔ l ∈ u.providedCorrelation.keys := by
  rw [← not_iff_not, ← ProvidedSet.freshness_eq_none_iff, h.freshness,
    ProvidedSet.freshness_eq_none_iff]

/-- What comes after such typings is entered with the same. -/
theorem Resembles.defined (h : t.Resembles False u) : t.defined = u.defined :=
  defined_congr h.mem_keys fun l => h.providedData l False.elim

theorem Resembles.repeated (h : t.Resembles lax u) (span : Span) :
    (t.repeated span).1.Resembles lax (u.repeated span).1 :=
  { h with providedData := fun _ _ => .rfl }

end Typing

/-! ## In sequence -/

namespace Sequel

/-- Sequences that have come to the same, with the same to go on with. -/
structure Resembles (s r : Sequel) : Prop where
  result : s.result.Resembles False r.result
  running : s.running.defined = r.running.defined

theorem resembles_start {entry other : Typing} (h : entry.defined = other.defined) :
    (start entry).Resembles (start other) :=
  ⟨.refl False .empty, h⟩

variable {lax : Prop} {s r : Sequel} {t u : Typing} (h : s.Resembles r) (ht : t.Sorted)
  (hu : u.Sorted) (htu : t.Resembles lax u)

include h ht hu htu

/-- Sequences resemble each other after one more statement, and nothing is left open. -/
theorem Resembles.result_append : (s.append t).result.Resembles False (r.append u).result where
  neededKeys l := by
    rw [mem_needed_append ht, mem_needed_append hu, h.result.neededKeys, htu.neededKeys,
      Typing.mem_keys_congr h.running]
  neededData l := by
    rw [mem_neededData_append_iff ht, mem_neededData_append_iff hu, h.result.neededData,
      htu.neededData, Typing.mem_data_congr h.running]
  freshness l := by
    rw [providedKeys_append s ht, providedKeys_append r hu, ProvidedSet.freshness_union,
      ProvidedSet.freshness_union, h.result.freshness, htu.freshness]
  invalidatedData l := by
    rw [mem_invalidatedData_append ht, mem_invalidatedData_append hu, h.result.invalidatedData,
      htu.invalidatedData]
    by_cases hl : l ∈ u.invalidatedData.keys
    · exact iff_of_true (Or.inr hl) (Or.inr hl)
    · rw [htu.providedData l fun _ => mt (htu.invalidatedData l).mp hl]
  providedData l _ := by
    rw [mem_resultData_append ht, mem_resultData_append hu, h.result.providedData l False.elim,
      htu.invalidatedData]
    refine and_congr_left fun hl => ?_
    rw [htu.providedData l fun _ => mt (htu.invalidatedData l).mp hl]
  operations o := by
    have hs : (s.append t).result.sessionOperations =
        s.result.sessionOperations.union t.sessionOperations :=
      congrArg Prod.fst (inputs_append s ht)
    have hr : (r.append u).result.sessionOperations =
        r.result.sessionOperations.union u.sessionOperations :=
      congrArg Prod.fst (inputs_append r hu)
    rw [hs, hr, OrderedSet.mem_keys_union, OrderedSet.mem_keys_union, h.result.operations,
      htu.operations]

/-- Sequences that resemble each other define the same after one more statement. -/
theorem Resembles.running_append : (s.append t).running.defined = (r.append u).running.defined := by
  refine Typing.defined_congr (fun l => ?_) fun l => ?_
  · rw [mem_running_append ht, mem_running_append hu, Typing.mem_keys_congr h.running,
      htu.mem_keys, h.result.mem_keys]
  · rw [mem_runningData_append ht, mem_runningData_append hu, Typing.mem_data_congr h.running,
      htu.invalidatedData]
    refine and_congr_left fun hl => ?_
    rw [htu.providedData l fun _ => mt (htu.invalidatedData l).mp hl]

/-- A sequence goes on with typings that need only resemble in a lax comparison. -/
theorem Resembles.append : (s.append t).Resembles (r.append u) :=
  ⟨h.result_append ht hu htu, h.running_append ht hu htu⟩

end Sequel

namespace Typing

variable {lax : Prop} {t u t' u' : Typing} {ts us : List Typing} {l : Location}

/-! ## At the same time -/

theorem mem_operations_beside (t u : Typing) (operation : String) :
    operation ∈ (t.beside u).1.sessionOperations.keys ↔
      operation ∈ t.sessionOperations.keys ∨ operation ∈ u.sessionOperations.keys := by
  have hinputs := congrArg (fun s => s.2.1) (beside_steady t u).1
  rw [show (t.beside u).1.sessionOperations = t.sessionOperations.union u.sessionOperations from
    hinputs, OrderedSet.mem_keys_union]

theorem Resembles.beside (h : t.Resembles lax u) (ht : t'.Sorted) (hu : u'.Sorted)
    (h' : t'.Resembles lax u') : (t.beside t').1.Resembles lax (u.beside u').1 where
  neededKeys l := by
    rw [mem_neededKeys_beside ht, mem_neededKeys_beside hu, h.neededKeys, h'.neededKeys]
  neededData l := by
    rw [mem_neededData_beside ht, mem_neededData_beside hu, h.neededData, h'.neededData]
  freshness l := by
    have hprovided : ∀ t u : Typing, (t.beside u).1.providedCorrelation =
        t.providedCorrelation.union u.providedCorrelation :=
      fun t u => congrArg Prod.fst (beside_steady t u).1
    rw [hprovided, hprovided, ProvidedSet.freshness_union, ProvidedSet.freshness_union,
      h.freshness, h'.freshness]
  invalidatedData l := by
    rw [mem_invalidatedData_beside ht, mem_invalidatedData_beside hu, h.invalidatedData,
      h'.invalidatedData]
  providedData l hl := by
    simp only [mem_invalidatedData_beside ht, not_or] at hl
    rw [mem_providedData_beside ht, mem_providedData_beside hu,
      h.providedData l fun hlax => (hl hlax).1, h'.providedData l fun hlax => (hl hlax).2,
      h'.invalidatedData]
  operations o := by
    rw [mem_operations_beside, mem_operations_beside, h.operations, h'.operations]

/-- Statements at the same time that resemble each other one by one do so together. -/
theorem Resembles.parallel (hts : ∀ t ∈ ts, t.Sorted) (hus : ∀ u ∈ us, u.Sorted)
    (h : List.Forall₂ (Resembles lax) ts us) :
    (Typing.parallel ts).1.Resembles lax (Typing.parallel us).1 := by
  have hfold : ∀ acc acc' : Typing × List Violation, acc.1.Resembles lax acc'.1 →
      (ts.foldl (fun acc next => ((acc.1.beside next).1, acc.2 ++ (acc.1.beside next).2))
        acc).1.Resembles lax
      (us.foldl (fun acc next => ((acc.1.beside next).1, acc.2 ++ (acc.1.beside next).2))
        acc').1 := by
    induction h with
    | nil => exact fun _ _ hacc => hacc
    | cons htu _ ih =>
      intro acc acc' hacc
      obtain ⟨ht, hts⟩ := List.forall_mem_cons.mp hts
      obtain ⟨hu, hus⟩ := List.forall_mem_cons.mp hus
      exact ih hts hus _ _ (hacc.beside ht hu htu)
  exact hfold (.empty, []) (.empty, []) (.refl lax .empty)

/-- What one more statement at the same time adds up with, holds of the whole if it holds of one of
the statements. -/
theorem parallel_iff {P : Typing → Prop} (hempty : ¬ P .empty)
    (hstep : ∀ t, ∀ u ∈ ts, P (t.beside u).1 ↔ P t ∨ P u) :
    P (parallel ts).1 ↔ ∃ t ∈ ts, P t := by
  have hfold : ∀ acc : Typing × List Violation,
      P (ts.foldl (fun acc next =>
        ((acc.1.beside next).1, acc.2 ++ (acc.1.beside next).2)) acc).1 ↔
          P acc.1 ∨ ∃ t ∈ ts, P t := by
    induction ts with
    | nil => simp
    | cons u rest ih =>
      intro acc
      rw [List.foldl_cons, ih fun t v hv => hstep t v (List.mem_cons_of_mem u hv),
        hstep acc.1 u List.mem_cons_self, List.exists_mem_cons_iff, or_assoc]
  exact (hfold (empty, [])).trans (or_iff_right hempty)

/-- Of statements at the same time the first one that provides a variable tells its freshness. -/
theorem freshness_parallel (ts : List Typing) (l : Location) :
    (parallel ts).1.providedCorrelation.freshness l =
      ts.findSome? fun t => t.providedCorrelation.freshness l := by
  rw [show (parallel ts).1.providedCorrelation = _ from congrArg Prod.fst (parallel_eq_gather ts),
    ProvidedSet.freshness_gather, List.findSome?_map]
  rfl

/-- A typing takes over what any of the others needs, defines, invalidates or takes in. -/
structure Collects (t : Typing) (ts : List Typing) : Prop where
  neededKeys : ∀ l, l ∈ t.neededKeys ↔ ∃ b ∈ ts, l ∈ b.neededKeys
  neededData : ∀ l, l ∈ t.neededData.keys ↔ ∃ b ∈ ts, l ∈ b.neededData.keys
  providedKeys : ∀ l, l ∈ t.providedCorrelation.keys ↔ ∃ b ∈ ts, l ∈ b.providedCorrelation.keys
  invalidatedData : ∀ l, l ∈ t.invalidatedData.keys ↔ ∃ b ∈ ts, l ∈ b.invalidatedData.keys
  operations : ∀ o, o ∈ t.sessionOperations.keys ↔ ∃ b ∈ ts, o ∈ b.sessionOperations.keys

/-- It does not matter in which order the others are given. -/
theorem Collects.of_perm (h : t.Collects ts) (hperm : ts.Perm us) : t.Collects us where
  neededKeys l := by simpa only [hperm.mem_iff] using h.neededKeys l
  neededData l := by simpa only [hperm.mem_iff] using h.neededData l
  providedKeys l := by simpa only [hperm.mem_iff] using h.providedKeys l
  invalidatedData l := by simpa only [hperm.mem_iff] using h.invalidatedData l
  operations o := by simpa only [hperm.mem_iff] using h.operations o

/-- Statements at the same time have what one of them has. -/
theorem collects_parallel (hts : ∀ t ∈ ts, t.Sorted) : (parallel ts).1.Collects ts where
  neededKeys _ := mem_neededKeys_parallel hts
  neededData l := parallel_iff (P := fun t => l ∈ t.neededData.keys) List.not_mem_nil
    fun _ u hu => mem_neededData_beside (hts u hu)
  providedKeys l := by
    rw [← not_iff_not, ← ProvidedSet.freshness_eq_none_iff, freshness_parallel,
      List.findSome?_eq_none_iff, not_exists]
    simp only [ProvidedSet.freshness_eq_none_iff, not_and]
  invalidatedData l := parallel_iff (P := fun t => l ∈ t.invalidatedData.keys) List.not_mem_nil
    fun _ u hu => mem_invalidatedData_beside (hts u hu)
  operations o := parallel_iff (P := fun t => o ∈ t.sessionOperations.keys) List.not_mem_nil
    fun t u _ => mem_operations_beside t u o

/-- What is found first is the same in every order, if there is not more than one to be found. -/
theorem findSome?_of_perm {α β : Type} {f : α → Option β} {xs ys : List α} (hperm : xs.Perm ys)
    (hone : ys.countP (fun y => (f y).isSome) ≤ 1) : xs.findSome? f = ys.findSome? f := by
  cases hy : ys.findSome? f with
  | none =>
    rw [List.findSome?_eq_none_iff] at hy ⊢
    exact fun x hx => hy x (hperm.mem_iff.mp hx)
  | some b =>
    obtain ⟨y, hmem, hb⟩ := List.exists_of_findSome?_eq_some hy
    refine findSome?_of_countP_le_one ?_ (hperm.mem_iff.mpr hmem) hb
    rwa [hperm.countP_eq]

/-- Statements at the same time may be written in any order, if no two of them provide the same
variable.  The order may decide whether data is provided that one of them invalidates. -/
theorem resembles_parallel_of_perm (hperm : ts.Perm us) (hus : ∀ u ∈ us, u.Sorted)
    (hone : ∀ l, us.countP (fun u => u.providedCorrelation.contains l) ≤ 1) :
    (parallel ts).1.Resembles True (parallel us).1 := by
  have hts : ∀ t ∈ ts, t.Sorted := fun t ht => hus t (hperm.mem_iff.mp ht)
  have ht := (collects_parallel hts).of_perm hperm
  have hu := collects_parallel hus
  have hprovided : ∀ {vs : List Typing}, (∀ v ∈ vs, v.Sorted) → ∀ {l},
      l ∉ (parallel vs).1.invalidatedData.keys →
        (l ∈ (parallel vs).1.providedData.keys ↔ ∃ v ∈ vs, l ∈ v.providedData.keys) := by
    intro vs hvs l hl
    rw [(collects_parallel hvs).invalidatedData] at hl
    refine parallel_iff (P := fun t => l ∈ t.providedData.keys) List.not_mem_nil fun t u hu => ?_
    rw [mem_providedData_beside (hvs u hu), and_iff_left fun h => hl ⟨u, hu, h⟩]
  refine ⟨fun l => ?_, fun l => ?_, fun l => ?_, fun l => ?_, fun l hl => ?_, fun o => ?_⟩
  · rw [ht.neededKeys, hu.neededKeys]
  · rw [ht.neededData, hu.neededData]
  · rw [freshness_parallel, freshness_parallel]
    refine findSome?_of_perm hperm ?_
    simp only [ProvidedSet.isSome_freshness]
    exact hone l
  · rw [ht.invalidatedData, hu.invalidatedData]
  · have hl := hl trivial
    have hl' : l ∉ (parallel us).1.invalidatedData.keys := by
      rwa [hu.invalidatedData, ← ht.invalidatedData]
    rw [hprovided hts hl, hprovided hus hl']
    simp only [hperm.mem_iff]
  · rw [ht.operations, hu.operations]

/-! ## Alternatives -/

/-- A provision is joined to what is there. -/
theorem freshness_joinProvision (combine : Bool → Bool → Bool) (acc : ProvidedSet)
    (p : ProvidedPath) (l : Location) :
    (joinProvision combine acc p).freshness l = Option.merge combine (acc.freshness l)
      (if p.location = l then some p.fresh else none) := by
  rw [joinProvision]
  cases hfind : acc.find? p.location with
  | none =>
    rw [ProvidedSet.freshness_insert]
    by_cases hl : p.location = l
    · subst hl
      rw [if_pos rfl, if_pos rfl, ProvidedSet.freshness, hfind]
      rfl
    · rw [if_neg hl, if_neg hl, Option.merge_none_right]
  | some before =>
    rw [ProvidedSet.freshness_mark]
    by_cases hl : p.location = l
    · subst hl
      rw [if_pos rfl, ProvidedSet.freshness, hfind]
      simp
    · rw [if_neg hl, Option.merge_none_right]
      simp [Ne.symm hl]

/-- The provisions of an alternative are joined to what is there. -/
theorem freshness_joinProvisions (combine : Bool → Bool → Bool) (s acc : ProvidedSet)
    (l : Location) : (s.toList.foldl (joinProvision combine) acc).freshness l =
      Option.merge combine (acc.freshness l) (s.freshness l) := by
  have hlist : ∀ ps : List ProvidedPath, (ps.map ProvidedPath.location).Nodup → ∀ acc,
      (ps.foldl (joinProvision combine) acc).freshness l = Option.merge combine (acc.freshness l)
        ((ps.find? fun p => decide (p.location = l)).map ProvidedPath.fresh) := by
    intro ps hps
    induction ps with
    | nil => exact fun _ => Option.merge_none_right.symm
    | cons p ps ih =>
      intro acc
      rw [List.map_cons, List.nodup_cons] at hps
      rw [List.foldl_cons, ih hps.2, freshness_joinProvision, List.find?_cons]
      by_cases hl : p.location = l
      · have hrest : ps.find? (fun q => decide (q.location = l)) = none := by
          refine List.find?_eq_none.mpr fun q hq hql => hps.1 ?_
          rw [hl, ← of_decide_eq_true hql]
          exact List.mem_map_of_mem hq
        rw [hrest, if_pos hl, decide_eq_true hl]
        exact Option.merge_none_right
      · rw [if_neg hl, decide_eq_false hl, Option.merge_none_right]
  exact hlist s.toList s.nodup acc

/-- The alternatives that provide a variable have a say in its freshness. -/
theorem freshness_alternatives (ts : List Typing) (sessionStart : Bool) (l : Location) :
    (alternatives ts sessionStart).providedCorrelation.freshness l =
      (ts.map fun t => t.providedCorrelation.freshness l).foldl
        (Option.merge (if sessionStart then (· || ·) else (· && ·))) none := by
  show (joinedProvisions ts sessionStart).freshness l = _
  rw [joinedProvisions, List.foldl_flatMap, List.foldl_map]
  exact foldl_view (fun s : ProvidedSet => s.freshness l)
    (fun acc t _ => freshness_joinProvisions _ t.providedCorrelation acc l) .empty

/-- Alternatives provide data that none of them fails to provide.  A property that none of them has
makes no difference to that. -/
theorem mem_providedData_alternatives {P : Typing → Prop} {sessionStart : Bool}
    (hnone : ¬ ∃ t ∈ ts, P t) : l ∈ (alternatives ts sessionStart).providedData.keys ↔
      ts ≠ [] ∧ ¬ ∃ t ∈ ts, P t ∨ l ∉ t.providedData.keys := by
  refine mem_commonData.trans (and_congr_right fun _ => ?_)
  constructor
  · rintro hall ⟨t, ht, hP | hnot⟩
    · exact hnone ⟨t, ht, hP⟩
    · exact hnot (hall t ht)
  · intro hfails t ht
    by_contra hnot
    exact hfails ⟨t, ht, Or.inr hnot⟩

theorem mem_operations_alternatives (ts : List Typing) (sessionStart : Bool) (operation : String) :
    operation ∈ (alternatives ts sessionStart).sessionOperations.keys ↔
      ∃ t ∈ ts, operation ∈ t.sessionOperations.keys := by
  rw [show (alternatives ts sessionStart).sessionOperations = _ from
    congrArg Prod.fst (inputs_alternatives ts sessionStart), mem_foldl_joinInputs]
  refine (or_iff_right List.not_mem_nil).trans ?_
  simp only [List.mem_map, exists_exists_and_eq_and]
  rfl

/-- Alternatives resemble others if they have something to say exactly if the others do, and come to
the same freshness.  An alternative is against data if it does not provide it, or leaves it open. -/
theorem resembles_alternatives {sessionStart : Bool} (hts : ∀ t ∈ ts, t.Sorted)
    (hus : ∀ u ∈ us, u.Sorted) (hnil : ts = [] ↔ us = [])
    (hexists : ∀ P : Typing → Prop, (∀ t u, t.Resembles lax u → (P t ↔ P u)) →
      ((∃ t ∈ ts, P t) ↔ ∃ u ∈ us, P u))
    (hfresh : ∀ l, (alternatives ts sessionStart).providedCorrelation.freshness l =
      (alternatives us sessionStart).providedCorrelation.freshness l) :
    (alternatives ts sessionStart).Resembles lax (alternatives us sessionStart) where
  neededKeys l := by
    rw [mem_neededKeys_alternatives hts, mem_neededKeys_alternatives hus,
      hexists _ fun _ _ h => h.neededKeys l]
  neededData l := by
    rw [mem_neededData_alternatives hts, mem_neededData_alternatives hus,
      hexists _ fun _ _ h => h.neededData l]
  freshness := hfresh
  invalidatedData l := by
    rw [mem_invalidatedData_alternatives hts, mem_invalidatedData_alternatives hus,
      hexists _ fun _ _ h => h.invalidatedData l]
  providedData l hl := by
    have hinvalid : ∀ t u : Typing, t.Resembles lax u →
        (lax ∧ l ∈ t.invalidatedData.keys ↔ lax ∧ l ∈ u.invalidatedData.keys) :=
      fun t u h => and_congr_right' (h.invalidatedData l)
    have hagainst := hexists
      (fun t => (lax ∧ l ∈ t.invalidatedData.keys) ∨ l ∉ t.providedData.keys) fun t u h => by
        by_cases hopen : lax ∧ l ∈ u.invalidatedData.keys
        · exact iff_of_true (Or.inl ((hinvalid t u h).mpr hopen)) (Or.inl hopen)
        · have hopen' := mt (hinvalid t u h).mp hopen
          rw [h.providedData l fun hlax hmem => hopen' ⟨hlax, hmem⟩, hinvalid t u h]
    have hfree : ¬ ∃ t ∈ ts, lax ∧ l ∈ t.invalidatedData.keys := fun ⟨t, ht, hlax, hmem⟩ =>
      hl hlax ((mem_invalidatedData_alternatives hts sessionStart).mpr ⟨t, ht, hmem⟩)
    have hfree' := mt (hexists _ hinvalid).mpr hfree
    rw [mem_providedData_alternatives hfree, mem_providedData_alternatives hfree', hagainst, Ne,
      hnil]
  operations o := by
    rw [mem_operations_alternatives, mem_operations_alternatives,
      hexists _ fun _ _ h => h.operations o]

/-- Alternatives that resemble each other one by one do so together. -/
theorem Resembles.alternatives (hts : ∀ t ∈ ts, t.Sorted) (hus : ∀ u ∈ us, u.Sorted)
    (h : List.Forall₂ (Resembles lax) ts us) (sessionStart : Bool) :
    (Typing.alternatives ts sessionStart).Resembles lax (Typing.alternatives us sessionStart) := by
  refine resembles_alternatives hts hus ?_ (fun P hP => ⟨?_, ?_⟩) fun l => ?_
  · rw [← List.length_eq_zero_iff, h.length_eq, List.length_eq_zero_iff]
  · rintro ⟨t, ht, hPt⟩
    obtain ⟨u, hu, htu⟩ := exists_of_forall₂ h.flip ht
    exact ⟨u, hu, (hP t u htu).mp hPt⟩
  · rintro ⟨u, hu, hPu⟩
    obtain ⟨t, ht, htu⟩ := exists_of_forall₂ h hu
    exact ⟨t, ht, (hP t u htu).mpr hPu⟩
  · rw [freshness_alternatives, freshness_alternatives,
      map_eq_of_forall₂ (h.imp fun _ _ htu => htu.freshness l)]

/-- Alternatives may be written in any order. -/
theorem resembles_alternatives_of_perm (hperm : ts.Perm us) (hus : ∀ u ∈ us, u.Sorted)
    (sessionStart : Bool) :
    (alternatives ts sessionStart).Resembles False (alternatives us sessionStart) := by
  refine resembles_alternatives (fun t ht => hus t (hperm.mem_iff.mp ht)) hus ?_ ?_ fun l => ?_
  · exact ⟨fun h => (h ▸ hperm).nil_eq.symm, fun h => (h ▸ hperm).eq_nil⟩
  · intro P _
    simp only [hperm.mem_iff]
  · rw [freshness_alternatives, freshness_alternatives]
    cases sessionStart with
    | true =>
      show List.foldl (Option.merge or) none _ = List.foldl (Option.merge or) none _
      exact (hperm.map _).foldl_op_eq
    | false =>
      show List.foldl (Option.merge and) none _ = List.foldl (Option.merge and) none _
      exact (hperm.map _).foldl_op_eq

/-- Nothing is wrong with alternatives that do not start a session if they agree. -/
theorem choice_eq_nil_iff {span : Span} {kind : BranchKind} :
    (choice span kind false ts).2 = [] ↔ ∀ t ∈ ts, ∀ u ∈ ts, ∀ l,
      t.providedCorrelation.freshness l = u.providedCorrelation.freshness l := by
  constructor
  · intro hnil t ht u hu l
    have hnone : ∀ v, v ∉ (choice span kind false ts).2 := by
      rw [hnil]
      exact fun _ => List.not_mem_nil
    exact freshness_eq_of_choice (fun v hv => absurd hv (hnone v)) (fun v hv => absurd hv (hnone v))
      ht hu l
  · intro hagree
    refine List.flatMap_eq_nil_iff.mpr fun p hp => ?_
    obtain ⟨t, ht, hmem⟩ := mem_keys_joinedProvisions.mp (List.mem_map_of_mem hp)
    obtain ⟨fresh, hfresh⟩ := ProvidedSet.exists_freshness hmem
    have hall : ∀ u ∈ ts, u.providedCorrelation.freshness p.location = some fresh :=
      fun u hu => (hagree u hu t ht _).trans hfresh
    have hmissing : ts.filter (fun b => !b.providedCorrelation.contains p.location) = [] := by
      refine List.filter_eq_nil_iff.mpr fun u hu => ?_
      rw [OrderedSet.contains_iff_mem_keys.mpr (ProvidedSet.mem_keys_of_freshness (hall u hu))]
      exact Bool.false_ne_true
    have hone : ∀ b ∈ ts.filterMap (fun b => b.providedCorrelation.freshness p.location),
        b = fresh := by
      intro b hb
      obtain ⟨u, hu, hb⟩ := List.mem_filterMap.mp hb
      exact Option.some.inj (hb.symm.trans (hall u hu))
    rw [provisionViolations, hmissing]
    simp only [List.map_nil, List.nil_append]
    refine if_neg fun hboth => ?_
    rw [Bool.and_eq_true, List.contains_iff_mem, List.contains_iff_mem] at hboth
    exact Bool.noConfusion ((hone _ hboth.1).trans (hone _ hboth.2).symm)

/-- Neither of two alternatives starts the session with an operation that the other one takes in
later. -/
def Separate (t u : Typing) : Prop :=
  (∀ operation, t.startingOperation = some operation → operation ∉ u.sessionOperations.keys) ∧
    ∀ operation, u.startingOperation = some operation → operation ∉ t.sessionOperations.keys

/-- Whether typings are separate is told by what they have in common with others, and by their
starting operations. -/
theorem Separate.of_resembles (h : Separate t' u') (ht : t.Resembles lax t')
    (hu : u.Resembles lax u') (hstart : t.startingOperation = t'.startingOperation)
    (hstart' : u.startingOperation = u'.startingOperation) : Separate t u :=
  ⟨fun operation hop hmem =>
      h.1 operation (hstart.symm.trans hop) ((hu.operations operation).mp hmem),
    fun operation hop hmem =>
      h.2 operation (hstart'.symm.trans hop) ((ht.operations operation).mp hmem)⟩

/-- Nothing is wrong with alternatives that start a session if any two of them are separate. -/
theorem starts_eq_nil_iff {span : Span} {kind : BranchKind} :
    (choice span kind true ts).2 = [] ↔ ts.Pairwise Separate := by
  rw [show (choice span kind true ts).2 = (starterConflicts ts).map _ from rfl,
    List.map_eq_nil_iff, List.pairwise_iff_getElem]
  constructor
  · intro hnil i j hi hj hij
    have hnone : ∀ operation, operation ∉ starterConflicts ts := by
      rw [hnil]
      exact fun _ => List.not_mem_nil
    refine ⟨fun o hstart hmem => hnone o ?_, fun o hstart hmem => hnone o ?_⟩
    · exact mem_starterConflicts (Nat.ne_of_lt hij) (List.getElem?_eq_getElem hi)
        (List.getElem?_eq_getElem hj) hstart hmem
    · exact mem_starterConflicts (Nat.ne_of_gt hij) (List.getElem?_eq_getElem hj)
        (List.getElem?_eq_getElem hi) hstart hmem
  · intro hseparate
    refine List.eq_nil_iff_forall_not_mem.mpr fun o ho => ?_
    obtain ⟨⟨t, i⟩, ht, ho⟩ := List.mem_filterMap.mp ho
    obtain ⟨hstart, hany⟩ := Option.filter_eq_some_iff.mp ho
    obtain ⟨⟨u, j⟩, hu, hconflict⟩ := List.any_eq_true.mp hany
    rw [Bool.and_eq_true, Bool.not_eq_true', decide_eq_false_iff_not,
      OrderedSet.contains_iff_mem_keys] at hconflict
    obtain ⟨hi, rfl⟩ := List.getElem?_eq_some_iff.mp (List.mk_mem_zipIdx_iff_getElem?.mp ht)
    obtain ⟨hj, rfl⟩ := List.getElem?_eq_some_iff.mp (List.mk_mem_zipIdx_iff_getElem?.mp hu)
    rcases Nat.lt_or_gt_of_ne hconflict.1 with hij | hji
    · exact (hseparate i j hi hj hij).1 o hstart hconflict.2
    · exact (hseparate j i hj hi hji).2 o hstart hconflict.2

/-- Nothing is wrong with a loop that provides no correlation variable. -/
theorem repeated_eq_nil_iff {t : Typing} {span : Span} :
    (t.repeated span).2 = [] ↔ ∀ l, t.providedCorrelation.freshness l = none := by
  simp only [ProvidedSet.freshness_eq_none_iff, ← List.eq_nil_iff_forall_not_mem]
  rw [OrderedSet.keys, List.map_eq_nil_iff, repeated]
  cases t.providedCorrelation.toList <;> simp

end Typing

end Correlation
