import Correlation.Proofs.Keys
import Mathlib.Data.List.Count
import Mathlib.Data.List.Forall2

/-!
# Joined typings at one location

What several typings come to when they are joined, told for a single correlation variable.

* In sequence and at the same time, the sets of provided variables are *gathered*: the first set
  that has the variable decides on its freshness, and there is a violation for the variable exactly
  if two of the sets have it (`freshness_gather`, `exists_clash_gather`).
* Alternatives provide what any of them provides, and if they agree on the freshness of a variable
  they keep it (`freshness_joinedProvisions`).  Without violations they do agree
  (`mem_keys_of_choice`, `freshness_eq_of_choice`).

All of this depends on the steady parts of the typings alone (`parallel_congr`, `choice_congr`).
-/

namespace Correlation

/-! ## Freshness -/

namespace ProvidedSet

/-- Whether the value of a location is fresh, if the location has a value. -/
def freshness (s : ProvidedSet) (l : Location) : Option Bool :=
  (s.find? l).map ProvidedPath.fresh

variable {s t : ProvidedSet} {l : Location} {fresh : Bool}

theorem isSome_freshness (s : ProvidedSet) (l : Location) :
    (s.freshness l).isSome = s.contains l := by
  rw [freshness, Option.isSome_map, OrderedSet.isSome_find?]

theorem freshness_eq_none_iff : s.freshness l = none ↔ l ∉ s.keys := by
  rw [freshness, Option.map_eq_none_iff, OrderedSet.find?_eq_none_iff]

theorem mem_keys_of_freshness (h : s.freshness l = some fresh) : l ∈ s.keys := by
  rw [← OrderedSet.contains_iff_mem_keys, ← isSome_freshness, h]
  rfl

theorem exists_freshness (h : l ∈ s.keys) : ∃ fresh, s.freshness l = some fresh := by
  rwa [← OrderedSet.contains_iff_mem_keys, ← isSome_freshness, Option.isSome_iff_exists] at h

/-- Of two sets the first one that has a variable tells its freshness. -/
theorem freshness_union (s t : ProvidedSet) (l : Location) :
    freshness (s.union t) l = (s.freshness l).or (t.freshness l) := by
  rw [freshness, OrderedSet.find?_union, freshness, freshness]
  cases s.find? l <;> rfl

theorem freshness_insert (s : ProvidedSet) (p : ProvidedPath) (l : Location) :
    freshness (s.insert p) l = if p.location = l then some p.fresh else s.freshness l := by
  rw [freshness, OrderedSet.find?_insert]
  split <;> rfl

/-- A mark changes the freshness of one variable, if the set has it. -/
theorem freshness_mark (s : ProvidedSet) (j l : Location) (fresh : Bool) :
    (s.mark j fresh).freshness l =
      (s.freshness l).map fun before => if l = j then fresh else before := by
  rw [freshness, mark, OrderedSet.find?_modify, freshness, Option.map_map, Option.map_map]
  cases h : s.find? l with
  | none => rfl
  | some p =>
    have hp : p.location = l := (OrderedSet.find?_eq_some_iff.mp h).2
    simp only [Option.map_some, Function.comp_apply, hp]
    split <;> rfl

end ProvidedSet

/-! ## Gathering -/

/-- A violation says that a correlation variable gets a value twice. -/
def Violation.ClashesAt (l : Location) (v : Violation) : Prop :=
  ∃ path : Path, v.cause = .definedMoreThanOnce path ∧ path.location = l

namespace ProvidedSet

/-- One more set of variables beside those that have a value.  They must be others. -/
def gather (acc : ProvidedSet × List Violation) (next : ProvidedSet) :
    ProvidedSet × List Violation :=
  (acc.1.union next, acc.2 ++ acc.1.clashes next)

variable {l : Location}

/-- Two sets clash in the variables that both of them have. -/
theorem exists_clash_iff {before next : ProvidedSet} :
    (∃ v ∈ before.clashes next, v.ClashesAt l) ↔
      before.contains l = true ∧ next.contains l = true := by
  constructor
  · rintro ⟨v, hv, path, hcause, rfl⟩
    obtain ⟨p, hp, rfl⟩ := List.mem_map.mp hv
    obtain ⟨hnext, hbefore⟩ := List.mem_filter.mp hp
    cases hcause
    exact ⟨hbefore, OrderedSet.contains_iff_mem_keys.mpr (List.mem_map_of_mem hnext)⟩
  · rintro ⟨hbefore, hnext⟩
    obtain ⟨p, hp, rfl⟩ := List.mem_map.mp (OrderedSet.contains_iff_mem_keys.mp hnext)
    exact ⟨p.clash, List.mem_map_of_mem (List.mem_filter.mpr ⟨hp, hbefore⟩), p.path, rfl, rfl⟩

/-- The first set that has a variable decides on its freshness. -/
theorem freshness_gather (sets : List ProvidedSet) (acc : ProvidedSet × List Violation) :
    (sets.foldl gather acc).1.freshness l =
      (acc.1.freshness l).or (sets.findSome? fun s => s.freshness l) := by
  induction sets generalizing acc with
  | nil => exact (Option.or_none).symm
  | cons s rest ih =>
    rw [List.foldl_cons, ih, gather, freshness_union, Option.or_assoc, List.findSome?_cons]
    cases hs : s.freshness l with
    | none => rfl
    | some fresh => rfl

/-- There is a violation for a variable exactly if two of the sets have it. -/
theorem exists_clash_gather (sets : List ProvidedSet) (acc : ProvidedSet × List Violation) :
    (∃ v ∈ (sets.foldl gather acc).2, v.ClashesAt l) ↔
      (∃ v ∈ acc.2, v.ClashesAt l) ∨
        2 ≤ (acc.1.contains l).toNat + sets.countP fun s => s.contains l := by
  induction sets generalizing acc with
  | nil =>
    rw [List.foldl_nil, List.countP_nil]
    refine ⟨Or.inl, ?_⟩
    rintro (h | h)
    · exact h
    · exact absurd h (by cases acc.1.contains l <;> decide)
  | cons s rest ih =>
    have hnew : (∃ v ∈ acc.2 ++ acc.1.clashes s, v.ClashesAt l) ↔
        (∃ v ∈ acc.2, v.ClashesAt l) ∨ acc.1.contains l = true ∧ s.contains l = true := by
      simp only [List.mem_append, or_and_right, exists_or, exists_clash_iff]
    rw [List.foldl_cons, ih, gather, hnew, OrderedSet.contains_union, List.countP_cons, or_assoc]
    refine or_congr_right ?_
    cases acc.1.contains l <;> cases s.contains l <;>
      simp only [Bool.or_true, Bool.or_false, Bool.toNat_true, Bool.toNat_false, if_true, if_false,
        Bool.false_eq_true, and_true, and_false, false_or, true_or, true_iff] <;> omega

end ProvidedSet

namespace Typing

variable {ts us : List Typing} {l : Location} {span : Span} {kind : BranchKind}
  {sessionStart : Bool}

/-! ## At the same time -/

theorem foldl_beside_eq_gather (ts : List Typing) (acc : Typing × List Violation) :
    let joined := ts.foldl (fun acc next => ((acc.1.beside next).1, acc.2 ++ (acc.1.beside next).2))
      acc
    (joined.1.providedCorrelation, joined.2) =
      (ts.map providedCorrelation).foldl ProvidedSet.gather (acc.1.providedCorrelation, acc.2) := by
  induction ts generalizing acc with
  | nil => rfl
  | cons t rest ih =>
    obtain ⟨hsteady, hviolations⟩ := beside_steady acc.1 t
    have hprovided : (acc.1.beside t).1.providedCorrelation =
        acc.1.providedCorrelation.union t.providedCorrelation := congrArg Prod.fst hsteady
    refine (ih ((acc.1.beside t).1, acc.2 ++ (acc.1.beside t).2)).trans ?_
    rw [List.map_cons, List.foldl_cons, ProvidedSet.gather, hprovided, hviolations]

/-- Statements at the same time gather their variables. -/
theorem parallel_eq_gather (ts : List Typing) :
    ((parallel ts).1.providedCorrelation, (parallel ts).2) =
      (ts.map providedCorrelation).foldl ProvidedSet.gather (.empty, []) :=
  foldl_beside_eq_gather ts (empty, [])

/-- What is reported of statements at the same time are the clashes of their variables. -/
theorem violations_parallel (ts : List Typing) :
    (parallel ts).2 = ((ts.map providedCorrelation).foldl ProvidedSet.gather (.empty, [])).2 :=
  congrArg Prod.snd (parallel_eq_gather ts)

/-- Statements at the same time need what one of them needs. -/
theorem mem_neededKeys_parallel (h : ∀ t ∈ ts, t.Sorted) :
    l ∈ (parallel ts).1.neededKeys ↔ ∃ t ∈ ts, l ∈ t.neededKeys := by
  have hfold : ∀ acc : Typing × List Violation,
      l ∈ (ts.foldl (fun acc next =>
        ((acc.1.beside next).1, acc.2 ++ (acc.1.beside next).2)) acc).1.neededKeys ↔
          l ∈ acc.1.neededKeys ∨ ∃ t ∈ ts, l ∈ t.neededKeys := by
    induction ts with
    | nil => simp
    | cons t rest ih =>
      intro acc
      rw [List.foldl_cons, ih fun u hu => h u (List.mem_cons_of_mem t hu),
        mem_neededKeys_beside (h t List.mem_cons_self), List.exists_mem_cons_iff, or_assoc]
  exact (hfold (empty, [])).trans (or_iff_right (not_mem_neededKeys_empty l))

/-- Folds over typings with the same steady parts keep a relation that every step keeps. -/
theorem foldl_congr_steady {σ : Type} {step : σ → Typing → σ} (R : σ → σ → Prop)
    (hstep : ∀ s s' t t', R s s' → t.steady = t'.steady → R (step s t) (step s' t'))
    (h : ts.map steady = us.map steady) {s s' : σ} (hs : R s s') :
    R (ts.foldl step s) (us.foldl step s') := by
  induction ts generalizing us s s' with
  | nil =>
    rw [List.map_nil, eq_comm, List.map_eq_nil_iff] at h
    subst h
    exact hs
  | cons t rest ih =>
    cases us with
    | nil => cases h
    | cons u others =>
      rw [List.map_cons, List.map_cons, List.cons.injEq] at h
      exact ih h.2 (hstep s s' t u hs h.1)

theorem steady_noteInputsOf {t t' u u' : Typing} (ht : t.steady = t'.steady)
    (hu : u.steady = u'.steady) : (t.noteInputsOf u).steady = (t'.noteInputsOf u').steady := by
  simp only [steady, inputs, Prod.mk.injEq] at ht hu
  simp only [steady, noteInputsOf, inputs, ht, hu]

/-- Only the steady part of two statements counts when one is put beside the other. -/
theorem beside_congr {t t' u u' : Typing} (ht : t.steady = t'.steady) (hu : u.steady = u'.steady) :
    (t.beside u).1.steady = (t'.beside u').1.steady ∧ (t.beside u).2 = (t'.beside u').2 := by
  have hinputs : (t.noteInputsOf u).inputs = (t'.noteInputsOf u').inputs :=
    congrArg Prod.snd (steady_noteInputsOf ht hu)
  have hprovided : t.providedCorrelation = t'.providedCorrelation := congrArg Prod.fst ht
  have hprovided' : u.providedCorrelation = u'.providedCorrelation := congrArg Prod.fst hu
  rw [(beside_steady t u).1, (beside_steady t u).2, (beside_steady t' u').1,
    (beside_steady t' u').2, hinputs, hprovided, hprovided']
  exact ⟨rfl, rfl⟩

/-- Statements at the same time are told by their steady parts. -/
theorem parallel_congr (h : ts.map steady = us.map steady) :
    (parallel ts).1.steady = (parallel us).1.steady ∧ (parallel ts).2 = (parallel us).2 := by
  refine foldl_congr_steady (fun acc acc' : Typing × List Violation =>
    acc.1.steady = acc'.1.steady ∧ acc.2 = acc'.2) (fun acc acc' t t' hacc ht => ?_) h ⟨rfl, rfl⟩
  obtain ⟨hsteady, hviolations⟩ := beside_congr hacc.1 ht
  exact ⟨hsteady, congrArg₂ (· ++ ·) hacc.2 hviolations⟩

/-! ## Alternatives -/

theorem mem_neededKeys_foldl_joinEffects (h : ∀ t ∈ ts, t.Sorted) (acc : Typing) :
    l ∈ (ts.foldl joinEffects acc).neededKeys ↔
      l ∈ acc.neededKeys ∨ ∃ t ∈ ts, l ∈ t.neededKeys := by
  induction ts generalizing acc with
  | nil => simp
  | cons t rest ih =>
    have hkeeps : (joinEffects acc t).neededKeys = (acc.needAllOf t).neededKeys :=
      foldl_keeps neededKeys (fun t q _ => neededKeys_invalidate t q) _
    rw [List.foldl_cons, ih fun u hu => h u (List.mem_cons_of_mem t hu), hkeeps,
      mem_neededKeys_needAllOf (h t List.mem_cons_self), List.exists_mem_cons_iff, or_assoc]

theorem mem_neededKeys_alternatives (h : ∀ t ∈ ts, t.Sorted) :
    l ∈ (alternatives ts sessionStart).neededKeys ↔ ∃ t ∈ ts, l ∈ t.neededKeys :=
  (mem_neededKeys_foldl_joinEffects h empty).trans (or_iff_right (not_mem_neededKeys_empty l))

/-- Joined provisions have the variables of all the provisions. -/
theorem mem_keys_foldl_joinProvision (combine : Bool → Bool → Bool) (ps : List ProvidedPath)
    (acc : ProvidedSet) :
    l ∈ (ps.foldl (joinProvision combine) acc).keys ↔
      l ∈ acc.keys ∨ l ∈ ps.map ProvidedPath.location := by
  induction ps generalizing acc with
  | nil => simp
  | cons p ps ih =>
    have hstep : l ∈ (joinProvision combine acc p).keys ↔ l ∈ acc.keys ∨ l = p.location := by
      rw [joinProvision]
      cases hp : acc.find? p.location with
      | some before =>
        refine (Iff.of_eq (congrArg (l ∈ ·) (OrderedSet.keys_modify _ _ _))).trans ?_
        refine ⟨Or.inl, ?_⟩
        rintro (hl | rfl)
        · exact hl
        · rw [← OrderedSet.contains_iff_mem_keys, ← OrderedSet.isSome_find?, hp]
          rfl
      | none => rw [OrderedSet.mem_keys_insert, or_comm]
    rw [List.foldl_cons, ih, hstep, List.map_cons, List.mem_cons, or_assoc]

/-- Alternatives provide what any of them provides. -/
theorem mem_keys_joinedProvisions :
    l ∈ (joinedProvisions ts sessionStart).keys ↔ ∃ t ∈ ts, l ∈ t.providedCorrelation.keys := by
  rw [joinedProvisions, mem_keys_foldl_joinProvision, List.map_flatMap, List.mem_flatMap]
  exact or_iff_right List.not_mem_nil

/-- Combining equal freshness with itself changes nothing. -/
theorem freshness_foldl_joinProvision {combine : Bool → Bool → Bool} {fresh : Bool}
    (hcombine : combine fresh fresh = fresh) {ps : List ProvidedPath}
    (hps : ∀ p ∈ ps, p.location = l → p.fresh = fresh) (acc : ProvidedSet)
    (hacc : ∀ b, acc.freshness l = some b → b = fresh) (b : Bool) :
    (ps.foldl (joinProvision combine) acc).freshness l = some b → b = fresh := by
  induction ps generalizing acc with
  | nil => exact hacc b
  | cons p ps ih =>
    refine ih (fun q hq => hps q (List.mem_cons_of_mem p hq)) _ fun c hc => ?_
    have hp := hps p List.mem_cons_self
    rw [joinProvision] at hc
    cases hfind : acc.find? p.location with
    | none =>
      rw [hfind, ProvidedSet.freshness_insert] at hc
      by_cases hl : p.location = l
      · rw [if_pos hl, Option.some.injEq] at hc
        exact hc ▸ hp hl
      · rw [if_neg hl] at hc
        exact hacc c hc
    | some before =>
      rw [hfind, ProvidedSet.freshness_mark] at hc
      obtain ⟨a, ha, rfl⟩ := Option.map_eq_some_iff.mp hc
      by_cases hl : l = p.location
      · have hbefore : before.fresh = fresh :=
          hacc _ (by rw [hl, ProvidedSet.freshness, hfind]; rfl)
        rw [if_pos hl, hbefore, hp hl.symm, hcombine]
      · rw [if_neg hl]
        exact hacc a ha

/-- Alternatives that agree on the freshness of a variable keep it. -/
theorem freshness_joinedProvisions (hne : ts ≠ []) {fresh : Option Bool}
    (h : ∀ t ∈ ts, t.providedCorrelation.freshness l = fresh) :
    (joinedProvisions ts sessionStart).freshness l = fresh := by
  cases fresh with
  | none =>
    refine ProvidedSet.freshness_eq_none_iff.mpr fun hl => ?_
    obtain ⟨t, ht, hl⟩ := mem_keys_joinedProvisions.mp hl
    exact ProvidedSet.freshness_eq_none_iff.mp (h t ht) hl
  | some fresh =>
    obtain ⟨t, ht⟩ := List.exists_mem_of_ne_nil ts hne
    have hl : l ∈ (joinedProvisions ts sessionStart).keys :=
      mem_keys_joinedProvisions.mpr ⟨t, ht, ProvidedSet.mem_keys_of_freshness (h t ht)⟩
    obtain ⟨b, hb⟩ := ProvidedSet.exists_freshness hl
    rw [hb]
    refine congrArg some (freshness_foldl_joinProvision ?_ ?_ .empty
      (fun c hc => nomatch hc) b hb)
    · cases sessionStart <;> cases fresh <;> rfl
    · rintro p hp rfl
      obtain ⟨u, hu, hpu⟩ := List.mem_flatMap.mp hp
      have hfind : u.providedCorrelation.find? p.location = some p :=
        OrderedSet.find?_eq_some_iff.mpr ⟨hpu, rfl⟩
      have hfresh := h u hu
      rw [ProvidedSet.freshness, hfind, Option.map_some, Option.some.injEq] at hfresh
      exact hfresh

/-! ## What is wrong with alternatives -/

/-- The typing with a given steady part and nothing else. -/
def ofSteady (s : ProvidedSet × NameSet × Option String) : Typing :=
  { empty with providedCorrelation := s.1, sessionOperations := s.2.1, startingOperation := s.2.2 }

theorem joinedProvisions_ofSteady (ts : List Typing) (sessionStart : Bool) :
    joinedProvisions ((ts.map steady).map ofSteady) sessionStart =
      joinedProvisions ts sessionStart := by
  rw [joinedProvisions, List.map_map, List.flatMap_map]
  rfl

theorem starterConflicts_ofSteady (ts : List Typing) :
    starterConflicts ((ts.map steady).map ofSteady) = starterConflicts ts := by
  rw [List.map_map, starterConflicts, List.zipIdx_map, List.filterMap_map]
  simp only [List.any_map]
  rfl

theorem provisionViolations_ofSteady (ts : List Typing) (span : Span) (kind : BranchKind)
    (p : ProvidedPath) :
    provisionViolations span kind ((ts.map steady).map ofSteady) p =
      provisionViolations span kind ts p := by
  rw [List.map_map, provisionViolations, List.filter_map, List.filterMap_map, List.map_map]
  rfl

/-- What is reported of branches is told by their steady parts. -/
theorem choice_ofSteady (ts : List Typing) (span : Span) (kind : BranchKind)
    (sessionStart : Bool) :
    (choice span kind sessionStart ((ts.map steady).map ofSteady)).2 =
      (choice span kind sessionStart ts).2 := by
  simp only [choice, alternatives, joinedProvisions_ofSteady, starterConflicts_ofSteady]
  congr 2
  funext p
  exact provisionViolations_ofSteady ts span kind p

theorem steady_joinEffects (t b : Typing) : (joinEffects t b).steady = (t.noteInputsOf b).steady :=
  (foldl_keeps steady (fun t q _ => steady_invalidate t q) _).trans
    (steady_noteInputsOf (steady_needAllOf t b) rfl)

/-- Alternatives are told by their steady parts. -/
theorem choice_congr (h : ts.map steady = us.map steady) :
    (choice span kind sessionStart ts).1.steady = (choice span kind sessionStart us).1.steady ∧
      (choice span kind sessionStart ts).2 = (choice span kind sessionStart us).2 := by
  have hjoined : joinedProvisions ts sessionStart = joinedProvisions us sessionStart := by
    rw [← joinedProvisions_ofSteady ts, h, joinedProvisions_ofSteady]
  have heffects : (ts.foldl joinEffects empty).steady = (us.foldl joinEffects empty).steady := by
    refine foldl_congr_steady (fun t t' : Typing => t.steady = t'.steady)
      (fun t t' u u' ht hu => ?_) h rfl
    rw [steady_joinEffects, steady_joinEffects]
    exact steady_noteInputsOf ht hu
  refine ⟨?_, ?_⟩
  · exact congrArg₂ Prod.mk hjoined (congrArg Prod.snd heffects)
  · rw [← choice_ofSteady ts, h, choice_ofSteady]

/-- Alternatives that do not start a session provide the same variables, or it is a violation. -/
theorem mem_keys_of_choice
    (h : ∀ v ∈ (choice span kind false ts).2, ∀ path,
      v.cause ≠ .notInitializedInEveryBranch path kind)
    {t u : Typing} (ht : t ∈ ts) (hu : u ∈ ts) (hl : l ∈ t.providedCorrelation.keys) :
    l ∈ u.providedCorrelation.keys := by
  by_contra hmissing
  have hjoined : l ∈ (joinedProvisions ts false).keys := mem_keys_joinedProvisions.mpr ⟨t, ht, hl⟩
  obtain ⟨p, hp, rfl⟩ := List.mem_map.mp hjoined
  have hu : u ∈ ts.filter fun b => !b.providedCorrelation.contains p.location :=
    List.mem_filter.mpr ⟨hu, by rw [OrderedSet.contains_eq_false_iff.mpr hmissing]; rfl⟩
  exact h _ (List.mem_flatMap.mpr ⟨p, hp, List.mem_append_left _ (List.mem_map_of_mem hu)⟩) p.path
    rfl

/-- Alternatives that do not start a session agree on what they make fresh, or else it is a
violation. -/
theorem freshness_eq_of_choice
    (hkeys : ∀ v ∈ (choice span kind false ts).2, ∀ path,
      v.cause ≠ .notInitializedInEveryBranch path kind)
    (hfresh : ∀ v ∈ (choice span kind false ts).2, ∀ path, v.cause ≠ .freshnessDiffers path)
    {t u : Typing} (ht : t ∈ ts) (hu : u ∈ ts) (l : Location) :
    t.providedCorrelation.freshness l = u.providedCorrelation.freshness l := by
  by_cases hl : l ∈ t.providedCorrelation.keys
  · obtain ⟨a, ha⟩ := ProvidedSet.exists_freshness hl
    obtain ⟨b, hb⟩ := ProvidedSet.exists_freshness (mem_keys_of_choice hkeys ht hu hl)
    rw [ha, hb]
    by_contra hne
    have hjoined : l ∈ (joinedProvisions ts false).keys := mem_keys_joinedProvisions.mpr ⟨t, ht, hl⟩
    obtain ⟨p, hp, rfl⟩ := List.mem_map.mp hjoined
    have hmem : ∀ c, c = a ∨ c = b → c ∈ ts.filterMap fun t =>
        t.providedCorrelation.freshness p.location := by
      rintro c (rfl | rfl)
      · exact List.mem_filterMap.mpr ⟨t, ht, ha⟩
      · exact List.mem_filterMap.mpr ⟨u, hu, hb⟩
    have hboth : true ∈ ts.filterMap (fun t => t.providedCorrelation.freshness p.location) ∧
        false ∈ ts.filterMap fun t => t.providedCorrelation.freshness p.location := by
      cases a <;> cases b <;> simp_all
    refine hfresh ⟨p.path.span.or span, .freshnessDiffers p.path⟩
      (List.mem_flatMap.mpr ⟨p, hp, List.mem_append_right _ ?_⟩) p.path rfl
    rw [← List.contains_iff_mem, ← List.contains_iff_mem, ← Bool.and_eq_true] at hboth
    simp only [ProvidedSet.freshness] at hboth
    rw [if_pos hboth]
    exact List.mem_singleton_self _
  · have hl' : l ∉ u.providedCorrelation.keys := fun h => hl (mem_keys_of_choice hkeys hu ht h)
    rw [ProvidedSet.freshness_eq_none_iff.mpr hl, ProvidedSet.freshness_eq_none_iff.mpr hl']

end Typing

end Correlation
