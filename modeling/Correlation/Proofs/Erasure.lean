import Correlation.Proofs.Sets
import Correlation.Typing.Branches
import Correlation.Typing.Sequel

/-!
# Erasing spans

Sets of paths are keyed by locations, and a path that is put in or taken out carries its span along.
Nothing else is done with spans but to fill in a missing one and to report a violation there.  So it
makes no difference whether spans are erased before typings are put together or afterwards:
`eraseSpans` commutes with every operation on sets and typings, where a span that is handed to an
operation becomes `Span.unknown`.

The order of a set stays as it is, and so does the order of violations.
-/

namespace Correlation

/-- A fold over changed elements, of a changed state. -/
theorem foldl_hom {σ τ α β : Type} {step : σ → α → σ} {step' : τ → β → τ} (f : σ → τ) (g : α → β)
    (h : ∀ s a, f (step s a) = step' (f s) (g a)) (as : List α) (s : σ) :
    f (as.foldl step s) = (as.map g).foldl step' (f s) := by
  rw [List.foldl_map]
  exact (List.foldl_hom f fun s a => (h s a).symm).symm

/-! ## Changed sets -/

namespace OrderedSet

variable {α κ : Type} {key : α → κ} {f : α → α} (h : ∀ a, key (f a) = key a)

/-- Elements may be modified before others are left out, if the modified ones are kept or left out
alike. -/
theorem modify_retain {p p' : α → Bool} (hp : ∀ a, p' (f a) = p a) (s : OrderedSet key) :
    (s.retain p).modify f h = (s.modify f h).retain p' := by
  apply ext
  simp only [retain, modify, List.filter_map, Function.comp_def, hp]

variable [DecidableEq κ]

theorem contains_modify (s : OrderedSet key) (k : κ) :
    (s.modify f h).contains k = s.contains k := by
  rw [Bool.eq_iff_iff, contains_iff_mem_keys, contains_iff_mem_keys, keys_modify]

theorem modify_insertNew (s : OrderedSet key) (a : α) :
    (s.insertNew a).modify f h = (s.modify f h).insertNew (f a) := by
  apply ext
  rw [toList_insertNew, contains_modify, h]
  refine (congrArg (List.map f) (toList_insertNew s a)).trans ?_
  rw [List.map_append]
  split <;> rfl

theorem modify_insert (s : OrderedSet key) (a : α) :
    (s.insert a).modify f h = (s.modify f h).insert (f a) := by
  by_cases hs : s.contains (key a) = true
  · have hs' : (s.modify f h).contains (key (f a)) = true := by rw [contains_modify, h, hs]
    rw [insert, dif_pos hs, insert, dif_pos hs']
    apply ext
    simp only [modify, List.map_map, Function.comp_def, h, apply_ite]
  · have hs' : (s.modify f h).contains (key (f a)) = false := by
      rw [contains_modify, h, eq_false_of_ne_true hs]
    rw [insert_eq_insertNew (eq_false_of_ne_true hs), insert_eq_insertNew hs', modify_insertNew]

theorem modify_erase (s : OrderedSet key) (k : κ) :
    (s.erase k).modify f h = (s.modify f h).erase k :=
  modify_retain h (fun a => by rw [h]) s

theorem modify_union (s t : OrderedSet key) :
    (s.union t).modify f h = (s.modify f h).union (t.modify f h) :=
  foldl_hom (modify · f h) f (modify_insertNew h) t.toList s

end OrderedSet

/-! ## Paths and violations -/

/-- The path without its span. -/
def Path.eraseSpans (p : Path) : Path := ⟨p.location, .unknown⟩

/-- The provided path without its span. -/
def ProvidedPath.eraseSpans (p : ProvidedPath) : ProvidedPath := ⟨p.path.eraseSpans, p.fresh⟩

/-- The paths without their spans. -/
def PathSet.eraseSpans (s : PathSet) : PathSet := s.modify Path.eraseSpans fun _ => rfl

/-- The provided paths without their spans. -/
def ProvidedSet.eraseSpans (s : ProvidedSet) : ProvidedSet :=
  s.modify ProvidedPath.eraseSpans fun _ => rfl

/-- The cause without the spans of its paths. -/
def Violation.Cause.eraseSpans : Violation.Cause → Violation.Cause
  | .definedMoreThanOnce path => .definedMoreThanOnce path.eraseSpans
  | .initializedInInit path => .initializedInInit path.eraseSpans
  | .notInitialized path => .notInitialized path.eraseSpans
  | .variableNotInitialized path => .variableNotInitialized path.eraseSpans
  | .notInitializedInEveryBranch path kind => .notInitializedInEveryBranch path.eraseSpans kind
  | .freshnessDiffers path => .freshnessDiffers path.eraseSpans
  | .initializedInLoop path => .initializedInLoop path.eraseSpans
  | .receiveOnCorrelation path kind => .receiveOnCorrelation path.eraseSpans kind
  | .invalidInitializer path => .invalidInitializer path.eraseSpans
  | .mayBeUndefined source target => .mayBeUndefined source.eraseSpans target.eraseSpans
  | .setAlreadyDeclared _ name => .setAlreadyDeclared .unknown name
  | .mainNotFound => .mainNotFound
  | .definitionNotFound name => .definitionNotFound name
  | .definitionCycle names => .definitionCycle names
  | .starterUsedInSession operation => .starterUsedInSession operation
  | .noCorrelationSet operation => .noCorrelationSet operation
  | .noFreshValue set => .noFreshValue set
  | .operationInManySets operation first second => .operationInManySets operation first second

/-- The violation without its span and those of its cause. -/
def Violation.eraseSpans (v : Violation) : Violation := ⟨.unknown, v.cause.eraseSpans⟩

@[simp] theorem Path.location_eraseSpans (p : Path) : p.eraseSpans.location = p.location := rfl

@[simp] theorem Path.isCorrelation_eraseSpans (p : Path) :
    p.eraseSpans.isCorrelation = p.isCorrelation := rfl

@[simp] theorem Path.isStatic_eraseSpans (p : Path) : p.eraseSpans.isStatic = p.isStatic := rfl

/-- A path that gets its span from elsewhere gets none. -/
@[simp] theorem Path.eraseSpans_locatedIn (p : Path) (span : Span) :
    (p.locatedIn span).eraseSpans = p.eraseSpans.locatedIn .unknown := rfl

@[simp] theorem ProvidedPath.location_eraseSpans (p : ProvidedPath) :
    p.eraseSpans.location = p.location := rfl

/-- There is nothing left to erase the second time. -/
theorem Violation.Cause.eraseSpans_eraseSpans (c : Cause) :
    c.eraseSpans.eraseSpans = c.eraseSpans := by
  cases c <;> rfl

theorem Violation.map_eraseSpans_eraseSpans (vs : List Violation) :
    (vs.map eraseSpans).map eraseSpans = vs.map eraseSpans := by
  rw [List.map_map]
  exact List.map_congr_left fun v _ => congrArg (mk .unknown) v.cause.eraseSpans_eraseSpans

namespace PathSet

@[simp] theorem toList_eraseSpans (s : PathSet) :
    s.eraseSpans.toList = s.toList.map Path.eraseSpans := rfl

@[simp] theorem contains_eraseSpans (s : PathSet) (l : Location) :
    s.eraseSpans.contains l = s.contains l :=
  OrderedSet.contains_modify _ s l

@[simp] theorem eraseSpans_insertNew (s : PathSet) (p : Path) :
    eraseSpans (s.insertNew p) = s.eraseSpans.insertNew p.eraseSpans :=
  OrderedSet.modify_insertNew _ s p

@[simp] theorem eraseSpans_erase (s : PathSet) (l : Location) :
    eraseSpans (s.erase l) = s.eraseSpans.erase l :=
  OrderedSet.modify_erase _ s l

@[simp] theorem eraseSpans_union (s t : PathSet) :
    eraseSpans (s.union t) = s.eraseSpans.union t.eraseSpans :=
  OrderedSet.modify_union _ s t

end PathSet

namespace ProvidedSet

@[simp] theorem toList_eraseSpans (s : ProvidedSet) :
    s.eraseSpans.toList = s.toList.map ProvidedPath.eraseSpans := rfl

@[simp] theorem contains_eraseSpans (s : ProvidedSet) (l : Location) :
    s.eraseSpans.contains l = s.contains l :=
  OrderedSet.contains_modify _ s l

@[simp] theorem find?_eraseSpans (s : ProvidedSet) (l : Location) :
    s.eraseSpans.find? l = (s.find? l).map ProvidedPath.eraseSpans :=
  OrderedSet.find?_modify s _ _ l

@[simp] theorem eraseSpans_insert (s : ProvidedSet) (p : ProvidedPath) :
    eraseSpans (s.insert p) = s.eraseSpans.insert p.eraseSpans :=
  OrderedSet.modify_insert _ s p

@[simp] theorem eraseSpans_mark (s : ProvidedSet) (l : Location) (fresh : Bool) :
    (s.mark l fresh).eraseSpans = s.eraseSpans.mark l fresh := by
  apply OrderedSet.ext
  simp only [eraseSpans, mark, OrderedSet.modify, List.map_map, Function.comp_def]
  refine List.map_congr_left fun p _ => ?_
  by_cases hp : p.location = l
  · rw [if_pos hp, ProvidedPath.location_eraseSpans, if_pos hp]
    rfl
  · rw [if_neg hp, ProvidedPath.location_eraseSpans, if_neg hp]

end ProvidedSet

/-! ## Typings -/

namespace Typing

/-- The typing without the spans of its paths. -/
def eraseSpans (t : Typing) : Typing :=
  { t with
    neededCorrelation := t.neededCorrelation.eraseSpans
    neededData := t.neededData.eraseSpans
    providedCorrelation := t.providedCorrelation.eraseSpans
    providedData := t.providedData.eraseSpans
    invalidatedData := t.invalidatedData.eraseSpans }

/-- A typing and violations without spans. -/
def eraseBoth (r : Typing × List Violation) : Typing × List Violation :=
  (r.1.eraseSpans, r.2.map Violation.eraseSpans)

@[simp] theorem eraseSpans_empty : empty.eraseSpans = empty := rfl

@[simp] theorem eraseSpans_need (t : Typing) (p : Path) :
    (t.need p).eraseSpans = t.eraseSpans.need p.eraseSpans := by
  rw [need, need, Path.isCorrelation_eraseSpans]
  split <;> simp [eraseSpans]

@[simp] theorem eraseSpans_needAllOf (t other : Typing) :
    (t.needAllOf other).eraseSpans = t.eraseSpans.needAllOf other.eraseSpans := by
  refine (foldl_hom eraseSpans Path.eraseSpans eraseSpans_need _ t).trans ?_
  rw [List.map_append]
  rfl

@[simp] theorem eraseSpans_provide (t : Typing) (p : Path) (fresh : Bool) :
    (t.provide p fresh).eraseSpans = t.eraseSpans.provide p.eraseSpans fresh := by
  rw [provide, provide, Path.isCorrelation_eraseSpans]
  split <;> simp [eraseSpans, ProvidedPath.eraseSpans]

@[simp] theorem eraseSpans_invalidate (t : Typing) (p : Path) :
    (t.invalidate p).eraseSpans = t.eraseSpans.invalidate p.eraseSpans := by
  rw [invalidate, invalidate, Path.isCorrelation_eraseSpans]
  split <;> simp [eraseSpans]

@[simp] theorem provides_eraseSpans (t : Typing) (l : Location) :
    t.eraseSpans.provides l = t.provides l := by
  simp [provides, eraseSpans]

@[simp] theorem eraseSpans_noteInput (t : Typing) (operation : String) (starter : Bool) :
    (t.noteInput operation starter).eraseSpans = t.eraseSpans.noteInput operation starter := by
  rw [noteInput, noteInput]
  split <;> rfl

@[simp] theorem eraseSpans_noteInputsOf (t other : Typing) :
    (t.noteInputsOf other).eraseSpans = t.eraseSpans.noteInputsOf other.eraseSpans := rfl

/-- Erasing commutes with repetition. -/
theorem eraseBoth_repeated (t : Typing) (span : Span) :
    eraseBoth (t.repeated span) = t.eraseSpans.repeated .unknown := by
  rw [repeated, repeated, eraseBoth]
  refine congrArg (Prod.mk _) ?_
  simp only [eraseSpans, ProvidedSet.toList_eraseSpans]
  cases t.providedCorrelation.toList <;> rfl

/-! ### At the same time -/

theorem eraseBoth_defineBeside (acc : Typing × List Violation) (p : ProvidedPath) :
    eraseBoth (defineBeside acc p) = defineBeside (eraseBoth acc) p.eraseSpans := by
  have hcontains : (eraseBoth acc).1.providedCorrelation.contains p.eraseSpans.location =
      acc.1.providedCorrelation.contains p.location :=
    acc.1.providedCorrelation.contains_eraseSpans _
  rw [defineBeside, defineBeside, hcontains]
  split
  · rw [eraseBoth, List.map_append]
    rfl
  · simp only [eraseBoth, eraseSpans, ProvidedSet.eraseSpans_insert]

/-- Erasing commutes with invalidating one path after the other. -/
theorem eraseSpans_invalidateAll (t : Typing) (ps : PathSet) :
    (ps.toList.foldl invalidate t).eraseSpans =
      ps.eraseSpans.toList.foldl invalidate t.eraseSpans :=
  foldl_hom eraseSpans Path.eraseSpans eraseSpans_invalidate _ t

theorem eraseBoth_beside (t next : Typing) :
    eraseBoth (t.beside next) = t.eraseSpans.beside next.eraseSpans := by
  have hdefined := foldl_hom eraseBoth ProvidedPath.eraseSpans eraseBoth_defineBeside
    next.providedCorrelation.toList ((t.noteInputsOf next).needAllOf next, [])
  simp only [eraseBoth, eraseSpans_needAllOf, eraseSpans_noteInputsOf, List.map_nil] at hdefined
  simp only [beside, eraseBoth, eraseSpans_invalidateAll]
  have hprovided : next.eraseSpans.providedCorrelation.toList =
      next.providedCorrelation.toList.map ProvidedPath.eraseSpans := rfl
  rw [hprovided, ← hdefined]
  refine Prod.ext (congrArg (List.foldl invalidate · _) ?_) rfl
  simp only [eraseSpans, PathSet.eraseSpans_union]

theorem eraseBoth_parallel (branches : List Typing) :
    eraseBoth (parallel branches) = parallel (branches.map eraseSpans) := by
  refine foldl_hom eraseBoth eraseSpans (fun acc next => ?_) branches (empty, [])
  have hbeside := eraseBoth_beside acc.1 next
  rw [eraseBoth] at hbeside
  simp only [eraseBoth, List.map_append]
  rw [← hbeside]

/-! ### Alternatives -/

theorem eraseSpans_joinProvision (combine : Bool → Bool → Bool) (acc : ProvidedSet)
    (p : ProvidedPath) : (joinProvision combine acc p).eraseSpans =
      joinProvision combine acc.eraseSpans p.eraseSpans := by
  rw [joinProvision, joinProvision, ProvidedPath.location_eraseSpans,
    ProvidedSet.find?_eraseSpans]
  cases acc.find? p.location with
  | some before => exact acc.eraseSpans_mark _ _
  | none => exact acc.eraseSpans_insert p

theorem eraseSpans_joinedProvisions (branches : List Typing) (sessionStart : Bool) :
    (joinedProvisions branches sessionStart).eraseSpans =
      joinedProvisions (branches.map eraseSpans) sessionStart := by
  refine (foldl_hom ProvidedSet.eraseSpans ProvidedPath.eraseSpans
    (eraseSpans_joinProvision _) _ .empty).trans ?_
  rw [List.map_flatMap, joinedProvisions, List.flatMap_map]
  rfl

theorem eraseSpans_commonData (branches : List Typing) :
    (commonData branches).eraseSpans = commonData (branches.map eraseSpans) := by
  cases branches with
  | nil => rfl
  | cons first rest =>
    refine OrderedSet.modify_retain _ (fun p => ?_) first.providedData
    rw [List.all_map]
    exact congrArg rest.all (funext fun b => b.providedData.contains_eraseSpans _)

theorem eraseSpans_joinEffects (t branch : Typing) :
    (joinEffects t branch).eraseSpans = joinEffects t.eraseSpans branch.eraseSpans := by
  rw [joinEffects, joinEffects, eraseSpans_invalidateAll, eraseSpans_noteInputsOf,
    eraseSpans_needAllOf]
  rfl

theorem eraseSpans_alternatives (branches : List Typing) (sessionStart : Bool) :
    (alternatives branches sessionStart).eraseSpans =
      alternatives (branches.map eraseSpans) sessionStart := by
  have heffects := foldl_hom eraseSpans eraseSpans eraseSpans_joinEffects branches empty
  rw [eraseSpans_empty] at heffects
  simp only [alternatives, ← heffects, ← eraseSpans_joinedProvisions, ← eraseSpans_commonData]
  rfl

/-- Conflicts between starters have nothing to do with spans. -/
theorem starterConflicts_eraseSpans (branches : List Typing) :
    starterConflicts (branches.map eraseSpans) = starterConflicts branches := by
  rw [starterConflicts, starterConflicts, List.zipIdx_map, List.filterMap_map]
  refine List.filterMap_congr fun x _ => ?_
  simp only [Function.comp_apply, Prod.map, List.any_map, Function.comp_def]
  rfl

/-- What is wrong with a provision of branches is the same without spans. -/
theorem eraseSpans_provisionViolations (span : Span) (kind : BranchKind) (branches : List Typing)
    (p : ProvidedPath) :
    (provisionViolations span kind branches p).map Violation.eraseSpans =
      provisionViolations .unknown kind (branches.map eraseSpans) p.eraseSpans := by
  have hmissing : (branches.map eraseSpans).filter (fun b =>
      !b.providedCorrelation.contains p.eraseSpans.location) =
        (branches.filter fun b => !b.providedCorrelation.contains p.location).map eraseSpans := by
    rw [List.filter_map]
    exact congrArg (List.map eraseSpans) (List.filter_congr fun b _ =>
      congrArg Bool.not (b.providedCorrelation.contains_eraseSpans p.location))
  have hfresh : (branches.map eraseSpans).filterMap (fun b =>
      (b.providedCorrelation.find? p.eraseSpans.location).map ProvidedPath.fresh) =
        branches.filterMap fun b =>
          (b.providedCorrelation.find? p.location).map ProvidedPath.fresh := by
    rw [List.filterMap_map]
    refine List.filterMap_congr fun b _ => ?_
    refine (congrArg (Option.map ProvidedPath.fresh)
      (b.providedCorrelation.find?_eraseSpans p.location)).trans ?_
    rw [Option.map_map]
    rfl
  simp only [provisionViolations, hmissing, hfresh, List.map_append, List.map_map]
  refine congrArg₂ (· ++ ·) rfl ?_
  split <;> rfl

/-- Erasing commutes with the join of a choice and what is reported of it. -/
theorem eraseBoth_choice (span : Span) (kind : BranchKind) (sessionStart : Bool)
    (branches : List Typing) : eraseBoth (choice span kind sessionStart branches) =
      choice .unknown kind sessionStart (branches.map eraseSpans) := by
  rw [choice, choice, eraseBoth, ← eraseSpans_alternatives]
  refine congrArg (Prod.mk _) ?_
  cases sessionStart with
  | true =>
    simp only [if_true, starterConflicts_eraseSpans, List.map_map]
    rfl
  | false =>
    simp only [Bool.false_eq_true, if_false, List.map_flatMap, eraseSpans_provisionViolations]
    exact (List.flatMap_map ProvidedPath.eraseSpans _ _).symm

end Typing

/-! ## Sequences -/

namespace Sequel

/-- The sequence without spans. -/
def eraseSpans (s : Sequel) : Sequel :=
  ⟨s.result.eraseSpans, s.running.eraseSpans, s.violations.map Violation.eraseSpans⟩

theorem eraseSpans_start (entry : Typing) : (start entry).eraseSpans = start entry.eraseSpans := rfl

theorem eraseSpans_addNeeds (s : Sequel) (next : Typing) :
    (s.addNeeds next).eraseSpans = s.eraseSpans.addNeeds next.eraseSpans := by
  have hkeys : next.eraseSpans.neededCorrelation.toList.filter (fun p =>
      !s.eraseSpans.running.providedCorrelation.contains p.location) =
        (next.neededCorrelation.toList.filter fun p =>
          !s.running.providedCorrelation.contains p.location).map Path.eraseSpans := by
    refine List.filter_map.trans (congrArg (List.map _) (List.filter_congr fun p _ => ?_))
    exact congrArg Bool.not (s.running.providedCorrelation.contains_eraseSpans p.location)
  have hdata : next.eraseSpans.neededData.toList.filter (fun p =>
      !s.eraseSpans.running.providedData.contains p.location) =
        (next.neededData.toList.filter fun p =>
          !s.running.providedData.contains p.location).map Path.eraseSpans := by
    refine List.filter_map.trans (congrArg (List.map _) (List.filter_congr fun p _ => ?_))
    exact congrArg Bool.not (s.running.providedData.contains_eraseSpans p.location)
  simp only [addNeeds, hkeys, hdata, ← List.map_append]
  refine congrArg (Sequel.mk · _ _) ?_
  exact foldl_hom Typing.eraseSpans Path.eraseSpans Typing.eraseSpans_need _ s.result

theorem eraseSpans_define (s : Sequel) (p : ProvidedPath) :
    (s.define p).eraseSpans = s.eraseSpans.define p.eraseSpans := by
  have hcontains : s.eraseSpans.result.providedCorrelation.contains p.eraseSpans.location =
      s.result.providedCorrelation.contains p.location :=
    s.result.providedCorrelation.contains_eraseSpans _
  rw [define, define, hcontains]
  split
  · rw [eraseSpans, List.map_append]
    rfl
  · simp only [eraseSpans, Typing.eraseSpans, ProvidedSet.eraseSpans_insert]

theorem eraseSpans_provideData (s : Sequel) (p : Path) :
    (s.provideData p).eraseSpans = s.eraseSpans.provideData p.eraseSpans := by
  simp only [provideData, eraseSpans, Typing.eraseSpans_provide]
  refine congrArg (Sequel.mk · _ _) (congrArg (Typing.provide · _ _) ?_)
  simp only [Typing.eraseSpans, PathSet.eraseSpans_erase, Path.location_eraseSpans]

theorem eraseSpans_invalidate (s : Sequel) (p : Path) :
    (s.invalidate p).eraseSpans = s.eraseSpans.invalidate p.eraseSpans := by
  simp only [invalidate, eraseSpans, Typing.eraseSpans_invalidate]

/-- Spans may be erased before a sequence goes on. -/
theorem eraseSpans_append (s : Sequel) (next : Typing) :
    (s.append next).eraseSpans = s.eraseSpans.append next.eraseSpans := by
  refine (foldl_hom eraseSpans Path.eraseSpans eraseSpans_invalidate _ _).trans ?_
  refine congrArg (List.foldl invalidate · _) ?_
  refine (foldl_hom eraseSpans Path.eraseSpans eraseSpans_provideData _ _).trans ?_
  refine congrArg (List.foldl provideData · _) ?_
  refine (foldl_hom eraseSpans ProvidedPath.eraseSpans eraseSpans_define _ _).trans ?_
  exact congrArg (List.foldl define · _) (eraseSpans_addNeeds _ next)

end Sequel

end Correlation
