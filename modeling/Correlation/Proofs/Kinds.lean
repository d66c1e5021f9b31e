import Correlation.Proofs.Sets
import Correlation.Typing.Branches
import Correlation.Typing.Sequel

/-!
# Correlation variables and data stay apart

The needs and the provisions of a typing are split by the kind of the path.  `Typing.Sorted` says
that every path is on its side.  All operations on typings keep to it, since each looks at the kind
of a path before it puts the path anywhere.
-/

namespace Correlation

/-- What a fold does to a view of the state, if every step does something to that view. -/
theorem foldl_view {σ α β : Type} {step : σ → α → σ} {step' : β → α → β} {as : List α}
    (view : σ → β) (h : ∀ s, ∀ a ∈ as, view (step s a) = step' (view s) a) (s : σ) :
    view (as.foldl step s) = as.foldl step' (view s) := by
  induction as generalizing s with
  | nil => rfl
  | cons a as ih =>
    rw [List.foldl_cons, List.foldl_cons, ih fun s b hb => h s b (List.mem_cons_of_mem a hb),
      h s a List.mem_cons_self]

/-- What every step of a fold keeps, the fold keeps. -/
theorem foldl_keeps {σ α β : Type} {step : σ → α → σ} {as : List α} (view : σ → β)
    (h : ∀ s, ∀ a ∈ as, view (step s a) = view s) (s : σ) : view (as.foldl step s) = view s := by
  induction as generalizing s with
  | nil => rfl
  | cons a as ih =>
    rw [List.foldl_cons, ih fun s b hb => h s b (List.mem_cons_of_mem a hb)]
    exact h s a List.mem_cons_self

/-- A property that every step of a fold keeps holds at the end of the fold. -/
theorem foldl_induction {σ α : Type} {step : σ → α → σ} {P : σ → Prop} {as : List α} {s : σ}
    (start : P s) (h : ∀ s, ∀ a ∈ as, P s → P (step s a)) : P (as.foldl step s) := by
  induction as generalizing s with
  | nil => exact start
  | cons a as ih =>
    exact ih (h s a List.mem_cons_self start) fun s b hb => h s b (List.mem_cons_of_mem a hb)

/-- Every path of a typing is on the side of its kind. -/
structure Typing.Sorted (t : Typing) : Prop where
  neededCorrelation : ∀ l ∈ t.neededCorrelation.keys, l.isCorrelation = true
  neededData : ∀ l ∈ t.neededData.keys, l.isCorrelation = false
  providedCorrelation : ∀ l ∈ t.providedCorrelation.keys, l.isCorrelation = true
  providedData : ∀ l ∈ t.providedData.keys, l.isCorrelation = false
  invalidatedData : ∀ l ∈ t.invalidatedData.keys, l.isCorrelation = false

namespace Typing

theorem sorted_empty : empty.Sorted := by
  constructor <;> exact fun _ h => nomatch h

namespace Sorted

variable {t u : Typing}

theorem provisions (ht : t.Sorted) : t.provisions.Sorted :=
  { sorted_empty with
    providedCorrelation := ht.providedCorrelation
    providedData := ht.providedData }

theorem need (ht : t.Sorted) (p : Path) : (t.need p).Sorted := by
  rw [Typing.need]
  by_cases hp : p.isCorrelation = true
  · rw [if_pos hp]
    refine { ht with neededCorrelation := fun l hl => ?_ }
    rcases OrderedSet.mem_keys_insertNew.mp hl with rfl | hl
    · exact hp
    · exact ht.neededCorrelation l hl
  · rw [if_neg hp]
    refine { ht with neededData := fun l hl => ?_ }
    rcases OrderedSet.mem_keys_insertNew.mp hl with rfl | hl
    · exact eq_false_of_ne_true hp
    · exact ht.neededData l hl

theorem needAllOf (ht : t.Sorted) (other : Typing) : (t.needAllOf other).Sorted :=
  foldl_induction ht fun _ p _ h => h.need p

theorem provide (ht : t.Sorted) (p : Path) (fresh : Bool) : (t.provide p fresh).Sorted := by
  rw [Typing.provide]
  by_cases hp : p.isCorrelation = true
  · rw [if_pos hp]
    refine { ht with providedCorrelation := fun l hl => ?_ }
    rcases OrderedSet.mem_keys_insert.mp hl with rfl | hl
    · exact hp
    · exact ht.providedCorrelation l hl
  · rw [if_neg hp]
    refine { ht with providedData := fun l hl => ?_ }
    rcases OrderedSet.mem_keys_insertNew.mp hl with rfl | hl
    · exact eq_false_of_ne_true hp
    · exact ht.providedData l hl

theorem invalidate (ht : t.Sorted) (p : Path) : (t.invalidate p).Sorted := by
  rw [Typing.invalidate]
  by_cases hp : p.isCorrelation = true
  · rw [if_pos hp]
    exact ht
  · rw [if_neg hp]
    refine { ht with providedData := fun l hl => ?_, invalidatedData := fun l hl => ?_ }
    · exact ht.providedData l (OrderedSet.mem_keys_erase.mp hl).1
    · rcases OrderedSet.mem_keys_insertNew.mp hl with rfl | hl
      · exact eq_false_of_ne_true hp
      · exact ht.invalidatedData l hl

theorem noteInput (ht : t.Sorted) (operation : String) (starter : Bool) :
    (t.noteInput operation starter).Sorted := by
  rw [Typing.noteInput]
  split <;> exact { ht with }

theorem noteInputsOf (ht : t.Sorted) (other : Typing) : (t.noteInputsOf other).Sorted :=
  { ht with }

theorem repeated (ht : t.Sorted) (span : Span) : (t.repeated span).1.Sorted :=
  { ht with providedData := fun _ h => nomatch h }

/-- A correlation variable that is inserted among the provided ones is on its side. -/
theorem insertProvided (ht : t.Sorted) {p : ProvidedPath} (hp : p.location.isCorrelation = true) :
    Typing.Sorted { t with providedCorrelation := t.providedCorrelation.insert p } := by
  refine { ht with providedCorrelation := fun l hl => ?_ }
  rcases OrderedSet.mem_keys_insert.mp hl with rfl | hl
  · exact hp
  · exact ht.providedCorrelation l hl

/-! ## At the same time -/

theorem beside (ht : t.Sorted) (hu : u.Sorted) : (t.beside u).1.Sorted := by
  have hdefined : (u.providedCorrelation.toList.foldl Typing.defineBeside
      ((t.noteInputsOf u).needAllOf u, [])).1.Sorted := by
    refine foldl_induction (P := fun acc : Typing × List Violation => acc.1.Sorted)
      ((ht.noteInputsOf u).needAllOf u) fun acc p hp hacc => ?_
    rw [Typing.defineBeside]
    split
    · exact hacc
    · exact hacc.insertProvided (hu.providedCorrelation _ (List.mem_map_of_mem hp))
  refine foldl_induction (P := Typing.Sorted) ?_ fun t p _ h => h.invalidate p
  refine { hdefined with providedData := fun l hl => ?_ }
  rcases OrderedSet.mem_keys_union.mp hl with hl | hl
  · exact hdefined.providedData l hl
  · exact hu.providedData l hl

theorem parallel {branches : List Typing} (h : ∀ b ∈ branches, b.Sorted) :
    (Typing.parallel branches).1.Sorted :=
  foldl_induction (P := fun acc : Typing × List Violation => acc.1.Sorted) sorted_empty
    fun _ b hb hacc => hacc.beside (h b hb)

/-! ## Alternatives -/

theorem alternatives {branches : List Typing} (h : ∀ b ∈ branches, b.Sorted)
    (sessionStart : Bool) : (Typing.alternatives branches sessionStart).Sorted := by
  have heffects : (branches.foldl Typing.joinEffects .empty).Sorted := by
    refine foldl_induction sorted_empty fun t b hb ht => ?_
    exact foldl_induction (P := Typing.Sorted) ((ht.needAllOf b).noteInputsOf b)
      fun _ p _ h => h.invalidate p
  refine { heffects with providedCorrelation := fun l hl => ?_, providedData := fun l hl => ?_ }
  · have hjoined : ∀ l ∈ (Typing.joinedProvisions branches sessionStart).keys,
        l.isCorrelation = true := by
      refine foldl_induction (P := fun s : ProvidedSet => ∀ l ∈ s.keys, l.isCorrelation = true)
        (fun _ h => nomatch h) fun s p hp hs l hl => ?_
      rw [Typing.joinProvision] at hl
      split at hl
      · rw [ProvidedSet.mark, OrderedSet.keys_modify] at hl
        exact hs l hl
      · rcases OrderedSet.mem_keys_insert.mp hl with rfl | hl
        · obtain ⟨b, hb, hpb⟩ := List.mem_flatMap.mp hp
          exact (h b hb).providedCorrelation _ (List.mem_map_of_mem hpb)
        · exact hs l hl
    exact hjoined l hl
  · cases branches with
    | nil => cases hl
    | cons first rest =>
      obtain ⟨p, hp, rfl⟩ := List.mem_map.mp hl
      exact (h first List.mem_cons_self).providedData _
        (List.mem_map_of_mem (List.mem_filter.mp hp).1)

end Sorted

end Typing

/-! ## Sequences -/

namespace Sequel

variable {s : Sequel} {t : Typing}

/-- What a sequence has come to is sorted, whatever is defined before the sequence. -/
theorem sorted_result_append (hs : s.result.Sorted) (ht : t.Sorted) :
    (s.append t).result.Sorted := by
  have hneeds : (Sequel.addNeeds { s with result := s.result.noteInputsOf t } t).result.Sorted :=
    foldl_induction (P := Typing.Sorted) (hs.noteInputsOf t) fun _ p _ h => h.need p
  have hdefined : (t.providedCorrelation.toList.foldl define
      (addNeeds { s with result := s.result.noteInputsOf t } t)).result.Sorted := by
    refine foldl_induction (P := fun s : Sequel => s.result.Sorted) hneeds fun s p hp hs => ?_
    rw [define]
    split
    · exact hs
    · exact hs.insertProvided (ht.providedCorrelation _ (List.mem_map_of_mem hp))
  have hprovided : (t.providedData.toList.foldl provideData (t.providedCorrelation.toList.foldl
      define (addNeeds { s with result := s.result.noteInputsOf t } t))).result.Sorted := by
    refine foldl_induction (P := fun s : Sequel => s.result.Sorted) hdefined fun s p _ hs => ?_
    have herased : Typing.Sorted
        { s.result with invalidatedData := s.result.invalidatedData.erase p.location } :=
      { hs with
        invalidatedData := fun l hl =>
          hs.invalidatedData l (OrderedSet.mem_keys_erase.mp hl).1 }
    exact herased.provide p false
  exact foldl_induction (P := fun s : Sequel => s.result.Sorted) hprovided
    fun _ p _ h => h.invalidate p

/-- What is defined after one more statement is sorted. -/
theorem sorted_running_append (hs : s.running.Sorted) (ht : t.Sorted) :
    (s.append t).running.Sorted := by
  have hdefined : (t.providedCorrelation.toList.foldl define
      (addNeeds { s with result := s.result.noteInputsOf t } t)).running.Sorted := by
    refine foldl_induction (P := fun s : Sequel => s.running.Sorted) hs fun s p hp hs => ?_
    rw [define]
    split
    · exact hs
    · exact hs.insertProvided (ht.providedCorrelation _ (List.mem_map_of_mem hp))
  have hprovided : (t.providedData.toList.foldl provideData (t.providedCorrelation.toList.foldl
      define (addNeeds { s with result := s.result.noteInputsOf t } t))).running.Sorted :=
    foldl_induction (P := fun s : Sequel => s.running.Sorted) hdefined
      fun _ p _ h => h.provide p false
  exact foldl_induction (P := fun s : Sequel => s.running.Sorted) hprovided
    fun _ p _ h => h.invalidate p

end Sequel

end Correlation
