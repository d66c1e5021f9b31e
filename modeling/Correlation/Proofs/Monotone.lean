import Correlation.Proofs.DataFlow
import Correlation.Proofs.Judgement
import Correlation.Proofs.Traces

/-!
# Typings are joined monotonically

A typing *refines* another one with the same steady part if it asks for no more and gives no less:
it needs no further variables or data, it provides all the data that the other one does, and it
invalidates no other data.

A statement that is entered with more asks for no more and gives no less (`Covers.initialTyping` is
where an entry is looked at), and then the same holds of whatever the statement is a part of:

* of a sequence, since what was asked for or lost before stays so, and more is running for the next
  statement (`Sequel.Refines.append`);
* of statements at the same time and of alternatives (`Refines.parallel`, `Refines.alternatives`);
* of a loop, since data from a loop does not count (`Refines.repeated`).

The correlation variables that a statement provides have to be the same, not only more of them: a
further one may be defined a second time later on.
-/

namespace Correlation

namespace Typing

/-- A typing that asks for no more and gives no less. -/
structure Refines (t u : Typing) : Prop where
  steady : t.steady = u.steady
  neededCorrelation : t.neededKeys ⊆ u.neededKeys
  neededData : t.neededData.keys ⊆ u.neededData.keys
  providedData : u.providedData.keys ⊆ t.providedData.keys
  invalidatedData : t.invalidatedData.keys ⊆ u.invalidatedData.keys

/-- An entry in which all is defined that is defined in another one. -/
structure Covers (t u : Typing) : Prop where
  providedCorrelation : u.providedCorrelation.keys ⊆ t.providedCorrelation.keys
  providedData : u.providedData.keys ⊆ t.providedData.keys

variable {t u t' u' : Typing} {ts us : List Typing}

theorem Refines.refl (t : Typing) : t.Refines t :=
  ⟨rfl, List.Subset.refl _, List.Subset.refl _, List.Subset.refl _, List.Subset.refl _⟩

theorem Covers.refl (t : Typing) : t.Covers t := ⟨List.Subset.refl _, List.Subset.refl _⟩

/-- Every entry covers the one in which nothing is defined. -/
theorem covers_empty (t : Typing) : t.Covers .empty := ⟨List.nil_subset _, List.nil_subset _⟩

theorem Covers.provides (h : t.Covers u) {l : Location} (hl : u.provides l = true) :
    t.provides l = true := by
  simp only [Typing.provides, Bool.or_eq_true, OrderedSet.contains_iff_mem_keys] at hl ⊢
  exact hl.imp (fun hdata => h.providedData hdata) fun hkey => h.providedCorrelation hkey

theorem Refines.eq_providedCorrelation (h : t.Refines u) :
    t.providedCorrelation = u.providedCorrelation :=
  congrArg Prod.fst h.steady

/-- A statement that comes after one that gives no less is entered with no less. -/
theorem Refines.provisions (h : t.Refines u) : t.provisions.Covers u.provisions where
  providedCorrelation := by
    show u.providedCorrelation.keys ⊆ t.providedCorrelation.keys
    rw [h.eq_providedCorrelation]
    exact List.Subset.refl _
  providedData := h.providedData

end Typing

/-! ## In sequence -/

namespace Sequel

/-- A sequence that has come to no less, with no less to go on with. -/
structure Refines (s r : Sequel) : Prop where
  result : s.result.Refines r.result
  running : s.running.Covers r.running

/-- The start of a sequence that is entered with no less. -/
theorem refines_start {entry other : Typing} (h : entry.Covers other) :
    (Sequel.start entry).Refines (Sequel.start other) :=
  ⟨.refl .empty, h.providedCorrelation, h.providedData⟩

variable {s r : Sequel} {t u : Typing}

/-- A sequence asks for no more if what comes next asks for no more. -/
theorem Refines.result_append (h : s.Refines r) (ht : t.Sorted) (hu : u.Sorted)
    (htu : t.Refines u) : (s.append t).result.Refines (r.append u).result where
  steady := by
    rw [(append_steady s ht).1, (append_steady r hu).1, h.result.eq_providedCorrelation,
      htu.eq_providedCorrelation]
    exact congrArg (Prod.mk _)
      (congrArg Prod.snd (Typing.steady_noteInputsOf h.result.steady htu.steady))
  neededCorrelation := by
    intro l hl
    rw [mem_needed_append ht] at hl
    rw [mem_needed_append hu]
    rcases hl with hl | ⟨hl, hopen⟩
    · exact Or.inl (h.result.neededCorrelation hl)
    · exact Or.inr ⟨htu.neededCorrelation hl, fun hr => hopen (h.running.providedCorrelation hr)⟩
  neededData := by
    intro l hl
    rw [mem_neededData_append_iff ht] at hl
    rw [mem_neededData_append_iff hu]
    rcases hl with hl | ⟨hl, hopen⟩
    · exact Or.inl (h.result.neededData hl)
    · exact Or.inr ⟨htu.neededData hl, fun hr => hopen (h.running.providedData hr)⟩
  providedData := by
    intro l hl
    rw [mem_resultData_append hu] at hl
    rw [mem_resultData_append ht]
    refine ⟨?_, fun hlost => hl.2 (htu.invalidatedData hlost)⟩
    exact hl.1.imp (fun hr => h.result.providedData hr) fun hu => htu.providedData hu
  invalidatedData := by
    intro l hl
    rw [mem_invalidatedData_append ht] at hl
    rw [mem_invalidatedData_append hu]
    rcases hl with ⟨hl, hkept⟩ | hl
    · exact Or.inl ⟨h.result.invalidatedData hl, fun hu => hkept (htu.providedData hu)⟩
    · exact Or.inr (htu.invalidatedData hl)

/-- A sequence has no less running if what comes next gives no less. -/
theorem Refines.running_append (h : s.Refines r) (ht : t.Sorted) (hu : u.Sorted)
    (htu : t.Refines u) : (s.append t).running.Covers (r.append u).running where
  providedCorrelation := by
    intro l hl
    rw [mem_running_append hu] at hl
    rw [mem_running_append ht, htu.eq_providedCorrelation, h.result.eq_providedCorrelation]
    exact hl.imp_left fun hr => h.running.providedCorrelation hr
  providedData := by
    intro l hl
    rw [mem_runningData_append hu] at hl
    rw [mem_runningData_append ht]
    refine ⟨?_, fun hlost => hl.2 (htu.invalidatedData hlost)⟩
    exact hl.1.imp (fun hr => h.running.providedData hr) fun hu => htu.providedData hu

/-- A sequence goes on to come to no less. -/
theorem Refines.append (h : s.Refines r) (ht : t.Sorted) (hu : u.Sorted) (htu : t.Refines u) :
    (s.append t).Refines (r.append u) :=
  ⟨h.result_append ht hu htu, h.running_append ht hu htu⟩

end Sequel

namespace Typing

variable {t u t' u' : Typing} {ts us : List Typing}

/-! ## At the same time -/

/-- Statements at the same time ask for no more if each of them asks for no more. -/
theorem Refines.beside (h : t.Refines u) (ht : t'.Sorted) (hu : u'.Sorted) (h' : t'.Refines u') :
    (t.beside t').1.Refines (u.beside u').1 where
  steady := (beside_congr h.steady h'.steady).1
  neededCorrelation := by
    intro l hl
    rw [mem_neededKeys_beside ht] at hl
    rw [mem_neededKeys_beside hu]
    exact hl.imp (fun hl => h.neededCorrelation hl) fun hl => h'.neededCorrelation hl
  neededData := by
    intro l hl
    rw [mem_neededData_beside ht] at hl
    rw [mem_neededData_beside hu]
    exact hl.imp (fun hl => h.neededData hl) fun hl => h'.neededData hl
  providedData := by
    intro l hl
    rw [mem_providedData_beside hu] at hl
    rw [mem_providedData_beside ht]
    refine ⟨?_, fun hlost => hl.2 (h'.invalidatedData hlost)⟩
    exact hl.1.imp (fun hl => h.providedData hl) fun hl => h'.providedData hl
  invalidatedData := by
    intro l hl
    rw [mem_invalidatedData_beside ht] at hl
    rw [mem_invalidatedData_beside hu]
    exact hl.imp (fun hl => h.invalidatedData hl) fun hl => h'.invalidatedData hl

section Lists

variable (hts : ∀ t ∈ ts, t.Sorted) (hus : ∀ u ∈ us, u.Sorted) (h : List.Forall₂ Refines ts us)

include hts hus h

/-- Statements at the same time that ask for no more ask for no more together. -/
theorem Refines.parallel : (Typing.parallel ts).1.Refines (Typing.parallel us).1 := by
  have hfold : ∀ acc acc' : Typing × List Violation, acc.1.Refines acc'.1 →
      (ts.foldl (fun acc next => ((acc.1.beside next).1, acc.2 ++ (acc.1.beside next).2))
        acc).1.Refines
      (us.foldl (fun acc next => ((acc.1.beside next).1, acc.2 ++ (acc.1.beside next).2))
        acc').1 := by
    induction h with
    | nil => exact fun _ _ hacc => hacc
    | cons htu _ ih =>
      intro acc acc' hacc
      obtain ⟨ht, hts⟩ := List.forall_mem_cons.mp hts
      obtain ⟨hu, hus⟩ := List.forall_mem_cons.mp hus
      exact ih hts hus _ _ (hacc.beside ht hu htu)
  exact hfold (.empty, []) (.empty, []) (.refl .empty)

/-- Alternatives that ask for no more ask for no more together. -/
theorem Refines.choice (span : Span) (kind : BranchKind) (sessionStart : Bool) :
    (Typing.choice span kind sessionStart ts).1.Refines
      (Typing.choice span kind sessionStart us).1 := by
  have hpartner : ∀ t ∈ ts, ∃ u ∈ us, t.Refines u := fun t ht => exists_of_forall₂ h.flip ht
  have hsteady : ts.map Typing.steady = us.map Typing.steady :=
    map_eq_of_forall₂ (h.imp fun _ _ htu => htu.steady)
  refine ⟨(choice_congr hsteady).1, ?_, ?_, ?_, ?_⟩
  · intro l hl
    obtain ⟨t, ht, hl⟩ := (mem_neededKeys_alternatives hts).mp hl
    obtain ⟨u, hu, htu⟩ := hpartner t ht
    exact (mem_neededKeys_alternatives hus).mpr ⟨u, hu, htu.neededCorrelation hl⟩
  · intro l hl
    obtain ⟨t, ht, hl⟩ := (mem_neededData_alternatives hts sessionStart).mp hl
    obtain ⟨u, hu, htu⟩ := hpartner t ht
    exact (mem_neededData_alternatives hus sessionStart).mpr ⟨u, hu, htu.neededData hl⟩
  · intro l hl
    obtain ⟨hne, hall⟩ := mem_commonData.mp hl
    refine mem_commonData.mpr ⟨?_, fun t ht => ?_⟩
    · rintro rfl
      exact hne (List.forall₂_nil_left_iff.mp h)
    · obtain ⟨u, hu, htu⟩ := hpartner t ht
      exact htu.providedData (hall u hu)
  · intro l hl
    obtain ⟨t, ht, hl⟩ := (mem_invalidatedData_alternatives hts sessionStart).mp hl
    obtain ⟨u, hu, htu⟩ := hpartner t ht
    exact (mem_invalidatedData_alternatives hus sessionStart).mpr ⟨u, hu, htu.invalidatedData hl⟩

end Lists

/-! ## Loops -/

theorem Refines.repeated (h : t.Refines u) (span : Span) :
    (t.repeated span).1.Refines (u.repeated span).1 :=
  { h with providedData := List.Subset.refl _ }

/-! ## Assignments -/

/-- A need is one more thing to ask for. -/
theorem refines_need (t : Typing) (p : Path) : t.Refines (t.need p) where
  steady := (steady_need t p).symm
  neededCorrelation := fun _ hl => mem_neededKeys_need.mpr (Or.inl hl)
  neededData := fun _ hl => mem_neededData_need.mpr (Or.inl hl)
  providedData := by
    rw [show (t.need p).providedData = t.providedData from congrArg Prod.fst (dataEffect_need t p)]
    exact List.Subset.refl _
  invalidatedData := by
    rw [show (t.need p).invalidatedData = t.invalidatedData from
      congrArg Prod.snd (dataEffect_need t p)]
    exact List.Subset.refl _

/-- Data that is provided is one more thing to give. -/
theorem provide_refines (t : Typing) {p : Path} (hp : p.isCorrelation = false) (fresh : Bool) :
    (t.provide p fresh).Refines t where
  steady := steady_provide_data t hp fresh
  neededCorrelation := by
    rw [neededKeys_provide]
    exact List.Subset.refl _
  neededData := by
    rw [neededData_provide]
    exact List.Subset.refl _
  providedData := by
    rw [providedData_provide t hp fresh]
    exact fun _ hl => OrderedSet.mem_keys_insertNew.mpr (Or.inr hl)
  invalidatedData := by
    rw [provide, hp]
    exact List.Subset.refl _

theorem Refines.provide (h : t.Refines u) (p : Path) (fresh : Bool) :
    (t.provide p fresh).Refines (u.provide p fresh) where
  steady := Skeleton.steady_provide h.steady p fresh
  neededCorrelation := by
    rw [neededKeys_provide, neededKeys_provide]
    exact h.neededCorrelation
  neededData := by
    rw [neededData_provide, neededData_provide]
    exact h.neededData
  providedData := by
    rw [Typing.provide, Typing.provide]
    split
    · exact h.providedData
    · intro l hl
      rw [OrderedSet.mem_keys_insertNew] at hl ⊢
      exact hl.imp_right fun hl => h.providedData hl
  invalidatedData := by
    rw [Typing.provide, Typing.provide]
    split <;> exact h.invalidatedData

/-- With more defined before it an assignment asks for no more and gives no less. -/
theorem Covers.initialTyping {entry other : Typing} (h : entry.Covers other) (span : Span)
    (target : Path) (value : Initializer) :
    (Check.initialTyping span target value entry).1.Refines
      (Check.initialTyping span target value other).1 := by
  unfold Check.initialTyping
  cases value with
  | copy source =>
    by_cases hsource : source.isStatic = true
    · simp only [hsource, if_true]
      by_cases hother : other.provides source.location = true
      · rw [if_pos (h.provides hother), if_pos hother]
        exact .refl _
      · rw [if_neg hother]
        by_cases hentry : entry.provides source.location = true
        · rw [if_pos hentry]
          by_cases htarget : target.isCorrelation = true
          · rw [if_pos htarget]
            exact (refines_need .empty _).provide target false
          · rw [if_neg htarget]
            exact provide_refines .empty (eq_false_of_ne_true htarget) false
        · rw [if_neg hentry]
          exact .refl _
    · simp only [hsource]
      exact .refl _
  | _ => exact .refl _

end Typing

end Correlation
