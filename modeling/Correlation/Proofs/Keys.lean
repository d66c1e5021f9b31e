import Correlation.Proofs.Kinds

/-!
# What is joined when typings are joined

Statements are put together in sequence, at the same time, as alternatives or in a loop.  Each time
the correlation variables that the whole provides are told by those that the parts provide.  In
sequence and at the same time they are the union, and whatever is in two parts is a violation
(`append_steady`, `beside_steady`).  Alternatives provide what any of them does.

The provided correlation variables, the session operations and the starting operation make up the
*steady* part of a typing.  It depends on the steady parts of the joined typings alone, and so do
the violations.  The needs do not belong to it, since what is defined before settles them
(`mem_needed_append`).
-/

namespace Correlation

/-- The violation of defining a correlation variable a second time. -/
def ProvidedPath.clash (p : ProvidedPath) : Violation := ⟨p.path.span, .definedMoreThanOnce p.path⟩

/-- The violations of defining correlation variables some of which are defined already. -/
def ProvidedSet.clashes (before next : ProvidedSet) : List Violation :=
  (next.toList.filter fun p => before.contains p.location).map ProvidedPath.clash

/-- Definitions one by one: the new ones are kept and the others are violations. -/
theorem foldl_define {σ : Type} (step : σ → ProvidedPath → σ) (provided : σ → ProvidedSet)
    (violations : σ → List Violation)
    (hprovided : ∀ s p, provided (step s p) = (provided s).insertNew p)
    (hviolations : ∀ s p, violations (step s p) =
      violations s ++ if (provided s).contains p.location then [p.clash] else [])
    (s : σ) (next : ProvidedSet) :
    provided (next.toList.foldl step s) = (provided s).union next ∧
      violations (next.toList.foldl step s) = violations s ++ (provided s).clashes next := by
  obtain ⟨ps, hps⟩ := next
  simp only [OrderedSet.union, ProvidedSet.clashes]
  induction ps generalizing s with
  | nil => exact ⟨rfl, (List.append_nil _).symm⟩
  | cons p ps ih =>
    rw [List.map_cons, List.nodup_cons] at hps
    obtain ⟨ihProvided, ihViolations⟩ := ih (step s p) hps.2
    have hrest : ∀ q ∈ ps, (provided (step s p)).contains q.location =
        (provided s).contains q.location := by
      intro q hq
      rw [hprovided, Bool.eq_iff_iff, OrderedSet.contains_iff_mem_keys,
        OrderedSet.contains_iff_mem_keys, OrderedSet.mem_keys_insertNew]
      constructor
      · rintro (hqp | hq')
        · exact absurd (hqp ▸ List.mem_map_of_mem hq) hps.1
        · exact hq'
      · exact Or.inr
    constructor
    · rw [List.foldl_cons, List.foldl_cons, ihProvided, hprovided]
    · rw [List.foldl_cons, ihViolations, hviolations, List.append_assoc,
        List.filter_congr hrest]
      by_cases hp : (provided s).contains p.location = true
      · simp [hp]
      · simp [hp]

namespace Typing

/-- The inputs that a typing notes. -/
def inputs (t : Typing) : NameSet × Option String := (t.sessionOperations, t.startingOperation)

/-- The part of a typing that does not depend on what is defined before the statement. -/
def steady (t : Typing) : ProvidedSet × NameSet × Option String := (t.providedCorrelation, t.inputs)

/-- The correlation variables that a typing needs. -/
def neededKeys (t : Typing) : List Location := t.neededCorrelation.keys

variable {t u : Typing} {p : Path} {l : Location}

theorem not_mem_neededKeys_empty (l : Location) : l ∉ empty.neededKeys := List.not_mem_nil

/-! ## Steps that keep the steady part or the needs -/

/-- A need is no part of the steady typing. -/
theorem steady_need (t : Typing) (p : Path) : (t.need p).steady = t.steady := by
  rw [need]; split <;> rfl

theorem steady_invalidate (t : Typing) (p : Path) : (t.invalidate p).steady = t.steady := by
  rw [invalidate]; split <;> rfl

theorem steady_provide_data (t : Typing) (hp : p.isCorrelation = false) (fresh : Bool) :
    (t.provide p fresh).steady = t.steady := by
  rw [provide, hp]; rfl

theorem steady_needAllOf (t u : Typing) : (t.needAllOf u).steady = t.steady :=
  foldl_keeps steady (fun t p _ => steady_need t p) t

theorem neededKeys_invalidate (t : Typing) (p : Path) :
    (t.invalidate p).neededKeys = t.neededKeys := by
  rw [invalidate]; split <;> rfl

theorem neededKeys_provide (t : Typing) (p : Path) (fresh : Bool) :
    (t.provide p fresh).neededKeys = t.neededKeys := by
  rw [provide]; split <;> rfl

/-- A need for a correlation variable is added to the others. -/
theorem mem_neededKeys_need :
    l ∈ (t.need p).neededKeys ↔ l ∈ t.neededKeys ∨ p.location = l ∧ l.isCorrelation = true := by
  rw [need]
  by_cases hp : p.isCorrelation = true
  · rw [if_pos hp]
    refine OrderedSet.mem_keys_insertNew.trans ⟨?_, ?_⟩
    · rintro (rfl | hl)
      · exact Or.inr ⟨rfl, hp⟩
      · exact Or.inl hl
    · rintro (hl | ⟨rfl, _⟩)
      · exact Or.inr hl
      · exact Or.inl rfl
  · rw [if_neg hp]
    refine ⟨Or.inl, ?_⟩
    rintro (hl | ⟨rfl, hl⟩)
    · exact hl
    · exact absurd hl hp

theorem mem_neededKeys_foldl_need {ps : List Path} :
    l ∈ (ps.foldl need t).neededKeys ↔
      l ∈ t.neededKeys ∨ l.isCorrelation = true ∧ ∃ p ∈ ps, p.location = l := by
  induction ps generalizing t with
  | nil => simp
  | cons p ps ih =>
    rw [List.foldl_cons, ih, mem_neededKeys_need]
    simp only [List.mem_cons, exists_eq_or_imp]
    tauto

/-- What another typing needs is added to the variables that are needed. -/
theorem mem_neededKeys_needAllOf (hu : u.Sorted) :
    l ∈ (t.needAllOf u).neededKeys ↔ l ∈ t.neededKeys ∨ l ∈ u.neededKeys := by
  rw [needAllOf, mem_neededKeys_foldl_need]
  refine or_congr_right ⟨?_, fun h => ?_⟩
  · rintro ⟨hl, q, hq, rfl⟩
    rcases List.mem_append.mp hq with hq | hq
    · exact List.mem_map_of_mem hq
    · have hdata := hu.neededData _ (List.mem_map_of_mem hq)
      exact absurd hl (by rw [hdata]; exact Bool.false_ne_true)
  · obtain ⟨q, hq, rfl⟩ := List.mem_map.mp h
    exact ⟨hu.neededCorrelation _ h, q, List.mem_append_left _ hq, rfl⟩

/-! ## At the same time -/

theorem inputs_defineBeside (acc : Typing × List Violation) (q : ProvidedPath) :
    (defineBeside acc q).1.inputs = acc.1.inputs := by
  rw [defineBeside]; split <;> rfl

theorem neededKeys_defineBeside (acc : Typing × List Violation) (q : ProvidedPath) :
    (defineBeside acc q).1.neededKeys = acc.1.neededKeys := by
  rw [defineBeside]; split <;> rfl

/-- Two statements at the same time provide the union, and must not share a correlation variable. -/
theorem beside_steady (t u : Typing) :
    (t.beside u).1.steady =
        (t.providedCorrelation.union u.providedCorrelation, (t.noteInputsOf u).inputs) ∧
      (t.beside u).2 = t.providedCorrelation.clashes u.providedCorrelation := by
  obtain ⟨hprovided, hviolations⟩ := foldl_define defineBeside
    (fun acc => acc.1.providedCorrelation) Prod.snd
    (fun acc q => by
      rw [defineBeside]
      split
      · next h => rw [OrderedSet.insertNew_of_contains h]
      · next h => exact OrderedSet.insert_eq_insertNew (eq_false_of_ne_true h))
    (fun acc q => by
      rw [defineBeside]
      split
      · rfl
      · exact (List.append_nil _).symm)
    ((t.noteInputsOf u).needAllOf u, []) u.providedCorrelation
  have hinputs : (u.providedCorrelation.toList.foldl defineBeside
      ((t.noteInputsOf u).needAllOf u, [])).1.inputs = ((t.noteInputsOf u).needAllOf u).inputs :=
    foldl_keeps (fun acc => acc.1.inputs) (fun acc q _ => inputs_defineBeside acc q) _
  have hnoted : ((t.noteInputsOf u).needAllOf u).steady = (t.noteInputsOf u).steady :=
    steady_needAllOf _ _
  have hend : (t.beside u).1.steady = (u.providedCorrelation.toList.foldl defineBeside
      ((t.noteInputsOf u).needAllOf u, [])).1.steady :=
    foldl_keeps steady (fun t q _ => steady_invalidate t q) _
  refine ⟨?_, ?_⟩
  · rw [hend, steady, hprovided, hinputs]
    simp only [steady, Prod.mk.injEq] at hnoted
    rw [hnoted.1, hnoted.2]
    rfl
  · refine hviolations.trans ?_
    rw [List.nil_append, show ((t.noteInputsOf u).needAllOf u).providedCorrelation =
      t.providedCorrelation from congrArg Prod.fst hnoted]

theorem mem_neededKeys_beside (hu : u.Sorted) :
    l ∈ (t.beside u).1.neededKeys ↔ l ∈ t.neededKeys ∨ l ∈ u.neededKeys := by
  have hend : (t.beside u).1.neededKeys = (u.providedCorrelation.toList.foldl defineBeside
      ((t.noteInputsOf u).needAllOf u, [])).1.neededKeys :=
    foldl_keeps neededKeys (fun t q _ => neededKeys_invalidate t q) _
  have hdefined : (u.providedCorrelation.toList.foldl defineBeside
      ((t.noteInputsOf u).needAllOf u, [])).1.neededKeys =
        ((t.noteInputsOf u).needAllOf u).neededKeys :=
    foldl_keeps (fun acc => acc.1.neededKeys) (fun acc q _ => neededKeys_defineBeside acc q) _
  rw [hend, hdefined, mem_neededKeys_needAllOf hu]
  rfl

end Typing

/-! ## In sequence -/

namespace Sequel

variable {s : Sequel} {t : Typing} {l : Location}

theorem violations_invalidate (s : Sequel) (p : Path) :
    (s.invalidate p).violations = s.violations := rfl

theorem violations_provideData (s : Sequel) (p : Path) :
    (s.provideData p).violations = s.violations := rfl

theorem result_provideData (s : Sequel) {p : Path} (hp : p.isCorrelation = false) :
    (s.provideData p).result.steady = s.result.steady :=
  Typing.steady_provide_data _ hp false

/-- A statement after others adds its correlation variables, which must not be defined already. -/
theorem append_steady (s : Sequel) (ht : t.Sorted) :
    (s.append t).result.steady =
        (s.result.providedCorrelation.union t.providedCorrelation,
          (s.result.noteInputsOf t).inputs) ∧
      (s.append t).violations =
        s.violations ++ s.result.providedCorrelation.clashes t.providedCorrelation := by
  let needed := Sequel.addNeeds { s with result := s.result.noteInputsOf t } t
  have hneeded : needed.result.steady = (s.result.noteInputsOf t).steady :=
    foldl_keeps Typing.steady (fun t p _ => Typing.steady_need t p) _
  obtain ⟨hprovided, hviolations⟩ := foldl_define define
    (fun s => s.result.providedCorrelation) violations
    (fun s q => by
      rw [define]
      split
      · next h => rw [OrderedSet.insertNew_of_contains h]
      · next h => exact OrderedSet.insert_eq_insertNew (eq_false_of_ne_true h))
    (fun s q => by
      rw [define]
      split
      · rfl
      · exact (List.append_nil _).symm)
    needed t.providedCorrelation
  have hinputs : (t.providedCorrelation.toList.foldl define needed).result.inputs =
      needed.result.inputs :=
    foldl_keeps (fun s : Sequel => s.result.inputs)
      (fun s q _ => by rw [define]; split <;> rfl) _
  have hend : (s.append t).result.steady =
        (t.providedCorrelation.toList.foldl define needed).result.steady ∧
      (s.append t).violations = (t.providedCorrelation.toList.foldl define needed).violations := by
    constructor
    · refine (foldl_keeps (fun s : Sequel => s.result.steady)
        (fun s q _ => Typing.steady_invalidate s.result q) _).trans ?_
      refine foldl_keeps (fun s : Sequel => s.result.steady)
        (fun s q hq => result_provideData s ?_) _
      exact ht.providedData _ (List.mem_map_of_mem hq)
    · refine (foldl_keeps violations (fun s q _ => violations_invalidate s q) _).trans ?_
      exact foldl_keeps violations (fun s q _ => violations_provideData s q) _
  simp only [Typing.steady, Prod.mk.injEq] at hneeded hend ⊢
  refine ⟨⟨?_, ?_⟩, ?_⟩
  · rw [hend.1.1, hprovided, hneeded.1]
    rfl
  · rw [hend.1.2, hinputs, hneeded.2]
  · rw [hend.2, hviolations, hneeded.1]
    rfl

/-- What a sequence provided stays, and what the next statement provides comes after it. -/
theorem providedKeys_append (s : Sequel) (ht : t.Sorted) :
    (s.append t).result.providedCorrelation =
      s.result.providedCorrelation.union t.providedCorrelation :=
  congrArg Prod.fst (append_steady s ht).1

/-- What a sequence needs: what it needed before, and those needs of the next statement that are
/-- A need of the next statement stays open if the variable is not defined before it. -/
open when it runs. -/
theorem mem_needed_append (ht : t.Sorted) :
    l ∈ (s.append t).result.neededKeys ↔ l ∈ s.result.neededKeys ∨
      l ∈ t.neededKeys ∧ l ∉ s.running.providedCorrelation.keys := by
  let needed := Sequel.addNeeds { s with result := s.result.noteInputsOf t } t
  have hneeded : l ∈ needed.result.neededKeys ↔ l ∈ s.result.neededKeys ∨
      l ∈ t.neededKeys ∧ l ∉ s.running.providedCorrelation.keys := by
    refine Typing.mem_neededKeys_foldl_need.trans (or_congr_right ⟨?_, ?_⟩)
    · rintro ⟨hl, q, hq, rfl⟩
      rcases List.mem_append.mp hq with hq | hq
      · obtain ⟨hq, hopen⟩ := List.mem_filter.mp hq
        refine ⟨List.mem_map_of_mem hq, ?_⟩
        exact OrderedSet.contains_eq_false_iff.mp (by simpa using hopen)
      · have hdata := ht.neededData _ (List.mem_map_of_mem (List.mem_filter.mp hq).1)
        exact absurd hl (by rw [hdata]; exact Bool.false_ne_true)
    · rintro ⟨hl, hopen⟩
      obtain ⟨q, hq, rfl⟩ := List.mem_map.mp hl
      refine ⟨ht.neededCorrelation _ hl, q, List.mem_append_left _ (List.mem_filter.mpr ⟨hq, ?_⟩),
        rfl⟩
      rw [OrderedSet.contains_eq_false_iff.mpr hopen]
      rfl
  have hdefined : (t.providedCorrelation.toList.foldl define needed).result.neededKeys =
      needed.result.neededKeys :=
    foldl_keeps (fun s : Sequel => s.result.neededKeys)
      (fun s q _ => by rw [define]; split <;> rfl) _
  have hend : (s.append t).result.neededKeys =
      (t.providedCorrelation.toList.foldl define needed).result.neededKeys := by
    refine (foldl_keeps (fun s : Sequel => s.result.neededKeys)
      (fun s q _ => Typing.neededKeys_invalidate s.result q) _).trans ?_
    exact foldl_keeps (fun s : Sequel => s.result.neededKeys)
      (fun s q _ => Typing.neededKeys_provide _ q false) _
  rw [hend, hdefined, hneeded]

/-- What is defined one after the other is running afterwards. -/
theorem mem_running_foldl_define {ps : List ProvidedPath} :
    l ∈ (ps.foldl define s).running.providedCorrelation.keys ↔
      l ∈ s.running.providedCorrelation.keys ∨
        l ∈ ps.map ProvidedPath.location ∧ l ∉ s.result.providedCorrelation.keys := by
  induction ps generalizing s with
  | nil => simp
  | cons p ps ih =>
    rw [List.foldl_cons, ih, define, List.map_cons, List.mem_cons]
    by_cases hp : s.result.providedCorrelation.contains p.location = true
    · have hmem := OrderedSet.contains_iff_mem_keys.mp hp
      rw [if_pos hp]
      constructor
      · rintro (hl | ⟨hl, hnew⟩)
        · exact Or.inl hl
        · exact Or.inr ⟨Or.inr hl, hnew⟩
      · rintro (hl | ⟨rfl | hl, hnew⟩)
        · exact Or.inl hl
        · exact absurd hmem hnew
        · exact Or.inr ⟨hl, hnew⟩
    · have hmem := fun h => hp (OrderedSet.contains_iff_mem_keys.mpr h)
      rw [if_neg hp]
      simp only [OrderedSet.mem_keys_insert, not_or]
      constructor
      · rintro ((rfl | hl) | ⟨hl, _, hnew⟩)
        · exact Or.inr ⟨Or.inl rfl, hmem⟩
        · exact Or.inl hl
        · exact Or.inr ⟨Or.inr hl, hnew⟩
      · rintro (hl | ⟨rfl | hl, hnew⟩)
        · exact Or.inl (Or.inr hl)
        · exact Or.inl (Or.inl rfl)
        · by_cases hlp : l = p.location
          · exact Or.inl (Or.inl hlp)
          · exact Or.inr ⟨hl, hlp, hnew⟩

/-- What is defined after a statement: what was defined before, and what the statement defines.  A
second definition is dropped, but then the variable is defined by the first one. -/
theorem mem_running_append (ht : t.Sorted) :
    l ∈ (s.append t).running.providedCorrelation.keys ↔
      l ∈ s.running.providedCorrelation.keys ∨
        l ∈ t.providedCorrelation.keys ∧ l ∉ s.result.providedCorrelation.keys := by
  let needed := Sequel.addNeeds { s with result := s.result.noteInputsOf t } t
  have hneeded : needed.result.steady = (s.result.noteInputsOf t).steady :=
    foldl_keeps Typing.steady (fun t p _ => Typing.steady_need t p) _
  have hend : (s.append t).running.providedCorrelation =
      (t.providedCorrelation.toList.foldl define needed).running.providedCorrelation := by
    refine (foldl_keeps (fun s : Sequel => s.running.providedCorrelation) (fun s q _ =>
      congrArg Prod.fst (Typing.steady_invalidate s.running q)) _).trans ?_
    refine foldl_keeps (fun s : Sequel => s.running.providedCorrelation) (fun s q hq =>
      congrArg Prod.fst (Typing.steady_provide_data s.running ?_ false)) _
    exact ht.providedData _ (List.mem_map_of_mem hq)
  rw [hend, mem_running_foldl_define, show needed.result.providedCorrelation =
    s.result.providedCorrelation from congrArg Prod.fst hneeded]
  rfl

/-- What a sequence provides: what it provided before, and what the next statement does. -/
theorem mem_result_append (ht : t.Sorted) :
    l ∈ (s.append t).result.providedCorrelation.keys ↔
      l ∈ s.result.providedCorrelation.keys ∨ l ∈ t.providedCorrelation.keys := by
  rw [providedKeys_append s ht, OrderedSet.mem_keys_union]

/-- As long as a sequence provides what is defined, it goes on to do so. -/
theorem running_iff_result_append (ht : t.Sorted)
    (h : l ∈ s.running.providedCorrelation.keys ↔ l ∈ s.result.providedCorrelation.keys) :
    l ∈ (s.append t).running.providedCorrelation.keys ↔
      l ∈ (s.append t).result.providedCorrelation.keys := by
  rw [mem_running_append ht, mem_result_append ht, h]
  by_cases hl : l ∈ s.result.providedCorrelation.keys
  · exact iff_of_true (Or.inl hl) (Or.inl hl)
  · rw [and_iff_left hl]

end Sequel

end Correlation
