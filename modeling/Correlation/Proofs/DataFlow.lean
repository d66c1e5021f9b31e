import Correlation.Proofs.Kinds

/-!
# Data in joined typings

What a typing says of data when typings are joined.  In contrast to a correlation variable, data may
lose its value again, and it matters what comes last.

* After one more statement of a sequence data is provided if it was, or if the statement provides
  it, unless the statement invalidates it (`mem_runningData_append`, `mem_resultData_append`).
* Data is invalid if the statement invalidates it, or if it was and the statement does not provide
  it (`mem_invalidatedData_append`).
* A need of the statement is settled by what is running, or it becomes a need of the sequence
  (`mem_neededData_append_iff`).
* Statements at the same time provide what one of them does, unless the later one invalidates it.
* Alternatives need and invalidate what any of them does, and provide what all of them do
  (`alternatives_data`).
-/

namespace Correlation

variable {t u : Typing} {s : Sequel} {l : Location}

namespace Typing

/-- What a typing provides and invalidates of data. -/
def dataEffect (t : Typing) : PathSet × PathSet := (t.providedData, t.invalidatedData)

theorem dataEffect_need (t : Typing) (p : Path) : (t.need p).dataEffect = t.dataEffect := by
  rw [need]; split <;> rfl

theorem neededData_invalidate (t : Typing) (p : Path) :
    (t.invalidate p).neededData = t.neededData := by
  rw [invalidate]; split <;> rfl

theorem neededData_provide (t : Typing) (p : Path) (fresh : Bool) :
    (t.provide p fresh).neededData = t.neededData := by
  rw [provide]; split <;> rfl

theorem mem_neededData_need {p : Path} :
    l ∈ (t.need p).neededData.keys ↔
      l ∈ t.neededData.keys ∨ p.location = l ∧ l.isCorrelation = false := by
  rw [need]
  by_cases hp : p.isCorrelation = true
  · rw [if_pos hp]
    refine ⟨Or.inl, ?_⟩
    rintro (hl | ⟨rfl, hl⟩)
    · exact hl
    · exact absurd (hp.symm.trans hl) (by decide)
  · rw [if_neg hp]
    refine OrderedSet.mem_keys_insertNew.trans ⟨?_, ?_⟩
    · rintro (rfl | hl)
      · exact Or.inr ⟨rfl, eq_false_of_ne_true hp⟩
      · exact Or.inl hl
    · rintro (hl | ⟨rfl, _⟩)
      · exact Or.inr hl
      · exact Or.inl rfl

/-- The data that is needed in the end was needed before or is among the needs. -/
theorem mem_neededData_foldl_need {ps : List Path} :
    l ∈ (ps.foldl need t).neededData.keys ↔
      l ∈ t.neededData.keys ∨ l.isCorrelation = false ∧ ∃ p ∈ ps, p.location = l := by
  induction ps generalizing t with
  | nil => simp
  | cons p ps ih =>
    rw [List.foldl_cons, ih, mem_neededData_need]
    simp only [List.mem_cons, exists_eq_or_imp]
    tauto

/-- What is needed besides is added to the data that is needed. -/
theorem mem_neededData_needAllOf (hu : u.Sorted) :
    l ∈ (t.needAllOf u).neededData.keys ↔ l ∈ t.neededData.keys ∨ l ∈ u.neededData.keys := by
  rw [needAllOf, mem_neededData_foldl_need]
  refine or_congr_right ⟨?_, fun h => ?_⟩
  · rintro ⟨hl, q, hq, rfl⟩
    rcases List.mem_append.mp hq with hq | hq
    · have hkey := hu.neededCorrelation _ (List.mem_map_of_mem hq)
      exact absurd (hkey.symm.trans hl) (by decide)
    · exact List.mem_map_of_mem hq
  · obtain ⟨q, hq, rfl⟩ := List.mem_map.mp h
    exact ⟨hu.neededData _ h, q, List.mem_append_right _ hq, rfl⟩

theorem providedData_invalidate (t : Typing) {p : Path} (hp : p.isCorrelation = false) :
    (t.invalidate p).providedData = t.providedData.erase p.location := by
  rw [invalidate, hp]
  rfl

theorem invalidatedData_invalidate (t : Typing) {p : Path} (hp : p.isCorrelation = false) :
    (t.invalidate p).invalidatedData = t.invalidatedData.insertNew p := by
  rw [invalidate, hp]
  rfl

theorem providedData_provide (t : Typing) {p : Path} (hp : p.isCorrelation = false)
    (fresh : Bool) : (t.provide p fresh).providedData = t.providedData.insertNew p := by
  rw [provide, hp]
  rfl

/-- What is invalidated one by one is no longer provided, and is invalid. -/
theorem foldl_invalidate_data (t : Typing) (hu : u.Sorted) :
    (u.invalidatedData.toList.foldl invalidate t).providedData =
        u.invalidatedData.toList.foldl (fun v p => v.erase p.location) t.providedData ∧
      (u.invalidatedData.toList.foldl invalidate t).invalidatedData =
        t.invalidatedData.union u.invalidatedData := by
  have hdata : ∀ p ∈ u.invalidatedData.toList, p.isCorrelation = false :=
    fun p hp => hu.invalidatedData _ (List.mem_map_of_mem hp)
  exact ⟨foldl_view providedData (fun v p hp => providedData_invalidate v (hdata p hp)) t,
    foldl_view invalidatedData (fun v p hp => invalidatedData_invalidate v (hdata p hp)) t⟩

end Typing

/-! ## In sequence -/

namespace Sequel

/-- What a sequence says of data, apart from its needs. -/
def dataEffect (s : Sequel) : PathSet × PathSet × PathSet :=
  (s.running.providedData, s.result.dataEffect)

theorem dataEffect_define (s : Sequel) (p : ProvidedPath) :
    (s.define p).dataEffect = s.dataEffect := by
  rw [define]; split <;> rfl

/-- Data that a sequence provides is there while it runs and afterwards. -/
theorem data_provideData (s : Sequel) {p : Path} (hp : p.isCorrelation = false) :
    (s.provideData p).running.providedData = s.running.providedData.insertNew p
      ∧ (s.provideData p).result.providedData = s.result.providedData.insertNew p
      ∧ (s.provideData p).result.invalidatedData
          = s.result.invalidatedData.erase p.location := by
  simp only [provideData, Typing.provide, hp, Bool.false_eq_true, if_false, and_self]

/-- Data that a sequence invalidates is gone while it runs and afterwards. -/
theorem data_invalidate (s : Sequel) {p : Path} (hp : p.isCorrelation = false) :
    (s.invalidate p).running.providedData = s.running.providedData.erase p.location
      ∧ (s.invalidate p).result.providedData = s.result.providedData.erase p.location
      ∧ (s.invalidate p).result.invalidatedData = s.result.invalidatedData.insertNew p := by
  simp only [invalidate, Typing.invalidate, hp, Bool.false_eq_true, if_false, and_self]

/-- What one more statement does to the data of a sequence. -/
theorem data_append (s : Sequel) (ht : t.Sorted) :
    let invalidated (provided : PathSet) : PathSet :=
      t.invalidatedData.toList.foldl (fun u p => u.erase p.location) provided
    (s.append t).running.providedData
        = invalidated (s.running.providedData.union t.providedData)
      ∧ (s.append t).result.providedData
          = invalidated (s.result.providedData.union t.providedData)
      ∧ (s.append t).result.invalidatedData = OrderedSet.union
          (t.providedData.toList.foldl (fun u p => u.erase p.location) s.result.invalidatedData)
          t.invalidatedData := by
  have hprovided : ∀ p ∈ t.providedData.toList, p.isCorrelation = false :=
    fun p hp => ht.providedData _ (List.mem_map_of_mem hp)
  have hinvalidated : ∀ p ∈ t.invalidatedData.toList, p.isCorrelation = false :=
    fun p hp => ht.invalidatedData _ (List.mem_map_of_mem hp)
  let needed := addNeeds { s with result := s.result.noteInputsOf t } t
  let defined := t.providedCorrelation.toList.foldl define needed
  have hdefined : defined.dataEffect = s.dataEffect := by
    refine (foldl_keeps dataEffect (fun s p _ => dataEffect_define s p) needed).trans ?_
    exact congrArg (Prod.mk _) (foldl_keeps Typing.dataEffect
      (fun t p _ => Typing.dataEffect_need t p) (s.result.noteInputsOf t))
  obtain ⟨hdefinedRunning, hdefinedResult, hdefinedInvalid⟩ :
      defined.running.providedData = s.running.providedData
        ∧ defined.result.providedData = s.result.providedData
        ∧ defined.result.invalidatedData = s.result.invalidatedData := by
    simpa only [dataEffect, Typing.dataEffect, Prod.mk.injEq] using hdefined
  let provided := t.providedData.toList.foldl provideData defined
  have hrunning : provided.running.providedData = s.running.providedData.union t.providedData := by
    rw [← hdefinedRunning]
    exact foldl_view (fun s : Sequel => s.running.providedData)
      (fun s p hp => (data_provideData s (hprovided p hp)).1) defined
  have hresult : provided.result.providedData = s.result.providedData.union t.providedData := by
    rw [← hdefinedResult]
    exact foldl_view (fun s : Sequel => s.result.providedData)
      (fun s p hp => (data_provideData s (hprovided p hp)).2.1) defined
  have hinvalid : provided.result.invalidatedData = t.providedData.toList.foldl
      (fun u p => u.erase p.location) s.result.invalidatedData := by
    rw [← hdefinedInvalid]
    exact foldl_view (fun s : Sequel => s.result.invalidatedData)
      (fun s p hp => (data_provideData s (hprovided p hp)).2.2) defined
  refine ⟨?_, ?_, ?_⟩
  · rw [← hrunning]
    exact foldl_view (fun s : Sequel => s.running.providedData)
      (fun s p hp => (data_invalidate s (hinvalidated p hp)).1) provided
  · rw [← hresult]
    exact foldl_view (fun s : Sequel => s.result.providedData)
      (fun s p hp => (data_invalidate s (hinvalidated p hp)).2.1) provided
  · rw [← hinvalid]
    exact foldl_view (fun s : Sequel => s.result.invalidatedData)
      (fun s p hp => (data_invalidate s (hinvalidated p hp)).2.2) provided

/-- Data runs on if it was running or is provided, and is not invalidated. -/
theorem mem_runningData_append (ht : t.Sorted) :
    l ∈ (s.append t).running.providedData.keys ↔
      (l ∈ s.running.providedData.keys ∨ l ∈ t.providedData.keys) ∧
        l ∉ t.invalidatedData.keys := by
  rw [(data_append s ht).1]
  exact OrderedSet.mem_keys_foldl_erase.trans (and_congr_left' OrderedSet.mem_keys_union)

/-- A sequence provides what it provided or what the next statement does, unless that one
invalidates it. -/
theorem mem_resultData_append (ht : t.Sorted) :
    l ∈ (s.append t).result.providedData.keys ↔
      (l ∈ s.result.providedData.keys ∨ l ∈ t.providedData.keys) ∧
        l ∉ t.invalidatedData.keys := by
  rw [(data_append s ht).2.1]
  exact OrderedSet.mem_keys_foldl_erase.trans (and_congr_left' OrderedSet.mem_keys_union)

/-- A sequence invalidates what it invalidated and the next statement does not provide, and what
that one invalidates. -/
theorem mem_invalidatedData_append (ht : t.Sorted) :
    l ∈ (s.append t).result.invalidatedData.keys ↔
      (l ∈ s.result.invalidatedData.keys ∧ l ∉ t.providedData.keys) ∨
        l ∈ t.invalidatedData.keys := by
  rw [(data_append s ht).2.2]
  exact OrderedSet.mem_keys_union.trans (or_congr_left OrderedSet.mem_keys_foldl_erase)

/-- The needs of data that a sequence has after one more statement. -/
theorem neededData_append (s : Sequel) (t : Typing) :
    (s.append t).result.neededData =
      (addNeeds { s with result := s.result.noteInputsOf t } t).result.neededData := by
  refine (foldl_keeps (fun s : Sequel => s.result.neededData)
    (fun s p _ => Typing.neededData_invalidate s.result p) _).trans ?_
  refine (foldl_keeps (fun s : Sequel => s.result.neededData)
    (fun s p _ => Typing.neededData_provide _ p false) _).trans ?_
  exact foldl_keeps (fun s : Sequel => s.result.neededData)
    (fun s p _ => by rw [define]; split <;> rfl) _

/-- A need for data is never dropped. -/
theorem neededData_subset_append (s : Sequel) (t : Typing) :
    s.result.neededData.keys ⊆ (s.append t).result.neededData.keys := by
  rw [neededData_append]
  exact fun l hl => Typing.mem_neededData_foldl_need.mpr (Or.inl hl)

/-- A sequence needs what it needed before, and what the statement needs and is not settled. -/
theorem mem_neededData_append_iff (ht : t.Sorted) :
    l ∈ (s.append t).result.neededData.keys ↔ l ∈ s.result.neededData.keys ∨
      l ∈ t.neededData.keys ∧ l ∉ s.running.providedData.keys := by
  rw [neededData_append]
  refine Typing.mem_neededData_foldl_need.trans (or_congr_right ⟨?_, ?_⟩)
  · rintro ⟨hl, p, hp, rfl⟩
    rcases List.mem_append.mp hp with hp | hp
    · have hkey := ht.neededCorrelation _ (List.mem_map_of_mem (List.mem_filter.mp hp).1)
      exact absurd (hkey.symm.trans hl) (by decide)
    · obtain ⟨hp, hopen⟩ := List.mem_filter.mp hp
      refine ⟨List.mem_map_of_mem hp, ?_⟩
      exact OrderedSet.contains_eq_false_iff.mp (by simpa using hopen)
  · rintro ⟨hl, hopen⟩
    obtain ⟨p, hp, rfl⟩ := List.mem_map.mp hl
    refine ⟨ht.neededData _ hl, p, List.mem_append_right _ (List.mem_filter.mpr ⟨hp, ?_⟩), rfl⟩
    rw [OrderedSet.contains_eq_false_iff.mpr hopen]
    rfl

/-- A need of the statement is settled at this point, or it becomes a need of the sequence. -/
theorem mem_neededData_append (ht : t.Sorted) (hl : l ∈ t.neededData.keys) :
    l ∈ s.running.providedData.keys ∨ l ∈ (s.append t).result.neededData.keys := by
  by_cases hrunning : l ∈ s.running.providedData.keys
  · exact Or.inl hrunning
  · exact Or.inr ((mem_neededData_append_iff ht).mpr (Or.inr ⟨hl, hrunning⟩))

end Sequel

namespace Typing

/-! ## At the same time -/

/-- What one more statement at the same time does to data. -/
theorem data_beside (t : Typing) (hu : u.Sorted) :
    (t.beside u).1.neededData = ((t.noteInputsOf u).needAllOf u).neededData ∧
      (t.beside u).1.providedData = u.invalidatedData.toList.foldl
          (fun v p => v.erase p.location) (t.providedData.union u.providedData) ∧
        (t.beside u).1.invalidatedData = t.invalidatedData.union u.invalidatedData := by
  let noted := (t.noteInputsOf u).needAllOf u
  let defined := (u.providedCorrelation.toList.foldl defineBeside (noted, [])).1
  have hdefined : defined.neededData = noted.neededData ∧ defined.dataEffect = noted.dataEffect :=
    ⟨foldl_keeps (fun acc : Typing × List Violation => acc.1.neededData)
        (fun acc p _ => by rw [defineBeside]; split <;> rfl) (noted, []),
      foldl_keeps (fun acc : Typing × List Violation => acc.1.dataEffect)
        (fun acc p _ => by rw [defineBeside]; split <;> rfl) (noted, [])⟩
  have hnoted : noted.dataEffect = t.dataEffect :=
    foldl_keeps dataEffect (fun t p _ => dataEffect_need t p) (t.noteInputsOf u)
  obtain ⟨hprovided, hinvalid⟩ := Prod.mk.inj (hdefined.2.trans hnoted)
  let joined : Typing := { defined with providedData := defined.providedData.union u.providedData }
  refine ⟨?_, ?_, ?_⟩
  · refine (foldl_keeps neededData (fun t p _ => neededData_invalidate t p) joined).trans ?_
    exact hdefined.1
  · refine (foldl_invalidate_data joined hu).1.trans ?_
    rw [← hprovided]
  · refine (foldl_invalidate_data joined hu).2.trans ?_
    rw [← hinvalid]

theorem mem_neededData_beside (hu : u.Sorted) :
    l ∈ (t.beside u).1.neededData.keys ↔ l ∈ t.neededData.keys ∨ l ∈ u.neededData.keys := by
  rw [(data_beside t hu).1, mem_neededData_needAllOf hu]
  rfl

/-- Of two statements at the same time the second one decides what is provided after all. -/
theorem mem_providedData_beside (hu : u.Sorted) :
    l ∈ (t.beside u).1.providedData.keys ↔
      (l ∈ t.providedData.keys ∨ l ∈ u.providedData.keys) ∧ l ∉ u.invalidatedData.keys := by
  rw [(data_beside t hu).2.1]
  exact OrderedSet.mem_keys_foldl_erase.trans (and_congr_left' OrderedSet.mem_keys_union)

theorem mem_invalidatedData_beside (hu : u.Sorted) :
    l ∈ (t.beside u).1.invalidatedData.keys ↔
      l ∈ t.invalidatedData.keys ∨ l ∈ u.invalidatedData.keys := by
  rw [(data_beside t hu).2.2, OrderedSet.mem_keys_union]

/-! ## Alternatives -/

/-- What one more alternative does to the data that is needed or invalid. -/
theorem data_joinEffects (acc : Typing) (ht : t.Sorted) :
    (acc.joinEffects t).neededData = (acc.needAllOf t).neededData ∧
      (acc.joinEffects t).invalidatedData = acc.invalidatedData.union t.invalidatedData := by
  have hneeds : (acc.needAllOf t).dataEffect = acc.dataEffect :=
    foldl_keeps dataEffect (fun t p _ => dataEffect_need t p) acc
  refine ⟨foldl_keeps neededData (fun t p _ => neededData_invalidate t p) _, ?_⟩
  refine (foldl_invalidate_data _ ht).2.trans ?_
  exact congrArg (fun e : PathSet × PathSet => e.2.union t.invalidatedData) hneeds

variable {ts : List Typing}

theorem mem_data_foldl_joinEffects (h : ∀ t ∈ ts, t.Sorted) (acc : Typing) :
    (l ∈ (ts.foldl joinEffects acc).neededData.keys ↔
        l ∈ acc.neededData.keys ∨ ∃ t ∈ ts, l ∈ t.neededData.keys) ∧
      (l ∈ (ts.foldl joinEffects acc).invalidatedData.keys ↔
        l ∈ acc.invalidatedData.keys ∨ ∃ t ∈ ts, l ∈ t.invalidatedData.keys) := by
  induction ts generalizing acc with
  | nil => simp
  | cons t ts ih =>
    obtain ⟨hneeded, hinvalid⟩ := ih (fun u hu => h u (List.mem_cons_of_mem t hu))
      (acc.joinEffects t)
    obtain ⟨hneeded', hinvalid'⟩ := data_joinEffects acc (h t List.mem_cons_self)
    constructor
    · rw [List.foldl_cons, hneeded, hneeded', mem_neededData_needAllOf (h t List.mem_cons_self),
        List.exists_mem_cons_iff, or_assoc]
    · rw [List.foldl_cons, hinvalid, hinvalid', OrderedSet.mem_keys_union,
        List.exists_mem_cons_iff, or_assoc]

theorem mem_neededData_alternatives (h : ∀ t ∈ ts, t.Sorted) (sessionStart : Bool) :
    l ∈ (alternatives ts sessionStart).neededData.keys ↔ ∃ t ∈ ts, l ∈ t.neededData.keys :=
  (mem_data_foldl_joinEffects h .empty).1.trans (or_iff_right List.not_mem_nil)

theorem mem_invalidatedData_alternatives (h : ∀ t ∈ ts, t.Sorted) (sessionStart : Bool) :
    l ∈ (alternatives ts sessionStart).invalidatedData.keys ↔
      ∃ t ∈ ts, l ∈ t.invalidatedData.keys :=
  (mem_data_foldl_joinEffects h .empty).2.trans (or_iff_right List.not_mem_nil)

/-- Data is provided in common if there are alternatives and each of them provides it. -/
theorem mem_commonData :
    l ∈ (commonData ts).keys ↔ ts ≠ [] ∧ ∀ t ∈ ts, l ∈ t.providedData.keys := by
  cases ts with
  | nil => exact iff_of_false List.not_mem_nil fun h => h.1 rfl
  | cons first rest =>
    rw [List.forall_mem_cons, and_iff_right (List.cons_ne_nil first rest)]
    constructor
    · intro hl
      obtain ⟨p, hp, rfl⟩ := List.mem_map.mp hl
      obtain ⟨hfirst, hrest⟩ := List.mem_filter.mp hp
      refine ⟨List.mem_map_of_mem hfirst, fun t ht => ?_⟩
      exact OrderedSet.contains_iff_mem_keys.mp (List.all_eq_true.mp hrest t ht)
    · rintro ⟨hfirst, hrest⟩
      obtain ⟨p, hp, rfl⟩ := List.mem_map.mp hfirst
      refine List.mem_map_of_mem (List.mem_filter.mpr ⟨hp, List.all_eq_true.mpr fun t ht => ?_⟩)
      exact OrderedSet.contains_iff_mem_keys.mpr (hrest t ht)

/-- What alternatives say of data holds of each of them. -/
theorem alternatives_data (h : ∀ t ∈ ts, t.Sorted) (sessionStart : Bool) (ht : t ∈ ts) :
    t.neededData.keys ⊆ (alternatives ts sessionStart).neededData.keys ∧
      (alternatives ts sessionStart).providedData.keys ⊆ t.providedData.keys ∧
        t.invalidatedData.keys ⊆ (alternatives ts sessionStart).invalidatedData.keys :=
  ⟨fun _ hl => (mem_neededData_alternatives h sessionStart).mpr ⟨t, ht, hl⟩,
    fun _ hl => (mem_commonData.mp hl).2 t ht,
    fun _ hl => (mem_invalidatedData_alternatives h sessionStart).mpr ⟨t, ht, hl⟩⟩

end Typing

end Correlation
