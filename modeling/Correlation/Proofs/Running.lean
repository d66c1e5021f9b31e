import Correlation.Proofs.DataFlow
import Correlation.Proofs.Joins

/-!
# What is running in a sequence

A sequence carries two typings along.  The result says what the statements so far have come to, and
the running typing says what is defined at this point.  Both are changed path by path: a second
definition of a variable is left out of both, data that is provided is no longer invalid, and data
that is invalidated is no longer provided.

`Sequel.Tallies` says that the two do not come apart.  What is running is what the sequence was
entered with, changed by the result, and the result never provides what it invalidates.  Each of the
four steps of a statement keeps to this (`Tallies.define` and its companions), so all sequences do
(`tallies_foldl_append`), whatever typings they are made of.
-/

namespace Correlation

/-- An element that is inserted on both sides is found on both sides. -/
theorem OrderedSet.find?_insert_or {α κ : Type} {key : α → κ} [DecidableEq κ]
    {s r e : OrderedSet key} {k : κ} (h : s.find? k = (r.find? k).or (e.find? k)) (a : α) :
    (s.insert a).find? k = ((r.insert a).find? k).or (e.find? k) := by
  rw [find?_insert, find?_insert]
  split
  · rfl
  · exact h

namespace Sequel

/-- What is running is what the sequence was entered with, changed by its result. -/
structure Tallies (entry : Typing) (s : Sequel) : Prop where
  /-- Data is running if it was defined before and is not invalid, or if the sequence provides it. -/
  data : ∀ l, l ∈ s.running.providedData.keys ↔
    l ∈ entry.providedData.keys ∧ l ∉ s.result.invalidatedData.keys ∨
      l ∈ s.result.providedData.keys
  /-- No data is provided and invalid. -/
  disjoint : ∀ l ∈ s.result.providedData.keys, l ∉ s.result.invalidatedData.keys
  /-- A variable is running as the sequence provides it, or else as it was defined before. -/
  keys : ∀ l, s.running.providedCorrelation.find? l =
    (s.result.providedCorrelation.find? l).or (entry.providedCorrelation.find? l)
  /-- No correlation variable is invalid. -/
  invalid : ∀ l ∈ s.result.invalidatedData.keys, l.isCorrelation = false

variable {entry : Typing} {s : Sequel}

/-! ## One step -/

theorem tallies_start (entry : Typing) : (start entry).Tallies entry where
  data _ := by simp [start, Typing.empty, Typing.provisions]
  disjoint _ hl := nomatch hl
  keys _ := rfl
  invalid _ hl := nomatch hl

/-- Needs are no part of the tally. -/
theorem Tallies.need (h : s.Tallies entry) (p : Path) :
    Tallies entry { s with result := s.result.need p } := by
  rw [Typing.need]
  split <;> exact ⟨h.data, h.disjoint, h.keys, h.invalid⟩

theorem Tallies.addNeeds (h : s.Tallies entry) (next : Typing) :
    (s.addNeeds next).Tallies entry :=
  foldl_induction (P := fun t : Typing => Tallies entry { s with result := t }) h
    fun _ p _ ht => ht.need p

/-- A variable that is defined is tallied on both sides. -/
theorem Tallies.define (h : s.Tallies entry) (p : ProvidedPath) :
    (s.define p).Tallies entry := by
  rw [Sequel.define]
  split
  · exact ⟨h.data, h.disjoint, h.keys, h.invalid⟩
  · exact ⟨h.data, h.disjoint, fun l => OrderedSet.find?_insert_or (h.keys l) p, h.invalid⟩

/-- Provided data is tallied.  A correlation variable among the data goes to both sides as it is, and
is not invalid. -/
theorem Tallies.provideData (h : s.Tallies entry) (p : Path) :
    (s.provideData p).Tallies entry := by
  by_cases hp : p.isCorrelation = true
  · have herase : ∀ l, l ∈ (s.result.invalidatedData.erase p.location).keys ↔
        l ∈ s.result.invalidatedData.keys := by
      intro l
      rw [OrderedSet.mem_keys_erase, and_iff_left_of_imp]
      rintro hl rfl
      exact absurd (hp.symm.trans (h.invalid _ hl)) (by decide)
    simp only [Sequel.provideData, Typing.provide, hp, if_true]
    refine ⟨fun l => ?_, fun l hl => ?_, fun l => OrderedSet.find?_insert_or (h.keys l) ⟨p, false⟩,
      fun l hl => h.invalid l ((herase l).mp hl)⟩
    · rw [herase]
      exact h.data l
    · rw [herase]
      exact h.disjoint l hl
  · obtain ⟨hrunning, hresult, hinvalid⟩ := data_provideData s (eq_false_of_ne_true hp)
    have hkeys : ∀ t : Typing,
        (t.provide p false).providedCorrelation = t.providedCorrelation := fun t =>
      congrArg Prod.fst (Typing.steady_provide_data t (eq_false_of_ne_true hp) false)
    refine ⟨fun l => ?_, fun l => ?_, fun l => ?_, fun l => ?_⟩
    · rw [hrunning, hresult, hinvalid, OrderedSet.mem_keys_insertNew,
        OrderedSet.mem_keys_insertNew, OrderedSet.mem_keys_erase, h.data]
      tauto
    · rw [hresult, hinvalid, OrderedSet.mem_keys_insertNew, OrderedSet.mem_keys_erase]
      rintro (rfl | hl) ⟨hinvalid, hne⟩
      · exact hne rfl
      · exact h.disjoint l hl hinvalid
    · rw [Sequel.provideData, hkeys, hkeys]
      exact h.keys l
    · rw [hinvalid, OrderedSet.mem_keys_erase]
      exact fun hl => h.invalid l hl.1

theorem Tallies.invalidate (h : s.Tallies entry) (p : Path) :
    (s.invalidate p).Tallies entry := by
  by_cases hp : p.isCorrelation = true
  · simp only [Sequel.invalidate, Typing.invalidate, hp, if_true]
    exact h
  · obtain ⟨hrunning, hresult, hinvalid⟩ := data_invalidate s (eq_false_of_ne_true hp)
    have hkeys : ∀ t : Typing, (t.invalidate p).providedCorrelation = t.providedCorrelation :=
      fun t => congrArg Prod.fst (Typing.steady_invalidate t p)
    refine ⟨fun l => ?_, fun l => ?_, fun l => ?_, fun l => ?_⟩
    · rw [hrunning, hresult, hinvalid, OrderedSet.mem_keys_erase, OrderedSet.mem_keys_erase,
        OrderedSet.mem_keys_insertNew, h.data]
      tauto
    · rw [hresult, hinvalid, OrderedSet.mem_keys_erase, OrderedSet.mem_keys_insertNew]
      rintro ⟨hl, hne⟩ (rfl | hinvalid)
      · exact hne rfl
      · exact h.disjoint l hl hinvalid
    · rw [Sequel.invalidate, hkeys, hkeys]
      exact h.keys l
    · rw [hinvalid, OrderedSet.mem_keys_insertNew]
      rintro (rfl | hl)
      · exact eq_false_of_ne_true hp
      · exact h.invalid l hl

/-! ## One statement, and all of them -/

/-- The tally is kept when a statement is appended: by each of the loops that append it, from the
last one back to the first. -/
theorem Tallies.append (h : s.Tallies entry) (next : Typing) : (s.append next).Tallies entry := by
  have hnoted : Tallies entry { s with result := s.result.noteInputsOf next } :=
    ⟨h.data, h.disjoint, h.keys, h.invalid⟩
  refine foldl_induction (P := Tallies entry) ?_ fun _ p _ hs => hs.invalidate p
  refine foldl_induction (P := Tallies entry) ?_ fun _ p _ hs => hs.provideData p
  exact foldl_induction (P := Tallies entry) (hnoted.addNeeds next) fun _ p _ hs => hs.define p

/-- The two typings of a sequence tally after every statement. -/
theorem tallies_foldl_append (entry : Typing) (ts : List Typing) :
    (ts.foldl append (start entry)).Tallies entry :=
  foldl_induction (P := Tallies entry) (tallies_start entry) fun _ t _ hs => hs.append t

/-! ## What is running, path by path -/

/-- What is running was there at the start or is provided by the sequence. -/
theorem Tallies.mem_keys (h : s.Tallies entry) (l : Location) :
    l ∈ s.running.providedCorrelation.keys ↔
      l ∈ entry.providedCorrelation.keys ∨ l ∈ s.result.providedCorrelation.keys := by
  simp only [← OrderedSet.contains_iff_mem_keys, ← OrderedSet.isSome_find?, h.keys l,
    Option.isSome_or, Bool.or_eq_true]
  exact or_comm

/-- The sequence tells the freshness of a running variable before its entry does. -/
theorem Tallies.freshness (h : s.Tallies entry) (l : Location) :
    s.running.providedCorrelation.freshness l =
      (s.result.providedCorrelation.freshness l).or
        (entry.providedCorrelation.freshness l) := by
  rw [ProvidedSet.freshness, h.keys l, Option.map_or, ProvidedSet.freshness, ProvidedSet.freshness]

/-- The result and the running typing of a sequence agree after each of its statements, whatever the
sequence is entered with and whatever its statements come to.

* The running data is that of the entry without what the result invalidates, and what the result
  provides.  The result does not provide what it invalidates.
* The running correlation variables are those of the entry and those of the result.  Their freshness
  is that of the result, if the result has them, or else that of the entry. -/
theorem running_of_entry_and_result (entry : Typing) (statements : List Typing) (n : Nat) :
    let s := (statements.take n).foldl append (start entry)
    (∀ l, l ∈ s.running.providedData.keys ↔
        l ∈ entry.providedData.keys ∧ l ∉ s.result.invalidatedData.keys ∨
          l ∈ s.result.providedData.keys) ∧
      (∀ l ∈ s.result.providedData.keys, l ∉ s.result.invalidatedData.keys) ∧
      (∀ l, l ∈ s.running.providedCorrelation.keys ↔
        l ∈ entry.providedCorrelation.keys ∨ l ∈ s.result.providedCorrelation.keys) ∧
      ∀ l, s.running.providedCorrelation.freshness l =
        (s.result.providedCorrelation.freshness l).or
          (entry.providedCorrelation.freshness l) := by
  intro s
  have htallies : s.Tallies entry := tallies_foldl_append entry (statements.take n)
  exact ⟨htallies.data, htallies.disjoint, htallies.mem_keys, htallies.freshness⟩

end Sequel

end Correlation
