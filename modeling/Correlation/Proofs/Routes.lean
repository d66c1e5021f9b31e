import Correlation.Check.Definition
import Correlation.Proofs.Kinds

/-!
# What is routed

The index of the correlation sets is built set by set and alias by alias.  On the way violations are
only added (`prefix_addSet`), and they are about the sets themselves (`cause_of_ofSets`).  If there
are none every set is in the index (`sets_ofSets`).  A set that routes an operation has a variable
(`members_of_setFor`).
-/

namespace Correlation

/-- A cause says that something is wrong with the correlation sets themselves. -/
def Violation.Cause.IsRouting (c : Violation.Cause) : Prop :=
  (∃ operation first second, c = .operationInManySets operation first second) ∨
    ∃ previous name, c = .setAlreadyDeclared previous name

namespace Routing

variable {set : CorrelationSet} {acc : Routing × List Violation} {entry : CorrelationAlias}
  {v : Violation}

/-! ## One alias -/

/-- An alias either lets its set route an operation, or it is a violation. -/
theorem addAlias_cases (set : CorrelationSet) (acc : Routing × List Violation)
    (entry : CorrelationAlias) :
    addAlias set acc entry = acc ∨
      addAlias set acc entry =
        ({ acc.1 with owners := acc.1.owners.insert (entry.operation, set.name) }, acc.2) ∨
      ∃ v, v.cause.IsRouting ∧ addAlias set acc entry = (acc.1, acc.2 ++ [v]) := by
  rw [addAlias, claim]
  cases howner : acc.1.owners.get? entry.operation with
  | none => exact Or.inr (Or.inl rfl)
  | some owner =>
    dsimp only
    by_cases hname : owner = set.name
    · rw [if_pos hname]
      exact Or.inl rfl
    · rw [if_neg hname]
      exact Or.inr (Or.inr ⟨_, Or.inl ⟨_, _, _, rfl⟩, rfl⟩)

theorem sets_addAlias : (addAlias set acc entry).1.sets = acc.1.sets := by
  rcases addAlias_cases set acc entry with h | h | ⟨_, _, h⟩ <;> rw [h]

theorem prefix_addAlias : acc.2 <+: (addAlias set acc entry).2 := by
  rcases addAlias_cases set acc entry with h | h | ⟨v, _, h⟩
  · exact ⟨[], by rw [h, List.append_nil]⟩
  · exact ⟨[], by rw [h, List.append_nil]⟩
  · exact ⟨[v], by rw [h]⟩

theorem cause_of_addAlias (hv : v ∈ (addAlias set acc entry).2) :
    v ∈ acc.2 ∨ v.cause.IsRouting := by
  rcases addAlias_cases set acc entry with h | h | ⟨w, hw, h⟩ <;> rw [h] at hv
  · exact Or.inl hv
  · exact Or.inl hv
  · rcases List.mem_append.mp hv with hv | hv
    · exact Or.inl hv
    · rw [List.mem_singleton.mp hv]
      exact Or.inr hw

/-! ## One set -/

/-- A set with the name of an earlier one is reported and not taken in. -/
theorem addSet_of_some {previous : CorrelationSet} (h : acc.1.sets.find? set.name = some previous) :
    addSet acc set =
      (acc.1, acc.2 ++ [⟨set.span, .setAlreadyDeclared previous.span set.name⟩]) := by
  rw [addSet, h]

/-- A set with a new name is taken in with all its aliases. -/
theorem addSet_of_none (h : acc.1.sets.find? set.name = none) :
    addSet acc set = (set.members.flatMap CorrelationVariable.aliases).foldl (addAlias set)
      ({ acc.1 with sets := acc.1.sets.insert set }, acc.2) := by
  rw [addSet, h]

/-- Violations are only added. -/
theorem prefix_addSet (acc : Routing × List Violation) (set : CorrelationSet) :
    acc.2 <+: (addSet acc set).2 := by
  cases hfind : acc.1.sets.find? set.name with
  | some previous => rw [addSet_of_some hfind]; exact List.prefix_append _ _
  | none =>
    rw [addSet_of_none hfind]
    refine foldl_induction (P := fun acc' : Routing × List Violation => acc.2 <+: acc'.2)
      List.prefix_rfl fun acc' entry _ h => h.trans prefix_addAlias

/-- What is reported of a set is about routing. -/
theorem cause_of_addSet (hv : v ∈ (addSet acc set).2) : v ∈ acc.2 ∨ v.cause.IsRouting := by
  cases hfind : acc.1.sets.find? set.name with
  | some previous =>
    rw [addSet_of_some hfind] at hv
    rcases List.mem_append.mp hv with hv | hv
    · exact Or.inl hv
    · rw [List.mem_singleton.mp hv]
      exact Or.inr (Or.inr ⟨_, _, rfl⟩)
  | none =>
    rw [addSet_of_none hfind] at hv
    exact foldl_induction (P := fun acc' : Routing × List Violation =>
      ∀ w ∈ acc'.2, w ∈ acc.2 ∨ w.cause.IsRouting)
      (s := ({ acc.1 with sets := acc.1.sets.insert set }, acc.2)) (fun _ h => Or.inl h)
      (fun acc' entry _ h w hw => (cause_of_addAlias hw).elim (h w) Or.inr) v hv

/-- A set without violation is put into the index. -/
theorem sets_addSet (h : (addSet acc set).2 = []) :
    (addSet acc set).1.sets.toList = acc.1.sets.toList ++ [set] := by
  cases hfind : acc.1.sets.find? set.name with
  | some previous =>
    rw [addSet_of_some hfind] at h
    exact absurd h (List.append_ne_nil_of_right_ne_nil _ (List.cons_ne_nil _ _))
  | none =>
    have hsets : (addSet acc set).1.sets = acc.1.sets.insert set := by
      rw [addSet_of_none hfind]
      exact foldl_induction (P := fun acc' : Routing × List Violation =>
        acc'.1.sets = acc.1.sets.insert set) rfl fun acc' entry _ h => sets_addAlias.trans h
    rw [hsets]
    exact OrderedSet.toList_insert (OrderedSet.find?_eq_none_iff.mp hfind)

/-! ## All sets -/

/-- What is wrong with the correlation sets. -/
theorem cause_of_ofSets {sets : List CorrelationSet} (hv : v ∈ (ofSets sets).2) :
    v.cause.IsRouting :=
  foldl_induction (P := fun acc : Routing × List Violation => ∀ w ∈ acc.2, w.cause.IsRouting)
    (s := (empty, [])) (fun _ h => nomatch h)
    (fun _ _ _ h w hw => (cause_of_addSet hw).elim (h w) id) v hv

/-- Correlation sets with which nothing is wrong are all in the index. -/
theorem sets_ofSets {sets : List CorrelationSet} (h : (ofSets sets).2 = []) :
    (ofSets sets).1.sets.toList = sets := by
  have hfold : ∀ (sets : List CorrelationSet) (acc : Routing × List Violation),
      acc.2 <+: (sets.foldl addSet acc).2 ∧ ((sets.foldl addSet acc).2 = [] →
        (sets.foldl addSet acc).1.sets.toList = acc.1.sets.toList ++ sets) := by
    intro sets
    induction sets with
    | nil => exact fun acc => ⟨List.prefix_rfl, fun _ => (List.append_nil _).symm⟩
    | cons set rest ih =>
      intro acc
      obtain ⟨hadds, hsets⟩ := ih (addSet acc set)
      refine ⟨(prefix_addSet acc set).trans hadds, fun h => ?_⟩
      have hset : (addSet acc set).2 = [] := List.prefix_nil.mp (h ▸ hadds)
      rw [List.foldl_cons, hsets h, sets_addSet hset, List.append_assoc]
      rfl
  exact (hfold sets (empty, [])).2 h

/-- Every operation is routed by a set in the index that has variables. -/
def Owned (r : Routing) : Prop :=
  ∀ e ∈ r.owners.toList, ∃ set ∈ r.sets.toList, set.name = e.2 ∧ set.members ≠ []

theorem owned_addAlias (hset : set ∈ acc.1.sets.toList) (hmembers : set.members ≠ [])
    (h : acc.1.Owned) : (addAlias set acc entry).1.Owned := by
  rcases addAlias_cases set acc entry with hacc | hacc | ⟨_, _, hacc⟩ <;> rw [hacc]
  · exact h
  · intro e he
    rcases OrderedSet.mem_of_mem_insert he with rfl | he
    · exact ⟨set, hset, rfl, hmembers⟩
    · exact h e he
  · exact h

/-- Operations are owned by sets with variables, also after one more set. -/
theorem owned_addSet (h : acc.1.Owned) : (addSet acc set).1.Owned := by
  cases hfind : acc.1.sets.find? set.name with
  | some previous => rw [addSet_of_some hfind]; exact h
  | none =>
    have hinsert : (acc.1.sets.insert set).toList = acc.1.sets.toList ++ [set] :=
      OrderedSet.toList_insert (OrderedSet.find?_eq_none_iff.mp hfind)
    rw [addSet_of_none hfind]
    refine (foldl_induction (P := fun acc' : Routing × List Violation =>
      acc'.1.Owned ∧ set ∈ acc'.1.sets.toList) ⟨fun e he => ?_, ?_⟩ ?_).1
    · obtain ⟨other, hother, hname⟩ := h e he
      exact ⟨other, hinsert ▸ List.mem_append_left _ hother, hname⟩
    · exact hinsert ▸ List.mem_append_right _ (List.mem_singleton_self _)
    · intro acc' entry hentry hacc'
      obtain ⟨member, hmember, _⟩ := List.mem_flatMap.mp hentry
      refine ⟨owned_addAlias hacc'.2 (List.ne_nil_of_mem hmember) hacc'.1, ?_⟩
      rw [sets_addAlias]
      exact hacc'.2

/-- A set that routes an operation is in the index and has a variable. -/
theorem members_of_setFor {sets : List CorrelationSet} {operation : String}
    (h : (ofSets sets).1.setFor operation = some set) :
    set ∈ (ofSets sets).1.sets.toList ∧ set.members ≠ [] := by
  have howned : (ofSets sets).1.Owned :=
    foldl_induction (P := fun acc : Routing × List Violation => acc.1.Owned) (by nofun)
      fun acc set _ h => owned_addSet h
  obtain ⟨name, hname, hset⟩ := Option.bind_eq_some_iff.mp h
  obtain ⟨e, he, rfl⟩ := Option.map_eq_some_iff.mp hname
  obtain ⟨other, hother, hsame, hmembers⟩ := howned e (OrderedSet.find?_eq_some_iff.mp he).1
  have hfind : (ofSets sets).1.sets.find? e.2 = some other :=
    OrderedSet.find?_eq_some_iff.mpr ⟨hother, hsame⟩
  obtain rfl : set = other := Option.some.inj (hset.symm.trans hfind)
  exact ⟨hother, hmembers⟩

end Routing

end Correlation
