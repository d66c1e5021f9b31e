import Correlation.Proofs.Concurrence

/-!
# Alternatives as a merge of all branches

The typings of alternatives are merged as a whole, not two by two, and what is wrong with them is
told by all of them together.

* What is needed, defined, invalidated or taken in is the union of what the branches do, and data is
  provided if every branch provides it.  A key is fresh if all branches that provide it make it
  fresh, or any of them if the branches start sessions (`merges_alternatives`).
* A key that some branch provides is reported for each branch that does not, and once if the
  branches disagree on its freshness (`count_missing`, `count_differing`).
* Of branches that start sessions each is reported whose starting operation is an input of another
  branch (`count_starters`).

Hence the branches may be written in any order (`perm_choice`).  Only the starting operation depends
on it, which is that of the first branch.
-/

namespace Correlation

namespace Violation

/-- A correlation variable is missing in a branch, wherever that is. -/
def missingAt (kind : BranchKind) (l : Location) : Violation :=
  ⟨.unknown, .notInitializedInEveryBranch ⟨l, .unknown⟩ kind⟩

/-- The freshness of a correlation variable differs between branches, wherever that is. -/
def differsAt (l : Location) : Violation := ⟨.unknown, .freshnessDiffers ⟨l, .unknown⟩⟩

/-- An operation starts a session and belongs to another one, wherever that is. -/
def startsAt (operation : String) : Violation := ⟨.unknown, .starterUsedInSession operation⟩

end Violation

/-! ## Counting in lists -/

section Lists

variable {α β κ : Type} [DecidableEq β]

/-- What only one part of a concatenation has is found as often as in that part. -/
theorem count_flatMap_of_nodup {key : α → κ} {f : α → List β} {b : β} {xs : List α}
    (hnodup : (xs.map key).Nodup) {x : α} (hx : x ∈ xs) (h : ∀ y ∈ xs, b ∈ f y → key y = key x) :
    (xs.flatMap f).count b = (f x).count b := by
  induction xs with
  | nil => cases hx
  | cons y ys ih =>
    rw [List.map_cons, List.nodup_cons] at hnodup
    obtain ⟨hy, hys⟩ := List.forall_mem_cons.mp h
    rw [List.flatMap_cons, List.count_append]
    rcases List.mem_cons.mp hx with rfl | hx
    · have hrest : b ∉ ys.flatMap f := by
        intro hb
        obtain ⟨z, hz, hb⟩ := List.mem_flatMap.mp hb
        exact hnodup.1 (hys z hz hb ▸ List.mem_map_of_mem hz)
      rw [List.count_eq_zero.mpr hrest, Nat.add_zero]
    · have hhead : b ∉ f y := fun hb => hnodup.1 (hy hb ▸ List.mem_map_of_mem hx)
      rw [List.count_eq_zero.mpr hhead, Nat.zero_add, ih hnodup.2 hx hys]

/-- Some other element has a property if one has that stays when the element is taken out.  It is
the first such element that is taken out, and that need not be the one at the index. -/
theorem exists_ne_index_iff {xs : List β} {i : Nat} {x : β} (hx : xs[i]? = some x) {P : β → Prop} :
    (∃ y j, xs[j]? = some y ∧ i ≠ j ∧ P y) ↔ ∃ y ∈ xs.erase x, P y := by
  obtain ⟨hi, rfl⟩ := List.getElem?_eq_some_iff.mp hx
  have hperm : (xs.eraseIdx i).Perm (xs.erase xs[i]) :=
    ((List.getElem_cons_eraseIdx_perm hi).trans
      (List.perm_cons_erase (List.getElem_mem hi))).cons_inv
  simp only [← hperm.mem_iff, List.mem_eraseIdx_iff_getElem?]
  constructor
  · rintro ⟨y, j, hy, hij, hP⟩
    exact ⟨y, ⟨j, hij.symm, hy⟩, hP⟩
  · rintro ⟨y, ⟨j, hij, hy⟩, hP⟩
    exact ⟨y, j, hy, hij.symm, hP⟩

end Lists

/-! ## Freshness -/

/-- Flags that are joined by a conjunction are set if none of them is cleared. -/
theorem foldl_merge_and {flags : List (Option Bool)} {acc : Option Bool} {b : Bool}
    (h : flags.foldl (Option.merge (· && ·)) acc = some b) :
    b = true ↔ acc ≠ some false ∧ some false ∉ flags := by
  induction flags generalizing acc with
  | nil =>
    rw [List.foldl_nil] at h
    rw [h]
    cases b <;> simp
  | cons flag rest ih =>
    rw [ih h, List.mem_cons, not_or]
    rcases acc with _ | _ | _ <;> rcases flag with _ | _ | _ <;> simp

/-- Flags that are joined by a disjunction are set if one of them is. -/
theorem foldl_merge_or {flags : List (Option Bool)} {acc : Option Bool} {b : Bool}
    (h : flags.foldl (Option.merge (· || ·)) acc = some b) :
    b = true ↔ acc = some true ∨ some true ∈ flags := by
  induction flags generalizing acc with
  | nil =>
    rw [List.foldl_nil] at h
    rw [h]
    cases b <;> simp
  | cons flag rest ih =>
    rw [ih h, List.mem_cons]
    rcases acc with _ | _ | _ <;> rcases flag with _ | _ | _ <;> simp

namespace Typing

variable {ts us : List Typing} {l : Location} {span : Span} {kind : BranchKind}
  {sessionStart : Bool}

/-! ## What alternatives come to together -/

/-- A typing is the merge of the typings of branches. -/
structure Merges (sessionStart : Bool) (t : Typing) (ts : List Typing) : Prop
    extends t.Collects ts where
  providedData : ∀ l, l ∈ t.providedData.keys ↔ ∀ b ∈ ts, l ∈ b.providedData.keys
  freshness : ∀ l fresh, t.providedCorrelation.freshness l = some fresh → (fresh = true ↔
    if sessionStart then ∃ b ∈ ts, b.providedCorrelation.freshness l = some true
    else ∀ b ∈ ts, b.providedCorrelation.freshness l ≠ some false)
  startingOperation : t.startingOperation = ts.findSome? Typing.startingOperation

theorem collects_alternatives (hts : ∀ t ∈ ts, t.Sorted) (sessionStart : Bool) :
    (alternatives ts sessionStart).Collects ts where
  neededKeys _ := mem_neededKeys_alternatives hts
  neededData _ := mem_neededData_alternatives hts sessionStart
  providedKeys _ := mem_keys_joinedProvisions
  invalidatedData _ := mem_invalidatedData_alternatives hts sessionStart
  operations o := mem_operations_alternatives ts sessionStart o

theorem merges_alternatives (hne : ts ≠ []) (hts : ∀ t ∈ ts, t.Sorted) (sessionStart : Bool) :
    (alternatives ts sessionStart).Merges sessionStart ts where
  toCollects := collects_alternatives hts sessionStart
  providedData _ := mem_commonData.trans (and_iff_right hne)
  freshness l fresh hfresh := by
    rw [freshness_alternatives] at hfresh
    cases sessionStart with
    | true =>
      rw [foldl_merge_or hfresh]
      simp
    | false =>
      rw [foldl_merge_and hfresh]
      simp
  startingOperation := by
    have hinputs := congrArg Prod.snd (inputs_alternatives ts sessionStart)
    rw [foldl_joinInputs_snd, List.findSome?_map] at hinputs
    exact hinputs

/-! ## What is wrong with alternatives -/

/-- What is reported for a key: every branch without it, and that the others disagree. -/
theorem map_eraseSpans_provisionViolations (ts : List Typing) (p : ProvidedPath) :
    (provisionViolations span kind ts p).map Violation.eraseSpans =
      List.replicate (ts.countP fun b => !b.providedCorrelation.contains p.location)
          (.missingAt kind p.location) ++
        if (∃ b ∈ ts, b.providedCorrelation.freshness p.location = some true) ∧
            ∃ b ∈ ts, b.providedCorrelation.freshness p.location = some false then
          [.differsAt p.location] else [] := by
  have hcontains : ∀ fresh : Bool, (ts.filterMap fun b =>
      (b.providedCorrelation.find? p.location).map ProvidedPath.fresh).contains fresh = true ↔
        ∃ b ∈ ts, b.providedCorrelation.freshness p.location = some fresh := by
    intro fresh
    rw [List.contains_iff_mem, List.mem_filterMap]
    rfl
  rw [provisionViolations, List.map_append, List.map_map]
  congr 1
  · rw [List.countP_eq_length_filter, ← List.map_const']
    rfl
  · simp only [Bool.and_eq_true, hcontains]
    split <;> rfl

/-- What is reported for the keys one by one. -/
theorem map_eraseSpans_choice (ts : List Typing) (span : Span) (kind : BranchKind) :
    (choice span kind false ts).2.map Violation.eraseSpans =
      (joinedProvisions ts false).toList.flatMap fun p =>
        (provisionViolations span kind ts p).map Violation.eraseSpans :=
  List.map_flatMap

/-- What is reported for a key is only found where the key is provided. -/
theorem location_of_mem_provisionViolations {p : ProvidedPath} {w : Violation}
    (hw : w = .missingAt kind l ∨ w = .differsAt l)
    (h : w ∈ (provisionViolations span kind ts p).map Violation.eraseSpans) : p.location = l := by
  rw [map_eraseSpans_provisionViolations, List.mem_append] at h
  rcases h with h | h
  · rw [List.eq_of_mem_replicate h] at hw
    rcases hw with hw | hw <;> cases hw
    rfl
  · split at h
    · rw [List.mem_singleton.mp h] at hw
      rcases hw with hw | hw <;> cases hw
      rfl
    · cases h

/-- The reports for one key are those that are made for its provision. -/
theorem count_choice {w : Violation} (hw : w = .missingAt kind l ∨ w = .differsAt l)
    {p : ProvidedPath} (hp : p ∈ (joinedProvisions ts false).toList) (hl : p.location = l) :
    ((choice span kind false ts).2.map Violation.eraseSpans).count w =
      ((provisionViolations span kind ts p).map Violation.eraseSpans).count w := by
  rw [map_eraseSpans_choice]
  exact count_flatMap_of_nodup (joinedProvisions ts false).nodup hp
    fun q _ hq => (location_of_mem_provisionViolations hw hq).trans hl.symm

/-- Nothing is reported for a key that no branch provides. -/
theorem count_choice_of_forall_not {w : Violation} (hw : w = .missingAt kind l ∨ w = .differsAt l)
    (hnone : ¬ ∃ b ∈ ts, l ∈ b.providedCorrelation.keys) :
    ((choice span kind false ts).2.map Violation.eraseSpans).count w = 0 := by
  refine List.count_eq_zero.mpr fun hmem => hnone ?_
  rw [map_eraseSpans_choice, List.mem_flatMap] at hmem
  obtain ⟨p, hp, hmem⟩ := hmem
  rw [← mem_keys_joinedProvisions, ← location_of_mem_provisionViolations hw hmem]
  exact List.mem_map_of_mem hp

/-- A key that some branch provides is reported for each branch that does not. -/
theorem count_missing (ts : List Typing) (span : Span) (kind : BranchKind) (l : Location) :
    ((choice span kind false ts).2.map Violation.eraseSpans).count (.missingAt kind l) =
      if ∃ b ∈ ts, l ∈ b.providedCorrelation.keys then
        ts.countP fun b => !b.providedCorrelation.contains l
      else 0 := by
  by_cases hsome : ∃ b ∈ ts, l ∈ b.providedCorrelation.keys
  · obtain ⟨p, hp, rfl⟩ := List.mem_map.mp (mem_keys_joinedProvisions.mpr hsome)
    rw [if_pos hsome, count_choice (Or.inl rfl) hp rfl, map_eraseSpans_provisionViolations,
      List.count_append, List.count_replicate_self]
    refine (congrArg (_ + ·) (List.count_eq_zero.mpr fun hmem => ?_)).trans (Nat.add_zero _)
    split at hmem
    · cases List.mem_singleton.mp hmem
    · cases hmem
  · rw [if_neg hsome, count_choice_of_forall_not (Or.inl rfl) hsome]

/-- A key is reported once if branches that provide it disagree on its freshness. -/
theorem count_differing (ts : List Typing) (span : Span) (kind : BranchKind) (l : Location) :
    ((choice span kind false ts).2.map Violation.eraseSpans).count (.differsAt l) =
      if (∃ b ∈ ts, b.providedCorrelation.freshness l = some true) ∧
          ∃ b ∈ ts, b.providedCorrelation.freshness l = some false then 1
      else 0 := by
  by_cases hsome : ∃ b ∈ ts, l ∈ b.providedCorrelation.keys
  · obtain ⟨p, hp, rfl⟩ := List.mem_map.mp (mem_keys_joinedProvisions.mpr hsome)
    have hreplicate : ∀ n, (Violation.differsAt p.location) ∉
        List.replicate n (Violation.missingAt kind p.location) := fun n hmem => by
      cases List.eq_of_mem_replicate hmem
    rw [count_choice (Or.inr rfl) hp rfl, map_eraseSpans_provisionViolations, List.count_append,
      List.count_eq_zero.mpr (hreplicate _), Nat.zero_add]
    split
    · exact List.count_singleton_self
    · rfl
  · rw [count_choice_of_forall_not (Or.inr rfl) hsome, if_neg]
    rintro ⟨⟨b, hb, hfresh⟩, _⟩
    exact hsome ⟨b, hb, ProvidedSet.mem_keys_of_freshness hfresh⟩

/-- Nothing else is wrong with alternatives that do not start a session. -/
theorem missing_or_differs {w : Violation}
    (hw : w ∈ (choice span kind false ts).2.map Violation.eraseSpans) :
    ∃ l, w = .missingAt kind l ∨ w = .differsAt l := by
  rw [map_eraseSpans_choice, List.mem_flatMap] at hw
  obtain ⟨p, _, hw⟩ := hw
  refine ⟨p.location, ?_⟩
  rw [map_eraseSpans_provisionViolations, List.mem_append] at hw
  rcases hw with hw | hw
  · exact Or.inl (List.eq_of_mem_replicate hw)
  · split at hw
    · exact Or.inr (List.mem_singleton.mp hw)
    · cases hw

/-- A branch starts a session with an operation that another branch takes in later. -/
def Conflicts (ts : List Typing) (operation : String) (b : Typing) : Prop :=
  b.startingOperation = some operation ∧ ∃ c ∈ ts.erase b, operation ∈ c.sessionOperations.keys

instance (ts : List Typing) (operation : String) (b : Typing) :
    Decidable (Conflicts ts operation b) :=
  inferInstanceAs (Decidable (_ ∧ _))

/-- Each branch in conflict with others is found once.  Branches are told apart by their positions,
since two of them may have the same typing. -/
theorem count_starterConflicts (ts : List Typing) (operation : String) :
    (starterConflicts ts).count operation =
      ts.countP fun b => decide (Conflicts ts operation b) := by
  have hbranch : ∀ e ∈ ts.zipIdx, (e.1.startingOperation.filter fun operation =>
      ts.zipIdx.any fun f => !decide (e.2 = f.2) && f.1.sessionOperations.contains operation) =
        some operation ↔ Conflicts ts operation e.1 := by
    intro e he
    rw [Option.filter_eq_some_iff, Conflicts,
      ← exists_ne_index_iff (List.mk_mem_zipIdx_iff_getElem?.mp he), List.any_eq_true, Prod.exists]
    simp only [List.mk_mem_zipIdx_iff_getElem?, Bool.and_eq_true, Bool.not_eq_true',
      decide_eq_false_iff_not, OrderedSet.contains_iff_mem_keys]
  have hfst := List.countP_map (p := fun b => decide (Conflicts ts operation b)) (f := Prod.fst)
    (l := ts.zipIdx)
  rw [List.zipIdx_map_fst] at hfst
  rw [starterConflicts, List.count_filterMap, hfst]
  refine List.countP_congr fun e he => ?_
  rw [beq_iff_eq, Function.comp, decide_eq_true_iff]
  exact hbranch e he

/-- A branch that starts a session is reported if another branch takes in its operation. -/
theorem count_starters (ts : List Typing) (span : Span) (kind : BranchKind) (operation : String) :
    ((choice span kind true ts).2.map Violation.eraseSpans).count (.startsAt operation) =
      ts.countP fun b => decide (Conflicts ts operation b) := by
  have hinjective : Function.Injective Violation.startsAt := fun _ _ h => by cases h; rfl
  rw [← count_starterConflicts, ← List.count_map_of_injective _ _ hinjective]
  refine congrArg (List.count _) ?_
  exact List.map_map

/-- Nothing else is wrong with alternatives that start a session. -/
theorem eq_startsAt {w : Violation}
    (hw : w ∈ (choice span kind true ts).2.map Violation.eraseSpans) :
    ∃ operation, w = .startsAt operation := by
  obtain ⟨v, hv, rfl⟩ := List.mem_map.mp hw
  obtain ⟨operation, _, rfl⟩ := List.mem_map.mp hv
  exact ⟨operation, rfl⟩

/-- What is found wrong, apart from spans, with branches that do not start sessions. -/
structure ReportsDisagreement (kind : BranchKind) (ts : List Typing) (found : List Violation) :
    Prop where
  /-- Each branch without a key that some branch provides. -/
  missing : ∀ l, found.count (.missingAt kind l) =
    if ∃ b ∈ ts, l ∈ b.providedCorrelation.keys then
      ts.countP fun b => !b.providedCorrelation.contains l
    else 0
  /-- Each key on whose freshness branches disagree. -/
  differing : ∀ l, found.count (.differsAt l) =
    if (∃ b ∈ ts, b.providedCorrelation.freshness l = some true) ∧
        ∃ b ∈ ts, b.providedCorrelation.freshness l = some false then 1
    else 0
  nothingElse : ∀ w ∈ found, ∃ l, w = .missingAt kind l ∨ w = .differsAt l

/-- What is found wrong, apart from spans, with branches that start sessions. -/
structure ReportsConflict (ts : List Typing) (found : List Violation) : Prop where
  /-- Each branch whose starting operation is an input of another one. -/
  starters : ∀ operation, found.count (.startsAt operation) =
    ts.countP fun b => decide (Conflicts ts operation b)
  nothingElse : ∀ w ∈ found, ∃ operation, w = .startsAt operation

theorem reportsDisagreement_choice (ts : List Typing) (span : Span) (kind : BranchKind) :
    ReportsDisagreement kind ts ((choice span kind false ts).2.map Violation.eraseSpans) :=
  ⟨count_missing ts span kind, count_differing ts span kind, fun _ => missing_or_differs⟩

theorem reportsConflict_choice (ts : List Typing) (span : Span) (kind : BranchKind) :
    ReportsConflict ts ((choice span kind true ts).2.map Violation.eraseSpans) :=
  ⟨count_starters ts span kind, fun _ => eq_startsAt⟩

/-! ## The order of branches -/

/-- What is reported of branches is told by the counts of the reports that there can be, so of
branches in another order the same is reported. -/
theorem ReportsDisagreement.perm {found found' : List Violation}
    (h : ReportsDisagreement kind ts found) (h' : ReportsDisagreement kind us found')
    (hperm : ts.Perm us) : found.Perm found' := by
  refine List.perm_iff_count.mpr fun w => ?_
  by_cases hw : ∃ l, w = .missingAt kind l ∨ w = .differsAt l
  · obtain ⟨l, rfl | rfl⟩ := hw
    · rw [h.missing, h'.missing, hperm.countP_eq]
      simp only [hperm.mem_iff]
    · rw [h.differing, h'.differing]
      simp only [hperm.mem_iff]
  · rw [List.count_eq_zero.mpr fun hmem => hw (h.nothingElse w hmem),
      List.count_eq_zero.mpr fun hmem => hw (h'.nothingElse w hmem)]

theorem ReportsConflict.perm {found found' : List Violation} (h : ReportsConflict ts found)
    (h' : ReportsConflict us found') (hperm : ts.Perm us) : found.Perm found' := by
  refine List.perm_iff_count.mpr fun w => ?_
  by_cases hw : ∃ operation, w = .startsAt operation
  · obtain ⟨operation, rfl⟩ := hw
    rw [h.starters, h'.starters, hperm.countP_eq]
    refine List.countP_congr fun b _ => ?_
    rw [decide_eq_true_iff, decide_eq_true_iff, Conflicts, Conflicts]
    simp only [(hperm.erase b).mem_iff]
  · rw [List.count_eq_zero.mpr fun hmem => hw (h.nothingElse w hmem),
      List.count_eq_zero.mpr fun hmem => hw (h'.nothingElse w hmem)]

/-- The order of branches makes no difference to what is reported. -/
theorem perm_choice (hperm : ts.Perm us) (span : Span) (kind : BranchKind) (sessionStart : Bool) :
    ((choice span kind sessionStart ts).2.map Violation.eraseSpans).Perm
      ((choice span kind sessionStart us).2.map Violation.eraseSpans) := by
  cases sessionStart with
  | true =>
    exact (reportsConflict_choice ts span kind).perm (reportsConflict_choice us span kind) hperm
  | false =>
    exact (reportsDisagreement_choice ts span kind).perm (reportsDisagreement_choice us span kind)
      hperm

end Typing

/-- Alternatives are merged as a whole, and what is reported is told by all of them together.  They
may be written in any order. -/
theorem choice_merges {branches : List Typing} (hne : branches ≠ [])
    (hsorted : ∀ b ∈ branches, b.Sorted) (span : Span) (kind : BranchKind) :
    (∀ sessionStart,
      (Typing.choice span kind sessionStart branches).1.Merges sessionStart branches) ∧
    Typing.ReportsDisagreement kind branches
      ((Typing.choice span kind false branches).2.map Violation.eraseSpans) ∧
    Typing.ReportsConflict branches
      ((Typing.choice span kind true branches).2.map Violation.eraseSpans) ∧
    ∀ order : List Typing, order.Perm branches → ∀ sessionStart,
      (Typing.choice span kind sessionStart order).1.Resembles False
          (Typing.choice span kind sessionStart branches).1 ∧
        ((Typing.choice span kind sessionStart order).2.map Violation.eraseSpans).Perm
          ((Typing.choice span kind sessionStart branches).2.map Violation.eraseSpans) := by
  refine ⟨Typing.merges_alternatives hne hsorted,
    Typing.reportsDisagreement_choice branches span kind,
    Typing.reportsConflict_choice branches span kind, fun order hperm sessionStart => ⟨?_, ?_⟩⟩
  · exact Typing.resembles_alternatives_of_perm hperm hsorted sessionStart
  · exact Typing.perm_choice hperm span kind sessionStart

/-- The key is fresh in the branch that starts with `login`, a constant in the next one, and missing
in the last one, which takes `login` in later. -/
def unevenBranches : List Typing :=
  [(Typing.empty.provide sampleKey true).noteInput "login" true,
    Typing.empty.provide sampleKey false, Typing.empty.noteInput "login" false]

/-- The missing key, its freshness and the operation are each reported once, also in the opposite
order. -/
theorem choice_unevenBranches :
    let found := fun sessionStart =>
      (Typing.choice .unknown .choice sessionStart unevenBranches.reverse).2.map
        Violation.eraseSpans
    (found false).count (.missingAt .choice sampleKey.location) = 1 ∧
      (found false).count (.differsAt sampleKey.location) = 1 ∧
        (found true).count (.startsAt "login") = 1 := by
  have hsorted : ∀ b ∈ unevenBranches, b.Sorted := by
    refine List.forall_mem_cons.mpr ⟨(Typing.sorted_empty.provide _ _).noteInput _ _, ?_⟩
    refine List.forall_mem_cons.mpr ⟨Typing.sorted_empty.provide _ _, ?_⟩
    exact List.forall_mem_singleton.mpr (Typing.sorted_empty.noteInput _ _)
  obtain ⟨_, hdisagreement, hconflict, hany⟩ :=
    choice_merges (List.cons_ne_nil _ _) hsorted .unknown .choice
  have hreverse := hany unevenBranches.reverse (List.reverse_perm unevenBranches)
  refine ⟨?_, ?_, ?_⟩
  · rw [(hreverse false).2.count_eq, hdisagreement.missing]
    decide +kernel
  · rw [(hreverse false).2.count_eq, hdisagreement.differing]
    decide +kernel
  · rw [(hreverse true).2.count_eq, hconflict.starters]
    decide +kernel

end Correlation
