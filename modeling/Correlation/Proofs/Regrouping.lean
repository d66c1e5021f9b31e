import Correlation.Proofs.DataFlow
import Correlation.Proofs.Frames
import Correlation.Proofs.Joins
import Correlation.Proofs.SessionData

/-!
# Sequences within sequences

A sequence may be written as a part of another one, or its parts may stand in the outer sequence
themselves.  The two are checked alike but for one thing: a *nested* sequence is entered with what
is running, and the data that it needs after it has invalidated that data itself is looked up once
more among what was running before it.  A need that is open inside is then taken for settled.

`Sequel.Extends s x y` says that a sequence `s` has come to `y` by parts that have come to `x` on
their own.  One more part keeps this (`Extends.append`).  When the nested sequence ends, the two
ways of writing differ by the needs that got lost (`Extends.regroups`), and what comes afterwards
keeps the difference as it is (`Regroups.append`).
-/

namespace Correlation

/-! ## Unions and clashes -/

namespace OrderedSet

variable {α κ : Type} {key : α → κ} [DecidableEq κ]

theorem union_assoc (s t u : OrderedSet key) : (s.union t).union u = s.union (t.union u) := by
  apply ext
  simp only [toList_union, List.filter_append, List.append_assoc, List.filter_filter,
    contains_union, Bool.not_or]

end OrderedSet

namespace ProvidedSet

/-- What clashes with either of two sets clashes with the second one, or else is new to it and
clashes with the first one. -/
theorem clashes_union (before within next : ProvidedSet) :
    (before.clashes within ++ clashes (before.union within) next).Perm
      (within.clashes next ++ before.clashes (within.union next)) := by
  let new := next.toList.filter fun p => !within.contains p.location && before.contains p.location
  have hnext : (next.toList.filter fun p => (before.union within).contains p.location).Perm
      ((next.toList.filter fun p => within.contains p.location) ++ new) := by
    have hsplit := List.filter_append_perm (fun p : ProvidedPath => within.contains p.location)
      (next.toList.filter fun p => (before.union within).contains p.location)
    rw [List.filter_filter, List.filter_filter] at hsplit
    refine hsplit.symm.trans (.of_eq (congrArg₂ (· ++ ·) ?_ ?_))
    · refine List.filter_congr fun p _ => ?_
      rw [OrderedSet.contains_union]
      cases within.contains p.location <;> simp
    · refine List.filter_congr fun p _ => ?_
      rw [OrderedSet.contains_union]
      cases within.contains p.location <;> simp
  have hunion : before.clashes (within.union next) =
      before.clashes within ++ new.map ProvidedPath.clash := by
    rw [clashes, clashes, OrderedSet.toList_union, List.filter_append, List.filter_filter,
      List.map_append]
    exact congrArg (_ ++ List.map _ ·) (List.filter_congr fun p _ => Bool.and_comm _ _)
  rw [hunion]
  refine ((hnext.map ProvidedPath.clash).append_left _).trans ?_
  rw [List.map_append, ← List.append_assoc, ← List.append_assoc]
  exact List.perm_append_comm.append_right _

end ProvidedSet

namespace Typing

theorem inputs_noteInputsOf_assoc (t u v : Typing) :
    ((t.noteInputsOf u).noteInputsOf v).inputs = (t.noteInputsOf (u.noteInputsOf v)).inputs := by
  simp only [inputs, noteInputsOf, OrderedSet.union_assoc, Option.or_assoc]

theorem inputs_noteInputsOf_congr {t t' u u' : Typing} (ht : t.inputs = t'.inputs)
    (hu : u.inputs = u'.inputs) : (t.noteInputsOf u).inputs = (t'.noteInputsOf u').inputs := by
  simp only [inputs, Prod.mk.injEq] at ht hu
  simp only [inputs, noteInputsOf, ht, hu]

end Typing

/-! ## Within the nested sequence -/

namespace Sequel

/-- The sequence `s` has come to `y` by parts that have come to `x` when they were entered with what
was running in `s`. -/
structure Extends (s x y : Sequel) : Prop where
  providedKeys : y.result.providedCorrelation =
    s.result.providedCorrelation.union x.result.providedCorrelation
  inputs : y.result.inputs = (s.result.noteInputsOf x.result).inputs
  violations : y.violations.Perm (s.violations ++
    (x.violations ++ s.result.providedCorrelation.clashes x.result.providedCorrelation))
  neededKeys : ∀ l, l ∈ y.result.neededKeys ↔ l ∈ s.result.neededKeys ∨ l ∈ x.result.neededKeys
  neededData : ∀ l, l ∈ y.result.neededData.keys ↔
    l ∈ s.result.neededData.keys ∨ l ∈ x.result.neededData.keys
  providedData : ∀ l, l ∈ y.result.providedData.keys ↔
    (l ∈ s.result.providedData.keys ∨ l ∈ x.result.providedData.keys) ∧
      l ∉ x.result.invalidatedData.keys
  invalidatedData : ∀ l, l ∈ y.result.invalidatedData.keys ↔
    l ∈ s.result.invalidatedData.keys ∧ l ∉ x.result.providedData.keys ∨
      l ∈ x.result.invalidatedData.keys
  /-- Both go on with the same. -/
  agree : x.running.defined = y.running.defined
  /-- What is running was running before or is provided inside. -/
  runningKeys : ∀ l, l ∈ x.running.providedCorrelation.keys ↔
    l ∈ s.running.providedCorrelation.keys ∨ l ∈ x.result.providedCorrelation.keys
  runningData : ∀ l, l ∈ x.running.providedData.keys ↔
    (l ∈ s.running.providedData.keys ∨ l ∈ x.result.providedData.keys) ∧
      l ∉ x.result.invalidatedData.keys
  /-- A variable that is needed was not running before. -/
  openKeys : ∀ l ∈ x.result.neededKeys, l ∉ s.running.providedCorrelation.keys

variable {s x y : Sequel} {t : Typing}

/-- The inputs of the next statement are noted. -/
theorem inputs_append (s : Sequel) (ht : t.Sorted) :
    (s.append t).result.inputs = (s.result.noteInputsOf t).inputs :=
  congrArg Prod.snd (append_steady s ht).1

/-- A sequence that begins where another one has come to extends it. -/
theorem extends_start (s : Sequel) : s.Extends (start s.running) s where
  providedKeys := rfl
  inputs := congrArg (Prod.mk _) Option.or_none.symm
  violations := .of_eq (List.append_nil _).symm
  neededKeys _ := (or_iff_left (Typing.not_mem_neededKeys_empty _)).symm
  neededData _ := (or_iff_left List.not_mem_nil).symm
  providedData _ := by simp [start, Typing.empty]
  invalidatedData _ := by simp [start, Typing.empty]
  agree := rfl
  runningKeys _ := (or_iff_left List.not_mem_nil).symm
  runningData _ := by simp [start, Typing.empty, Typing.provisions]
  openKeys _ hl := absurd hl (Typing.not_mem_neededKeys_empty _)

/-- One more statement keeps the extension. -/
theorem Extends.append (h : s.Extends x y)
    (hs : s.result.providedCorrelation.keys ⊆ s.running.providedCorrelation.keys)
    (ht : t.Sorted) : s.Extends (x.append t) (y.append t) where
  providedKeys := by
    rw [providedKeys_append y ht, providedKeys_append x ht, h.providedKeys, OrderedSet.union_assoc]
  inputs := by
    rw [inputs_append y ht, Typing.inputs_noteInputsOf_congr h.inputs rfl,
      Typing.inputs_noteInputsOf_assoc]
    exact Typing.inputs_noteInputsOf_congr rfl (inputs_append x ht).symm
  violations := by
    rw [(append_steady y ht).2, (append_steady x ht).2, h.providedKeys, providedKeys_append x ht]
    refine (h.violations.append_right _).trans ?_
    rw [List.append_assoc, List.append_assoc, List.append_assoc]
    exact ((ProvidedSet.clashes_union _ _ _).append_left _).append_left _
  neededKeys l := by
    rw [mem_needed_append ht, mem_needed_append ht, h.neededKeys, or_assoc,
      Typing.mem_keys_congr h.agree]
  neededData l := by
    rw [mem_neededData_append_iff ht, mem_neededData_append_iff ht, h.neededData, or_assoc,
      Typing.mem_data_congr h.agree]
  providedData l := by
    rw [mem_resultData_append ht, mem_resultData_append ht, mem_invalidatedData_append ht,
      h.providedData]
    tauto
  invalidatedData l := by
    rw [mem_invalidatedData_append ht, mem_invalidatedData_append ht, mem_resultData_append ht,
      h.invalidatedData]
    tauto
  agree := by
    refine Typing.defined_congr (fun l => ?_) fun l => ?_
    · rw [mem_running_append ht, mem_running_append ht, ← Typing.mem_keys_congr h.agree,
        h.providedKeys, OrderedSet.mem_keys_union, h.runningKeys]
      have := @hs l
      tauto
    · rw [mem_runningData_append ht, mem_runningData_append ht, Typing.mem_data_congr h.agree]
  runningKeys l := by
    rw [mem_running_append ht, mem_result_append ht, h.runningKeys]
    tauto
  runningData l := by
    rw [mem_runningData_append ht, mem_resultData_append ht, mem_invalidatedData_append ht,
      h.runningData]
    tauto
  openKeys l hl := by
    rcases (mem_needed_append ht).mp hl with hl | ⟨_, hopen⟩
    · exact h.openKeys l hl
    · exact fun hs => hopen ((h.runningKeys l).mpr (Or.inl hs))

/-! ## After the nested sequence -/

/-- Two sequences that have come to the same, but for data that one of them does not need. -/
structure Regroups (lost : Location → Prop) (s r : Sequel) : Prop where
  steady : s.result.steady = r.result.steady
  neededKeys : ∀ l, l ∈ s.result.neededKeys ↔ l ∈ r.result.neededKeys
  neededData : ∀ l, l ∈ r.result.neededData.keys ↔ l ∈ s.result.neededData.keys ∨ lost l
  providedData : ∀ l, l ∈ s.result.providedData.keys ↔ l ∈ r.result.providedData.keys
  invalidatedData : ∀ l, l ∈ s.result.invalidatedData.keys ↔ l ∈ r.result.invalidatedData.keys
  agree : s.running.defined = r.running.defined

/-- At the end of the nested sequence the data that it needs is settled by what was running before
it. -/
theorem Extends.regroups (h : s.Extends x y)
    (hs : s.result.providedCorrelation.keys ⊆ s.running.providedCorrelation.keys)
    (hx : x.result.Sorted) :
    Regroups (fun l => l ∈ x.result.neededData.keys ∧ l ∈ s.running.providedData.keys)
      (s.append x.result) y where
  steady := (append_steady s hx).1.trans (congrArg₂ Prod.mk h.providedKeys h.inputs).symm
  neededKeys l := by
    have hopen := h.openKeys l
    rw [mem_needed_append hx, h.neededKeys]
    tauto
  neededData l := by
    rw [mem_neededData_append_iff hx, h.neededData]
    tauto
  providedData l := by rw [mem_resultData_append hx, h.providedData]
  invalidatedData l := by rw [mem_invalidatedData_append hx, h.invalidatedData]
  agree := by
    refine Eq.trans (Typing.defined_congr (fun l => ?_) fun l => ?_) h.agree
    · have := @hs l
      rw [mem_running_append hx, h.runningKeys]
      tauto
    · rw [mem_runningData_append hx, h.runningData]

/-- One more part keeps the difference as it is. -/
theorem Regroups.append {lost : Location → Prop} {r : Sequel} (h : s.Regroups lost r)
    (ht : t.Sorted) : (s.append t).Regroups lost (r.append t) where
  steady := by
    rw [(append_steady s ht).1, (append_steady r ht).1,
      show s.result.providedCorrelation = r.result.providedCorrelation from
        congrArg Prod.fst h.steady,
      Typing.inputs_noteInputsOf_congr (congrArg Prod.snd h.steady) rfl]
  neededKeys l := by
    rw [mem_needed_append ht, mem_needed_append ht, h.neededKeys, Typing.mem_keys_congr h.agree]
  neededData l := by
    rw [mem_neededData_append_iff ht, mem_neededData_append_iff ht, h.neededData,
      Typing.mem_data_congr h.agree]
    tauto
  providedData l := by rw [mem_resultData_append ht, mem_resultData_append ht, h.providedData]
  invalidatedData l := by
    rw [mem_invalidatedData_append ht, mem_invalidatedData_append ht, h.invalidatedData]
  agree := by
    have hprovided : s.result.providedCorrelation = r.result.providedCorrelation :=
      congrArg Prod.fst h.steady
    refine Typing.defined_congr (fun l => ?_) fun l => ?_
    · rw [mem_running_append ht, mem_running_append ht, Typing.mem_keys_congr h.agree, hprovided]
    · rw [mem_runningData_append ht, mem_runningData_append ht, Typing.mem_data_congr h.agree]

end Sequel

/-! ## Checks -/

/-- The progress without the violations. -/
def Progress.quiet (g : Progress) : Progress := { g with violations := [] }

/-- Outcomes of two checks from the same progress.  They are the same, but for data that one of the
checks does not need and for the order in which violations were found. -/
structure Outcome.Regroups (lost : Location → Prop) (g : Progress) (o p : Outcome) : Prop where
  /-- The correlation variables that are provided, with their freshness, and the inputs. -/
  steady : o.typing.steady = p.typing.steady
  neededKeys : ∀ l, l ∈ o.typing.neededKeys ↔ l ∈ p.typing.neededKeys
  neededData : ∀ l, l ∈ p.typing.neededData.keys ↔ l ∈ o.typing.neededData.keys ∨ lost l
  providedData : ∀ l, l ∈ o.typing.providedData.keys ↔ l ∈ p.typing.providedData.keys
  invalidatedData : ∀ l, l ∈ o.typing.invalidatedData.keys ↔ l ∈ p.typing.invalidatedData.keys
  starter : o.starter = p.starter
  /-- Definitions have been typed alike. -/
  progress : o.progress.quiet = p.progress.quiet
  /-- The violations that were found meanwhile. -/
  violations : ∃ new new', o.progress.violations = g.violations ++ new ∧
    p.progress.violations = g.violations ++ new' ∧ new.Perm new'

namespace Check

variable {checks : List Check} {check : Check}

/-- Violations are added to those that were found before. -/
theorem Lawful.eq_behind (h : Lawful check) (entry : Typing) (starter : Bool) (g : Progress) :
    check entry starter g = (check entry starter g.quiet).behind g.violations := by
  rw [← h.behind]
  exact congrArg (check entry starter)
    (congrArg (Progress.mk · _ _ _) (List.append_nil _).symm)

theorem Lawful.exists_new (h : Lawful check) (entry : Typing) (starter : Bool) (g : Progress) :
    ∃ new, (check entry starter g).progress.violations = g.violations ++ new := by
  rw [h.eq_behind]
  exact ⟨_, rfl⟩

/-- The parts of a nested sequence have the same outcomes if they stand in the outer sequence. -/
theorem extends_foldl (h : ∀ c ∈ checks, Lawful c) {s : Sequel} (starter : Bool) (g : Progress)
    (hs : s.result.providedCorrelation.keys ⊆ s.running.providedCorrelation.keys)
    (hg : SortedTable g.typings) :
    let inner := checks.foldl followedBy (.start s.running, starter, g)
    let outer := checks.foldl followedBy (s, starter, g)
    s.Extends inner.1 outer.1 ∧ inner.2 = outer.2 := by
  have hfold := List.foldl_rel (l := checks) (f := followedBy) (g := followedBy)
    (r := fun inner outer : Sequel × Bool × Progress =>
      s.Extends inner.1 outer.1 ∧ inner.2 = outer.2 ∧ SortedTable inner.2.2.typings)
    (a := (.start s.running, starter, g)) (b := (s, starter, g))
    ⟨Sequel.extends_start s, rfl, hg⟩ fun c hc inner outer hacc => ?_
  · exact ⟨hfold.1, hfold.2.1⟩
  · obtain ⟨hsequel, hrest, htable⟩ := hacc
    obtain ⟨htyping, htypings⟩ := (h c hc).sorted inner.1.running inner.2.1 inner.2.2 htable
    have houtcome : c outer.1.running outer.2.1 outer.2.2 =
        c inner.1.running inner.2.1 inner.2.2 := by
      rw [← (h c hc).entry hsequel.agree, hrest]
    rw [followedBy, followedBy, houtcome]
    exact ⟨hsequel.append hs htyping, rfl, htypings⟩

/-- What comes after the two ways of writing. -/
structure Regrouped (lost : Location → Prop) (acc acc' : Sequel × Bool × Progress) : Prop where
  sequel : acc.1.Regroups lost acc'.1
  starter : acc.2.1 = acc'.2.1
  progress : acc.2.2.quiet = acc'.2.2.quiet
  violations : (acc.2.2.violations ++ acc.1.violations).Perm
    (acc'.2.2.violations ++ acc'.1.violations)
  sorted : SortedTable acc.2.2.typings

variable {lost : Location → Prop} {acc acc' : Sequel × Bool × Progress}

/-- One more check keeps the two ways of grouping together.  It starts from the same quiet progress
in both, so it finds the same violations. -/
theorem Regrouped.step (h : Regrouped lost acc acc') (hcheck : Lawful check) :
    Regrouped lost (followedBy acc check) (followedBy acc' check) := by
  obtain ⟨htyping, htypings⟩ := hcheck.sorted acc.1.running acc.2.1 acc.2.2.quiet h.sorted
  have houtcome := hcheck.eq_behind acc.1.running acc.2.1 acc.2.2
  have houtcome' : check acc'.1.running acc'.2.1 acc'.2.2 =
      (check acc.1.running acc.2.1 acc.2.2.quiet).behind acc'.2.2.violations := by
    rw [hcheck.eq_behind, ← h.starter, ← h.progress, hcheck.entry h.sequel.agree]
  generalize check acc.1.running acc.2.1 acc.2.2.quiet = o at htyping htypings houtcome houtcome'
  rw [followedBy, followedBy, houtcome, houtcome']
  refine ⟨h.sequel.append htyping, rfl, rfl, ?_, htypings⟩
  have hviolations := (Sequel.append_steady acc.1 htyping).2
  have hviolations' := (Sequel.append_steady acc'.1 htyping).2
  rw [← show acc.1.result.providedCorrelation = acc'.1.result.providedCorrelation from
    congrArg Prod.fst h.sequel.steady] at hviolations'
  have htotal := h.violations
  simp only [Outcome.behind, Progress.behind, hviolations, hviolations']
  rw [List.perm_iff_count] at htotal ⊢
  intro v
  have hv := htotal v
  simp only [List.count_append] at hv ⊢
  omega

/-- More checks keep the two ways of grouping together. -/
theorem Regrouped.foldl (h : Regrouped lost acc acc') (hchecks : ∀ c ∈ checks, Lawful c) :
    Regrouped lost (checks.foldl followedBy acc) (checks.foldl followedBy acc') :=
  List.foldl_rel h fun c hc _ _ hacc => hacc.step (hchecks c hc)

/-- The nested sequence has ended. -/
theorem regrouped_nested (hchecks : ∀ c ∈ checks, Lawful c)
    (hs : acc.1.result.providedCorrelation.keys ⊆ acc.1.running.providedCorrelation.keys)
    (hacc : SortedTable acc.2.2.typings) :
    Regrouped (fun l =>
        l ∈ (sequence checks acc.1.running acc.2.1 acc.2.2).typing.neededData.keys ∧
          l ∈ acc.1.running.providedData.keys)
      (followedBy acc (sequence checks)) (checks.foldl followedBy acc) := by
  obtain ⟨hextends, hrest⟩ := extends_foldl hchecks acc.2.1 acc.2.2 hs hacc
  obtain ⟨hsorted, htypings⟩ := foldl_sorted hchecks (.start acc.1.running, acc.2)
    Typing.sorted_empty hacc
  have houter : checks.foldl followedBy acc =
      ((checks.foldl followedBy acc).1,
        (checks.foldl followedBy (.start acc.1.running, acc.2)).2) := Prod.ext rfl hrest.symm
  rw [houter, followedBy, sequence]
  refine ⟨hextends.regroups hs hsorted, rfl, rfl, ?_, htypings⟩
  dsimp only
  rw [(Sequel.append_steady acc.1 hsorted).2, Progress.report, List.append_assoc]
  refine List.Perm.append_left _ (List.Perm.trans ?_ hextends.violations.symm)
  exact List.perm_append_comm_assoc _ _ _

/-- The two ways of writing have ended. -/
theorem Regrouped.sequence {others : List Check} (hchecks : ∀ c ∈ checks, Lawful c)
    (hothers : ∀ c ∈ others, Lawful c) {entry : Typing} {starter : Bool} {g : Progress}
    (h : Regrouped lost (checks.foldl followedBy (.start entry, starter, g))
      (others.foldl followedBy (.start entry, starter, g))) :
    (Check.sequence checks entry starter g).Regroups lost g
      (Check.sequence others entry starter g) := by
  obtain ⟨new, hnew⟩ := (lawful_sequence hchecks).exists_new entry starter g
  obtain ⟨new', hnew'⟩ := (lawful_sequence hothers).exists_new entry starter g
  refine ⟨h.sequel.steady, h.sequel.neededKeys, h.sequel.neededData, h.sequel.providedData,
    h.sequel.invalidatedData, h.starter, h.progress, new, new', hnew, hnew', ?_⟩
  refine (List.perm_append_left_iff g.violations).mp ?_
  rw [← hnew, ← hnew']
  exact h.violations

/-- What a sequence has defined is running. -/
theorem foldl_running (hchecks : ∀ c ∈ checks, Lawful c) (acc : Sequel × Bool × Progress)
    (hs : acc.1.result.providedCorrelation.keys ⊆ acc.1.running.providedCorrelation.keys)
    (hg : SortedTable acc.2.2.typings) :
    let end_ := checks.foldl followedBy acc
    end_.1.result.providedCorrelation.keys ⊆ end_.1.running.providedCorrelation.keys ∧
      SortedTable end_.2.2.typings := by
  refine foldl_induction (P := fun acc : Sequel × Bool × Progress =>
    acc.1.result.providedCorrelation.keys ⊆ acc.1.running.providedCorrelation.keys ∧
      SortedTable acc.2.2.typings) ⟨hs, hg⟩ fun acc c hc hacc => ?_
  obtain ⟨htyping, htypings⟩ := (hchecks c hc).sorted acc.1.running acc.2.1 acc.2.2 hacc.2
  refine ⟨fun l hl => ?_, htypings⟩
  refine (Sequel.mem_running_append htyping).mpr ?_
  rcases (Sequel.mem_result_append htyping).mp hl with hl | hl
  · exact Or.inl (hacc.1 hl)
  · by_cases hdefined : l ∈ acc.1.result.providedCorrelation.keys
    · exact Or.inl (hacc.1 hdefined)
    · exact Or.inr ⟨hl, hdefined⟩

/-- A nested sequence and the same parts in the outer sequence have the same outcome, but for the
data that the nested sequence needs and that is running before it. -/
theorem sequence_regroups {before group after : List Check}
    (hchecks : ∀ c ∈ before ++ group ++ after, Lawful c) (entry : Typing) (starter : Bool)
    {g : Progress} (hg : SortedTable g.typings) :
    let acc := before.foldl followedBy (.start entry, starter, g)
    let nested := sequence group acc.1.running acc.2.1 acc.2.2
    (sequence (before ++ [sequence group] ++ after) entry starter g).Regroups
      (fun l => l ∈ nested.typing.neededData.keys ∧ l ∈ acc.1.running.providedData.keys) g
      (sequence (before ++ group ++ after) entry starter g) := by
  simp only [List.forall_mem_append] at hchecks
  obtain ⟨⟨hbefore, hgroup⟩, hafter⟩ := hchecks
  have hnested : ∀ c ∈ [sequence group], Lawful c :=
    List.forall_mem_singleton.mpr (lawful_sequence hgroup)
  obtain ⟨hrunning, htable⟩ := foldl_running hbefore (.start entry, starter, g)
    (List.nil_subset _) hg
  refine Regrouped.sequence ?_ ?_ ?_
  · exact List.forall_mem_append.mpr ⟨List.forall_mem_append.mpr ⟨hbefore, hnested⟩, hafter⟩
  · exact List.forall_mem_append.mpr ⟨List.forall_mem_append.mpr ⟨hbefore, hgroup⟩, hafter⟩
  · rw [List.foldl_append, List.foldl_append, List.foldl_append, List.foldl_append]
    exact (regrouped_nested hgroup hrunning htable).foldl hafter

end Check

/-! ## Statements -/

namespace Statement

/-- A sequence of statements that stands in another sequence may be written out there.  Then the
outer sequence comes to the same typing, flag and progress, and finds the same violations, except
that it needs also that data which the inner sequence needs although it was defined before. -/
theorem check_nested_sequence (ctx : Context) (bound : Nat) (outer inner : Span)
    (before group after : List Statement) (entry : Typing) (starter : Bool) {g : Progress}
    (hg : SortedTable g.typings) :
    let check (s : Statement) := s.check ctx (ctx.visitWithin bound)
    let acc := (before.map check).foldl Check.followedBy (.start entry, starter, g)
    let nested := check (.sequence inner group) acc.1.running acc.2.1 acc.2.2
    (check (.sequence outer (before ++ [.sequence inner group] ++ after)) entry starter g).Regroups
      (fun l => l ∈ nested.typing.neededData.keys ∧ l ∈ acc.1.running.providedData.keys) g
      (check (.sequence outer (before ++ group ++ after)) entry starter g) := by
  intro check
  have hlawful : ∀ s, Check.Lawful (check s) := by
    intro s
    rw [show check s = s.skeleton.check ctx (ctx.visitWithin bound) from check_eq_skeleton ctx _ s]
    exact Skeleton.lawful_check (ctx.lawful_visitWithin bound) s.skeleton
  have hsequence : ∀ span statements,
      check (.sequence span statements) = Check.sequence (statements.map check) :=
    fun span statements => congrArg Check.sequence (checkAll_eq_map ctx _ statements)
  simp only [hsequence, List.map_append, List.map_cons, List.map_nil]
  refine Check.sequence_regroups ?_ entry starter hg
  rw [← List.map_append, ← List.map_append]
  exact List.forall_mem_map.mpr fun s _ => hlawful s

end Statement

/-! ## A need that gets lost -/

/-- A block that makes `x` undefined and then copies it. -/
def undefinedCopy : List Statement :=
  [.undefine .unknown (sampleData "x"), .assign .unknown orderKey (.variable (sampleData "x"))]

/-- The block of `copiedLate` needs `x`, which is defined before it, so that a single sequence needs
`x` as well. -/
theorem check_nested_sequence_copiedLate :
    let ctx := copiedLate.context none
    let check (s : Statement) := s.check ctx (ctx.visitWithin 1)
    let first : Statement := .assign .unknown (sampleData "x") (.int 1)
    SortedTable Progress.start.typings ∧
      (check (.sequence .unknown [first, .sequence .unknown undefinedCopy]) .empty true
        .start).Regroups (fun l => l = (sampleData "x").location) .start
          (check (.sequence .unknown (first :: undefinedCopy)) .empty true .start) := by
  intro ctx check first
  have htable : SortedTable Progress.start.typings := fun _ => Typing.sorted_empty
  have hregroups := Statement.check_nested_sequence ctx 1 .unknown .unknown [first] undefinedCopy []
    .empty true htable
  refine ⟨htable, ?_⟩
  let acc := Check.followedBy (.start .empty, true, .start) (check first)
  let nested := check (.sequence .unknown undefinedCopy) acc.1.running acc.2.1 acc.2.2
  have hneeded : nested.typing.neededData.keys = [(sampleData "x").location] := by decide +kernel
  have hrunning : acc.1.running.providedData.keys = [(sampleData "x").location] := by
    decide +kernel
  have hlost : ∀ l, l ∈ nested.typing.neededData.keys ∧ l ∈ acc.1.running.providedData.keys ↔
      l = (sampleData "x").location := by
    simp only [hneeded, hrunning, List.mem_singleton, and_self, implies_true]
  exact { hregroups with
    neededData := fun l => (hregroups.neededData l).trans (or_congr_right (hlost l)) }

/-- A nested sequence may need less than its parts in a single sequence.  In `copiedLate` the need
is the only thing that is wrong with the program. -/
theorem not_check_nested_sequence :
    (¬ ∀ (ctx : Context) (bound : Nat) (outer inner : Span) (before group after : List Statement)
        (entry : Typing) (starter : Bool) (g : Progress), SortedTable g.typings →
      let check (s : Statement) := s.check ctx (ctx.visitWithin bound) entry starter g
      ∀ l,
        l ∈ (check (.sequence outer
          (before ++ [.sequence inner group] ++ after))).typing.neededData.keys ↔
        l ∈ (check (.sequence outer (before ++ group ++ after))).typing.neededData.keys) ∧
      (copiedLate.check none).isValid = true ∧
      ((sampleProgram [("main", .sequence .unknown
        (.assign .unknown (sampleData "x") (.int 1) :: undefinedCopy))]).check none).causes =
          [.variableNotInitialized (sampleData "x")] := by
  refine ⟨fun h => ?_, by decide +kernel, by decide +kernel⟩
  have hx := (h (copiedLate.context none) 1 .unknown .unknown
    [.assign .unknown (sampleData "x") (.int 1)] undefinedCopy [] .empty true .start
    (fun _ => Typing.sorted_empty) (sampleData "x").location).mpr (by decide +kernel)
  revert hx
  decide +kernel

end Correlation
