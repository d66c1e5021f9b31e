import Correlation.Proofs.Judgement
import Correlation.Proofs.Progress

/-!
# What a check depends on

A check is given a whole typing as its entry and a whole progress, and looks at little of either.

* Of the entry it matters which correlation variables and which data are provided
  (`Typing.defined`).  The order in which they came, their freshness and their spans do not matter,
  nor does what the entry needs, invalidates or takes in.
* The violations that were found before are carried along (`Progress.behind`).

`Check.Lawful` says this of a check, and also that a check keeps correlation variables and data
apart if the typings of definitions do.  The combinators of checks keep to these laws, so all checks
do (`Skeleton.lawful_check`), as long as the calls of definitions carry violations along
(`Context.lawful_visitWithin`).
-/

namespace Correlation

namespace OrderedSet

variable {α κ : Type} {key : α → κ} [DecidableEq κ]

theorem contains_insert (s : OrderedSet key) (a : α) :
    (s.insert a).contains = fun k => decide (key a = k) || s.contains k := by
  funext k
  rw [Bool.eq_iff_iff, Bool.or_eq_true, contains_iff_mem_keys, contains_iff_mem_keys,
    mem_keys_insert, decide_eq_true_iff, eq_comm]

theorem contains_insertNew (s : OrderedSet key) (a : α) :
    (s.insertNew a).contains = fun k => decide (key a = k) || s.contains k := by
  funext k
  rw [Bool.eq_iff_iff, Bool.or_eq_true, contains_iff_mem_keys, contains_iff_mem_keys,
    mem_keys_insertNew, decide_eq_true_iff, eq_comm]

theorem contains_erase (s : OrderedSet key) (j : κ) :
    (s.erase j).contains = fun k => s.contains k && !decide (k = j) := by
  funext k
  rw [Bool.eq_iff_iff, Bool.and_eq_true, contains_iff_mem_keys, contains_iff_mem_keys,
    mem_keys_erase, Bool.not_eq_true', decide_eq_false_iff_not]

end OrderedSet

/-! ## Entries -/

namespace Typing

/-- Where a typing provides a correlation variable, and where it provides data. -/
def defined (t : Typing) : (Location → Bool) × (Location → Bool) :=
  (t.providedCorrelation.contains, t.providedData.contains)

variable {t u : Typing}

theorem mem_keys_congr (h : t.defined = u.defined) (l : Location) :
    l ∈ t.providedCorrelation.keys ↔ l ∈ u.providedCorrelation.keys := by
  rw [← OrderedSet.contains_iff_mem_keys, ← OrderedSet.contains_iff_mem_keys]
  exact Iff.of_eq (congrArg (· = true) (congrFun (congrArg Prod.fst h) l))

theorem mem_data_congr (h : t.defined = u.defined) (l : Location) :
    l ∈ t.providedData.keys ↔ l ∈ u.providedData.keys := by
  rw [← OrderedSet.contains_iff_mem_keys, ← OrderedSet.contains_iff_mem_keys]
  exact Iff.of_eq (congrArg (· = true) (congrFun (congrArg Prod.snd h) l))

/-- Typings define the same if they provide the same correlation variables and the same data. -/
theorem defined_congr (hkeys : ∀ l, l ∈ t.providedCorrelation.keys ↔ l ∈ u.providedCorrelation.keys)
    (hdata : ∀ l, l ∈ t.providedData.keys ↔ l ∈ u.providedData.keys) : t.defined = u.defined := by
  refine Prod.ext (funext fun l => ?_) (funext fun l => ?_)
  · rw [defined, defined, Bool.eq_iff_iff, OrderedSet.contains_iff_mem_keys, hkeys,
      OrderedSet.contains_iff_mem_keys]
  · rw [defined, defined, Bool.eq_iff_iff, OrderedSet.contains_iff_mem_keys, hdata,
      OrderedSet.contains_iff_mem_keys]

theorem provides_congr (h : t.defined = u.defined) (l : Location) :
    t.provides l = u.provides l := by
  simp only [defined, Prod.mk.injEq] at h
  rw [provides, provides, h.1, h.2]

theorem defined_provide (h : t.defined = u.defined) (p : Path) (fresh : Bool) :
    (t.provide p fresh).defined = (u.provide p fresh).defined := by
  simp only [defined, Prod.mk.injEq] at h
  rw [provide, provide]
  split
  · simp only [defined, OrderedSet.contains_insert, h]
  · simp only [defined, OrderedSet.contains_insertNew, h]

theorem defined_invalidate (h : t.defined = u.defined) (p : Path) :
    (t.invalidate p).defined = (u.invalidate p).defined := by
  simp only [defined, Prod.mk.injEq] at h
  rw [invalidate, invalidate]
  split
  · simp only [defined, h]
  · simp only [defined, OrderedSet.contains_erase, h]

end Typing

namespace Sequel

/-- Sequences that have come to the same, with the same to go on with. -/
structure Agrees (s r : Sequel) : Prop where
  result : s.result = r.result
  running : s.running.defined = r.running.defined
  violations : s.violations = r.violations

variable {s r : Sequel}

theorem agrees_start {entry other : Typing} (h : entry.defined = other.defined) :
    (start entry).Agrees (start other) :=
  ⟨rfl, h, rfl⟩

theorem Agrees.addNeeds (h : s.Agrees r) (t : Typing) : (s.addNeeds t).Agrees (r.addNeeds t) := by
  have hrunning := h.running
  simp only [Typing.defined, Prod.mk.injEq] at hrunning
  refine ⟨?_, h.running, h.violations⟩
  simp only [Sequel.addNeeds, h.result, hrunning]

theorem Agrees.define (h : s.Agrees r) (p : ProvidedPath) : (s.define p).Agrees (r.define p) := by
  have hrunning := h.running
  simp only [Typing.defined, Prod.mk.injEq] at hrunning
  rw [Sequel.define, Sequel.define, h.result]
  split
  · exact ⟨rfl, h.running, congrArg (· ++ _) h.violations⟩
  · refine ⟨rfl, ?_, h.violations⟩
    simp only [Typing.defined, OrderedSet.contains_insert, hrunning]

theorem Agrees.provideData (h : s.Agrees r) (p : Path) :
    (s.provideData p).Agrees (r.provideData p) := by
  refine ⟨?_, Typing.defined_provide h.running p false, h.violations⟩
  simp only [Sequel.provideData, h.result]

theorem Agrees.invalidate (h : s.Agrees r) (p : Path) :
    (s.invalidate p).Agrees (r.invalidate p) :=
  ⟨congrArg (Typing.invalidate · p) h.result, Typing.defined_invalidate h.running p, h.violations⟩

/-- Such sequences go on in the same way. -/
theorem Agrees.append (h : s.Agrees r) (t : Typing) : (s.append t).Agrees (r.append t) := by
  have hnoted : Agrees { s with result := s.result.noteInputsOf t }
      { r with result := r.result.noteInputsOf t } :=
    ⟨congrArg (Typing.noteInputsOf · t) h.result, h.running, h.violations⟩
  have hdefined := List.foldl_rel (l := t.providedCorrelation.toList) (hnoted.addNeeds t)
    fun p _ _ _ hs => hs.define p
  have hprovided := List.foldl_rel (l := t.providedData.toList) hdefined
    fun p _ _ _ hs => hs.provideData p
  exact List.foldl_rel (l := t.invalidatedData.toList) hprovided fun p _ _ _ hs => hs.invalidate p

end Sequel

/-! ## Violations that were found before -/

/-- The same progress, if violations had been found before. -/
def Progress.behind (vs : List Violation) (g : Progress) : Progress :=
  { g with violations := vs ++ g.violations }

/-- The same outcome, if violations had been found before. -/
def Outcome.behind (vs : List Violation) (o : Outcome) : Outcome :=
  { o with progress := o.progress.behind vs }

/-- Violations that were there before stay in front of the ones that are reported. -/
theorem Progress.report_behind (vs ws : List Violation) (g : Progress) :
    (g.behind vs).report ws = (g.report ws).behind vs := by
  simp only [report, behind, List.append_assoc]

/-! ## Lawful checks -/

/-- A check that looks at nothing but what is defined, carries along what was found before, and
keeps correlation variables and data apart. -/
structure Check.Lawful (check : Check) : Prop where
  entry : ∀ {entry other : Typing}, entry.defined = other.defined → ∀ starter g,
    check entry starter g = check other starter g
  behind : ∀ vs entry starter g,
    check entry starter (g.behind vs) = (check entry starter g).behind vs
  sorted : ∀ entry starter g, SortedTable g.typings →
    (check entry starter g).typing.Sorted ∧ SortedTable (check entry starter g).progress.typings

/-- A call of a definition that carries along what was found before, and keeps correlation variables
and data apart. -/
structure Visit.Lawful (visit : Visit) : Prop where
  behind : ∀ vs span name g,
    visit span name (g.behind vs) = ((visit span name g).1, (visit span name g).2.behind vs)
  sorted : ∀ span name g, SortedTable g.typings →
    (visit span name g).1.Sorted ∧ SortedTable (visit span name g).2.typings

namespace Check

variable {checks : List Check} {check : Check}

theorem lawful_pure {typing : Typing} (htyping : typing.Sorted) (vs : List Violation) :
    Lawful (pure typing vs) where
  entry _ _ _ := rfl
  behind ws _ starter g := congrArg (Outcome.mk typing starter) (Progress.report_behind ws vs g)
  sorted _ _ _ hg := ⟨htyping, hg⟩

/-! ### Sequences -/

section Lists

variable (h : ∀ c ∈ checks, Lawful c)

include h

/-- Sequences that agree at first agree after the same checks. -/
theorem foldl_agrees (acc acc' : Sequel × Bool × Progress) (hsequel : acc.1.Agrees acc'.1)
    (hrest : acc.2 = acc'.2) :
    (checks.foldl followedBy acc).1.Agrees (checks.foldl followedBy acc').1 ∧
      (checks.foldl followedBy acc).2 = (checks.foldl followedBy acc').2 := by
  refine List.foldl_rel (r := fun acc acc' : Sequel × Bool × Progress =>
    acc.1.Agrees acc'.1 ∧ acc.2 = acc'.2) ⟨hsequel, hrest⟩ fun c hc acc acc' hacc => ?_
  have houtcome : c acc.1.running acc.2.1 acc.2.2 = c acc'.1.running acc'.2.1 acc'.2.2 := by
    rw [(h c hc).entry hacc.1.running, hacc.2]
  rw [followedBy, followedBy, houtcome]
  exact ⟨hacc.1.append _, rfl⟩

/-- Checks one after the other do not look at violations that were there before. -/
theorem foldl_behind (vs : List Violation) (s : Sequel) (starter : Bool) (g : Progress) :
    checks.foldl followedBy (s, starter, g.behind vs) =
      let acc := checks.foldl followedBy (s, starter, g)
      (acc.1, acc.2.1, acc.2.2.behind vs) := by
  induction checks generalizing s starter g with
  | nil => rfl
  | cons c rest ih =>
    rw [List.foldl_cons, List.foldl_cons, followedBy, (h c List.mem_cons_self).behind vs]
    exact ih (fun d hd => h d (List.mem_cons_of_mem c hd)) _ _ _

theorem foldl_sorted (acc : Sequel × Bool × Progress) (hresult : acc.1.result.Sorted)
    (hg : SortedTable acc.2.2.typings) :
    (checks.foldl followedBy acc).1.result.Sorted ∧
      SortedTable (checks.foldl followedBy acc).2.2.typings := by
  refine foldl_induction (P := fun acc : Sequel × Bool × Progress =>
    acc.1.result.Sorted ∧ SortedTable acc.2.2.typings) ⟨hresult, hg⟩ fun acc c hc hacc => ?_
  obtain ⟨htyping, htypings⟩ := (h c hc).sorted acc.1.running acc.2.1 acc.2.2 hacc.2
  exact ⟨Sequel.sorted_result_append hacc.1 htyping, htypings⟩

/-- The check of a sequence is lawful if those of its parts are. -/
theorem lawful_sequence : Lawful (sequence checks) where
  entry {entry other} hentry starter g := by
    obtain ⟨hsequel, hrest⟩ := foldl_agrees h (.start entry, starter, g) (.start other, starter, g)
      (Sequel.agrees_start hentry) rfl
    simp only [sequence, hsequel.result, hsequel.violations, hrest]
  behind vs entry starter g := by
    simp only [sequence, foldl_behind h, Progress.report_behind, Outcome.behind]
  sorted entry starter g hg :=
    foldl_sorted h (.start entry, starter, g) Typing.sorted_empty hg

/-! ### Joins -/

/-- Of the entry that checks share only what it defines counts. -/
theorem collect_entry {entry other : Typing} (hentry : entry.defined = other.defined)
    (starter : Bool) (g : Progress) :
    collect entry checks starter g = collect other checks starter g := by
  induction checks generalizing starter g with
  | nil => rfl
  | cons c rest ih =>
    simp only [collect, (h c List.mem_cons_self).entry hentry,
      ih fun d hd => h d (List.mem_cons_of_mem c hd)]

/-- Checks that share an entry do not look at violations that were there before. -/
theorem collect_behind (vs : List Violation) (entry : Typing) (starter : Bool) (g : Progress) :
    collect entry checks starter (g.behind vs) =
      let acc := collect entry checks starter g
      (acc.1, acc.2.1, acc.2.2.behind vs) := by
  induction checks generalizing starter g with
  | nil => rfl
  | cons c rest ih =>
    simp only [collect, (h c List.mem_cons_self).behind vs, Outcome.behind,
      ih fun d hd => h d (List.mem_cons_of_mem c hd)]

theorem collect_sorted (entry : Typing) (starter : Bool) (g : Progress)
    (hg : SortedTable g.typings) :
    (∀ t ∈ (collect entry checks starter g).1, t.Sorted) ∧
      SortedTable (collect entry checks starter g).2.2.typings := by
  induction checks generalizing starter g with
  | nil => exact ⟨List.forall_mem_nil _, hg⟩
  | cons c rest ih =>
    obtain ⟨htyping, htypings⟩ := (h c List.mem_cons_self).sorted entry starter g hg
    obtain ⟨hrest, hend⟩ := ih (fun d hd => h d (List.mem_cons_of_mem c hd)) _ _ htypings
    exact ⟨List.forall_mem_cons.mpr ⟨htyping, hrest⟩, hend⟩

/-- The check of joined statements is lawful if the join keeps to the kinds. -/
theorem lawful_joined {join : List Typing → Typing × List Violation}
    (hjoin : ∀ ts, (∀ t ∈ ts, t.Sorted) → (join ts).1.Sorted) : Lawful (joined join checks) where
  entry {entry other} hentry starter g := by
    simp only [joined, collect_entry h hentry]
  behind vs entry starter g := by
    simp only [joined, collect_behind h, Progress.report_behind, Outcome.behind]
  sorted entry starter g hg := by
    obtain ⟨htypings, hend⟩ := collect_sorted h entry starter g hg
    exact ⟨hjoin _ htypings, hend⟩

theorem lawful_choice (span : Span) : Lawful (choice span checks) := by
  have hbranches : ∀ starter, Lawful (joined (Typing.choice span .choice starter)
      (checks.map (withStarter starter))) := by
    refine fun starter => lawful_joined (List.forall_mem_map.mpr fun c hc => ?_)
      fun ts hts => Typing.Sorted.alternatives hts starter
    exact ⟨fun hentry _ g => (h c hc).entry hentry starter g,
      fun vs entry _ g => (h c hc).behind vs entry starter g,
      fun entry _ g hg => (h c hc).sorted entry starter g hg⟩
  refine ⟨fun hentry starter g => ?_, fun vs entry starter g => ?_, fun entry starter g hg => ?_⟩
  · rw [choice, choice, (hbranches starter).entry hentry]
  · rw [choice, choice, (hbranches starter).behind]
    rfl
  · exact (hbranches starter).sorted entry starter g hg

end Lists

theorem lawful_repeated (h : Lawful check) (span : Span) : Lawful (repeated span check) where
  entry hentry starter g := by simp only [repeated, h.entry hentry]
  behind vs entry starter g := by
    simp only [repeated, h.behind, Outcome.behind, Progress.report_behind]
  sorted entry starter g hg :=
    ⟨(h.sorted entry starter g hg).1.repeated span, (h.sorted entry starter g hg).2⟩

end Check

/-! ## Statements and definitions -/

namespace Skeleton

variable {ctx : Context} {visit : Visit}

/-- Of the entry of an initialisation only what it defines counts. -/
theorem initialTyping_of_defined {entry other : Typing} (h : entry.defined = other.defined)
    (span : Span) (target : Path) (value : Initializer) :
    Check.initialTyping span target value entry = Check.initialTyping span target value other := by
  cases value with
  | copy source => simp only [Check.initialTyping, Typing.provides_congr h]
  | _ => rfl

/-- The check of a skeleton is lawful, if calls are. -/
theorem lawful_check (hvisit : visit.Lawful) (k : Skeleton) : (k.check ctx visit).Lawful := by
  induction k with
  | idle => exact Check.lawful_pure Typing.sorted_empty []
  | request span receive => exact Check.lawful_pure Typing.sorted_empty _
  | invalidate span paths =>
    exact Check.lawful_pure (foldl_induction (P := Typing.Sorted) Typing.sorted_empty
      fun _ p _ ht => ht.invalidate (p.locatedIn span)) []
  | input span operation receive =>
    rw [check]
    refine ⟨fun _ _ _ => rfl, fun vs entry starter g => ?_, fun entry starter g hg => ?_⟩
    · rw [Check.input, Check.input]
      split
      · rfl
      · simp only [Progress.report_behind]
        rfl
    · rw [Check.input]
      split
      · exact ⟨Typing.sorted_empty, hg⟩
      · exact ⟨(sorted_inputTyping _ starter).noteInput operation starter, hg⟩
  | assign span target value =>
    rw [check]
    refine ⟨fun hentry starter g => ?_, fun vs entry starter g => ?_, fun entry starter g hg => ?_⟩
    · simp only [initialTyping_of_defined hentry]
    · split
      · simp only [Progress.report_behind]
        rfl
      · rfl
    · split
      · exact ⟨sorted_initialTyping span _ value entry, hg⟩
      · exact ⟨Typing.sorted_empty, hg⟩
  | call span name =>
    rw [check]
    refine ⟨fun _ _ _ => rfl, fun vs _ starter g => ?_, fun _ starter g hg => ?_⟩
    · simp only [hvisit.behind vs]
      rfl
    · exact hvisit.sorted span name g hg
  | sequence parts ih =>
    rw [check, checkAll_eq_map]
    exact Check.lawful_sequence (List.forall_mem_map.mpr ih)
  | parallel parts ih =>
    rw [check, checkAll_eq_map]
    exact Check.lawful_joined (List.forall_mem_map.mpr ih) fun _ => Typing.Sorted.parallel
  | choice span branches ih =>
    rw [check, checkAll_eq_map]
    exact Check.lawful_choice (List.forall_mem_map.mpr ih) span
  | conditional span branches ih =>
    rw [check, checkAll_eq_map]
    exact Check.lawful_joined (List.forall_mem_map.mpr ih)
      fun _ hts => Typing.Sorted.alternatives hts false
  | repeated span body ih =>
    rw [check]
    exact Check.lawful_repeated ih span

end Skeleton

namespace Context

variable (ctx : Context) {visit : Visit} {table : NameTable Typing} {name : String} {t : Typing}

theorem sorted_of_get? (htable : SortedTable table) (h : table.get? name = some t) : t.Sorted := by
  have := htable name
  rwa [called, h] at this

theorem sortedTable_insert (htable : SortedTable table) (ht : t.Sorted) (name : String) :
    SortedTable (table.insert (name, t)) := by
  intro other
  rw [called, NameTable.get?_insert]
  by_cases hname : name = other
  · rw [if_pos hname]
    exact ht
  · rw [if_neg hname]
    exact htable other

/-- Entering a body does not look at violations that were there before. -/
theorem entered_behind (hvisit : visit.Lawful) (vs : List Violation) (d : Definition)
    (g : Progress) :
    ctx.entered visit d (g.behind vs) =
      ((ctx.entered visit d g).1, (ctx.entered visit d g).2.behind vs) := by
  rw [entered, entered]
  split
  · simp only [hvisit.behind vs]
  · rfl

theorem entered_sorted (hvisit : visit.Lawful) (d : Definition) {g : Progress}
    (hg : SortedTable g.typings) : SortedTable (ctx.entered visit d g).2.typings := by
  rw [entered]
  split
  · exact (hvisit.sorted d.span initName g hg).2
  · exact hg

theorem finish_behind (vs : List Violation) (d : Definition) (insideInit : Bool) (o : Outcome) :
    finish d insideInit (o.behind vs) =
      ((finish d insideInit o).1, (finish d insideInit o).2.behind vs) := by
  simp only [finish, Outcome.behind, Progress.report_behind]
  rfl

theorem bodyOutcome_behind (hvisit : visit.Lawful) (vs : List Violation) (d : Definition)
    (entry : Typing) (g : Progress) :
    ctx.bodyOutcome visit d entry (g.behind vs) = (ctx.bodyOutcome visit d entry g).behind vs := by
  have hbody : (d.body.skeleton.check ctx visit).Lawful := Skeleton.lawful_check hvisit _
  exact hbody.behind vs entry (ctx.startsSession d)
    { g with insideInit := decide (d.name = initName) }

variable {bound : Nat} (h : ∀ smaller < bound, Visit.Lawful (ctx.visitWithin smaller))

include h

/-- A call does not look at violations that were there before. -/
theorem visitWithin_behind (vs : List Violation) (span : Span) (name : String) (g : Progress) :
    ctx.visitWithin bound span name (g.behind vs) =
      ((ctx.visitWithin bound span name g).1, (ctx.visitWithin bound span name g).2.behind vs) := by
  cases htyped : g.typings.get? name with
  | some typing => rw [visitWithin_typed htyped, visitWithin_typed (g := g.behind vs) htyped]
  | none =>
    cases hname : ctx.definitions.find? name with
    | none =>
      rw [visitWithin_undeclared htyped hname, visitWithin_undeclared (g := g.behind vs) htyped
        hname, Progress.report_behind]
    | some d =>
      by_cases hprogress : name ∈ g.inProgress
      · rw [visitWithin_inProgress htyped hname hprogress,
          visitWithin_inProgress (g := g.behind vs) htyped hname hprogress, Progress.report_behind]
        rfl
      · cases bound with
        | zero =>
          rw [visitWithin_zero htyped hname hprogress,
            visitWithin_zero (g := g.behind vs) htyped hname hprogress]
        | succ bound =>
          obtain rfl := name_of_find? hname
          have hvisit := h bound (Nat.lt_succ_self bound)
          have hentered := ctx.entered_behind hvisit vs d
            { g with inProgress := g.inProgress ++ [d.name] }
          have hbody : ∀ e : Typing × Progress,
              let finished (e : Typing × Progress) :=
                finish d e.2.insideInit (ctx.bodyOutcome (ctx.visitWithin bound) d e.1 e.2)
              finished (e.1, e.2.behind vs) = ((finished e).1, (finished e).2.behind vs) := by
            intro e
            dsimp only
            rw [ctx.bodyOutcome_behind hvisit, finish_behind]
            rfl
          rw [visitWithin_succ htyped hname hprogress]
          refine (visitWithin_succ (g := g.behind vs) htyped hname hprogress).trans ?_
          exact (congrArg (fun e : Typing × Progress => finish d e.2.insideInit
            (ctx.bodyOutcome (ctx.visitWithin bound) d e.1 e.2)) hentered).trans (hbody _)

theorem visitWithin_sorted (span : Span) (name : String) (g : Progress)
    (hg : SortedTable g.typings) :
    (ctx.visitWithin bound span name g).1.Sorted ∧
      SortedTable (ctx.visitWithin bound span name g).2.typings := by
  cases htyped : g.typings.get? name with
  | some typing =>
    rw [visitWithin_typed htyped]
    exact ⟨sorted_of_get? hg htyped, hg⟩
  | none =>
    cases hname : ctx.definitions.find? name with
    | none =>
      rw [visitWithin_undeclared htyped hname]
      exact ⟨Typing.sorted_empty, hg⟩
    | some d =>
      by_cases hprogress : name ∈ g.inProgress
      · rw [visitWithin_inProgress htyped hname hprogress]
        exact ⟨Typing.sorted_empty, hg⟩
      · cases bound with
        | zero =>
          rw [visitWithin_zero htyped hname hprogress]
          exact ⟨Typing.sorted_empty, hg⟩
        | succ bound =>
          obtain rfl := name_of_find? hname
          have hvisit := h bound (Nat.lt_succ_self bound)
          have hentered := ctx.entered_sorted hvisit d
            (g := { g with inProgress := g.inProgress ++ [d.name] }) hg
          rw [visitWithin_succ htyped hname hprogress]
          dsimp only
          have hbody : (d.body.skeleton.check ctx (ctx.visitWithin bound)).Lawful :=
            Skeleton.lawful_check hvisit _
          obtain ⟨htyping, htypings⟩ := hbody.sorted _ (ctx.startsSession d)
            { (ctx.entered (ctx.visitWithin bound) d
                { g with inProgress := g.inProgress ++ [d.name] }).2 with
              insideInit := decide (d.name = initName) } hentered
          exact ⟨htyping, sortedTable_insert htypings htyping d.name⟩

omit h in
/-- Calls of definitions are lawful. -/
theorem lawful_visitWithin (bound : Nat) : Visit.Lawful (ctx.visitWithin bound) := by
  induction bound using Nat.strongRecOn with
  | _ bound ih => exact ⟨visitWithin_behind ctx ih, visitWithin_sorted ctx ih⟩

end Context

end Correlation
