import Correlation.Proofs.Frames
import Correlation.Proofs.Monotone

/-!
# Checks with more defined before them

A check that is entered with more leaves the same progress and the same starter flag, and its typing
asks for no more and gives no less (`Check.Monotone`).  So what is found in a definition does not
depend on where it is called, and it is safe to keep the typing that it has when nothing is defined
before it.

Each combinator keeps to this (`monotone_sequence` and its companions), and so do all checks of
skeletons (`Skeleton.monotone_check`).  The progress has to keep correlation variables and data
apart in the typings of definitions.  Any progress does so that comes up in the check of a program
(`Progress.Reachable.sorted`).
-/

namespace Correlation

/-! ## Monotone checks -/

/-- An outcome whose typing asks for no more and gives no less, and which is otherwise the same. -/
structure Outcome.Refines (o r : Outcome) : Prop where
  typing : o.typing.Refines r.typing
  starter : o.starter = r.starter
  progress : o.progress = r.progress

theorem Outcome.Refines.refl (o : Outcome) : o.Refines o := ⟨.refl o.typing, rfl, rfl⟩

/-- A check whose outcome asks for no more and gives no less if more is defined before. -/
def Check.Monotone (check : Check) : Prop :=
  ∀ ⦃entry other : Typing⦄, entry.Covers other → ∀ starter g, SortedTable g.typings →
    (check entry starter g).Refines (check other starter g)

/-- A way to join typings that gives no less for typings that give no less. -/
def Typing.MonotoneJoin (join : List Typing → Typing × List Violation) : Prop :=
  ∀ ⦃ts us : List Typing⦄, (∀ t ∈ ts, t.Sorted) → (∀ u ∈ us, u.Sorted) →
    List.Forall₂ Typing.Refines ts us → (join ts).1.Refines (join us).1 ∧ (join ts).2 = (join us).2

namespace Typing

theorem monotoneJoin_parallel : MonotoneJoin parallel := by
  intro ts us hts hus h
  have hsteady : ts.map steady = us.map steady := map_eq_of_forall₂ (h.imp fun _ _ h => h.steady)
  exact ⟨.parallel hts hus h, (parallel_congr hsteady).2⟩

theorem monotoneJoin_choice (span : Span) (kind : BranchKind) (sessionStart : Bool) :
    MonotoneJoin (choice span kind sessionStart) := by
  intro ts us hts hus h
  have hsteady : ts.map steady = us.map steady := map_eq_of_forall₂ (h.imp fun _ _ h => h.steady)
  exact ⟨.choice hts hus h span kind sessionStart, (choice_congr hsteady).2⟩

end Typing

namespace Check

section Lists

variable {checks : List Check} (hlawful : ∀ c ∈ checks, Lawful c) (h : ∀ c ∈ checks, Monotone c)

include hlawful h

/-- Two sequences of the same checks stay in step if one of them has come to no less. -/
theorem foldl_refines {s r : Sequel} (hs : s.Refines r) (hviolations : s.violations = r.violations)
    (starter : Bool) (g : Progress) (hg : SortedTable g.typings) :
    let acc := checks.foldl followedBy (s, starter, g)
    let acc' := checks.foldl followedBy (r, starter, g)
    acc.1.Refines acc'.1 ∧ acc.1.violations = acc'.1.violations ∧ acc.2 = acc'.2 := by
  induction checks generalizing s r starter g with
  | nil => exact ⟨hs, hviolations, rfl⟩
  | cons c rest ih =>
    obtain ⟨htyping, hstarter, hprogress⟩ := h c List.mem_cons_self hs.running starter g hg
    obtain ⟨ht, _⟩ := (hlawful c List.mem_cons_self).sorted s.running starter g hg
    obtain ⟨hu, hnext⟩ := (hlawful c List.mem_cons_self).sorted r.running starter g hg
    rw [List.foldl_cons, List.foldl_cons, followedBy, followedBy]
    simp only [hstarter, hprogress]
    refine ih (fun d hd => hlawful d (List.mem_cons_of_mem c hd))
      (fun d hd => h d (List.mem_cons_of_mem c hd)) (hs.append ht hu htyping) ?_ _ _ hnext
    rw [(Sequel.append_steady s ht).2, (Sequel.append_steady r hu).2, hviolations,
      hs.result.eq_providedCorrelation, htyping.eq_providedCorrelation]

/-- The check of a sequence is monotone if those of its parts are. -/
theorem monotone_sequence : Monotone (sequence checks) := by
  intro entry other hentry starter g hg
  obtain ⟨hsequel, hviolations, hrest⟩ :=
    foldl_refines hlawful h (Sequel.refines_start hentry) rfl starter g hg
  refine ⟨hsequel.result, congrArg Prod.fst hrest, ?_⟩
  simp only [sequence, hviolations, hrest]

/-- Checks that share an entry ask for no more and give no less where more is defined. -/
theorem collect_refines {entry other : Typing} (hentry : entry.Covers other) (starter : Bool)
    (g : Progress) (hg : SortedTable g.typings) :
    List.Forall₂ Typing.Refines (collect entry checks starter g).1
        (collect other checks starter g).1 ∧
      (collect entry checks starter g).2 = (collect other checks starter g).2 := by
  induction checks generalizing starter g with
  | nil => exact ⟨.nil, rfl⟩
  | cons c rest ih =>
    obtain ⟨htyping, hstarter, hprogress⟩ := h c List.mem_cons_self hentry starter g hg
    obtain ⟨_, hnext⟩ := (hlawful c List.mem_cons_self).sorted other starter g hg
    obtain ⟨hrest, hend⟩ := ih (fun d hd => hlawful d (List.mem_cons_of_mem c hd))
      (fun d hd => h d (List.mem_cons_of_mem c hd)) _ _ hnext
    simp only [collect, hstarter, hprogress]
    exact ⟨.cons htyping hrest, hend⟩

/-- The check of joined statements is monotone if the join is. -/
theorem monotone_joined {join : List Typing → Typing × List Violation}
    (hjoin : Typing.MonotoneJoin join) : Monotone (joined join checks) := by
  intro entry other hentry starter g hg
  obtain ⟨htypings, hrest⟩ := collect_refines hlawful h hentry starter g hg
  obtain ⟨htyping, hviolations⟩ := hjoin (collect_sorted hlawful entry starter g hg).1
    (collect_sorted hlawful other starter g hg).1 htypings
  refine ⟨htyping, congrArg Prod.fst hrest, ?_⟩
  simp only [joined, hviolations, hrest]

end Lists

theorem lawful_withStarter {check : Check} (h : Lawful check) (starter : Bool) :
    Lawful (withStarter starter check) where
  entry hentry _ g := h.entry hentry starter g
  behind vs entry _ g := h.behind vs entry starter g
  sorted entry _ g hg := h.sorted entry starter g hg

/-- The check of a choice is monotone if those of its branches are.  All branches begin with the
flag of the statement, whatever earlier branches make of it. -/
theorem monotone_choice {checks : List Check} (hlawful : ∀ c ∈ checks, Lawful c)
    (h : ∀ c ∈ checks, Monotone c) (span : Span) : Monotone (choice span checks) := by
  intro entry other hentry starter g hg
  have hbranches : Monotone (joined (Typing.choice span .choice starter)
      (checks.map (withStarter starter))) :=
    monotone_joined (List.forall_mem_map.mpr fun c hc => lawful_withStarter (hlawful c hc) starter)
      (List.forall_mem_map.mpr fun c hc _ _ hentry _ => h c hc hentry starter)
      (Typing.monotoneJoin_choice span .choice starter)
  obtain ⟨htyping, _, hprogress⟩ := hbranches hentry starter g hg
  exact ⟨htyping, rfl, hprogress⟩

/-- The check of a loop is monotone if that of its body is. -/
theorem monotone_repeated {check : Check} (h : Monotone check) (span : Span) :
    Monotone (repeated span check) := by
  intro entry other hentry starter g hg
  obtain ⟨htyping, hstarter, hprogress⟩ := h hentry starter g hg
  refine ⟨htyping.repeated span, hstarter, ?_⟩
  simp only [repeated, Typing.repeated, htyping.eq_providedCorrelation, hprogress]

end Check

namespace Skeleton

/-- The check of a skeleton is monotone, if calls are lawful.  Leaves but for assignments do not
look at what is defined before them. -/
theorem monotone_check {ctx : Context} {visit : Visit} (hvisit : visit.Lawful) (k : Skeleton) :
    (k.check ctx visit).Monotone := by
  have hlawful : ∀ parts : List Skeleton, ∀ c ∈ parts.map (check ctx visit), c.Lawful :=
    fun parts => List.forall_mem_map.mpr fun x _ => lawful_check hvisit x
  induction k with
  | idle | request | input | invalidate | call =>
    rw [check]
    intro entry other _ starter g _
    exact .refl _
  | assign span target value =>
    intro entry other hentry starter g _
    rw [check]
    split
    · refine ⟨hentry.initialTyping span _ value, rfl, ?_⟩
      simp only [(initialTyping_congr span (target.locatedIn span) value entry other).2]
    · exact .refl _
  | sequence parts ih =>
    rw [check, checkAll_eq_map]
    exact Check.monotone_sequence (hlawful parts) (List.forall_mem_map.mpr ih)
  | parallel parts ih =>
    rw [check, checkAll_eq_map]
    exact Check.monotone_joined (hlawful parts) (List.forall_mem_map.mpr ih)
      Typing.monotoneJoin_parallel
  | choice span branches ih =>
    rw [check, checkAll_eq_map]
    exact Check.monotone_choice (hlawful branches) (List.forall_mem_map.mpr ih) span
  | conditional span branches ih =>
    rw [check, checkAll_eq_map]
    exact Check.monotone_joined (hlawful branches) (List.forall_mem_map.mpr ih)
      (Typing.monotoneJoin_choice span .conditional false)
  | repeated span body ih =>
    rw [check]
    exact Check.monotone_repeated ih span

end Skeleton

/-! ## The progress of a check -/

namespace Progress

/-- The progress that comes up while a program is checked, and perhaps more. -/
inductive Reachable (ctx : Context) : Progress → Prop where
  /-- Nothing but the correlation sets has been looked at. -/
  | start (vs : List Violation) : Reachable ctx (start.report vs)
  /-- A definition that is neither typed nor in progress is entered. -/
  | enter {g : Progress} {d : Definition} (hg : Reachable ctx g)
    (hd : ctx.definitions.find? d.name = some d) (htyped : g.typings.get? d.name = none)
    (hprogress : d.name ∉ g.inProgress) :
    Reachable ctx { g with inProgress := g.inProgress ++ [d.name] }
  /-- The check of the body of a definition begins. -/
  | body {g : Progress} (hg : Reachable ctx g) (d : Definition) :
    Reachable ctx { g with insideInit := decide (d.name = initName) }
  /-- A definition has been called. -/
  | visit {g : Progress} (hg : Reachable ctx g) (bound : Nat) (span : Span) (name : String) :
    Reachable ctx (ctx.visitWithin bound span name g).2
  /-- A skeleton has been checked. -/
  | check {g : Progress} (hg : Reachable ctx g) (bound : Nat) (k : Skeleton) (entry : Typing)
    (starter : Bool) :
    Reachable ctx (k.check ctx (ctx.visitWithin bound) entry starter g).progress

variable {ctx : Context} {g : Progress}

/-- The progress at the end of the check of a program. -/
theorem reachable_typeDefinitions (vs : List Violation) :
    Reachable ctx (ctx.typeDefinitions (start.report vs)) :=
  foldl_induction (P := Reachable ctx) (.start vs) fun _ name _ hg =>
    hg.visit ctx.definitions.size .unknown name

/-- The typings of definitions keep correlation variables and data apart. -/
theorem Reachable.sorted (hg : Reachable ctx g) : SortedTable g.typings := by
  induction hg with
  | start vs => exact fun _ => Typing.sorted_empty
  | enter _ _ _ _ ih => exact ih
  | body _ _ ih => exact ih
  | visit _ bound span name ih => exact ((ctx.lawful_visitWithin bound).sorted span name _ ih).2
  | check _ bound k entry starter ih =>
    exact ((Skeleton.lawful_check (ctx.lawful_visitWithin bound) k).sorted entry starter _ ih).2

end Progress

/-- With more defined before it, a statement leaves the same progress and the same starter flag, and
its typing asks for no more and gives no less. -/
theorem check_refines_of_covers (ctx : Context) (bound : Nat) (s : Statement) (starter : Bool)
    {g : Progress} (hg : g.Reachable ctx) {entry other : Typing} (hentry : entry.Covers other) :
    (s.check ctx (ctx.visitWithin bound) entry starter g).Refines
      (s.check ctx (ctx.visitWithin bound) other starter g) := by
  rw [s.check_eq_skeleton]
  exact Skeleton.monotone_check (ctx.lawful_visitWithin bound) s.skeleton hentry starter g hg.sorted

/-- A call, and then a key with the value of a variable that is undefined afterwards. -/
def copiedOrder (x : Path) : Statement := .sequence .unknown
  [.call .unknown "setup", .assign .unknown sampleKey (.variable x), .undefine .unknown x]

/-- With the variable defined before it the statement does not need the variable. -/
theorem check_refines_copiedOrder :
    let x : Path := ⟨⟨false, [.named "x"]⟩, .unknown⟩
    let ctx := (Context.ofProgram (sampleProgram [("setup", .oneWay .unknown "login" none)]) none).1
    let g := (ctx.visitWithin 1 .unknown "setup" (.report .start [])).2
    let outcome := fun entry => (copiedOrder x).check ctx (ctx.visitWithin 1) entry true g
    (outcome (Typing.empty.provide x false)).Refines (outcome .empty) ∧
      (outcome (Typing.empty.provide x false)).typing.neededData.keys = [] ∧
        (outcome .empty).typing.neededData.keys = [x.location] := by
  intro x ctx g outcome
  have hg : g.Reachable ctx := .visit (.start []) 1 .unknown "setup"
  refine ⟨?_, by decide +kernel, by decide +kernel⟩
  exact check_refines_of_covers ctx 1 (copiedOrder x) true hg (Typing.covers_empty _)

end Correlation
