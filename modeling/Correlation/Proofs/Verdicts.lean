import Correlation.Proofs.Causes
import Correlation.Proofs.Needs
import Correlation.Proofs.Routes

/-!
# The verdict on a program, cause by cause

A check that finds no circle of definitions comes to a settled table (`settled_check`).  Its
violations are those of the correlation sets, of the bodies and of the session, and no others
(`mem_violations_check`).  So the causes of one kind are told by the typings alone:

* a variable is defined twice if two parts that both run provide it, or `init` and `main` do
  (`exists_clash_check`);
* a variable is not initialised if the session needs it (`exists_need_check`).

The parts of the session are the calls of `init` and of `main`.
-/

namespace Correlation

open Skeleton

/-- The context in which a program is checked. -/
def Program.context (program : Program) (mode : Option ExecutionMode) : Context :=
  (Context.ofProgram program mode).1

/-- In every choice that may start the session the branches look the same in some respect. -/
def Context.StartsAgree {β : Type} (ctx : Context) (view : Bool × Skeleton → β) : Prop :=
  ∀ d ∈ ctx.definitions.toList, ∀ x ∈ ctx.partsOf d, ∀ a ∈ starts x, ∀ b ∈ starts x,
    view a = view b

instance {β : Type} [DecidableEq β] (ctx : Context) (view : Bool × Skeleton → β) :
    Decidable (ctx.StartsAgree view) :=
  inferInstanceAs (Decidable (∀ d ∈ ctx.definitions.toList, ∀ x ∈ ctx.partsOf d,
    ∀ a ∈ starts x, ∀ b ∈ starts x, view a = view b))

/-- The causes of the violations. -/
def Verdict.causes (v : Verdict) : List Violation.Cause := v.violations.map Violation.cause

/-! ## The typing of a session -/

namespace Verdict

variable {init? : Option Typing} {main : Typing} {l : Location}

/-- A session provides what `init` and `main` provide. -/
theorem provided_sessionTyping (hmain : main.Sorted) :
    (sessionTyping init? main).1.providedCorrelation =
      (init?.getD .empty).providedCorrelation.union main.providedCorrelation := by
  cases init? with
  | some init => exact Sequel.providedKeys_append ⟨init, init.provisions, []⟩ hmain
  | none => exact (OrderedSet.empty_union _).symm

/-- What is wrong with a session as a sequence is what both parts define. -/
theorem violations_sessionTyping (hmain : main.Sorted) :
    (sessionTyping init? main).2 =
      (init?.getD .empty).providedCorrelation.clashes main.providedCorrelation := by
  cases init? with
  | some init => exact (Sequel.append_steady ⟨init, init.provisions, []⟩ hmain).2
  | none =>
    refine (List.map_eq_nil_iff.mpr (List.filter_eq_nil_iff.mpr fun p _ => ?_)).symm
    exact Bool.false_ne_true

/-- A session needs what `init` needs, and what `main` needs and `init` does not provide. -/
theorem mem_neededKeys_sessionTyping (hmain : main.Sorted) :
    l ∈ (sessionTyping init? main).1.neededKeys ↔ l ∈ (init?.getD .empty).neededKeys ∨
      l ∈ main.neededKeys ∧ l ∉ (init?.getD .empty).providedCorrelation.keys := by
  cases init? with
  | some init => exact Sequel.mem_needed_append (s := ⟨init, init.provisions, []⟩) hmain
  | none =>
    refine ⟨fun h => Or.inr ⟨h, List.not_mem_nil⟩, ?_⟩
    rintro (h | ⟨h, _⟩)
    · cases h
    · exact h

end Verdict

/-- The call of `init` before a session. -/
def initCall : Bool × Skeleton := (false, .call .unknown initName)

/-- The call of `main` in a session. -/
def mainCall : Bool × Skeleton := (false, .call .unknown mainName)

theorem provided_initCall (ctx : Context) (table : NameTable Typing) :
    provided ctx table initCall = (called table initName).providedCorrelation := rfl

theorem provided_mainCall (ctx : Context) (table : NameTable Typing) :
    provided ctx table mainCall = (called table mainName).providedCorrelation := rfl

/-- The typing of a session. -/
def sessionOf (table : NameTable Typing) : Typing :=
  (Verdict.sessionTyping (table.get? initName) (called table mainName)).1

namespace Context.Settled

variable {ctx : Context} {table : NameTable Typing} {l : Location} {t : List Event} {e : Event}
  (h : ctx.Settled table)

include h

/-- A session provides what `init` and `main` provide. -/
theorem provided_sessionOf : (sessionOf table).providedCorrelation =
    (provided ctx table initCall).union (provided ctx table mainCall) :=
  Verdict.provided_sessionTyping (h.sorted mainName)

/-- What `init` provides tells the freshness of a session before `main` does. -/
theorem freshness_sessionOf (l : Location) : (sessionOf table).providedCorrelation.freshness l =
    ((provided ctx table initCall).freshness l).or ((provided ctx table mainCall).freshness l) := by
  rw [h.provided_sessionOf]
  exact ProvidedSet.freshness_union _ _ l

/-- What the typing of a session needs, if there is a main definition. -/
theorem mem_neededKeys_sessionOf {d : Definition}
    (hd : ctx.definitions.find? mainName = some d) : l ∈ (sessionOf table).neededKeys ↔
      l ∈ needed ctx table initCall ∨ ¬ grants ctx table l initCall = true ∧
        l ∈ needed ctx table (ctx.startsSession d, d.body.skeleton) := by
  refine (Verdict.mem_neededKeys_sessionTyping (h.sorted mainName)).trans (or_congr_right ?_)
  have hgrants : grants ctx table l initCall = true ↔
      l ∈ (called table initName).providedCorrelation.keys := OrderedSet.contains_iff_mem_keys
  rw [and_comm, hgrants]
  refine and_congr_right fun hl => ?_
  obtain hname := name_of_find? hd
  have hentry : (ctx.entryOf table d).Sorted := by
    rw [entryOf]
    split
    · exact (h.sorted initName).provisions
    · exact Typing.sorted_empty
  have hopen : l ∉ (ctx.entryOf table d).providedCorrelation.keys := by
    rw [entryOf]
    split
    · exact hl
    · exact List.not_mem_nil
  rw [← hname, h.called_eq (hname.symm ▸ hd), typingOf]
  exact mem_neededKeys_typing h.sorted _ _ hentry hopen

end Context.Settled

/-! ## The violations of a session -/

namespace Verdict

variable {ctx : Context} {table : NameTable Typing} {file : String} {routing : Routing}
  {v : Violation} {l : Location}

theorem ofTypings_of_main (file : String) (routing : Routing) {main : Typing}
    (hmain : table.get? mainName = some main) :
    ofTypings file routing table = (some (sessionOf table),
      (sessionTyping (table.get? initName) main).2 ++ needViolations (sessionOf table) ++
        freshnessViolations routing.sets.toList (sessionOf table)) := by
  rw [ofTypings, sessionOf, called, hmain]
  rfl

/-- Nothing is wrong with a session if its parts define no variable twice, nothing is needed and
keys are fresh. -/
theorem ofTypings_eq_nil_iff (file : String) (routing : Routing) (htable : ctx.Settled table)
    {d : Definition} (hd : ctx.definitions.find? mainName = some d) :
    (ofTypings file routing table).2 = [] ↔
      (called table initName).providedCorrelation.clashes
          (called table mainName).providedCorrelation = [] ∧
        needViolations (sessionOf table) = [] ∧
          freshnessViolations routing.sets.toList (sessionOf table) = [] := by
  rw [ofTypings_of_main file routing (htable.get?_of_find? hd),
    violations_sessionTyping (htable.sorted mainName), List.append_eq_nil_iff,
    List.append_eq_nil_iff, and_assoc]
  rfl

/-- What is wrong with a session is found by putting it together, or at no skeleton. -/
theorem shape_of_ofTypings (htable : SortedTable table)
    (hv : v ∈ (ofTypings file routing table).2) :
    v ∈ (called table initName).providedCorrelation.clashes
        (called table mainName).providedCorrelation ∨ v.cause.shape? = none := by
  cases hmain : table.get? mainName with
  | none =>
    rw [ofTypings, hmain, List.mem_singleton] at hv
    rw [hv]
    exact Or.inr rfl
  | some main =>
    have hcalled : called table mainName = main := by rw [called, hmain]; rfl
    rw [ofTypings_of_main file routing hmain,
      violations_sessionTyping (hcalled ▸ htable mainName)] at hv
    rcases List.mem_append.mp hv with hv | hv
    · rcases List.mem_append.mp hv with hv | hv
      · exact Or.inl (hcalled ▸ hv)
      · rcases List.mem_append.mp hv with hv | hv
        · obtain ⟨p, _, rfl⟩ := List.mem_map.mp hv
          exact Or.inr rfl
        · obtain ⟨p, _, rfl⟩ := List.mem_map.mp hv
          exact Or.inr rfl
    · obtain ⟨set, _, rfl⟩ := List.mem_map.mp hv
      exact Or.inr rfl

/-- A session defines a variable twice exactly if both of its parts define it. -/
theorem exists_clash_ofTypings (htable : SortedTable table) :
    (∃ v ∈ (ofTypings file routing table).2, v.ClashesAt l) ↔
      grants ctx table l initCall = true ∧ grants ctx table l mainCall = true := by
  refine Iff.trans ⟨?_, ?_⟩ ProvidedSet.exists_clash_iff
  · rintro ⟨v, hv, path, hcause, hl⟩
    rcases shape_of_ofTypings htable hv with hv | hshape
    · exact ⟨v, hv, path, hcause, hl⟩
    · rw [hcause] at hshape
      cases hshape
  · rintro ⟨v, hv, hclash⟩
    refine ⟨v, ?_, hclash⟩
    cases hmain : table.get? mainName with
    | none =>
      have hcalled : called table mainName = .empty := by rw [called, hmain]; rfl
      rw [provided_mainCall, hcalled] at hv
      cases hv
    | some main =>
      have hcalled : called table mainName = main := by rw [called, hmain]; rfl
      rw [ofTypings_of_main file routing hmain,
        violations_sessionTyping (hcalled ▸ htable mainName)]
      rw [provided_initCall, provided_mainCall, hcalled] at hv
      exact List.mem_append_left _ (List.mem_append_left _ hv)

/-- A session needs a variable exactly if it is a violation. -/
theorem exists_need_ofTypings (file : String) (routing : Routing) (htable : SortedTable table)
    {main : Typing}
    (hmain : table.get? mainName = some main) :
    (∃ v ∈ (ofTypings file routing table).2, ∃ path : Path, path.location = l ∧
      v.cause = .notInitialized path) ↔ l ∈ (sessionOf table).neededKeys := by
  have hcalled : called table mainName = main := by rw [called, hmain]; rfl
  rw [ofTypings_of_main file routing hmain, violations_sessionTyping (hcalled ▸ htable mainName)]
  constructor
  · rintro ⟨v, hv, path, rfl, hcause⟩
    rcases List.mem_append.mp hv with hv | hv
    · rcases List.mem_append.mp hv with hv | hv
      · have hshape := shape_of_clashes hv
        rw [hcause] at hshape
        cases hshape
      · rcases List.mem_append.mp hv with hv | hv
        · obtain ⟨p, hp, rfl⟩ := List.mem_map.mp hv
          cases hcause
          exact List.mem_map_of_mem hp
        · obtain ⟨p, _, rfl⟩ := List.mem_map.mp hv
          cases hcause
    · obtain ⟨set, _, rfl⟩ := List.mem_map.mp hv
      cases hcause
  · intro hl
    obtain ⟨p, hp, rfl⟩ := List.mem_map.mp hl
    refine ⟨⟨p.span, .notInitialized p⟩, ?_, p, rfl, rfl⟩
    exact List.mem_append_left _ (List.mem_append_right _
      (List.mem_append_left _ (List.mem_map_of_mem hp)))

end Verdict

/-! ## The violations of a check -/

namespace Program

variable {program : Program} {mode : Option ExecutionMode} {v : Violation} {l : Location}

/-- The definitions in the context are the first ones of all names. -/
theorem mem_keys_definitions {name : String} :
    name ∈ (program.context mode).definitions.keys ↔ ∃ d ∈ program.definitions, d.name = name :=
  OrderedSet.mem_keys_firsts

/-- A check without a circle of definitions comes to a settled table. -/
theorem settled_check
    (hacyclic : ∀ names, .definitionCycle names ∉ (program.check mode).causes) :
    (program.context mode).Settled (program.check mode).typings := by
  refine (Context.settled_typeDefinitions (program.context mode)
    (Routing.ofSets program.correlationSets).2 fun v hv names hcause => ?_).1
  exact hacyclic names (hcause ▸ List.mem_map_of_mem (List.mem_append_left _ hv))

/-- The violations of a check are those of the correlation sets, of the bodies and of the session.
-/
theorem mem_violations_check
    (hacyclic : ∀ names, .definitionCycle names ∉ (program.check mode).causes) :
    v ∈ (program.check mode).violations ↔ v ∈ (Routing.ofSets program.correlationSets).2 ∨
      (∃ d, (program.context mode).definitions.find? d.name = some d ∧
        v ∈ (program.context mode).faultsOf (program.check mode).typings d) ∨
      v ∈ (Verdict.ofTypings program.file (program.context mode).routing
        (program.check mode).typings).2 := by
  obtain ⟨hsettled, hhonest⟩ := Context.settled_typeDefinitions (program.context mode)
    (Routing.ofSets program.correlationSets).2 fun v hv names hcause =>
      hacyclic names (hcause ▸ List.mem_map_of_mem (List.mem_append_left _ hv))
  have hbefore := Context.foldl_visit_before (program.context mode) (program.context mode).turns
    (Progress.start.report (Routing.ofSets program.correlationSets).2)
  refine List.mem_append.trans ⟨?_, ?_⟩
  · rintro (hv | hv)
    · exact (hhonest.violations hsettled.sorted v hv).imp_right Or.inl
    · exact Or.inr (Or.inr hv)
  · rintro (hv | ⟨d, hd, hv⟩ | hv)
    · exact Or.inl (hbefore.violations.subset hv)
    · refine Or.inl (hhonest.faults hsettled.sorted d hd ?_ hv)
      by_contra hkeys
      have htyped := hsettled.typed d hd
      rw [Context.get?_eq_none_iff.mpr hkeys] at htyped
      cases htyped
    · exact Or.inr hv

/-- A check without a circle of definitions finds a program valid if nothing is wrong with the
correlation sets, the bodies and the session. -/
theorem isValid_iff (hacyclic : ∀ names, .definitionCycle names ∉ (program.check mode).causes) :
    (program.check mode).isValid = true ↔ (Routing.ofSets program.correlationSets).2 = [] ∧
      (∀ d, (program.context mode).definitions.find? d.name = some d →
        (program.context mode).faultsOf (program.check mode).typings d = []) ∧
      (Verdict.ofTypings program.file (program.context mode).routing
        (program.check mode).typings).2 = [] := by
  simp only [Verdict.isValid, List.isEmpty_iff, List.eq_nil_iff_forall_not_mem,
    mem_violations_check hacyclic, not_or, not_exists, not_and, forall_and]
  exact and_congr_right fun _ => and_congr_left fun _ => forall_comm.trans
    (forall_congr' fun d => forall_comm)

/-! ## Causes of one kind -/

section Causes

variable (hacyclic : ∀ names, .definitionCycle names ∉ (program.check mode).causes)

include hacyclic

/-- What is wrong with a part of a body is among the causes. -/
theorem cause_of_part {d : Definition} {x : Bool × Skeleton}
    (hd : (program.context mode).definitions.find? d.name = some d)
    (hx : x ∈ (program.context mode).partsOf d)
    (hv : v ∈ x.2.faults (program.context mode) (program.check mode).typings
      (decide (d.name = initName)) x.1 .empty) : v.cause ∈ (program.check mode).causes := by
  refine List.mem_map_of_mem ((mem_violations_check hacyclic).mpr (Or.inr (Or.inl ⟨d, hd, ?_⟩)))
  exact List.mem_append_left _ (List.mem_flatMap.mpr ⟨x, hx, hv⟩)

/-- A violation is about the correlation sets, a part of a body, `init` or the session. -/
theorem violation_cases (hv : v ∈ (program.check mode).violations) :
    v.cause.IsRouting ∨
      (∃ d, (program.context mode).definitions.find? d.name = some d ∧
        ∃ x ∈ (program.context mode).partsOf d,
          v ∈ x.2.faults (program.context mode) (program.check mode).typings
            (decide (d.name = initName)) x.1 .empty) ∨
      (∃ path, v.cause = .initializedInInit path) ∨
      v ∈ (Verdict.ofTypings program.file (program.context mode).routing
        (program.check mode).typings).2 := by
  rcases (mem_violations_check hacyclic).mp hv with hv | ⟨d, hd, hv⟩ | hv
  · exact Or.inl (Routing.cause_of_ofSets hv)
  · rcases List.mem_append.mp hv with hv | hv
    · obtain ⟨x, hx, hv⟩ := List.mem_flatMap.mp hv
      exact Or.inr (Or.inl ⟨d, hd, x, hx, hv⟩)
    · rw [Context.definitionViolations] at hv
      split at hv
      · obtain ⟨p, _, rfl⟩ := List.mem_map.mp hv
        exact Or.inr (Or.inr (Or.inl ⟨p.path, rfl⟩))
      · cases hv
  · exact Or.inr (Or.inr (Or.inr hv))

/-- A cause that is found at a skeleton is found at a part of a body, unless it is that `init` and
`main` define the same variable. -/
theorem exists_part_of_shape {shape : Shape} (hv : v ∈ (program.check mode).violations)
    (hshape : v.cause.shape? = some shape) :
    (∃ d, (program.context mode).definitions.find? d.name = some d ∧
      ∃ x ∈ (program.context mode).partsOf d, x.2.shape = shape ∧
        v ∈ x.2.faults (program.context mode) (program.check mode).typings
          (decide (d.name = initName)) x.1 .empty) ∨
      shape = .all ∧ v ∈ (Verdict.ofTypings program.file (program.context mode).routing
        (program.check mode).typings).2 := by
  have hsettled := settled_check hacyclic
  rcases violation_cases hacyclic hv with hrouting | ⟨d, hd, x, hx, hv⟩ | ⟨_, hinit⟩ | hv
  · rcases hrouting with ⟨_, _, _, hcause⟩ | ⟨_, _, hcause⟩ <;> rw [hcause] at hshape <;>
      cases hshape
  · have hpart := shape_of_fault hsettled.sorted hv
    rw [hshape] at hpart
    exact Or.inl ⟨d, hd, x, hx, (Option.some.inj hpart).symm, hv⟩
  · rw [hinit] at hshape
    cases hshape
  · rcases Verdict.shape_of_ofTypings hsettled.sorted hv with hclash | hnone
    · rw [shape_of_clashes hclash] at hshape
      exact Or.inr ⟨(Option.some.inj hshape).symm, hv⟩
    · rw [hnone] at hshape
      cases hshape

/-- A variable is reported to be defined twice exactly if two parts that both run provide it, or
both parts of the session do. -/
theorem exists_clash_check (l : Location) :
    (∃ path : Path, path.location = l ∧ .definedMoreThanOnce path ∈ (program.check mode).causes) ↔
      (∃ d, (program.context mode).definitions.find? d.name = some d ∧
        ∃ x ∈ (program.context mode).partsOf d,
          ¬ Lone (program.context mode) (program.check mode).typings l x) ∨
      grants (program.context mode) (program.check mode).typings l initCall = true ∧
        grants (program.context mode) (program.check mode).typings l mainCall = true := by
  have hsettled := settled_check hacyclic
  constructor
  · rintro ⟨path, hpath, hcause⟩
    obtain ⟨v, hv, hcause⟩ := List.mem_map.mp hcause
    have hclash : v.ClashesAt l := ⟨path, hcause, hpath⟩
    have hshape : v.cause.shape? = some .all := congrArg Violation.Cause.shape? hcause
    rcases exists_part_of_shape hacyclic hv hshape with ⟨d, hd, x, hx, hall, hv⟩ | ⟨_, hv⟩
    · refine Or.inl ⟨d, hd, x, hx, fun hlone => ?_⟩
      have htwo := (exists_clash_all hsettled.sorted hall _).mp ⟨v, hv, hclash⟩
      exact absurd (Nat.le_trans htwo (hlone hall)) (by decide)
    · exact Or.inr ((Verdict.exists_clash_ofTypings hsettled.sorted).mp ⟨v, hv, hclash⟩)
  · rintro (⟨d, hd, x, hx, hlone⟩ | hboth)
    · rw [Lone, Classical.not_imp, Nat.not_le] at hlone
      obtain ⟨v, hv, path, hcause, hpath⟩ :=
        (exists_clash_all hsettled.sorted hlone.1 (decide (d.name = initName))).mpr hlone.2
      exact ⟨path, hpath, hcause ▸ cause_of_part hacyclic hd hx hv⟩
    · obtain ⟨v, hv, path, hcause, hpath⟩ :=
        (Verdict.exists_clash_ofTypings hsettled.sorted).mpr hboth
      exact ⟨path, hpath, hcause ▸ List.mem_map_of_mem
        ((mem_violations_check hacyclic).mpr (Or.inr (Or.inr hv)))⟩

/-- No loop defines a variable if no such cause is reported. -/
theorem loopless_of_check
    (hloop : ∀ path, .initializedInLoop path ∉ (program.check mode).causes) (l : Location) :
    (program.context mode).Throughout
      (Loopless (program.context mode) (program.check mode).typings l) := by
  intro d hd x hx hshape c hc
  refine grants_of_loop (decide (d.name = initName)) hshape hc fun v hv path hcause => ?_
  exact hloop path (hcause ▸ cause_of_part hacyclic hd hx hv)

/-- Alternatives agree on whether they provide a variable if they do so where sessions start, and no
other disagreement is reported. -/
theorem agreed_of_check {l : Location}
    (hbranches : ∀ path kind, .notInitializedInEveryBranch path kind ∉ (program.check mode).causes)
    (hstarts : (program.context mode).StartsAgree
      (grants (program.context mode) (program.check mode).typings l)) :
    (program.context mode).Throughout (Agreed (program.context mode)
      (grants (program.context mode) (program.check mode).typings l)) := by
  intro d hd x hx hshape c hc c' hc'
  refine grants_of_alternatives (decide (d.name = initName)) hshape
    (fun v hv path kind hcause => ?_) ?_ hc hc'
  · exact hbranches path kind (hcause ▸ cause_of_part hacyclic hd hx hv)
  · exact hstarts d (OrderedSet.find?_eq_some_iff.mp hd).1 x hx

/-- The same for the freshness of a variable. -/
theorem agreed_freshness_of_check {l : Location}
    (hbranches : ∀ path kind, .notInitializedInEveryBranch path kind ∉ (program.check mode).causes)
    (hfresh : ∀ path, .freshnessDiffers path ∉ (program.check mode).causes)
    (hstarts : (program.context mode).StartsAgree fun x =>
      (provided (program.context mode) (program.check mode).typings x).freshness l) :
    (program.context mode).Throughout (Agreed (program.context mode) fun x =>
      (provided (program.context mode) (program.check mode).typings x).freshness l) := by
  intro d hd x hx hshape c hc c' hc'
  refine freshness_of_alternatives (decide (d.name = initName)) hshape
    (fun v hv path kind hcause => ?_) (fun v hv path hcause => ?_) ?_ hc hc'
  · exact hbranches path kind (hcause ▸ cause_of_part hacyclic hd hx hv)
  · exact hfresh path (hcause ▸ cause_of_part hacyclic hd hx hv)
  · exact hstarts d (OrderedSet.find?_eq_some_iff.mp hd).1 x hx

/-- A session is reported to need a variable exactly if its typing needs it. -/
theorem exists_need_check {d : Definition}
    (hd : (program.context mode).definitions.find? mainName = some d) (l : Location) :
    (∃ path : Path, path.location = l ∧ .notInitialized path ∈ (program.check mode).causes) ↔
      l ∈ (sessionOf (program.check mode).typings).neededKeys := by
  have hsettled := settled_check hacyclic
  have hmain := hsettled.get?_of_find? hd
  rw [← Verdict.exists_need_ofTypings program.file (program.context mode).routing hsettled.sorted
    hmain]
  constructor
  · rintro ⟨path, hpath, hcause⟩
    obtain ⟨v, hv, hcause⟩ := List.mem_map.mp hcause
    rcases violation_cases hacyclic hv with hrouting | ⟨d, _, x, _, hv⟩ | ⟨_, hinit⟩ | hv
    · rw [hcause] at hrouting
      rcases hrouting with ⟨_, _, _, hrouting⟩ | ⟨_, _, hrouting⟩ <;> cases hrouting
    · have hshape := shape_of_fault hsettled.sorted hv
      rw [hcause] at hshape
      cases hshape
    · rw [hcause] at hinit
      cases hinit
    · exact ⟨v, hv, path, hpath, hcause⟩
  · rintro ⟨v, hv, path, hpath, hcause⟩
    exact ⟨path, hpath, hcause ▸ List.mem_map_of_mem
      ((mem_violations_check hacyclic).mpr (Or.inr (Or.inr hv)))⟩

end Causes

end Program

end Correlation
