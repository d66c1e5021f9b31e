import Correlation.Proofs.Verdicts

/-!
# What may be defined

A statement *may define* a correlation variable if some run of it gives the variable a value
(`Context.MayDefine`).  Whether it does so in every run is another matter: the run may take one
branch of many, or may go through a loop some number of times.

In a settled table the typing of a definition provides exactly the variables that its body may
define (`Context.Settled.grants_iff_mayDefine`).  So the places in which nothing must be defined are
found exactly:

* a loop is reported if its body may define some variable (`Program.exists_loop_check`);
* `init` is reported for each variable that its body may define (`Program.exists_init_check`).
-/

namespace Correlation

open Skeleton

/-- Some run gives a correlation variable a value. -/
def Context.MayDefine (ctx : Context) (l : Location) (x : Bool × Skeleton) : Prop :=
  ∃ t, Run ctx x.1 x.2 t ∧ ∃ e ∈ t, e.defines ctx l = true

variable {ctx : Context} {table : NameTable Typing} {l : Location}

/-- What is provided is what some run defines. -/
theorem Context.Settled.grants_iff_mayDefine (h : ctx.Settled table) (x : Bool × Skeleton) :
    grants ctx table l x = true ↔ ctx.MayDefine l x := by
  constructor
  · intro hgrants
    obtain ⟨t, hrun, hdefines⟩ := h.exists_run l x.1 x.2
    exact ⟨t, hrun, hdefines hgrants⟩
  · rintro ⟨t, hrun, e, he, hdefines⟩
    exact h.grants_of_run hrun he hdefines

/-- The typing of a definition provides what some run of its body defines. -/
theorem Context.Settled.mem_keys_typingOf (h : ctx.Settled table) (d : Definition) :
    l ∈ (ctx.typingOf table d).providedCorrelation.keys ↔
      ctx.MayDefine l (ctx.startsSession d, d.body.skeleton) := by
  rw [← h.grants_iff_mayDefine, grants, OrderedSet.contains_iff_mem_keys, Context.typingOf,
    providedCorrelation_typing h.sorted]

/-! ## Where nothing must be defined -/

/-- A loop is a fault exactly if its body provides something. -/
theorem Skeleton.exists_loop_fault_iff {starter insideInit : Bool} {span : Span}
    {body : Skeleton} :
    (∃ v ∈ faults ctx table insideInit starter (.repeated span body) .empty, ∃ path,
      v.cause = .initializedInLoop path) ↔ ∃ l, grants ctx table l (starter, body) = true := by
  constructor
  · rintro ⟨v, hv, path, hcause⟩
    rw [faults, Typing.repeated] at hv
    dsimp only at hv
    split at hv
    · cases hv
    · next p rest hprovided =>
      refine ⟨p.location, OrderedSet.contains_iff_mem_keys.mpr (List.mem_map_of_mem ?_)⟩
      rw [provided, hprovided]
      exact List.mem_cons_self
  · rintro ⟨l, hgrants⟩
    by_contra hnone
    have hnot : grants ctx table l (starter, body) = false :=
      grants_of_loop insideInit rfl (List.mem_singleton_self _)
        fun v hv path hcause => hnone ⟨v, hv, path, hcause⟩
    rw [hgrants] at hnot
    cases hnot

/-- What is wrong with a session is not what `init` defines. -/
theorem Verdict.not_init_of_ofTypings {file : String} {routing : Routing} {v : Violation}
    (htable : SortedTable table) (hv : v ∈ (ofTypings file routing table).2) (path : Path) :
    v.cause ≠ .initializedInInit path := by
  intro hcause
  cases hmain : table.get? mainName with
  | none =>
    rw [ofTypings, hmain, List.mem_singleton] at hv
    rw [hv] at hcause
    cases hcause
  | some main =>
    have hcalled : called table mainName = main := by rw [called, hmain]; rfl
    rw [ofTypings_of_main file routing hmain, List.mem_append, List.mem_append,
      violations_sessionTyping (hcalled ▸ htable mainName)] at hv
    rcases hv with (hv | hv) | hv
    · have hshape := shape_of_clashes hv
      rw [hcause] at hshape
      cases hshape
    · rcases List.mem_append.mp hv with hv | hv <;> obtain ⟨p, _, rfl⟩ := List.mem_map.mp hv <;>
        cases hcause
    · obtain ⟨set, _, rfl⟩ := List.mem_map.mp hv
      cases hcause

namespace Program

variable {program : Program} {mode : Option ExecutionMode}
  (hacyclic : ∀ names, .definitionCycle names ∉ (program.check mode).causes)

include hacyclic

/-- A loop is reported exactly if the body of some loop may define a variable. -/
theorem exists_loop_check :
    (∃ path, .initializedInLoop path ∈ (program.check mode).causes) ↔
      ∃ d ∈ (program.context mode).definitions.toList,
        ∃ x ∈ (program.context mode).partsOf d, ∃ span body, x.2 = .repeated span body ∧
          ∃ l, (program.context mode).MayDefine l (x.1, body) := by
  have hsettled := settled_check hacyclic
  simp only [← hsettled.grants_iff_mayDefine]
  constructor
  · rintro ⟨path, hcause⟩
    obtain ⟨v, hv, hcause⟩ := List.mem_map.mp hcause
    have hshape : v.cause.shape? = some .loop := congrArg Violation.Cause.shape? hcause
    rcases exists_part_of_shape hacyclic hv hshape with ⟨d, hd, ⟨starter, k⟩, hx, hk, hv⟩ |
      ⟨hall, _⟩
    · cases k with
      | repeated span body =>
        exact ⟨d, (OrderedSet.find?_eq_some_iff.mp hd).1, _, hx, span, body, rfl,
          exists_loop_fault_iff.mp ⟨v, hv, path, hcause⟩⟩
      | _ => cases hk
    · cases hall
  · rintro ⟨d, hd, ⟨starter, _⟩, hx, span, body, rfl, hgrants⟩
    obtain ⟨v, hv, path, hcause⟩ := exists_loop_fault_iff.mpr hgrants
    refine ⟨path, hcause ▸ cause_of_part hacyclic ?_ hx hv⟩
    exact OrderedSet.find?_eq_some_iff.mpr ⟨hd, rfl⟩

/-! ## Before a session -/

/-- `init` is reported for a variable exactly if its body may define the variable. -/
theorem exists_init_check (l : Location) :
    (∃ path : Path, path.location = l ∧ .initializedInInit path ∈ (program.check mode).causes) ↔
      ∃ d ∈ (program.context mode).definitions.toList, d.name = initName ∧
        (program.context mode).MayDefine l
          ((program.context mode).startsSession d, d.body.skeleton) := by
  have hsettled := settled_check hacyclic
  simp only [← hsettled.mem_keys_typingOf]
  constructor
  · rintro ⟨path, rfl, hcause⟩
    obtain ⟨v, hv, hcause⟩ := List.mem_map.mp hcause
    rcases (mem_violations_check hacyclic).mp hv with hv | ⟨d, hd, hv⟩ | hv
    · rcases Routing.cause_of_ofSets hv with ⟨_, _, _, hrouting⟩ | ⟨_, _, hrouting⟩ <;>
        rw [hcause] at hrouting <;> cases hrouting
    · refine ⟨d, (OrderedSet.find?_eq_some_iff.mp hd).1, ?_⟩
      rcases List.mem_append.mp hv with hv | hv
      · obtain ⟨x, _, hv⟩ := List.mem_flatMap.mp hv
        have hshape := shape_of_fault hsettled.sorted hv
        rw [hcause] at hshape
        cases hshape
      · rw [Context.definitionViolations] at hv
        split at hv
        · next hinit =>
          obtain ⟨p, hp, rfl⟩ := List.mem_map.mp hv
          cases hcause
          exact ⟨of_decide_eq_true hinit, List.mem_map_of_mem hp⟩
        · cases hv
    · exact absurd hcause (Verdict.not_init_of_ofTypings hsettled.sorted hv path)
  · rintro ⟨d, hd, hinit, hl⟩
    obtain ⟨p, hp, rfl⟩ := List.mem_map.mp hl
    have hv : (⟨p.path.span.or d.span, .initializedInInit p.path⟩ : Violation) ∈
        (program.context mode).faultsOf (program.check mode).typings d := by
      refine List.mem_append_right _ ?_
      rw [Context.definitionViolations, hinit]
      exact List.mem_map_of_mem hp
    refine ⟨p.path, rfl, List.mem_map_of_mem (f := Violation.cause)
      ((mem_violations_check hacyclic).mpr (Or.inr (Or.inl ⟨d, ?_, hv⟩)))⟩
    exact OrderedSet.find?_eq_some_iff.mpr ⟨hd, rfl⟩

end Program

/-- If a check finds no circle of definitions, the typings of definitions provide exactly what some
run may define, and loops and `init` are reported exactly if some run of them does. -/
theorem provided_iff_mayDefine (program : Program) (mode : Option ExecutionMode)
    (hacyclic : ∀ names, .definitionCycle names ∉ (program.check mode).causes) :
    (∀ d ∈ (program.context mode).definitions.toList,
      ∃ typing, (program.check mode).typings.get? d.name = some typing ∧
        ∀ l, l ∈ typing.providedCorrelation.keys ↔ (program.context mode).MayDefine l
          ((program.context mode).startsSession d, d.body.skeleton)) ∧
    ((∃ path, .initializedInLoop path ∈ (program.check mode).causes) ↔
      ∃ d ∈ (program.context mode).definitions.toList,
        ∃ x ∈ (program.context mode).partsOf d, ∃ span body, x.2 = .repeated span body ∧
          ∃ l, (program.context mode).MayDefine l (x.1, body)) ∧
    (∀ l, (∃ path : Path, path.location = l ∧
        .initializedInInit path ∈ (program.check mode).causes) ↔
      ∃ d ∈ (program.context mode).definitions.toList, d.name = initName ∧
        (program.context mode).MayDefine l
          ((program.context mode).startsSession d, d.body.skeleton)) := by
  have hsettled := Program.settled_check hacyclic
  refine ⟨fun d hd => ⟨(program.context mode).typingOf (program.check mode).typings d, ?_,
    fun l => hsettled.mem_keys_typingOf d⟩, Program.exists_loop_check hacyclic,
    Program.exists_init_check hacyclic⟩
  exact hsettled.typed d (OrderedSet.find?_eq_some_iff.mpr ⟨hd, rfl⟩)

/-- The key is defined in one branch of a definition, which is called by way of another one. -/
def hiddenKey : Program := sampleProgram
  [("init", .call .unknown "setup"),
    ("setup", .sequence .unknown [.call .unknown "enter"]),
    ("enter", .conditional .unknown [⟨.bool true, .assign .unknown sampleKey .fresh⟩] none),
    ("main", .sequence .unknown [.oneWay .unknown "login" none,
      .whileLoop .unknown (.bool true) (.call .unknown "setup")])]

/-- The key may be defined in a loop and by `init`, since both are reported. -/
theorem mayDefine_hiddenKey :
    (∃ d ∈ (hiddenKey.context none).definitions.toList, ∃ x ∈ (hiddenKey.context none).partsOf d,
      ∃ span body, x.2 = .repeated span body ∧
        ∃ l, (hiddenKey.context none).MayDefine l (x.1, body)) ∧
    ∃ d ∈ (hiddenKey.context none).definitions.toList, d.name = initName ∧
      (hiddenKey.context none).MayDefine sampleKey.location
        ((hiddenKey.context none).startsSession d, d.body.skeleton) := by
  have hcauses : (hiddenKey.check none).causes =
      [.notInitializedInEveryBranch sampleKey .conditional, .initializedInInit sampleKey,
        .initializedInLoop sampleKey, .definedMoreThanOnce sampleKey] := by decide +kernel
  have hacyclic : ∀ names, .definitionCycle names ∉ (hiddenKey.check none).causes := by
    intro names
    rw [hcauses]
    simp
  obtain ⟨_, hloop, hinit⟩ := provided_iff_mayDefine hiddenKey none hacyclic
  refine ⟨hloop.mp ⟨sampleKey, ?_⟩, (hinit sampleKey.location).mp ⟨sampleKey, rfl, ?_⟩⟩
  · rw [hcauses]
    simp
  · rw [hcauses]
    simp

end Correlation
