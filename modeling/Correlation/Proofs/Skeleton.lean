import Correlation.Check.Verdict
import Mathlib.Data.List.Basic

/-!
# Skeletons

Most of a statement does not matter to its check.  What matters is its *skeleton*: which parts run
one after the other, which at the same time, which of them are alternatives or repeated, and at the
leaves the inputs, the assignments, the calls and what makes data undefined.  Eleven kinds of
skeletons stand for the thirty kinds of statements.

* A `forLoop` is its first statement and then a repeated sequence of body and step.
* A `requestResponse` is its input and then its body.
* A branch of a `choice` is its guard and then its body.
* A `conditional` without a last branch has one that is idle.

The check of a statement is that of its skeleton (`Statement.check_eq_skeleton`), so whatever is
shown of the check by induction on skeletons holds of statements.
-/

namespace Correlation

/-- The part of a statement that its check looks at. -/
inductive Skeleton where
  /-- No effect. -/
  | idle
  /-- A message that is sent and answered. -/
  | request (span : Span) (receive : Option Path)
  /-- A message that is taken in. -/
  | input (span : Span) (operation : String) (receive : Option Path)
  /-- A variable gets a value. -/
  | assign (span : Span) (target : Path) (value : Initializer)
  /-- The given paths may have no value any more. -/
  | invalidate (span : Span) (paths : List Path)
  /-- A definition runs. -/
  | call (span : Span) (name : String)
  /-- One part after the other. -/
  | sequence (parts : List Skeleton)
  /-- Parts that run at the same time. -/
  | parallel (parts : List Skeleton)
  /-- One of the branches, chosen by an input. -/
  | choice (span : Span) (branches : List Skeleton)
  /-- One of the branches, chosen by a condition. -/
  | conditional (span : Span) (branches : List Skeleton)
  /-- A body that runs any number of times. -/
  | repeated (span : Span) (body : Skeleton)
deriving Inhabited

namespace Statement

mutual

/-- The skeleton of a statement. -/
def skeleton : Statement → Skeleton
  | .sequence _ children => .sequence (skeletonAll children)
  | .parallel _ children => .parallel (skeletonAll children)
  | .choice span branches => .choice span (skeletonBranches branches)
  | .conditional span arms otherwise =>
    .conditional span (skeletonArms arms ++ [skeletonElse otherwise])
  | .whileLoop span _ body => .repeated span (skeleton body)
  | .forLoop span init _ step body =>
    .sequence [skeleton init, .repeated span (.sequence [skeleton body, skeleton step])]
  | .forEach span _ _ body => .repeated span (skeleton body)
  | .scope _ _ body => skeleton body
  | .synchronized _ _ body => skeleton body
  | .call span name => .call span name
  | .oneWay span operation receive => .input span operation receive
  | .requestResponse span operation receive _ body =>
    .sequence [.input span operation receive, skeleton body]
  | .solicitResponse span _ _ _ receive => .request span receive
  | .assign span target value => .assign span target value.initializer
  | .pointer span left right => .invalidate span [right, left]
  | .deepCopy span left right => .invalidate span [right, left]
  | .undefine span path => .invalidate span [path]
  | .spawn span _ _ body => .repeated span (skeleton body)
  | .notification _ _ _ _ | .compoundAssign _ _ _ _ | .update _ _ _ | .nothing _ | .throw _ _
  | .exit _ | .install _ _ | .compensate _ _ | .linkIn _ _ | .linkOut _ _ | .run _ _
  | .currentHandler _ => .idle

/-- The skeletons of statements. -/
def skeletonAll : List Statement → List Skeleton
  | [] => []
  | s :: rest => skeleton s :: skeletonAll rest

/-- The skeletons of the branches of a choice. -/
def skeletonBranches : List (Branch Statement) → List Skeleton
  | [] => []
  | ⟨guard, body⟩ :: rest => .sequence [skeleton guard, skeleton body] :: skeletonBranches rest

/-- The skeletons of conditional branches. -/
def skeletonArms : List (Arm Statement) → List Skeleton
  | [] => []
  | ⟨_, body⟩ :: rest => skeleton body :: skeletonArms rest

/-- The skeleton of the last branch. -/
def skeletonElse : Option Statement → Skeleton
  | none => .idle
  | some body => skeleton body

end

end Statement

/-- What a call of a definition gives: its typing, and the progress afterwards. -/
abbrev Visit := Span → String → Progress → Typing × Progress

namespace Skeleton

/-! ## Induction -/

/-- Induction on skeletons, with a hypothesis for every part of a list. -/
@[elab_as_elim, induction_eliminator]
theorem induction {motive : Skeleton → Prop} (idle : motive .idle)
    (request : ∀ span receive, motive (.request span receive))
    (input : ∀ span operation receive, motive (.input span operation receive))
    (assign : ∀ span target value, motive (.assign span target value))
    (invalidate : ∀ span paths, motive (.invalidate span paths))
    (call : ∀ span name, motive (.call span name))
    (sequence : ∀ parts, (∀ x ∈ parts, motive x) → motive (.sequence parts))
    (parallel : ∀ parts, (∀ x ∈ parts, motive x) → motive (.parallel parts))
    (choice : ∀ span branches, (∀ x ∈ branches, motive x) → motive (.choice span branches))
    (conditional : ∀ span branches, (∀ x ∈ branches, motive x) →
      motive (.conditional span branches))
    (repeated : ∀ span body, motive body → motive (.repeated span body)) (k : Skeleton) :
    motive k :=
  go k
where
  go : ∀ k : Skeleton, motive k
    | .idle => idle
    | .request span receive => request span receive
    | .input span operation receive => input span operation receive
    | .assign span target value => assign span target value
    | .invalidate span paths => invalidate span paths
    | .call span name => call span name
    | .sequence parts => sequence parts (goAll parts)
    | .parallel parts => parallel parts (goAll parts)
    | .choice span branches => choice span branches (goAll branches)
    | .conditional span branches => conditional span branches (goAll branches)
    | .repeated span body => repeated span body (go body)
  goAll : ∀ parts : List Skeleton, ∀ x ∈ parts, motive x
    | [] => fun _ h => nomatch h
    | part :: rest => List.forall_mem_cons.mpr ⟨go part, goAll rest⟩

/-! ## The check of a skeleton -/

mutual

/-- The check of a skeleton.  Calls go through a function that is given from outside. -/
def check (ctx : Context) (visit : Visit) : Skeleton → Check
  | .idle => .idle
  | .request span receive => .request span receive
  | .input span operation receive => .input ctx span operation receive
  | .assign span target value => fun entry starter progress =>
    if target.isStatic then
      let (typing, violations) := Check.initialTyping span (target.locatedIn span) value entry
      ⟨typing, starter, progress.report violations⟩
    else ⟨.empty, starter, progress⟩
  | .invalidate span paths => .invalidation span paths
  | .call span name => fun _ starter progress =>
    let (typing, progress) := visit span name progress
    ⟨typing, starter, progress⟩
  | .sequence parts => .sequence (checkAll ctx visit parts)
  | .parallel parts => .parallel (checkAll ctx visit parts)
  | .choice span branches => .choice span (checkAll ctx visit branches)
  | .conditional span branches => .conditional span (checkAll ctx visit branches)
  | .repeated span body => .repeated span (check ctx visit body)

/-- The checks of skeletons. -/
def checkAll (ctx : Context) (visit : Visit) : List Skeleton → List Check
  | [] => []
  | x :: rest => check ctx visit x :: checkAll ctx visit rest

end

theorem checkAll_eq_map (ctx : Context) (visit : Visit) (parts : List Skeleton) :
    checkAll ctx visit parts = parts.map (check ctx visit) := by
  induction parts with
  | nil => rfl
  | cons x rest ih => rw [checkAll, ih, List.map_cons]

theorem checkAll_append (ctx : Context) (visit : Visit) (parts others : List Skeleton) :
    checkAll ctx visit (parts ++ others) =
      checkAll ctx visit parts ++ checkAll ctx visit others := by
  rw [checkAll_eq_map, checkAll_eq_map, checkAll_eq_map, List.map_append]

end Skeleton

namespace Statement

section Check

variable (ctx : Context) (visit : Visit)

mutual

/-- The check of a statement is that of its skeleton. -/
theorem check_eq_skeleton : ∀ s : Statement, s.check ctx visit = s.skeleton.check ctx visit
  | .sequence _ children => by
      rw [check, skeleton, Skeleton.check, checkAll_eq_skeleton children]
  | .parallel _ children => by
      rw [check, skeleton, Skeleton.check, checkAll_eq_skeleton children]
  | .choice span branches => by
      rw [check, skeleton, Skeleton.check, checkBranches_eq_skeleton branches]
  | .conditional span arms otherwise => by
      rw [check, skeleton, Skeleton.check, checkArms_eq_skeleton arms,
        checkElse_eq_skeleton otherwise, Skeleton.checkAll_append, Skeleton.checkAll,
        Skeleton.checkAll]
  | .whileLoop span _ body => by
      rw [check, skeleton, Skeleton.check, check_eq_skeleton body]
  | .forLoop span init _ step body => by
      simp only [check, skeleton, Skeleton.check, Skeleton.checkAll, check_eq_skeleton init,
        check_eq_skeleton step, check_eq_skeleton body]
  | .forEach span _ _ body => by
      rw [check, skeleton, Skeleton.check, check_eq_skeleton body]
  | .scope _ _ body => by
      rw [check, skeleton, check_eq_skeleton body]
  | .synchronized _ _ body => by
      rw [check, skeleton, check_eq_skeleton body]
  | .requestResponse span operation receive _ body => by
      simp only [check, skeleton, Skeleton.check, Skeleton.checkAll, check_eq_skeleton body]
  | .spawn span _ _ body => by
      rw [check, skeleton, Skeleton.check, check_eq_skeleton body]
  | .assign _ _ _ => by rw [check, skeleton, Skeleton.check]; rfl
  | .call _ _ | .oneWay _ _ _ | .solicitResponse _ _ _ _ _ | .pointer _ _ _
  | .deepCopy _ _ _ | .undefine _ _ => by rw [check, skeleton, Skeleton.check]
  | .notification _ _ _ _ | .compoundAssign _ _ _ _ | .update _ _ _ | .nothing _ | .throw _ _
  | .exit _ | .install _ _ | .compensate _ _ | .linkIn _ _ | .linkOut _ _ | .run _ _
  | .currentHandler _ => by rw [check, skeleton, Skeleton.check]

theorem checkAll_eq_skeleton : ∀ children : List Statement,
    checkAll ctx visit children = Skeleton.checkAll ctx visit (skeletonAll children)
  | [] => rfl
  | s :: rest => by
      rw [checkAll, skeletonAll, Skeleton.checkAll, check_eq_skeleton s, checkAll_eq_skeleton rest]

theorem checkBranches_eq_skeleton : ∀ branches : List (Branch Statement),
    checkBranches ctx visit branches = Skeleton.checkAll ctx visit (skeletonBranches branches)
  | [] => rfl
  | ⟨guard, body⟩ :: rest => by
      simp only [checkBranches, skeletonBranches, Skeleton.checkAll, Skeleton.check,
        check_eq_skeleton guard, check_eq_skeleton body, checkBranches_eq_skeleton rest]

theorem checkArms_eq_skeleton : ∀ arms : List (Arm Statement),
    checkArms ctx visit arms = Skeleton.checkAll ctx visit (skeletonArms arms)
  | [] => rfl
  | ⟨_, body⟩ :: rest => by
      rw [checkArms, skeletonArms, Skeleton.checkAll, check_eq_skeleton body,
        checkArms_eq_skeleton rest]

theorem checkElse_eq_skeleton : ∀ otherwise : Option Statement,
    checkElse ctx visit otherwise = (skeletonElse otherwise).check ctx visit
  | none => by rw [checkElse, skeletonElse, Skeleton.check]
  | some body => by rw [checkElse, skeletonElse, check_eq_skeleton body]

end

end Check

end Statement

end Correlation
