import Correlation.Check.Leaf

/-!
# The check of a statement

The check of a statement is put together from those of its parts.  A call goes through a function
that is given from outside, since what it means depends on the other definitions.
-/

namespace Correlation

namespace Statement

mutual

/-- The check of a statement. -/
def check (ctx : Context) (visit : Span → String → Progress → Typing × Progress) :
    Statement → Check
  | .sequence _ children => .sequence (checkAll ctx visit children)
  | .parallel _ children => .parallel (checkAll ctx visit children)
  | .choice span branches => .choice span (checkBranches ctx visit branches)
  | .conditional span arms otherwise =>
    .conditional span (checkArms ctx visit arms ++ [checkElse ctx visit otherwise])
  | .whileLoop span _ body => .repeated span (check ctx visit body)
  | .forLoop span init _ step body =>
    .sequence
      [check ctx visit init,
        .repeated span (.sequence [check ctx visit body, check ctx visit step])]
  | .forEach span _ _ body => .repeated span (check ctx visit body)
  | .scope _ _ body => check ctx visit body
  | .synchronized _ _ body => check ctx visit body
  | .call span name => fun _ starter progress =>
    let (typing, progress) := visit span name progress
    ⟨typing, starter, progress⟩
  | .oneWay span operation receive => .input ctx span operation receive
  | .requestResponse span operation receive _ body =>
    .sequence [.input ctx span operation receive, check ctx visit body]
  | .solicitResponse span _ _ _ receive => .request span receive
  | .notification _ _ _ _ => .idle
  | .assign span target value => .assignment span target value
  | .compoundAssign _ _ _ _ => .idle
  | .update _ _ _ => .idle
  | .pointer span left right => .invalidation span [right, left]
  | .deepCopy span left right => .invalidation span [right, left]
  | .undefine span path => .invalidation span [path]
  | .nothing _ => .idle
  | .throw _ _ => .idle
  | .exit _ => .idle
  | .install _ _ => .idle
  | .compensate _ _ => .idle
  | .spawn span _ _ body => .repeated span (check ctx visit body)
  | .linkIn _ _ => .idle
  | .linkOut _ _ => .idle
  | .run _ _ => .idle
  | .currentHandler _ => .idle

/-- The checks of statements. -/
def checkAll (ctx : Context) (visit : Span → String → Progress → Typing × Progress) :
    List Statement → List Check
  | [] => []
  | s :: rest => check ctx visit s :: checkAll ctx visit rest

/-- The checks of the branches of a choice. -/
def checkBranches (ctx : Context) (visit : Span → String → Progress → Typing × Progress) :
    List (Branch Statement) → List Check
  | [] => []
  | ⟨guard, body⟩ :: rest =>
    .sequence [check ctx visit guard, check ctx visit body] :: checkBranches ctx visit rest

/-- The checks of conditional branches. -/
def checkArms (ctx : Context) (visit : Span → String → Progress → Typing × Progress) :
    List (Arm Statement) → List Check
  | [] => []
  | ⟨_, body⟩ :: rest => check ctx visit body :: checkArms ctx visit rest

/-- The check of the last branch.  One that is missing has no effect. -/
def checkElse (ctx : Context) (visit : Span → String → Progress → Typing × Progress) :
    Option Statement → Check
  | none => .idle
  | some body => check ctx visit body

end

theorem checkAll_eq_map (ctx : Context) (visit : Span → String → Progress → Typing × Progress)
    (children : List Statement) : checkAll ctx visit children = children.map (check ctx visit) := by
  induction children with
  | nil => rfl
  | cons s rest ih => rw [checkAll, ih, List.map_cons]

end Statement

end Correlation
