import Correlation.Proofs.Reordering

/-!
# Siblings in another order

The children of a parallel, and the bodies of a conditional, are siblings: none of them comes before
another one.  Here they are written in another order.  The conditions of a conditional stay where
they are, and its last branch takes part in the change.

If the flag is set where the statement is checked, the session still waits for its first input.  The
check hands the flag through siblings in the order of the text, so the sibling that takes the first
input in is part of what `Rearranged` asks to stay the same.

Such a change of siblings is one of the skeletons (`PermutesChildren.skeleton`,
`PermutesBodies.skeleton`), so a change of siblings somewhere in a statement reorders its skeleton.
-/

namespace Correlation

namespace Statement

/-- The first of some statements that takes an input of the session in. -/
def opening? (mode : ExecutionMode) (siblings : List Statement) : Option Statement :=
  siblings.find? fun s => !decide (Skeleton.Quiet mode s.skeleton)

/-- Siblings in another order.  If the session still waits for its first input, the same one of them
takes it in. -/
structure Rearranged (mode : ExecutionMode) (starter : Bool) (siblings others : List Statement) :
    Prop where
  perm : others.Perm siblings
  opening : starter = true → opening? mode others = opening? mode siblings

/-- The children of a parallel are written in another order. -/
inductive PermutesChildren (mode : ExecutionMode) : Bool → Statement → Statement → Prop where
  | parallel {starter : Bool} (span : Span) {children others : List Statement}
      (h : Rearranged mode starter children others) :
      PermutesChildren mode starter (.parallel span children) (.parallel span others)

/-- The bodies of a conditional with a last branch. -/
def bodies (arms : List (Arm Statement)) (last : Statement) : List Statement :=
  arms.map Arm.body ++ [last]

/-- The bodies of a conditional with a last branch are written in another order. -/
inductive PermutesBodies (mode : ExecutionMode) : Bool → Statement → Statement → Prop where
  | conditional {starter : Bool} (span : Span) {arms others : List (Arm Statement)}
      {last other : Statement} (hconditions : others.map Arm.condition = arms.map Arm.condition)
      (h : Rearranged mode starter (bodies arms last) (bodies others other)) :
      PermutesBodies mode starter (.conditional span arms (some last))
        (.conditional span others (some other))

variable {mode : ExecutionMode} {starter : Bool} {lax : Prop} {s t : Statement}
  {siblings others : List Statement}

/-! ## There and back -/

theorem Rearranged.symm (h : Rearranged mode starter siblings others) :
    Rearranged mode starter others siblings :=
  ⟨h.perm.symm, fun hstarter => (h.opening hstarter).symm⟩

theorem PermutesChildren.symm (h : PermutesChildren mode starter s t) :
    PermutesChildren mode starter t s := by
  cases h with
  | parallel span h => exact .parallel span h.symm

theorem PermutesBodies.symm (h : PermutesBodies mode starter s t) :
    PermutesBodies mode starter t s := by
  cases h with
  | conditional span hconditions h => exact .conditional span hconditions.symm h.symm

/-! ## The change in the skeleton -/

/-- The branches of a conditional are the skeletons of its bodies. -/
theorem skeleton_bodies (arms : List (Arm Statement)) (last : Statement) :
    skeletonArms arms ++ [skeletonElse (some last)] = (bodies arms last).map skeleton := by
  rw [skeletonArms_eq_map, skeletonElse, bodies, List.map_append, List.map_map]
  rfl

theorem opening?_skeleton (mode : ExecutionMode) (siblings : List Statement) :
    Skeleton.opening? mode (siblings.map skeleton) = (opening? mode siblings).map skeleton :=
  List.find?_map ..

/-- Siblings in another order have skeletons in another order. -/
theorem Rearranged.skeleton (h : Rearranged mode starter siblings others) :
    Skeleton.Permutes mode starter (siblings.map Statement.skeleton)
      (others.map Statement.skeleton) where
  perm := h.perm.map _
  opening hstarter := by rw [opening?_skeleton, opening?_skeleton, h.opening hstarter]

/-- Children of a parallel in another order are so in the skeleton. -/
theorem PermutesChildren.skeleton (hlax : lax) (h : PermutesChildren mode starter s t) :
    Skeleton.Swaps mode lax starter s.skeleton t.skeleton := by
  cases h with
  | parallel span h =>
    rw [Statement.skeleton, Statement.skeleton, skeletonAll_eq_map, skeletonAll_eq_map]
    exact .children hlax h.skeleton

/-- Bodies of a conditional in another order are branches of the skeleton in another order. -/
theorem PermutesBodies.skeleton (h : PermutesBodies mode starter s t) :
    Skeleton.Swaps mode lax starter s.skeleton t.skeleton := by
  cases h with
  | conditional span _ h =>
    rw [Statement.skeleton, Statement.skeleton, skeleton_bodies, skeleton_bodies]
    exact .branches span h.skeleton

end Statement

end Correlation
