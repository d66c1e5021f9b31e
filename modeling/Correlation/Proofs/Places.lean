import Correlation.Proofs.Parts

/-!
# A change at one place

A statement is changed at one place, and all around that place it stays as it is
(`Statement.Within`).  What is changed there is told by a relation, which may depend on the starter
flag that the place is checked with.  The relation is that of a call and the body of what it calls
(`Statement.ReplacesCall`), or that of siblings and the same ones in another order
(`Statement.PermutesChildren`, `Statement.PermutesBodies`).

A change within a statement is one within its skeleton (`Statement.Within.skeleton`).  If what is
changed leaves the starter flag as before, all the flags around it stay the same
(`Skeleton.Within.starterAfter_eq`), and but for one part the skeletons are put together in the same
way (`Skeleton.Alike`).  That is the shape of an induction on such a change,
`Skeleton.Within.frame_induction`.
-/

namespace Correlation

namespace Skeleton

/-! ## Flags around a part that is replaced -/

section Flags

variable {mode : ExecutionMode}

/-- The flag is handed on through one list of parts and then through another one. -/
theorem starterAfterAll_append (starter : Bool) (parts others : List Skeleton) :
    starterAfterAll mode starter (parts ++ others) =
      starterAfterAll mode (starterAfterAll mode starter parts) others := by
  induction parts generalizing starter with
  | nil => rfl
  | cons x rest ih => exact ih _

/-- The parts of the second list get the flag that the first list leaves. -/
theorem flagged_append (starter : Bool) (parts others : List Skeleton) :
    flagged mode starter (parts ++ others) =
      flagged mode starter parts ++ flagged mode (starterAfterAll mode starter parts) others := by
  induction parts generalizing starter with
  | nil => rfl
  | cons x rest ih => rw [List.cons_append, flagged, flagged, ih, List.cons_append, starterAfterAll]

variable {starter : Bool} {x y : Skeleton} {before : List Skeleton} (after : List Skeleton)
  (h : starterAfter mode (starterAfterAll mode starter before) y =
    starterAfter mode (starterAfterAll mode starter before) x)

include h

/-- One part may be replaced by another one that leaves the same flag. -/
theorem starterAfterAll_replace : starterAfterAll mode starter (before ++ y :: after) =
    starterAfterAll mode starter (before ++ x :: after) := by
  rw [starterAfterAll_append, starterAfterAll_append, starterAfterAll, starterAfterAll, h]

/-- But for the part that is replaced, the parts and their flags stay the same. -/
theorem flagged_replace :
    let flag := starterAfterAll mode starter before
    flagged mode starter (before ++ x :: after) = flagged mode starter before ++
        (flag, x) :: flagged mode (starterAfter mode flag x) after ∧
      flagged mode starter (before ++ y :: after) = flagged mode starter before ++
        (flag, y) :: flagged mode (starterAfter mode flag x) after := by
  rw [flagged_append, flagged_append, flagged, flagged, h]
  exact ⟨rfl, rfl⟩

end Flags

/-! ## Changes in a skeleton -/

/-- Skeletons that are put together in the same way, from parts that may be different. -/
inductive Alike : Skeleton → Skeleton → Prop where
  | leaf {k : Skeleton} (hk : k.shape = .leaf) : Alike k k
  | sequence (parts others : List Skeleton) : Alike (.sequence parts) (.sequence others)
  | parallel (parts others : List Skeleton) : Alike (.parallel parts) (.parallel others)
  | choice (span : Span) (branches others : List Skeleton) :
      Alike (.choice span branches) (.choice span others)
  | conditional (span : Span) (branches others : List Skeleton) :
      Alike (.conditional span branches) (.conditional span others)
  | repeated (span : Span) (body other : Skeleton) :
      Alike (.repeated span body) (.repeated span other)

theorem Alike.refl (k : Skeleton) : Alike k k := by
  cases k with
  | sequence parts => exact .sequence parts parts
  | parallel parts => exact .parallel parts parts
  | choice span branches => exact .choice span branches branches
  | conditional span branches => exact .conditional span branches branches
  | repeated span body => exact .repeated span body body
  | idle | request | input | assign | invalidate | call => exact .leaf rfl

/-- A change is made somewhere in a skeleton.  The flag is handed on to it as in the check. -/
inductive Within (mode : ExecutionMode) (R : Bool → Skeleton → Skeleton → Prop) :
    Bool → Skeleton → Skeleton → Prop where
  | here {starter : Bool} {x y : Skeleton} (h : R starter x y) : Within mode R starter x y
  | sequence {starter : Bool} {x y : Skeleton} (before after : List Skeleton)
      (h : Within mode R (starterAfterAll mode starter before) x y) :
      Within mode R starter (.sequence (before ++ x :: after)) (.sequence (before ++ y :: after))
  | parallel {starter : Bool} {x y : Skeleton} (before after : List Skeleton)
      (h : Within mode R (starterAfterAll mode starter before) x y) :
      Within mode R starter (.parallel (before ++ x :: after)) (.parallel (before ++ y :: after))
  | choice {starter : Bool} {x y : Skeleton} (span : Span) (before after : List Skeleton)
      (h : Within mode R starter x y) :
      Within mode R starter (.choice span (before ++ x :: after))
        (.choice span (before ++ y :: after))
  | conditional {starter : Bool} {x y : Skeleton} (span : Span) (before after : List Skeleton)
      (h : Within mode R (starterAfterAll mode starter before) x y) :
      Within mode R starter (.conditional span (before ++ x :: after))
        (.conditional span (before ++ y :: after))
  | repeated {starter : Bool} {x y : Skeleton} (span : Span) (h : Within mode R starter x y) :
      Within mode R starter (.repeated span x) (.repeated span y)

namespace Within

variable {mode : ExecutionMode} {R : Bool → Skeleton → Skeleton → Prop} {starter : Bool}
  {k k' : Skeleton}
  (hR : ∀ {starter x y}, R starter x y → starterAfter mode starter y = starterAfter mode starter x)

include hR

/-- The flag after a skeleton stays the same if it does after what is changed. -/
theorem starterAfter_eq (h : Within mode R starter k k') :
    starterAfter mode starter k' = starterAfter mode starter k := by
  induction h with
  | here h => exact hR h
  | sequence before after _ ih | parallel before after _ ih | conditional _ before after _ ih =>
    exact starterAfterAll_replace after ih
  | choice => rfl
  | repeated span _ ih => exact ih

/-- Induction on a change.  Either the whole is changed, or the skeleton stays as it is put together
and there is a change in one of its parts. -/
theorem frame_induction {motive : Bool → Skeleton → Skeleton → Prop}
    (here : ∀ starter k k', R starter k k' → motive starter k k')
    (frame : ∀ starter k k' before flag x y after, Alike k' k →
      children mode starter k = before ++ (flag, x) :: after →
      children mode starter k' = before ++ (flag, y) :: after →
      Within mode R starter k k' → Within mode R flag x y → motive flag x y → motive starter k k')
    (h : Within mode R starter k k') : motive starter k k' := by
  induction h with
  | here h => exact here _ _ _ h
  | sequence before after h ih =>
    have hflagged := flagged_replace after (h.starterAfter_eq hR)
    exact frame _ _ _ _ _ _ _ _ (.sequence _ _) hflagged.1 hflagged.2 (.sequence _ _ h) h ih
  | parallel before after h ih =>
    have hflagged := flagged_replace after (h.starterAfter_eq hR)
    exact frame _ _ _ _ _ _ _ _ (.parallel _ _) hflagged.1 hflagged.2 (.parallel _ _ h) h ih
  | conditional span before after h ih =>
    have hflagged := flagged_replace after (h.starterAfter_eq hR)
    exact frame _ _ _ _ _ _ _ _ (.conditional span _ _) hflagged.1 hflagged.2
      (.conditional span _ _ h) h ih
  | choice span before after h ih =>
    exact frame _ _ _ _ _ _ _ _ (.choice span _ _) (List.map_append ..) (List.map_append ..)
      (.choice span _ _ h) h ih
  | repeated span h ih =>
    exact frame _ _ _ [] _ _ _ [] (.repeated span _ _) rfl rfl (.repeated span h) h ih

end Within

/-! ## Parts around the place -/

section Frame

variable {mode : ExecutionMode} {starter flag : Bool} {k k' x y : Skeleton}
  {before after : List (Bool × Skeleton)}
  (hold : children mode starter k = before ++ (flag, x) :: after)

include hold

/-- The part at the place is one of the children. -/
theorem mem_children_of_frame : (flag, x) ∈ children mode starter k := by
  rw [hold]
  exact List.mem_append_right _ List.mem_cons_self

/-- There is no place in a leaf. -/
theorem shape_ne_leaf_of_frame : k.shape ≠ .leaf := by
  intro hleaf
  have hpart := mem_children_of_frame hold
  rw [children_of_leaf hleaf] at hpart
  cases hpart

/-- A part of a skeleton in which one child is another one is the whole, has been there before or
is in that child. -/
theorem mem_visited_frame (hnew : children mode starter k' = before ++ (flag, y) :: after)
    {z : Bool × Skeleton} (hz : z ∈ visited mode starter k') :
    z = (starter, k') ∨ z ∈ visited mode starter k ∨ z ∈ visited mode flag y := by
  rcases mem_visited_iff.mp hz with rfl | ⟨c, hc, hz⟩
  · exact Or.inl rfl
  · rw [hnew, List.mem_append, List.mem_cons] at hc
    have hkept : c ∈ before ∨ c ∈ after → z ∈ visited mode starter k := by
      intro hc
      refine mem_visited_of_child (c := c) ?_ hz
      rw [hold, List.mem_append, List.mem_cons]
      exact hc.imp_right Or.inr
    rcases hc with hc | rfl | hc
    · exact Or.inr (Or.inl (hkept (Or.inl hc)))
    · exact Or.inr (Or.inr hz)
    · exact Or.inr (Or.inl (hkept (Or.inr hc)))

end Frame

end Skeleton

namespace Statement

/-! ## Changes in a statement -/

/-- A change is made somewhere in a statement.  The flag is handed on to it as in the check. -/
inductive Within (mode : ExecutionMode) (R : Bool → Statement → Statement → Prop) :
    Bool → Statement → Statement → Prop where
  | here {starter : Bool} {s t : Statement} (h : R starter s t) : Within mode R starter s t
  | sequence {starter : Bool} {s t : Statement} (span : Span) (before after : List Statement)
      (h : Within mode R (Skeleton.starterAfterAll mode starter (skeletonAll before)) s t) :
      Within mode R starter (.sequence span (before ++ s :: after))
        (.sequence span (before ++ t :: after))
  | parallel {starter : Bool} {s t : Statement} (span : Span) (before after : List Statement)
      (h : Within mode R (Skeleton.starterAfterAll mode starter (skeletonAll before)) s t) :
      Within mode R starter (.parallel span (before ++ s :: after))
        (.parallel span (before ++ t :: after))
  | guard {starter : Bool} {s t : Statement} (span : Span) (before : List (Branch Statement))
      (body : Statement) (after : List (Branch Statement)) (h : Within mode R starter s t) :
      Within mode R starter (.choice span (before ++ ⟨s, body⟩ :: after))
        (.choice span (before ++ ⟨t, body⟩ :: after))
  | branch {starter : Bool} {s t : Statement} (span : Span) (before : List (Branch Statement))
      (guard : Statement) (after : List (Branch Statement))
      (h : Within mode R (guard.skeleton.starterAfter mode starter) s t) :
      Within mode R starter (.choice span (before ++ ⟨guard, s⟩ :: after))
        (.choice span (before ++ ⟨guard, t⟩ :: after))
  | arm {starter : Bool} {s t : Statement} (span : Span) (before : List (Arm Statement))
      (condition : Expression) (after : List (Arm Statement)) (otherwise : Option Statement)
      (h : Within mode R (Skeleton.starterAfterAll mode starter (skeletonArms before)) s t) :
      Within mode R starter (.conditional span (before ++ ⟨condition, s⟩ :: after) otherwise)
        (.conditional span (before ++ ⟨condition, t⟩ :: after) otherwise)
  | otherwise {starter : Bool} {s t : Statement} (span : Span) (arms : List (Arm Statement))
      (h : Within mode R (Skeleton.starterAfterAll mode starter (skeletonArms arms)) s t) :
      Within mode R starter (.conditional span arms (some s)) (.conditional span arms (some t))
  | whileLoop {starter : Bool} {s t : Statement} (span : Span) (condition : Expression)
      (h : Within mode R starter s t) :
      Within mode R starter (.whileLoop span condition s) (.whileLoop span condition t)
  | forInit {starter : Bool} {s t : Statement} (span : Span) (condition : Expression)
      (step body : Statement) (h : Within mode R starter s t) :
      Within mode R starter (.forLoop span s condition step body)
        (.forLoop span t condition step body)
  | forBody {starter : Bool} {s t : Statement} (span : Span) (init : Statement)
      (condition : Expression) (step : Statement)
      (h : Within mode R (init.skeleton.starterAfter mode starter) s t) :
      Within mode R starter (.forLoop span init condition step s)
        (.forLoop span init condition step t)
  | forStep {starter : Bool} {s t : Statement} (span : Span) (init : Statement)
      (condition : Expression) (body : Statement)
      (h : Within mode R
        (body.skeleton.starterAfter mode (init.skeleton.starterAfter mode starter)) s t) :
      Within mode R starter (.forLoop span init condition s body)
        (.forLoop span init condition t body)
  | forEach {starter : Bool} {s t : Statement} (span : Span) (key target : Path)
      (h : Within mode R starter s t) :
      Within mode R starter (.forEach span key target s) (.forEach span key target t)
  | scope {starter : Bool} {s t : Statement} (span : Span) (name : String)
      (h : Within mode R starter s t) :
      Within mode R starter (.scope span name s) (.scope span name t)
  | synchronized {starter : Bool} {s t : Statement} (span : Span) (id : String)
      (h : Within mode R starter s t) :
      Within mode R starter (.synchronized span id s) (.synchronized span id t)
  | requestResponse {starter : Bool} {s t : Statement} (span : Span) (operation : String)
      (receive : Option Path) (reply : Option Expression)
      (h : Within mode R ((Skeleton.input span operation receive).starterAfter mode starter) s t) :
      Within mode R starter (.requestResponse span operation receive reply s)
        (.requestResponse span operation receive reply t)
  | spawn {starter : Bool} {s t : Statement} (span : Span) (index : Path) (upperBound : Expression)
      (h : Within mode R starter s t) :
      Within mode R starter (.spawn span index upperBound s) (.spawn span index upperBound t)
  | handler {starter : Bool} {s t : Statement} (span : Span) (before : List (Handler Statement))
      (fault : String) (after : List (Handler Statement)) (h : Within mode R false s t) :
      Within mode R starter (.install span (before ++ ⟨fault, s⟩ :: after))
        (.install span (before ++ ⟨fault, t⟩ :: after))

variable {mode : ExecutionMode} {R : Bool → Statement → Statement → Prop} {starter : Bool}
  {s t : Statement}

/-- What can be changed back can be changed back somewhere in a statement. -/
theorem Within.symm (hR : ∀ {starter s t}, R starter s t → R starter t s)
    (h : Within mode R starter s t) : Within mode R starter t s := by
  induction h with
  | here h => exact .here (hR h)
  | sequence span before after _ ih => exact .sequence span before after ih
  | parallel span before after _ ih => exact .parallel span before after ih
  | guard span before body after _ ih => exact .guard span before body after ih
  | branch span before guard after _ ih => exact .branch span before guard after ih
  | arm span before condition after otherwise _ ih =>
    exact .arm span before condition after otherwise ih
  | otherwise span arms _ ih => exact .otherwise span arms ih
  | whileLoop span condition _ ih => exact .whileLoop span condition ih
  | forInit span condition step body _ ih => exact .forInit span condition step body ih
  | forBody span init condition step _ ih => exact .forBody span init condition step ih
  | forStep span init condition body _ ih => exact .forStep span init condition body ih
  | forEach span key target _ ih => exact .forEach span key target ih
  | scope span name _ ih => exact .scope span name ih
  | synchronized span id _ ih => exact .synchronized span id ih
  | requestResponse span operation receive reply _ ih =>
    exact .requestResponse span operation receive reply ih
  | spawn span index upperBound _ ih => exact .spawn span index upperBound ih
  | handler span before fault after _ ih => exact .handler span before fault after ih

/-! ## The change in the skeleton -/

theorem skeletonAll_eq_map (children : List Statement) :
    skeletonAll children = children.map skeleton := by
  induction children with
  | nil => rfl
  | cons s rest ih => rw [skeletonAll, ih, List.map_cons]

theorem skeletonBranches_eq_map (branches : List (Branch Statement)) :
    skeletonBranches branches =
      branches.map fun b => .sequence [b.guard.skeleton, b.body.skeleton] := by
  induction branches with
  | nil => rfl
  | cons b rest ih => rw [skeletonBranches, ih, List.map_cons]

theorem skeletonArms_eq_map (arms : List (Arm Statement)) :
    skeletonArms arms = arms.map fun a => a.body.skeleton := by
  induction arms with
  | nil => rfl
  | cons a rest ih => rw [skeletonArms, ih, List.map_cons]

theorem skeletonAll_append (children others : List Statement) :
    skeletonAll (children ++ others) = skeletonAll children ++ skeletonAll others := by
  simp only [skeletonAll_eq_map, List.map_append]

theorem skeletonBranches_append (branches others : List (Branch Statement)) :
    skeletonBranches (branches ++ others) =
      skeletonBranches branches ++ skeletonBranches others := by
  simp only [skeletonBranches_eq_map, List.map_append]

theorem skeletonArms_append (arms others : List (Arm Statement)) :
    skeletonArms (arms ++ others) = skeletonArms arms ++ skeletonArms others := by
  simp only [skeletonArms_eq_map, List.map_append]

/-- A change within a statement is one within its skeleton.  A change in a handler does not show
there. -/
theorem Within.skeleton {Q : Bool → Skeleton → Skeleton → Prop}
    (hR : ∀ {starter s t}, R starter s t → Q starter s.skeleton t.skeleton)
    (same : ∀ starter k, Q starter k k) (h : Within mode R starter s t) :
    Skeleton.Within mode Q starter s.skeleton t.skeleton := by
  induction h with
  | here h => exact .here (hR h)
  | sequence span before after _ ih =>
    rw [Statement.skeleton, Statement.skeleton, skeletonAll_append, skeletonAll_append]
    exact .sequence _ _ ih
  | parallel span before after _ ih =>
    rw [Statement.skeleton, Statement.skeleton, skeletonAll_append, skeletonAll_append]
    exact .parallel _ _ ih
  | guard span before body after _ ih =>
    rw [Statement.skeleton, Statement.skeleton, skeletonBranches_append, skeletonBranches_append]
    exact .choice span _ _ (.sequence [] _ ih)
  | branch span before guard after _ ih =>
    rw [Statement.skeleton, Statement.skeleton, skeletonBranches_append, skeletonBranches_append]
    exact .choice span _ _ (.sequence [guard.skeleton] [] ih)
  | arm span before condition after otherwise _ ih =>
    rw [Statement.skeleton, Statement.skeleton, skeletonArms_append, skeletonArms_append,
      List.append_assoc, List.append_assoc]
    exact .conditional span _ _ ih
  | otherwise span arms _ ih =>
    rw [Statement.skeleton, Statement.skeleton]
    exact .conditional span _ [] ih
  | forInit span condition step body _ ih =>
    rw [Statement.skeleton, Statement.skeleton]
    exact .sequence [] _ ih
  | forBody span init condition step _ ih =>
    rw [Statement.skeleton, Statement.skeleton]
    exact .sequence [init.skeleton] [] (.repeated span (.sequence [] [step.skeleton] ih))
  | forStep span init condition body _ ih =>
    rw [Statement.skeleton, Statement.skeleton]
    exact .sequence [init.skeleton] [] (.repeated span (.sequence [body.skeleton] [] ih))
  | whileLoop span _ _ ih | forEach span _ _ _ ih | spawn span _ _ _ ih =>
    rw [Statement.skeleton, Statement.skeleton]
    exact .repeated span ih
  | scope _ _ _ ih | synchronized _ _ _ ih =>
    rw [Statement.skeleton, Statement.skeleton]
    exact ih
  | requestResponse span operation receive _ _ ih =>
    rw [Statement.skeleton, Statement.skeleton]
    exact .sequence [.input span operation receive] [] ih
  | handler =>
    rw [Statement.skeleton, Statement.skeleton]
    exact .here (same _ .idle)

end Statement

end Correlation
