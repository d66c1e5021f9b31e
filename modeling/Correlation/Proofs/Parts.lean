import Correlation.Proofs.Skeleton

/-!
# The parts of a skeleton and their starter flags

A session waits for its first input.  Whether an input is the first one is decided by where it
stands.  The starter flag goes through the parts of a skeleton in the order of the text, also where
the parts run at the same time or only one of them runs.  Two rules are particular:

* every branch of a choice has the flag of the choice, and after a choice the flag is cleared;
* a call leaves the flag as it is, since a definition has a flag of its own.

`starter_check` says that the check of a skeleton leaves the flag that `starterAfter` tells.  The
parts below a skeleton with their flags are its `children`, and `visited` are all parts of it.
-/

namespace Correlation

namespace Skeleton

section Flags

variable (mode : ExecutionMode)

mutual

/-- The starter flag after a skeleton, given the flag before it. -/
def starterAfter : Bool → Skeleton → Bool
  | starter, .input _ _ _ => starter && decide (mode = .single)
  | starter, .sequence parts => starterAfterAll starter parts
  | starter, .parallel parts => starterAfterAll starter parts
  | _, .choice _ _ => false
  | starter, .conditional _ branches => starterAfterAll starter branches
  | starter, .repeated _ body => starterAfter starter body
  | starter, .idle | starter, .request _ _ | starter, .assign _ _ _ | starter, .invalidate _ _
  | starter, .call _ _ => starter

/-- The starter flag after skeletons that hand it on. -/
def starterAfterAll : Bool → List Skeleton → Bool
  | starter, [] => starter
  | starter, x :: rest => starterAfterAll (starterAfter starter x) rest

end

/-- Skeletons that hand the starter flag on, each with the flag that it gets. -/
def flagged : Bool → List Skeleton → List (Bool × Skeleton)
  | _, [] => []
  | starter, x :: rest => (starter, x) :: flagged (starterAfter mode starter x) rest

/-- The parts just below a skeleton, each with its starter flag. -/
def children : Bool → Skeleton → List (Bool × Skeleton)
  | starter, .sequence parts | starter, .parallel parts | starter, .conditional _ parts =>
    flagged mode starter parts
  | starter, .choice _ branches => branches.map fun x => (starter, x)
  | starter, .repeated _ body => [(starter, body)]
  | _, .idle | _, .request _ _ | _, .input _ _ _ | _, .assign _ _ _ | _, .invalidate _ _
  | _, .call _ _ => []

/-- How the parts just below a skeleton take part in its runs. -/
inductive Shape where
  /-- There are no parts. -/
  | leaf
  /-- Every part runs. -/
  | all
  /-- One of the parts runs. -/
  | one
  /-- The only part runs any number of times. -/
  | loop
deriving DecidableEq

/-- The shape of a skeleton. -/
def shape : Skeleton → Shape
  | .sequence _ | .parallel _ => .all
  | .choice _ _ | .conditional _ _ => .one
  | .repeated _ _ => .loop
  | .idle | .request _ _ | .input _ _ _ | .assign _ _ _ | .invalidate _ _ | .call _ _ => .leaf

/-- How the typings of the parts are joined, in the skeletons whose parts share an entry. -/
def join? (starter : Bool) : Skeleton → Option (List Typing → Typing × List Violation)
  | .parallel _ => some Typing.parallel
  | .choice span _ => some (Typing.choice span .choice starter)
  | .conditional span _ => some (Typing.choice span .conditional false)
  | _ => none

mutual

/-- All parts of a skeleton, itself first, each with its starter flag. -/
def visited : Bool → Skeleton → List (Bool × Skeleton)
  | starter, .sequence parts => (starter, .sequence parts) :: visitedAll starter parts
  | starter, .parallel parts => (starter, .parallel parts) :: visitedAll starter parts
  | starter, .choice span branches =>
    (starter, .choice span branches) :: visitedEach starter branches
  | starter, .conditional span branches =>
    (starter, .conditional span branches) :: visitedAll starter branches
  | starter, .repeated span body => (starter, .repeated span body) :: visited starter body
  | starter, .idle => [(starter, .idle)]
  | starter, .request span receive => [(starter, .request span receive)]
  | starter, .input span operation receive => [(starter, .input span operation receive)]
  | starter, .assign span target value => [(starter, .assign span target value)]
  | starter, .invalidate span paths => [(starter, .invalidate span paths)]
  | starter, .call span name => [(starter, .call span name)]

/-- All parts of skeletons that hand the starter flag on. -/
def visitedAll : Bool → List Skeleton → List (Bool × Skeleton)
  | _, [] => []
  | starter, x :: rest => visited starter x ++ visitedAll (starterAfter mode starter x) rest

/-- All parts of skeletons that share the starter flag. -/
def visitedEach : Bool → List Skeleton → List (Bool × Skeleton)
  | _, [] => []
  | starter, x :: rest => visited starter x ++ visitedEach starter rest

end

theorem visitedAll_eq_flatMap (starter : Bool) (parts : List Skeleton) :
    visitedAll mode starter parts =
      (flagged mode starter parts).flatMap fun x => visited mode x.1 x.2 := by
  induction parts generalizing starter with
  | nil => rfl
  | cons x rest ih => rw [visitedAll, flagged, List.flatMap_cons, ih]

theorem visitedEach_eq_flatMap (starter : Bool) (parts : List Skeleton) :
    visitedEach mode starter parts =
      (parts.map fun x => (starter, x)).flatMap fun x => visited mode x.1 x.2 := by
  induction parts with
  | nil => rfl
  | cons x rest ih => rw [visitedEach, List.map_cons, List.flatMap_cons, ih]

/-- The parts of a skeleton are the skeleton itself and the parts of its children. -/
theorem visited_eq (starter : Bool) (k : Skeleton) :
    visited mode starter k =
      (starter, k) :: (children mode starter k).flatMap fun x => visited mode x.1 x.2 := by
  cases k with
  | sequence parts => rw [visited, children, visitedAll_eq_flatMap]
  | parallel parts => rw [visited, children, visitedAll_eq_flatMap]
  | choice span branches => rw [visited, children, visitedEach_eq_flatMap]
  | conditional span branches => rw [visited, children, visitedAll_eq_flatMap]
  | repeated span body => rw [visited, children, List.flatMap_singleton]
  | _ => rw [visited, children, List.flatMap_nil]

variable {mode}

/-- The parts of a skeleton are the skeleton itself and the parts of those just below. -/
theorem mem_visited_iff {starter : Bool} {k : Skeleton} {x : Bool × Skeleton} :
    x ∈ visited mode starter k ↔
      x = (starter, k) ∨ ∃ c ∈ children mode starter k, x ∈ visited mode c.1 c.2 := by
  rw [visited_eq, List.mem_cons, List.mem_flatMap]

theorem mem_visited_self (mode : ExecutionMode) (starter : Bool) (k : Skeleton) :
    (starter, k) ∈ visited mode starter k :=
  mem_visited_iff.mpr (Or.inl rfl)

theorem mem_visited_of_child {starter : Bool} {k : Skeleton} {c x : Bool × Skeleton}
    (hc : c ∈ children mode starter k) (hx : x ∈ visited mode c.1 c.2) :
    x ∈ visited mode starter k :=
  mem_visited_iff.mpr (Or.inr ⟨c, hc, hx⟩)

/-- A call is its only part. -/
theorem forall_visited_call {starter : Bool} {span : Span} {name : String}
    {Q : Bool × Skeleton → Prop} (hQ : Q (starter, .call span name)) :
    ∀ y ∈ visited mode starter (.call span name), Q y := by
  intro y hy
  obtain rfl := List.mem_singleton.mp hy
  exact hQ

theorem exists_of_mem_flagged {starter : Bool} {parts : List Skeleton} {c : Bool × Skeleton}
    (h : c ∈ flagged mode starter parts) : c.2 ∈ parts := by
  induction parts generalizing starter with
  | nil => cases h
  | cons x rest ih =>
    rw [flagged, List.mem_cons] at h
    rcases h with rfl | h
    · exact List.mem_cons_self
    · exact List.mem_cons_of_mem _ (ih h)

theorem children_of_leaf {starter : Bool} {k : Skeleton} (hk : k.shape = .leaf) :
    children mode starter k = [] := by
  cases k with
  | idle | request | input | assign | invalidate | call => rfl
  | _ => cases hk

theorem exists_child_of_loop (mode : ExecutionMode) (starter : Bool) {k : Skeleton}
    (hk : k.shape = .loop) : ∃ c, c ∈ children mode starter k := by
  cases k with
  | repeated span body => exact ⟨(starter, body), List.mem_singleton_self _⟩
  | _ => cases hk

/-! ### A flag that is cleared -/

/-- A cleared flag stays cleared if no part sets it. -/
theorem starterAfterAll_false {parts : List Skeleton}
    (h : ∀ x ∈ parts, starterAfter mode false x = false) :
    starterAfterAll mode false parts = false := by
  induction parts with
  | nil => rfl
  | cons x rest ih =>
    rw [starterAfterAll, h x List.mem_cons_self, ih fun y hy => h y (List.mem_cons_of_mem x hy)]

/-- A flag that is cleared stays so. -/
theorem starterAfter_false (k : Skeleton) : starterAfter mode false k = false := by
  induction k with
  | sequence parts ih | parallel parts ih | conditional span parts ih =>
    exact starterAfterAll_false ih
  | repeated span body ih => exact ih
  | idle | request | input | assign | invalidate | call | choice => rfl

theorem eq_false_of_mem_flagged {parts : List Skeleton} {c : Bool × Skeleton}
    (h : c ∈ flagged mode false parts) : c.1 = false := by
  induction parts with
  | nil => cases h
  | cons x rest ih =>
    rw [flagged, starterAfter_false, List.mem_cons] at h
    rcases h with rfl | h
    · rfl
    · exact ih h

/-- Where the flag is cleared, it is cleared for all parts. -/
theorem eq_false_of_mem_children {k : Skeleton} {c : Bool × Skeleton}
    (h : c ∈ children mode false k) : c.1 = false := by
  cases k with
  | sequence | parallel | conditional => exact eq_false_of_mem_flagged h
  | choice span branches =>
    obtain ⟨x, _, rfl⟩ := List.mem_map.mp h
    rfl
  | repeated span body => exact congrArg Prod.fst (List.mem_singleton.mp h)
  | idle | request | input | assign | invalidate | call => cases h

variable (mode) in
/-- Induction on skeletons together with their starter flags. -/
@[elab_as_elim]
theorem induction_children {motive : Bool → Skeleton → Prop}
    (step : ∀ starter k, (∀ c ∈ children mode starter k, motive c.1 c.2) →
      motive starter k) (starter : Bool) (k : Skeleton) : motive starter k := by
  induction k generalizing starter with
  | sequence parts ih =>
    exact step _ _ fun c hc => ih c.2 (exists_of_mem_flagged hc) c.1
  | parallel parts ih =>
    exact step _ _ fun c hc => ih c.2 (exists_of_mem_flagged hc) c.1
  | choice span branches ih =>
    refine step _ _ fun c hc => ?_
    obtain ⟨x, hx, rfl⟩ := List.mem_map.mp hc
    exact ih x hx starter
  | conditional span branches ih =>
    exact step _ _ fun c hc => ih c.2 (exists_of_mem_flagged hc) c.1
  | repeated span body ih =>
    refine step _ _ fun c hc => ?_
    rw [List.mem_singleton.mp hc]
    exact ih starter
  | _ => exact step _ _ fun c hc => nomatch hc

/-- The parts of a part of a skeleton are parts of the skeleton. -/
theorem visited_subset {starter : Bool} {k : Skeleton} {x : Bool × Skeleton}
    (hx : x ∈ visited mode starter k) : visited mode x.1 x.2 ⊆ visited mode starter k := by
  induction starter, k using induction_children mode with
  | step starter k ih =>
    rcases mem_visited_iff.mp hx with rfl | ⟨c, hc, hx⟩
    · exact fun _ h => h
    · exact fun y hy => mem_visited_of_child hc (ih c hc hx hy)

/-- Below a part whose flag is cleared all flags are. -/
theorem eq_false_of_mem_visited {k : Skeleton} {x : Bool × Skeleton}
    (hx : x ∈ visited mode false k) : x.1 = false := by
  generalize hstarter : false = starter at hx
  induction starter, k using induction_children mode with
  | step starter k ih =>
    subst hstarter
    rcases mem_visited_iff.mp hx with rfl | ⟨c, hc, hx⟩
    · rfl
    · have hclear := eq_false_of_mem_children hc
      exact (ih c hc hclear.symm hx).trans hclear

/-! ## The flag in the check -/

section Check

variable (ctx : Context) (visit : Visit)

/-- The check of a skeleton that has a starter flag of its own. -/
def checkWith (x : Bool × Skeleton) : Check := Check.withStarter x.1 (x.2.check ctx visit)

/-- Parts that are checked one after the other leave the flag that `starterAfterAll` tells. -/
theorem starter_foldl {parts : List Skeleton}
    (h : ∀ x ∈ parts, ∀ entry starter g,
      (x.check ctx visit entry starter g).starter = starterAfter ctx.execution starter x)
    (acc : Sequel × Bool × Progress) :
    ((parts.map (check ctx visit)).foldl Check.followedBy acc).2.1 =
      starterAfterAll ctx.execution acc.2.1 parts := by
  induction parts generalizing acc with
  | nil => rfl
  | cons x rest ih =>
    rw [List.map_cons, List.foldl_cons, ih fun y hy => h y (List.mem_cons_of_mem x hy),
      starterAfterAll]
    exact congrArg (starterAfterAll _ · rest) (h x List.mem_cons_self _ _ _)

/-- Parts that share an entry leave the flag that `starterAfterAll` tells. -/
theorem starter_collect {parts : List Skeleton}
    (h : ∀ x ∈ parts, ∀ entry starter g,
      (x.check ctx visit entry starter g).starter = starterAfter ctx.execution starter x)
    (entry : Typing) (starter : Bool) (g : Progress) :
    (Check.collect entry (parts.map (check ctx visit)) starter g).2.1 =
      starterAfterAll ctx.execution starter parts := by
  induction parts generalizing starter g with
  | nil => rfl
  | cons x rest ih =>
    have hx := h x List.mem_cons_self entry starter g
    have hrest := ih (fun y hy => h y (List.mem_cons_of_mem x hy))
      (x.check ctx visit entry starter g).starter (x.check ctx visit entry starter g).progress
    rw [hx] at hrest
    rw [starterAfterAll, ← hrest, List.map_cons, Check.collect, hx]

/-- The flag after the check of a skeleton depends on the skeleton, the flag and the mode alone. -/
theorem starter_check (k : Skeleton) (entry : Typing) (starter : Bool) (g : Progress) :
    (k.check ctx visit entry starter g).starter = k.starterAfter ctx.execution starter := by
  induction k generalizing entry starter g with
  | input span operation receive =>
    rw [check, Check.input, starterAfter]
    by_cases hmode : ctx.execution = .single
    · simp [hmode]
    · simp [hmode]
  | assign span target value =>
    rw [check, starterAfter]
    by_cases htarget : target.isStatic = true
    · simp only [htarget, if_true]
    · simp only [htarget, if_false, Bool.false_eq_true]
  | sequence parts ih =>
    rw [check, checkAll_eq_map, starterAfter]
    exact starter_foldl ctx visit ih (.start entry, starter, g)
  | parallel parts ih =>
    rw [check, checkAll_eq_map, starterAfter]
    exact starter_collect ctx visit ih entry starter g
  | conditional span branches ih =>
    rw [check, checkAll_eq_map, starterAfter]
    exact starter_collect ctx visit ih entry starter g
  | repeated span body ih => exact ih entry starter g
  | idle | request | invalidate | call | choice => rfl

/-! ## The check of the parts -/

/-- Parts may be checked one after the other with their own flags. -/
theorem foldl_checkWith (parts : List Skeleton) (acc : Sequel × Bool × Progress) :
    (parts.map (check ctx visit)).foldl Check.followedBy acc =
      ((flagged ctx.execution acc.2.1 parts).map (checkWith ctx visit)).foldl Check.followedBy
        acc := by
  induction parts generalizing acc with
  | nil => rfl
  | cons x rest ih =>
    rw [List.map_cons, List.foldl_cons, ih, flagged, List.map_cons, List.foldl_cons,
      ← starter_check ctx visit x acc.1.running acc.2.1 acc.2.2]
    rfl

/-- Parts that share an entry may be checked with their own flags. -/
theorem collect_checkWith (entry : Typing) (parts : List Skeleton) (starter : Bool) (g : Progress) :
    Check.collect entry (parts.map (check ctx visit)) starter g =
      Check.collect entry ((flagged ctx.execution starter parts).map (checkWith ctx visit)) starter
        g := by
  induction parts generalizing starter g with
  | nil => rfl
  | cons x rest ih =>
    rw [List.map_cons, Check.collect, ih, flagged, List.map_cons, Check.collect,
      ← starter_check ctx visit x entry starter g]
    rfl

/-- A sequence checks the parts just below it one after the other, each with its flag. -/
theorem check_sequence (parts : List Skeleton) (entry : Typing) (starter : Bool) (g : Progress) :
    let acc := ((flagged ctx.execution starter parts).map (checkWith ctx visit)).foldl
      Check.followedBy (.start entry, starter, g)
    ((Skeleton.sequence parts).check ctx visit entry starter g).typing = acc.1.result ∧
      ((Skeleton.sequence parts).check ctx visit entry starter g).progress =
        acc.2.2.report acc.1.violations := by
  rw [check, checkAll_eq_map, Check.sequence, foldl_checkWith]
  exact ⟨rfl, rfl⟩

/-- A skeleton that joins typings checks the parts just below it with its own entry, each with its
flag. -/
theorem check_join {k : Skeleton} {starter : Bool} {join : List Typing → Typing × List Violation}
    (hk : join? starter k = some join) (entry : Typing) (g : Progress) :
    let acc := Check.collect entry ((children ctx.execution starter k).map (checkWith ctx visit))
      starter g
    (k.check ctx visit entry starter g).typing = (join acc.1).1 ∧
      (k.check ctx visit entry starter g).progress = acc.2.2.report (join acc.1).2 := by
  cases k with
  | parallel parts =>
    cases hk
    rw [check, checkAll_eq_map, Check.parallel, Check.joined, collect_checkWith]
    exact ⟨rfl, rfl⟩
  | conditional span branches =>
    cases hk
    rw [check, checkAll_eq_map, Check.conditional, Check.joined, collect_checkWith]
    exact ⟨rfl, rfl⟩
  | choice span branches =>
    cases hk
    rw [check, checkAll_eq_map, Check.choice, children, List.map_map, List.map_map]
    exact ⟨rfl, rfl⟩
  | _ => cases hk

end Check

end Flags

end Skeleton

end Correlation
