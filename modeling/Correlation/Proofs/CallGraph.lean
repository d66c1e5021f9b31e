import Correlation.Proofs.Verdicts
import Mathlib.Data.List.Chain
import Mathlib.Logic.Relation

/-!
# The call graph

The declared names of a program are the nodes of a graph.  An edge leads from a name to those that
the body of its first definition calls, and from `main` to `init`, which runs before it
(`Program.callees`).  What a handler calls does not count, since handlers are not checked.

The calls of a statement are the calls among the parts of its skeleton (`calls_eq_visited`), so the
edges are what `Context.Calls` says of declared names (`Program.calls_iff`).  A settled table ranks
callees below their callers, and then no walk along the edges comes back to where it started
(`Program.not_transGen_calls`).
-/

namespace Correlation

/-! ## Calls in the text -/

namespace Statement

mutual

/-- The names that a statement calls, in the order of the text.  Handlers are left out. -/
def calls : Statement → List String
  | .sequence _ children => callsAll children
  | .parallel _ children => callsAll children
  | .choice _ branches => callsBranches branches
  | .conditional _ arms otherwise => callsArms arms ++ callsElse otherwise
  | .whileLoop _ _ body => calls body
  | .forLoop _ init _ step body => calls init ++ (calls body ++ calls step)
  | .forEach _ _ _ body => calls body
  | .scope _ _ body => calls body
  | .synchronized _ _ body => calls body
  | .call _ name => [name]
  | .requestResponse _ _ _ _ body => calls body
  | .spawn _ _ _ body => calls body
  | .oneWay _ _ _ | .solicitResponse _ _ _ _ _ | .notification _ _ _ _ | .assign _ _ _
  | .compoundAssign _ _ _ _ | .update _ _ _ | .pointer _ _ _ | .deepCopy _ _ _ | .undefine _ _
  | .nothing _ | .throw _ _ | .exit _ | .install _ _ | .compensate _ _ | .linkIn _ _
  | .linkOut _ _ | .run _ _ | .currentHandler _ => []

/-- The names that statements call. -/
def callsAll : List Statement → List String
  | [] => []
  | s :: rest => calls s ++ callsAll rest

/-- The names that the branches of a choice call. -/
def callsBranches : List (Branch Statement) → List String
  | [] => []
  | ⟨guard, body⟩ :: rest => (calls guard ++ calls body) ++ callsBranches rest

/-- The names that conditional branches call. -/
def callsArms : List (Arm Statement) → List String
  | [] => []
  | ⟨_, body⟩ :: rest => calls body ++ callsArms rest

/-- The names that the last branch calls. -/
def callsElse : Option Statement → List String
  | none => []
  | some body => calls body

end

end Statement

namespace Skeleton

/-- The name that a skeleton calls by itself. -/
def callee? : Skeleton → Option String
  | .call _ name => some name
  | _ => none

theorem callee?_eq_some_iff {k : Skeleton} {name : String} :
    k.callee? = some name ↔ ∃ span, k = .call span name := by
  constructor
  · intro h
    cases k with
    | call span other =>
      obtain rfl := Option.some.inj h
      exact ⟨span, rfl⟩
    | _ => cases h
  · rintro ⟨span, rfl⟩
    rfl

section Calls

variable (mode : ExecutionMode)

/-- The names that a skeleton with its parts calls. -/
def calls (starter : Bool) (k : Skeleton) : List String :=
  (visited mode starter k).filterMap fun x => x.2.callee?

/-- The names that skeletons call that hand the starter flag on. -/
def callsAll (starter : Bool) (parts : List Skeleton) : List String :=
  (visitedAll mode starter parts).filterMap fun x => x.2.callee?

variable {mode} in
/-- A skeleton calls what one of its parts calls. -/
theorem mem_calls_iff {starter : Bool} {k : Skeleton} {name : String} :
    name ∈ calls mode starter k ↔
      ∃ x ∈ visited mode starter k, ∃ span, x.2 = .call span name := by
  simp only [calls, List.mem_filterMap, callee?_eq_some_iff]

theorem callsAll_nil (starter : Bool) : callsAll mode starter [] = [] := rfl

theorem callsAll_cons (starter : Bool) (x : Skeleton) (rest : List Skeleton) :
    callsAll mode starter (x :: rest) =
      calls mode starter x ++ callsAll mode (starterAfter mode starter x) rest := by
  rw [callsAll, visitedAll, List.filterMap_append]
  rfl

theorem callsAll_append (starter : Bool) (parts others : List Skeleton) :
    callsAll mode starter (parts ++ others) =
      callsAll mode starter parts ++ callsAll mode (starterAfterAll mode starter parts) others := by
  induction parts generalizing starter with
  | nil => rfl
  | cons x rest ih =>
    rw [List.cons_append, callsAll_cons, callsAll_cons, ih, starterAfterAll, List.append_assoc]

end Calls

end Skeleton

namespace Statement

section Calls

variable (mode : ExecutionMode)

mutual

/-- The calls of a statement are those of its skeleton. -/
theorem calls_eq_skeleton (starter : Bool) :
    ∀ s : Statement, s.calls = s.skeleton.calls mode starter
  | .sequence _ children => by
      rw [calls, callsAll_eq_skeleton starter children]
      rfl
  | .parallel _ children => by
      rw [calls, callsAll_eq_skeleton starter children]
      rfl
  | .choice _ branches => by
      rw [calls, callsBranches_eq_skeleton starter branches]
      rfl
  | .conditional span arms otherwise => by
      rw [calls, callsArms_eq_skeleton starter arms, callsElse_eq_skeleton _ otherwise]
      show _ = Skeleton.callsAll mode starter (skeletonArms arms ++ [skeletonElse otherwise])
      rw [Skeleton.callsAll_append, Skeleton.callsAll_cons, Skeleton.callsAll_nil, List.append_nil]
  | .whileLoop _ _ body => by
      rw [calls, calls_eq_skeleton starter body]
      rfl
  | .forLoop _ init _ step body => by
      rw [calls, calls_eq_skeleton starter init, calls_eq_skeleton _ body,
        calls_eq_skeleton _ step]
      show _ = Skeleton.callsAll mode starter [skeleton init, _]
      rw [Skeleton.callsAll_cons, Skeleton.callsAll_cons, Skeleton.callsAll_nil, List.append_nil]
      show _ = _ ++ Skeleton.callsAll mode _ [skeleton body, skeleton step]
      rw [Skeleton.callsAll_cons, Skeleton.callsAll_cons, Skeleton.callsAll_nil, List.append_nil]
  | .forEach _ _ _ body => by
      rw [calls, calls_eq_skeleton starter body]
      rfl
  | .scope _ _ body => by
      rw [calls, calls_eq_skeleton starter body]
      rfl
  | .synchronized _ _ body => by
      rw [calls, calls_eq_skeleton starter body]
      rfl
  | .requestResponse span operation receive _ body => by
      rw [calls, calls_eq_skeleton _ body]
      show _ = Skeleton.callsAll mode starter [.input span operation receive, skeleton body]
      rw [Skeleton.callsAll_cons, Skeleton.callsAll_cons, Skeleton.callsAll_nil, List.append_nil]
      rfl
  | .spawn _ _ _ body => by
      rw [calls, calls_eq_skeleton starter body]
      rfl
  | .call _ _ | .oneWay _ _ _ | .solicitResponse _ _ _ _ _ | .notification _ _ _ _
  | .assign _ _ _ | .compoundAssign _ _ _ _ | .update _ _ _ | .pointer _ _ _ | .deepCopy _ _ _
  | .undefine _ _ | .nothing _ | .throw _ _ | .exit _ | .install _ _ | .compensate _ _
  | .linkIn _ _ | .linkOut _ _ | .run _ _ | .currentHandler _ => by
      rw [calls]
      rfl

/-- Statements call what their skeletons call. -/
theorem callsAll_eq_skeleton (starter : Bool) : ∀ children : List Statement,
    callsAll children = Skeleton.callsAll mode starter (skeletonAll children)
  | [] => rfl
  | s :: rest => by
      rw [callsAll, skeletonAll, Skeleton.callsAll_cons, calls_eq_skeleton starter s,
        callsAll_eq_skeleton _ rest]

theorem callsBranches_eq_skeleton (starter : Bool) : ∀ branches : List (Branch Statement),
    callsBranches branches =
      (Skeleton.visitedEach mode starter (skeletonBranches branches)).filterMap
        fun x => x.2.callee?
  | [] => rfl
  | ⟨guard, body⟩ :: rest => by
      rw [callsBranches, skeletonBranches, Skeleton.visitedEach, List.filterMap_append,
        ← callsBranches_eq_skeleton starter rest, calls_eq_skeleton starter guard,
        calls_eq_skeleton _ body]
      refine congrArg (· ++ callsBranches rest) ?_
      show _ = Skeleton.callsAll mode starter [skeleton guard, skeleton body]
      rw [Skeleton.callsAll_cons, Skeleton.callsAll_cons, Skeleton.callsAll_nil, List.append_nil]

theorem callsArms_eq_skeleton (starter : Bool) : ∀ arms : List (Arm Statement),
    callsArms arms = Skeleton.callsAll mode starter (skeletonArms arms)
  | [] => rfl
  | ⟨_, body⟩ :: rest => by
      rw [callsArms, skeletonArms, Skeleton.callsAll_cons, calls_eq_skeleton starter body,
        callsArms_eq_skeleton _ rest]

theorem callsElse_eq_skeleton (starter : Bool) : ∀ otherwise : Option Statement,
    callsElse otherwise = (skeletonElse otherwise).calls mode starter
  | none => rfl
  | some body => by rw [callsElse, skeletonElse, calls_eq_skeleton starter body]

end

end Calls

end Statement

/-! ## The graph -/

namespace OrderedSet

variable {α κ : Type} [DecidableEq κ] {key : α → κ}

theorem find?_foldl_insertNew (s : OrderedSet key) (as : List α) (k : κ) :
    (as.foldl insertNew s).find? k = (s.find? k).or (as.find? fun a => decide (key a = k)) := by
  induction as generalizing s with
  | nil => rw [List.foldl_nil, List.find?_nil, Option.or_none]
  | cons a rest ih =>
    rw [List.foldl_cons, ih, find?_insertNew, List.find?_cons]
    by_cases hfound : k ∈ s.keys
    · rw [if_neg fun h => h.2 hfound]
      obtain ⟨b, hb⟩ := Option.ne_none_iff_exists'.mp fun h => find?_eq_none_iff.mp h hfound
      rw [hb, Option.some_or, Option.some_or]
    · rw [find?_eq_none_iff.mpr hfound]
      by_cases hkey : key a = k
      · rw [if_pos ⟨hkey, hfound⟩, decide_eq_true hkey]
        rfl
      · rw [if_neg fun h => hkey h.1, decide_eq_false hkey]

/-- Of the elements with a key the first one is found. -/
theorem find?_firsts (as : List α) (k : κ) :
    (firsts as : OrderedSet key).find? k = as.find? fun a => decide (key a = k) :=
  (find?_foldl_insertNew empty as k).trans (Option.none_or)

end OrderedSet

namespace Program

/-- The definition of a name.  Of several ones the first counts. -/
def definition? (program : Program) (name : String) : Option Definition :=
  program.definitions.find? fun d => decide (d.name = name)

/-- The declared names that run when a definition does: those that its body calls, and `init` if the
definition is `main`. -/
def callees (program : Program) (name : String) : List String :=
  match program.definition? name with
  | none => []
  | some d =>
    (d.body.calls ++ if name = mainName then [initName] else []).filter fun callee =>
      (program.definition? callee).isSome

/-- A definition runs another one. -/
def Calls (program : Program) (caller callee : String) : Prop := callee ∈ program.callees caller

instance (program : Program) (caller callee : String) : Decidable (program.Calls caller callee) :=
  inferInstanceAs (Decidable (callee ∈ program.callees caller))

variable {program : Program} {mode : Option ExecutionMode} {caller callee : String}

/-- A program is checked with the first definition of each name. -/
theorem find?_definitions (program : Program) (mode : Option ExecutionMode) (name : String) :
    (program.context mode).definitions.find? name = program.definition? name :=
  OrderedSet.find?_firsts program.definitions name

/-- The edges from a declared name are the calls of its definition that lead to declared names. -/
theorem calls_iff {d : Definition}
    (hd : (program.context mode).definitions.find? caller = some d) :
    program.Calls caller callee ↔ callee ∈ (program.context mode).definitions.keys ∧
      (program.context mode).Calls d callee := by
  have hdeclared : (program.definition? callee).isSome = true ↔
      callee ∈ (program.context mode).definitions.keys := by
    rw [← find?_definitions program mode, OrderedSet.isSome_find?,
      OrderedSet.contains_iff_mem_keys]
  have hbody : callee ∈ d.body.calls ↔
      ∃ x ∈ (program.context mode).partsOf d, ∃ span, x.2 = .call span callee := by
    rw [Statement.calls_eq_skeleton (program.context mode).execution
      ((program.context mode).startsSession d) d.body]
    exact Skeleton.mem_calls_iff
  have hmain : (callee ∈ if caller = mainName then [initName] else []) ↔
      caller = mainName ∧ callee = initName := by
    split <;> simp_all
  rw [Calls, callees, ← find?_definitions program mode, hd, List.mem_filter, List.mem_append,
    hdeclared, hbody, hmain, and_comm, Context.Calls, Context.name_of_find? hd]

/-- Edges start and end at declared names. -/
theorem Calls.declared (h : program.Calls caller callee) (mode : Option ExecutionMode) :
    ∃ d, (program.context mode).definitions.find? caller = some d ∧
      callee ∈ (program.context mode).definitions.keys ∧ (program.context mode).Calls d callee := by
  cases hd : (program.context mode).definitions.find? caller with
  | none =>
    rw [find?_definitions] at hd
    rw [Calls, callees, hd] at h
    cases h
  | some d => exact ⟨d, rfl, (calls_iff hd).mp h⟩

/-- A settled table ranks callees below their callers, so no walk comes back. -/
theorem not_transGen_calls {table : NameTable Typing} (h : (program.context mode).Settled table)
    (name : String) : ¬ Relation.TransGen program.Calls name name := by
  have hedge : ∀ caller callee, program.Calls caller callee →
      table.keys.idxOf callee < table.keys.idxOf caller := by
    intro caller callee hcalls
    obtain ⟨d, hd, hdeclared, hbody⟩ := hcalls.declared mode
    obtain rfl := Context.name_of_find? hd
    exact h.ranked d hd callee hdeclared hbody
  have hwalk : ∀ other, Relation.TransGen program.Calls name other →
      table.keys.idxOf other < table.keys.idxOf name := by
    intro other hother
    induction hother with
    | single hcalls => exact hedge name _ hcalls
    | tail _ hcalls ih => exact (hedge _ _ hcalls).trans ih
  exact fun hname => Nat.lt_irrefl _ (hwalk name hname)

end Program

end Correlation
