import Correlation.Proofs.Erasure
import Correlation.Proofs.Judgement
import Correlation.Proofs.Progress

/-!
# The outline of a program

The *outline* of a program has no spans and no file name, and those parts of statements that a check
passes over are replaced by parts that are always the same: conditions, names of scopes, what
messages carry, alias paths, and so on (`Statement.outline`).  An assigned expression is replaced by
one that initialises the target in the same way.

A check of a program and a check of its outline go through the same steps, and differ by spans alone
(`Program.eraseSpans_check`).  Hence two programs with one outline get the same verdict up to spans.
The proof follows the check: typings are put together alike (`Proofs/Erasure`), then checks are, by
induction on skeletons (`Skeleton.erases_check`), then definitions, by induction on how many of them
may still be entered (`Context.visitWithin_outline`).
-/

namespace Correlation

/-! ## Outlines -/

/-- The initialiser without spans. -/
def Initializer.eraseSpans : Initializer → Initializer
  | .update path => .update path.eraseSpans
  | .copy path => .copy path.eraseSpans
  | .constant => .constant
  | .fresh => .fresh
  | .other => .other

/-- An expression for every initialiser. -/
def Initializer.expression : Initializer → Expression
  | .constant => .int 0
  | .update path => .update path .preIncrement
  | .copy path => .variable path
  | .fresh => .fresh
  | .other => .sum []

/-- A path that is always the same. -/
def anyPath : Path := ⟨⟨false, []⟩, .unknown⟩

/-- Where a message is stored, if that is a correlation variable. -/
def receiveOutline (receive : Option Path) : Option Path :=
  (receive.filter Path.isCorrelation).map Path.eraseSpans

/-- A condition, a bound or a message that is always the same. -/
def anyExpression : Expression := .bool true

namespace Statement

mutual

/-- The outline of a statement: without spans, and without what its check passes over. -/
def outline : Statement → Statement
  | .sequence _ children => .sequence .unknown (outlineAll children)
  | .parallel _ children => .parallel .unknown (outlineAll children)
  | .choice _ branches => .choice .unknown (outlineBranches branches)
  | .conditional _ arms otherwise =>
    .conditional .unknown (outlineArms arms) (outlineElse otherwise)
  | .whileLoop _ _ body => .whileLoop .unknown anyExpression (outline body)
  | .forLoop _ init _ step body =>
    .forLoop .unknown (outline init) anyExpression (outline step) (outline body)
  | .forEach _ _ _ body => .forEach .unknown anyPath anyPath (outline body)
  | .scope _ _ body => .scope .unknown "" (outline body)
  | .synchronized _ _ body => .synchronized .unknown "" (outline body)
  | .call _ name => .call .unknown name
  | .oneWay _ operation receive => .oneWay .unknown operation (receiveOutline receive)
  | .requestResponse _ operation receive _ body =>
    .requestResponse .unknown operation (receiveOutline receive) none (outline body)
  | .solicitResponse _ _ _ _ receive =>
    .solicitResponse .unknown "" "" none (receiveOutline receive)
  | .notification _ _ _ _ => .notification .unknown "" "" none
  | .assign _ target value =>
    .assign .unknown target.eraseSpans value.initializer.eraseSpans.expression
  | .compoundAssign _ _ _ _ => .compoundAssign .unknown anyPath .add anyExpression
  | .update _ _ _ => .update .unknown anyPath .preIncrement
  | .pointer _ left right => .pointer .unknown left.eraseSpans right.eraseSpans
  | .deepCopy _ left right => .deepCopy .unknown left.eraseSpans right.eraseSpans
  | .undefine _ path => .undefine .unknown path.eraseSpans
  | .nothing _ => .nothing .unknown
  | .throw _ _ => .throw .unknown ""
  | .exit _ => .exit .unknown
  | .install _ _ => .install .unknown []
  | .compensate _ _ => .compensate .unknown ""
  | .spawn _ _ _ body => .spawn .unknown anyPath anyExpression (outline body)
  | .linkIn _ _ => .linkIn .unknown ""
  | .linkOut _ _ => .linkOut .unknown ""
  | .run _ _ => .run .unknown anyExpression
  | .currentHandler _ => .currentHandler .unknown

/-- The outlines of statements. -/
def outlineAll : List Statement → List Statement
  | [] => []
  | s :: rest => outline s :: outlineAll rest

/-- The outlines of the branches of a choice. -/
def outlineBranches : List (Branch Statement) → List (Branch Statement)
  | [] => []
  | ⟨guard, body⟩ :: rest => ⟨outline guard, outline body⟩ :: outlineBranches rest

/-- The outlines of conditional branches. -/
def outlineArms : List (Arm Statement) → List (Arm Statement)
  | [] => []
  | ⟨_, body⟩ :: rest => ⟨anyExpression, outline body⟩ :: outlineArms rest

/-- The outline of the last branch. -/
def outlineElse : Option Statement → Option Statement
  | none => none
  | some body => some (outline body)

end

end Statement

/-- The outline of a definition. -/
def Definition.outline (d : Definition) : Definition := ⟨.unknown, d.name, d.body.outline⟩

/-- The outline of an alias: its operation. -/
def CorrelationAlias.outline (a : CorrelationAlias) : CorrelationAlias := ⟨a.operation, anyPath⟩

/-- The outline of a variable of a correlation set. -/
def CorrelationVariable.outline (v : CorrelationVariable) : CorrelationVariable :=
  ⟨v.path.eraseSpans, v.aliases.map CorrelationAlias.outline⟩

/-- The outline of a correlation set. -/
def CorrelationSet.outline (s : CorrelationSet) : CorrelationSet :=
  ⟨.unknown, s.name, s.members.map CorrelationVariable.outline⟩

/-- The outline of a program. -/
def Program.outline (p : Program) : Program :=
  ⟨"", p.execution, p.correlationSets.map CorrelationSet.outline,
    p.definitions.map Definition.outline⟩

/-! ## Skeletons of outlines -/

namespace Skeleton

mutual

/-- The skeleton without spans, and without messages that are stored in data. -/
def eraseSpans : Skeleton → Skeleton
  | .idle => .idle
  | .request _ receive => .request .unknown (receiveOutline receive)
  | .input _ operation receive => .input .unknown operation (receiveOutline receive)
  | .assign _ target value => .assign .unknown target.eraseSpans value.eraseSpans
  | .invalidate _ paths => .invalidate .unknown (paths.map Path.eraseSpans)
  | .call _ name => .call .unknown name
  | .sequence parts => .sequence (eraseSpansAll parts)
  | .parallel parts => .parallel (eraseSpansAll parts)
  | .choice _ branches => .choice .unknown (eraseSpansAll branches)
  | .conditional _ branches => .conditional .unknown (eraseSpansAll branches)
  | .repeated _ body => .repeated .unknown (eraseSpans body)

/-- The skeletons without spans. -/
def eraseSpansAll : List Skeleton → List Skeleton
  | [] => []
  | x :: rest => eraseSpans x :: eraseSpansAll rest

end

theorem eraseSpansAll_eq_map (parts : List Skeleton) :
    eraseSpansAll parts = parts.map eraseSpans := by
  induction parts with
  | nil => rfl
  | cons x rest ih => rw [eraseSpansAll, ih, List.map_cons]

end Skeleton

/-- The expression of an initializer is initialised as the initializer says. -/
theorem Initializer.initializer_expression (i : Initializer) : i.expression.initializer = i := by
  cases i <;> rfl

namespace Statement

open Skeleton (eraseSpansAll_eq_map)

mutual

/-- The skeleton of an outline is the skeleton without spans. -/
theorem skeleton_outline : ∀ s : Statement, s.outline.skeleton = s.skeleton.eraseSpans
  | .sequence _ children | .parallel _ children => by
      rw [outline, skeleton, skeleton, Skeleton.eraseSpans, skeletonAll_outline children]
  | .choice _ branches => by
      rw [outline, skeleton, skeleton, Skeleton.eraseSpans, skeletonBranches_outline branches]
  | .conditional _ arms otherwise => by
      rw [outline, skeleton, skeleton, Skeleton.eraseSpans, skeletonArms_outline arms,
        skeletonElse_outline otherwise, eraseSpansAll_eq_map, eraseSpansAll_eq_map, List.map_append,
        List.map_cons, List.map_nil]
  | .whileLoop _ _ body | .forEach _ _ _ body | .spawn _ _ _ body => by
      rw [outline, skeleton, skeleton, Skeleton.eraseSpans, skeleton_outline body]
  | .forLoop _ init _ step body => by
      simp only [outline, skeleton, Skeleton.eraseSpans, Skeleton.eraseSpansAll,
        skeleton_outline init, skeleton_outline step, skeleton_outline body]
  | .scope _ _ body | .synchronized _ _ body => by
      rw [outline, skeleton, skeleton, skeleton_outline body]
  | .requestResponse _ _ _ _ body => by
      simp only [outline, skeleton, Skeleton.eraseSpans, Skeleton.eraseSpansAll,
        skeleton_outline body]
  | .assign _ _ value => by
      rw [outline, skeleton, skeleton, Skeleton.eraseSpans, Initializer.initializer_expression]
  | .call _ _ | .oneWay _ _ _ | .solicitResponse _ _ _ _ _ | .pointer _ _ _ | .deepCopy _ _ _
  | .undefine _ _ => by
      simp only [outline, skeleton, Skeleton.eraseSpans, List.map_cons, List.map_nil]
  | .notification _ _ _ _ | .compoundAssign _ _ _ _ | .update _ _ _ | .nothing _ | .throw _ _
  | .exit _ | .install _ _ | .compensate _ _ | .linkIn _ _ | .linkOut _ _ | .run _ _
  | .currentHandler _ => by rw [outline, skeleton, skeleton, Skeleton.eraseSpans]

/-- The skeletons of outlined statements are those of the statements without spans. -/
theorem skeletonAll_outline : ∀ children : List Statement,
    skeletonAll (outlineAll children) = Skeleton.eraseSpansAll (skeletonAll children)
  | [] => rfl
  | s :: rest => by
      rw [outlineAll, skeletonAll, skeletonAll, Skeleton.eraseSpansAll, skeleton_outline s,
        skeletonAll_outline rest]

theorem skeletonBranches_outline : ∀ branches : List (Branch Statement),
    skeletonBranches (outlineBranches branches) =
      Skeleton.eraseSpansAll (skeletonBranches branches)
  | [] => rfl
  | ⟨guard, body⟩ :: rest => by
      simp only [outlineBranches, skeletonBranches, Skeleton.eraseSpansAll, Skeleton.eraseSpans,
        skeleton_outline guard, skeleton_outline body, skeletonBranches_outline rest]

theorem skeletonArms_outline : ∀ arms : List (Arm Statement),
    skeletonArms (outlineArms arms) = Skeleton.eraseSpansAll (skeletonArms arms)
  | [] => rfl
  | ⟨_, body⟩ :: rest => by
      rw [outlineArms, skeletonArms, skeletonArms, Skeleton.eraseSpansAll, skeleton_outline body,
        skeletonArms_outline rest]

theorem skeletonElse_outline : ∀ otherwise : Option Statement,
    skeletonElse (outlineElse otherwise) = (skeletonElse otherwise).eraseSpans
  | none => by rw [outlineElse, skeletonElse, Skeleton.eraseSpans]
  | some body => by rw [outlineElse, skeletonElse, skeletonElse, skeleton_outline body]

end

end Statement

/-! ## Routing -/

namespace Routing

/-- The routing of the outlines of correlation sets. -/
def outline (r : Routing) : Routing :=
  { r with sets := r.sets.modify CorrelationSet.outline fun _ => rfl }

/-- A routing without spans, and violations without spans. -/
def outlineBoth (r : Routing × List Violation) : Routing × List Violation :=
  (r.1.outline, r.2.map Violation.eraseSpans)

/-- An operation is claimed for a set alike, whether the routing is outlined or not. -/
theorem claim_outline (r : Routing) (operation set : String) :
    r.outline.claim operation set =
      match r.claim operation set with
      | .ok r => .ok r.outline
      | .error cause => .error cause.eraseSpans := by
  have howners : r.outline.owners = r.owners := rfl
  rw [claim, claim, howners]
  cases r.owners.get? operation with
  | none => rfl
  | some owner =>
    by_cases howner : owner = set
    · simp only [howner, if_true]
    · simp only [howner, if_false]
      rfl

theorem outlineBoth_addAlias (set : CorrelationSet) (acc : Routing × List Violation)
    (entry : CorrelationAlias) : outlineBoth (addAlias set acc entry) =
      addAlias set.outline (outlineBoth acc) entry.outline := by
  have hclaim : (outlineBoth acc).1.claim entry.outline.operation set.outline.name =
      match acc.1.claim entry.operation set.name with
      | .ok r => .ok r.outline
      | .error cause => .error cause.eraseSpans := claim_outline _ _ _
  rw [addAlias, addAlias, hclaim]
  cases acc.1.claim entry.operation set.name with
  | ok r => rfl
  | error cause =>
    simp only [outlineBoth, List.map_append]
    rfl

theorem outlineBoth_addSet (acc : Routing × List Violation) (set : CorrelationSet) :
    outlineBoth (addSet acc set) = addSet (outlineBoth acc) set.outline := by
  have hname : ∀ set : CorrelationSet, set.outline.name = set.name := fun _ => rfl
  have hfind : (outlineBoth acc).1.sets.find? set.outline.name =
      (acc.1.sets.find? set.name).map CorrelationSet.outline :=
    OrderedSet.find?_modify acc.1.sets _ hname _
  rw [addSet, addSet, hfind]
  cases acc.1.sets.find? set.name with
  | some previous =>
    simp only [outlineBoth, List.map_append]
    rfl
  | none =>
    have haliases : set.outline.members.flatMap CorrelationVariable.aliases =
        (set.members.flatMap CorrelationVariable.aliases).map CorrelationAlias.outline := by
      rw [CorrelationSet.outline, List.flatMap_map, List.map_flatMap]
      rfl
    have hinsert : outlineBoth ({ acc.1 with sets := acc.1.sets.insert set }, acc.2) =
        ({ acc.1.outline with sets := acc.1.outline.sets.insert set.outline },
          (outlineBoth acc).2) := by
      simp only [outlineBoth, outline, OrderedSet.modify_insert hname]
    refine (foldl_hom outlineBoth CorrelationAlias.outline (outlineBoth_addAlias set) _ _).trans ?_
    simp only [Option.map_none, haliases, hinsert]
    rfl

/-- The outlines of correlation sets declare the outline of the routing. -/
theorem outlineBoth_ofSets (sets : List CorrelationSet) :
    outlineBoth (ofSets sets) = ofSets (sets.map CorrelationSet.outline) :=
  foldl_hom outlineBoth CorrelationSet.outline outlineBoth_addSet sets (empty, [])

/-- An operation is routed by the outline of the same set. -/
theorem setFor_outline (r : Routing) (operation : String) :
    r.outline.setFor operation = (r.setFor operation).map CorrelationSet.outline := by
  have howners : r.outline.owners = r.owners := rfl
  rw [setFor, setFor, howners]
  cases r.owners.get? operation with
  | none => rfl
  | some owner => exact OrderedSet.find?_modify r.sets CorrelationSet.outline (fun _ => rfl) owner

end Routing

namespace Context

/-- The context of an outline. -/
def outline (ctx : Context) : Context :=
  ⟨ctx.execution, ctx.routing.outline, ctx.definitions.modify Definition.outline fun _ => rfl⟩

end Context

/-! ## Checks -/

/-- The progress without spans. -/
def Progress.eraseSpans (g : Progress) : Progress :=
  { g with
    violations := g.violations.map Violation.eraseSpans
    typings := g.typings.modify (fun e => (e.1, e.2.eraseSpans)) fun _ => rfl }

/-- The outcome without spans. -/
def Outcome.eraseSpans (o : Outcome) : Outcome :=
  ⟨o.typing.eraseSpans, o.starter, o.progress.eraseSpans⟩

/-- A check that goes on as another one does when spans are erased. -/
def Check.Erases (check outlined : Check) : Prop := ∀ entry starter g,
  (check entry starter g).eraseSpans = outlined entry.eraseSpans starter g.eraseSpans

/-- A call that goes on as another one does when spans are erased. -/
def Visit.Erases (visit outlined : Visit) : Prop := ∀ span name g,
  ((visit span name g).1.eraseSpans, (visit span name g).2.eraseSpans) =
    outlined .unknown name g.eraseSpans

@[simp] theorem Progress.eraseSpans_report (g : Progress) (vs : List Violation) :
    (g.report vs).eraseSpans = g.eraseSpans.report (vs.map Violation.eraseSpans) := by
  simp only [eraseSpans, report, List.map_append]

namespace Check

variable {checks outlined : List Check} {check other : Check}

/-- A check that does nothing but report erases if its typing and its violations do. -/
theorem erases_pure {typing typing' : Typing} {vs vs' : List Violation}
    (htyping : typing.eraseSpans = typing') (hvs : vs.map Violation.eraseSpans = vs') :
    Erases (pure typing vs) (pure typing' vs') := by
  intro entry starter g
  simp only [pure, Outcome.eraseSpans, Progress.eraseSpans_report, htyping, hvs]

/-- A sequence and the flag and progress, without spans. -/
def eraseAcc (acc : Sequel × Bool × Progress) : Sequel × Bool × Progress :=
  (acc.1.eraseSpans, acc.2.1, acc.2.2.eraseSpans)

section Lists

variable (h : List.Forall₂ Erases checks outlined)

include h

/-- Checks one after the other erase if each of them does. -/
theorem foldl_erases (acc : Sequel × Bool × Progress) :
    eraseAcc (checks.foldl followedBy acc) = outlined.foldl followedBy (eraseAcc acc) := by
  induction h generalizing acc with
  | nil => rfl
  | @cons c c' rest rest' hc _ ih =>
    have hstep : eraseAcc (followedBy acc c) = followedBy (eraseAcc acc) c' := by
      rw [followedBy, followedBy, eraseAcc, Sequel.eraseSpans_append]
      exact congrArg (fun o : Outcome =>
        (acc.1.eraseSpans.append o.typing, o.starter, o.progress))
          (hc acc.1.running acc.2.1 acc.2.2)
    rw [List.foldl_cons, List.foldl_cons, ih, hstep]

/-- The check of a sequence erases if those of its parts do. -/
theorem erases_sequence : Erases (sequence checks) (sequence outlined) := by
  intro entry starter g
  have hfold := foldl_erases h (.start entry, starter, g)
  simp only [eraseAcc, Sequel.eraseSpans_start] at hfold
  simp only [sequence, ← hfold, Outcome.eraseSpans, Progress.eraseSpans_report]
  rfl

/-- Checks with the same entry erase if each of them does. -/
theorem collect_erases (entry : Typing) (starter : Bool) (g : Progress) :
    let acc := collect entry checks starter g
    (acc.1.map Typing.eraseSpans, acc.2.1, acc.2.2.eraseSpans) =
      collect entry.eraseSpans outlined starter g.eraseSpans := by
  induction h generalizing starter g with
  | nil => rfl
  | @cons c c' rest rest' hc _ ih =>
    have hnext := hc entry starter g
    have hrest := ih (c entry starter g).starter (c entry starter g).progress
    simp only [collect, List.map_cons]
    rw [← hnext]
    simp only [Outcome.eraseSpans]
    rw [← hrest]

/-- A join that commutes with erasing may be put behind them. -/
theorem erases_joined {join join' : List Typing → Typing × List Violation}
    (hjoin : ∀ ts, Typing.eraseBoth (join ts) = join' (ts.map Typing.eraseSpans)) :
    Erases (joined join checks) (joined join' outlined) := by
  intro entry starter g
  have hcollect := collect_erases h entry starter g
  simp only [joined, ← hcollect, ← hjoin, Outcome.eraseSpans, Progress.eraseSpans_report]
  rfl

theorem erases_choice (span : Span) : Erases (choice span checks) (choice .unknown outlined) := by
  intro entry starter g
  have hbranches : List.Forall₂ Erases (checks.map (withStarter starter))
      (outlined.map (withStarter starter)) := by
    rw [List.forall₂_map_left_iff, List.forall₂_map_right_iff]
    exact h.imp fun c c' hc entry _ g => hc entry starter g
  have hjoined := erases_joined hbranches (Typing.eraseBoth_choice span .choice starter) entry
    starter g
  rw [choice, choice]
  simp only [← hjoined]
  rfl

end Lists

theorem erases_repeated (h : Erases check other) (span : Span) :
    Erases (repeated span check) (repeated .unknown other) := by
  intro entry starter g
  have hrepeated := Typing.eraseBoth_repeated (check entry starter g).typing span
  simp only [repeated, ← h entry starter g]
  simp only [Outcome.eraseSpans, ← hrepeated, Progress.eraseSpans_report]
  rfl

/-! ### Leaves -/

/-- Of a path that is received on only the location counts. -/
theorem eraseSpans_receiveViolations (span : Span) (kind : ReceiveKind) (receive : Option Path) :
    (receiveViolations span kind receive).map Violation.eraseSpans =
      receiveViolations .unknown kind (receiveOutline receive) := by
  cases receive with
  | none => rfl
  | some p =>
    rw [receiveViolations, receiveOutline, Option.filter]
    by_cases hp : p.isCorrelation = true
    · simp only [hp, if_true]
      simp only [Option.map_some, receiveViolations, Path.isCorrelation_eraseSpans, hp, if_true]
      rfl
    · simp only [hp]
      rfl

theorem eraseSpans_inputTyping (keys : List Path) (starter : Bool) :
    (inputTyping keys starter).eraseSpans = inputTyping (keys.map Path.eraseSpans) starter := by
  refine foldl_hom Typing.eraseSpans Path.eraseSpans (fun t p => ?_) keys .empty
  cases starter with
  | true => exact t.eraseSpans_provide p true
  | false => exact t.eraseSpans_need p

/-- An operation has the same keys, without spans. -/
theorem keysFor_outline (ctx : Context) (operation : String) (span : Span) :
    ctx.outline.keysFor operation .unknown =
      (ctx.keysFor operation span).map Path.eraseSpans := by
  rw [Context.keysFor, Context.keysFor, Context.outline, Routing.setFor_outline]
  cases ctx.routing.setFor operation with
  | none => rfl
  | some set =>
    simp only [Option.map_some, CorrelationSet.paths, CorrelationSet.outline, List.map_map]
    rfl

theorem input_eq {ctx : Context} (hmode : ctx.execution ≠ .single) (span : Span)
    (operation : String) (receive : Option Path) (entry : Typing) (starter : Bool) (g : Progress) :
    input ctx span operation receive entry starter g =
      ⟨(inputTyping (ctx.keysFor operation span) starter).noteInput operation starter, false,
        g.report (receiveViolations span .input receive ++
          if !starter && !g.insideInit && (ctx.keysFor operation span).isEmpty then
            [⟨span, .noCorrelationSet operation⟩]
          else [])⟩ := by
  rw [input, if_neg hmode]
  rfl

theorem erases_input (ctx : Context) (span : Span) (operation : String) (receive : Option Path) :
    Erases (input ctx span operation receive)
      (input ctx.outline .unknown operation (receiveOutline receive)) := by
  intro entry starter g
  by_cases hmode : ctx.execution = .single
  · rw [input, input, if_pos hmode, if_pos (show ctx.outline.execution = .single from hmode)]
    rfl
  · rw [input_eq hmode, input_eq (show ctx.outline.execution ≠ .single from hmode),
      keysFor_outline ctx operation span, ← eraseSpans_inputTyping, List.isEmpty_map]
    simp only [Outcome.eraseSpans, Typing.eraseSpans_noteInput, Progress.eraseSpans_report,
      List.map_append, eraseSpans_receiveViolations]
    refine congrArg (fun vs => Outcome.mk _ false (g.eraseSpans.report (_ ++ vs))) ?_
    rw [show g.eraseSpans.insideInit = g.insideInit from rfl]
    split <;> rfl

theorem eraseBoth_initialTyping (span : Span) (target : Path) (value : Initializer)
    (entry : Typing) : Typing.eraseBoth (initialTyping span target value entry) =
      initialTyping .unknown target.eraseSpans value.eraseSpans entry.eraseSpans := by
  have hrefused : ∀ cause : Violation.Cause, Typing.eraseBoth
      (.empty, if target.isCorrelation then [⟨span, cause⟩] else []) =
        (.empty, if target.isCorrelation then [⟨.unknown, cause.eraseSpans⟩] else []) := by
    intro cause
    rw [Typing.eraseBoth]
    split <;> rfl
  have hprovided : ∀ fresh, Typing.eraseBoth (Typing.empty.provide target fresh, []) =
      (Typing.empty.provide target.eraseSpans fresh, []) :=
    fun fresh => congrArg (Prod.mk · []) (Typing.empty.eraseSpans_provide target fresh)
  cases value with
  | constant => exact hprovided false
  | fresh => exact hprovided true
  | other => exact hrefused _
  | update path =>
    simp only [initialTyping, Initializer.eraseSpans, Path.isCorrelation_eraseSpans,
      Path.location_eraseSpans, apply_ite Typing.eraseBoth, hrefused, hprovided]
    rfl
  | copy source =>
    have hneeded : Typing.eraseBoth ((Typing.empty.need (source.locatedIn span)).provide target
        false, []) = ((Typing.empty.need (source.eraseSpans.locatedIn .unknown)).provide
          target.eraseSpans false, []) := by
      refine congrArg (Prod.mk · []) ?_
      rw [Typing.eraseSpans_provide, Typing.eraseSpans_need, Path.eraseSpans_locatedIn]
      rfl
    simp only [initialTyping, Initializer.eraseSpans, Path.isStatic_eraseSpans,
      Path.location_eraseSpans, Typing.provides_eraseSpans, Path.isCorrelation_eraseSpans,
      apply_ite Typing.eraseBoth, hrefused, hprovided, hneeded]
    rfl

theorem erases_invalidation (span : Span) (paths : List Path) :
    Erases (invalidation span paths) (invalidation .unknown (paths.map Path.eraseSpans)) := by
  refine erases_pure ?_ rfl
  refine foldl_hom Typing.eraseSpans Path.eraseSpans (fun t p => ?_) paths .empty
  rw [Typing.eraseSpans_invalidate, Path.eraseSpans_locatedIn]

end Check

namespace Skeleton

/-- A check goes on without spans as it does with them, if calls do. -/
theorem erases_check {ctx : Context} {visit outlined : Visit} (hvisit : visit.Erases outlined)
    (k : Skeleton) :
    Check.Erases (k.check ctx visit) (k.eraseSpans.check ctx.outline outlined) := by
  have hparts : ∀ parts : List Skeleton,
      (∀ x ∈ parts, Check.Erases (x.check ctx visit) (x.eraseSpans.check ctx.outline outlined)) →
      List.Forall₂ Check.Erases (parts.map (check ctx visit))
        ((parts.map eraseSpans).map (check ctx.outline outlined)) := by
    intro parts h
    rw [List.map_map, List.forall₂_map_left_iff, List.forall₂_map_right_iff, List.forall₂_same]
    exact h
  induction k with
  | idle => exact Check.erases_pure rfl rfl
  | request span receive =>
    exact Check.erases_pure rfl (Check.eraseSpans_receiveViolations span .answer receive)
  | input span operation receive =>
    rw [check, eraseSpans, check]
    exact Check.erases_input ctx span operation receive
  | assign span target value =>
    intro entry starter g
    have htyping := Check.eraseBoth_initialTyping span (target.locatedIn span) value entry
    rw [Path.eraseSpans_locatedIn] at htyping
    rw [eraseSpans, check, check]
    simp only [Path.isStatic_eraseSpans, ← htyping]
    split
    · simp only [Outcome.eraseSpans, Progress.eraseSpans_report, Typing.eraseBoth]
    · rfl
  | invalidate span paths =>
    rw [check, eraseSpans, check]
    exact Check.erases_invalidation span paths
  | call span name =>
    intro entry starter g
    rw [eraseSpans, check, check]
    simp only [← hvisit span name g]
    rfl
  | sequence parts ih =>
    rw [eraseSpans, check, check, checkAll_eq_map, checkAll_eq_map, eraseSpansAll_eq_map]
    exact Check.erases_sequence (hparts parts ih)
  | parallel parts ih =>
    rw [eraseSpans, check, check, checkAll_eq_map, checkAll_eq_map, eraseSpansAll_eq_map]
    exact Check.erases_joined (hparts parts ih) Typing.eraseBoth_parallel
  | choice span branches ih =>
    rw [eraseSpans, check, check, checkAll_eq_map, checkAll_eq_map, eraseSpansAll_eq_map]
    exact Check.erases_choice (hparts branches ih) span
  | conditional span branches ih =>
    rw [eraseSpans, check, check, checkAll_eq_map, checkAll_eq_map, eraseSpansAll_eq_map]
    exact Check.erases_joined (hparts branches ih) (Typing.eraseBoth_choice span .conditional false)
  | repeated span body ih =>
    rw [eraseSpans, check, check]
    exact Check.erases_repeated ih span

end Skeleton

/-! ## Definitions -/

/-- The typings of definitions without spans. -/
def eraseTable (table : NameTable Typing) : NameTable Typing :=
  table.modify (fun e => (e.1, e.2.eraseSpans)) fun _ => rfl

/-- The typings of an erased table are those of the table without spans. -/
theorem get?_eraseTable (table : NameTable Typing) (name : String) :
    (eraseTable table).get? name = (table.get? name).map Typing.eraseSpans := by
  rw [NameTable.get?, NameTable.get?, eraseTable, OrderedSet.find?_modify, Option.map_map,
    Option.map_map]
  rfl

namespace Context

variable {ctx : Context} {visit outlined : Visit}

theorem find?_outline (ctx : Context) (name : String) :
    ctx.outline.definitions.find? name =
      (ctx.definitions.find? name).map Definition.outline :=
  OrderedSet.find?_modify ctx.definitions Definition.outline (fun _ => rfl) name

theorem eraseSpans_entered (ctx : Context) (hvisit : visit.Erases outlined) (d : Definition)
    (g : Progress) :
    ((ctx.entered visit d g).1.eraseSpans, (ctx.entered visit d g).2.eraseSpans) =
      ctx.outline.entered outlined d.outline g.eraseSpans := by
  have hinit : ctx.outline.definitions.contains initName = ctx.definitions.contains initName :=
    OrderedSet.contains_modify (f := Definition.outline) (fun _ => rfl) ctx.definitions initName
  rw [entered, entered, hinit, show d.outline.name = d.name from rfl,
    show d.outline.span = .unknown from rfl, ← hvisit d.span]
  split <;> rfl

theorem eraseSpans_bodyOutcome (hvisit : visit.Erases outlined) (d : Definition)
    (entry : Typing) (g : Progress) : (ctx.bodyOutcome visit d entry g).eraseSpans =
      ctx.outline.bodyOutcome outlined d.outline entry.eraseSpans g.eraseSpans := by
  rw [bodyOutcome, bodyOutcome, Definition.outline, Statement.skeleton_outline]
  exact Skeleton.erases_check hvisit d.body.skeleton entry (ctx.startsSession d) _

theorem eraseSpans_definitionViolations (d : Definition) (t : Typing) :
    (definitionViolations d t).map Violation.eraseSpans =
      definitionViolations d.outline t.eraseSpans := by
  rw [definitionViolations, definitionViolations, show d.outline.name = d.name from rfl]
  split
  · rw [initViolations, initViolations, List.map_map, show
      t.eraseSpans.providedCorrelation.toList =
        t.providedCorrelation.toList.map ProvidedPath.eraseSpans from rfl, List.map_map]
    rfl
  · rfl

theorem eraseSpans_finish (d : Definition) (insideInit : Bool) (o : Outcome) :
    ((finish d insideInit o).1.eraseSpans, (finish d insideInit o).2.eraseSpans) =
      finish d.outline insideInit o.eraseSpans := by
  have hinsert := OrderedSet.modify_insert
    (f := fun e : String × Typing => (e.1, e.2.eraseSpans)) (fun _ => rfl) o.progress.typings
    (d.name, o.typing)
  have hviolations := Progress.eraseSpans_report o.progress (definitionViolations d o.typing)
  rw [eraseSpans_definitionViolations] at hviolations
  refine Prod.ext rfl ?_
  exact congrArg₂ (fun vs typings => Progress.mk vs typings (o.progress.inProgress.erase d.name)
    insideInit) (congrArg Progress.violations hviolations) hinsert

/-- A definition is called without spans as it is called with them. -/
theorem visitWithin_outline (ctx : Context) (bound : Nat) :
    Visit.Erases (ctx.visitWithin bound) (ctx.outline.visitWithin bound) := by
  intro span name g
  have htypings : g.eraseSpans.typings.get? name = (g.typings.get? name).map Typing.eraseSpans :=
    get?_eraseTable g.typings name
  have hfind := find?_outline ctx name
  cases htyped : g.typings.get? name with
  | some typing =>
    rw [htyped] at htypings
    rw [visitWithin_typed htyped, visitWithin_typed htypings]
  | none =>
    rw [htyped] at htypings
    cases hname : ctx.definitions.find? name with
    | none =>
      rw [hname] at hfind
      rw [visitWithin_undeclared htyped hname, visitWithin_undeclared htypings hfind,
        Progress.eraseSpans_report]
      rfl
    | some d =>
      rw [hname] at hfind
      by_cases hprogress : name ∈ g.inProgress
      · rw [visitWithin_inProgress htyped hname hprogress,
          visitWithin_inProgress htypings hfind hprogress, Progress.eraseSpans_report]
        rfl
      · cases bound with
        | zero =>
          rw [visitWithin_zero htyped hname hprogress, visitWithin_zero htypings hfind hprogress]
          rfl
        | succ bound =>
          obtain rfl := name_of_find? hname
          have hvisit := visitWithin_outline ctx bound
          have hentered := eraseSpans_entered ctx hvisit d
            { g with inProgress := g.inProgress ++ [d.name] }
          rw [visitWithin_succ htyped hname hprogress]
          refine Eq.trans ?_ (visitWithin_succ (d := d.outline) htypings hfind hprogress).symm
          refine (eraseSpans_finish d _ _).trans ?_
          rw [eraseSpans_bodyOutcome hvisit]
          exact congrArg (fun e : Typing × Progress => finish d.outline e.2.insideInit
            (ctx.outline.bodyOutcome (ctx.outline.visitWithin bound) d.outline e.1 e.2)) hentered

theorem turns_outline (ctx : Context) : ctx.outline.turns = ctx.turns := by
  have hkeys : ctx.outline.definitions.keys = ctx.definitions.keys :=
    OrderedSet.keys_modify ctx.definitions Definition.outline fun _ => rfl
  rw [turns, turns, hkeys]

/-- Typing the outlined definitions gives the same typings and violations, without spans. -/
theorem typeDefinitions_outline (ctx : Context) (g : Progress) :
    (ctx.typeDefinitions g).eraseSpans = ctx.outline.typeDefinitions g.eraseSpans := by
  have hsize : ctx.outline.definitions.size = ctx.definitions.size := List.length_map _
  rw [typeDefinitions, typeDefinitions, turns_outline]
  refine foldl_view Progress.eraseSpans (fun g name _ => ?_) g
  have hvisit := visitWithin_outline ctx ctx.definitions.size .unknown name g
  rw [visit, visit, hsize]
  exact congrArg Prod.snd hvisit

/-- The context of the outline of a program, and what is wrong with its correlation sets. -/
theorem ofProgram_outline (program : Program) (mode : Option ExecutionMode) :
    ofProgram program.outline mode =
      ((ofProgram program mode).1.outline,
        (ofProgram program mode).2.map Violation.eraseSpans) := by
  have hrouting := Routing.outlineBoth_ofSets program.correlationSets
  have hdefinitions : (OrderedSet.firsts (program.definitions.map Definition.outline) :
      OrderedSet Definition.name) =
        (OrderedSet.firsts program.definitions).modify Definition.outline fun _ => rfl :=
    (foldl_hom (OrderedSet.modify · Definition.outline fun _ => rfl) Definition.outline
      (OrderedSet.modify_insertNew (f := Definition.outline) fun _ => rfl) program.definitions
      OrderedSet.empty).symm
  simp only [ofProgram, Program.outline, ← hrouting, hdefinitions]
  rfl

end Context

/-! ## Verdicts -/

namespace Verdict

theorem eraseBoth_sessionTyping (init? : Option Typing) (main : Typing) :
    Typing.eraseBoth (sessionTyping init? main) =
      sessionTyping (init?.map Typing.eraseSpans) main.eraseSpans := by
  cases init? with
  | none => rfl
  | some init =>
    have happend := Sequel.eraseSpans_append ⟨init, init.provisions, []⟩ main
    exact congrArg (fun s : Sequel => (s.result, s.violations)) happend

theorem needViolations_eraseSpans (session : Typing) :
    (needViolations session).map Violation.eraseSpans = needViolations session.eraseSpans := by
  simp only [needViolations, List.map_append, List.map_map, Typing.eraseSpans,
    PathSet.toList_eraseSpans]
  rfl

/-- Whether a set has a fresh value has nothing to do with spans. -/
theorem hasFreshValue_outline (set : CorrelationSet) (session : Typing) :
    hasFreshValue set.outline session.eraseSpans = hasFreshValue set session := by
  have hprovided : (set.outline.members.filterMap fun v =>
      session.eraseSpans.providedCorrelation.find? v.path.location.underRoot) =
        (set.members.filterMap fun v =>
          session.providedCorrelation.find? v.path.location.underRoot).map
            ProvidedPath.eraseSpans := by
    rw [CorrelationSet.outline, List.filterMap_map, List.map_filterMap]
    refine List.filterMap_congr fun v _ => ?_
    exact session.providedCorrelation.find?_eraseSpans _
  rw [hasFreshValue, hasFreshValue, hprovided, List.any_map, List.isEmpty_map]
  rfl

theorem freshnessViolations_outline (sets : List CorrelationSet) (session : Typing) :
    (freshnessViolations sets session).map Violation.eraseSpans =
      freshnessViolations (sets.map CorrelationSet.outline) session.eraseSpans := by
  rw [freshnessViolations, freshnessViolations, List.filter_map, List.map_map, List.map_map]
  refine congrArg (List.map _) (List.filter_congr fun set _ => ?_)
  exact congrArg Bool.not (hasFreshValue_outline set session).symm

theorem ofTypings_outline (file : String) (routing : Routing) (typings : NameTable Typing) :
    (ofTypings "" routing.outline (eraseTable typings)).1 =
        (ofTypings file routing typings).1.map Typing.eraseSpans ∧
      (ofTypings "" routing.outline (eraseTable typings)).2.map Violation.eraseSpans =
        (ofTypings file routing typings).2.map Violation.eraseSpans := by
  rw [ofTypings, ofTypings, get?_eraseTable, get?_eraseTable]
  cases typings.get? mainName with
  | none => exact ⟨rfl, rfl⟩
  | some main =>
    have hsession := eraseBoth_sessionTyping (typings.get? initName) main
    rw [Typing.eraseBoth] at hsession
    have hfresh := freshnessViolations_outline routing.sets.toList
      (sessionTyping (typings.get? initName) main).1
    simp only [Option.map_some, ← hsession, List.map_append, ← needViolations_eraseSpans, true_and]
    rw [show routing.outline.sets.toList = routing.sets.toList.map CorrelationSet.outline from rfl,
      ← hfresh]
    simp only [Violation.map_eraseSpans_eraseSpans]

end Verdict

/-- The verdict on a program is that on its outline, up to spans. -/
theorem Program.check_outline (program : Program) (mode : Option ExecutionMode) :
    (program.outline.check mode).violations.map Violation.eraseSpans =
        (program.check mode).violations.map Violation.eraseSpans ∧
      (program.outline.check mode).typings = eraseTable (program.check mode).typings ∧
      (program.outline.check mode).session =
        (program.check mode).session.map Typing.eraseSpans := by
  have hstart : (Progress.start.report (Context.ofProgram program mode).2).eraseSpans =
      Progress.start.report ((Context.ofProgram program mode).2.map Violation.eraseSpans) :=
    Progress.eraseSpans_report _ _
  have htypings := Context.typeDefinitions_outline (Context.ofProgram program mode).1
    (Progress.start.report (Context.ofProgram program mode).2)
  rw [hstart] at htypings
  have hend := Verdict.ofTypings_outline program.file (Context.ofProgram program mode).1.routing
    ((Context.ofProgram program mode).1.typeDefinitions
      (Progress.start.report (Context.ofProgram program mode).2)).typings
  simp only [check, Context.ofProgram_outline, ← htypings]
  refine ⟨?_, rfl, hend.1⟩
  rw [List.map_append, List.map_append]
  refine congrArg₂ (· ++ ·) ?_ hend.2
  exact Violation.map_eraseSpans_eraseSpans _

/-- Two programs with one outline get the same verdict up to spans: the same validity, the same
violations in the same order, and the same typings. -/
theorem Program.check_of_outline (program other : Program) (mode : Option ExecutionMode)
    (h : program.outline = other.outline) :
    (program.check mode).isValid = (other.check mode).isValid ∧
      (program.check mode).violations.map Violation.eraseSpans =
        (other.check mode).violations.map Violation.eraseSpans ∧
      eraseTable (program.check mode).typings = eraseTable (other.check mode).typings ∧
      (program.check mode).session.map Typing.eraseSpans =
        (other.check mode).session.map Typing.eraseSpans := by
  obtain ⟨hviolations, htypings, hsession⟩ := check_outline program mode
  obtain ⟨hviolations', htypings', hsession'⟩ := check_outline other mode
  rw [h] at hviolations htypings hsession
  have hsame := hviolations.symm.trans hviolations'
  refine ⟨?_, hsame, htypings.symm.trans htypings', hsession.symm.trans hsession'⟩
  have hempty := congrArg List.isEmpty hsame
  rwa [List.isEmpty_map, List.isEmpty_map] at hempty

/-- A session gets its key in a loop, by a constant. -/
def loopedKey : Program := sampleProgram [("main", .sequence .unknown
  [.oneWay .unknown "login" none,
    .whileLoop .unknown (.bool true) (.assign .unknown sampleKey (.int 1)),
    .scope .unknown "payment" (.oneWay .unknown "checkout" none)])]

/-- The same in another file, with another condition, constant and name of the scope, and with a
message that is stored in data. -/
def placedLoopedKey : Program :=
  let line (n : UInt32) : Span := .atLine "store.ol" n
  { loopedKey with
    file := "store.ol"
    definitions := [⟨line 1, "main", .sequence (line 2)
      [.oneWay (line 3) "login" (some ⟨⟨false, [.named "request"]⟩, line 3⟩),
        .whileLoop (line 4) (.bool false)
          (.assign (line 5) ⟨sampleKey.location, line 5⟩ (.string "key")),
        .scope (line 6) "checkout" (.oneWay (line 7) "checkout" none)]⟩] }

/-- Both programs get the same verdict, up to the lines of the violations. -/
theorem check_of_outline_loopedKey :
    placedLoopedKey.outline = loopedKey.outline ∧
      (placedLoopedKey.check none).violations.map Violation.eraseSpans =
        (loopedKey.check none).violations.map Violation.eraseSpans ∧
      eraseTable (placedLoopedKey.check none).typings =
        eraseTable (loopedKey.check none).typings ∧
      (loopedKey.check none).violations.map Violation.eraseSpans =
        [⟨.unknown, .initializedInLoop sampleKey⟩, ⟨.unknown, .noFreshValue "session"⟩] := by
  have houtline : placedLoopedKey.outline = loopedKey.outline := rfl
  obtain ⟨_, hviolations, htypings, _⟩ :=
    Program.check_of_outline placedLoopedKey loopedKey none houtline
  exact ⟨houtline, hviolations, htypings, by decide +kernel⟩

end Correlation
