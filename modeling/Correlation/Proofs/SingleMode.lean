import Correlation.Proofs.Erasure
import Correlation.Proofs.Progress
import Correlation.Proofs.Verdicts

/-!
# Single mode ignores the inputs

A program in single mode runs once, so no message has to be routed to one of several sessions.  Its
inputs then have no effect on the check, at any depth and through calls: the program without them
(`Program.withoutInputs`) gets the same verdict (`Program.check_withoutInputs_of_single`).

An input is replaced by a statement without effect, and one that is answered by its body.  In single
mode the check of the one is that of the other (`Check.input_eq_idle`), and an idle check in front
of a sequence changes nothing (`Check.sequence_cons_idle`).  The rest follows statement by statement
(`Statement.check_withoutInputs`) and call by call, by induction on how many definitions may still
be entered (`Context.visitWithin_withoutInputs`).
-/

namespace Correlation

/-! ## Programs without inputs -/

namespace Statement

mutual

/-- The statement without the messages that it takes in. -/
def withoutInputs : Statement → Statement
  | .oneWay span _ _ => .nothing span
  | .requestResponse span _ _ _ body => .sequence span [withoutInputs body]
  | .sequence span children => .sequence span (withoutInputsAll children)
  | .parallel span children => .parallel span (withoutInputsAll children)
  | .choice span branches => .choice span (withoutInputsBranches branches)
  | .conditional span arms otherwise =>
    .conditional span (withoutInputsArms arms) (withoutInputsElse otherwise)
  | .whileLoop span condition body => .whileLoop span condition (withoutInputs body)
  | .forLoop span init condition step body =>
    .forLoop span (withoutInputs init) condition (withoutInputs step) (withoutInputs body)
  | .forEach span key target body => .forEach span key target (withoutInputs body)
  | .scope span name body => .scope span name (withoutInputs body)
  | .synchronized span id body => .synchronized span id (withoutInputs body)
  | .spawn span index upperBound body => .spawn span index upperBound (withoutInputs body)
  | .install span handlers => .install span (withoutInputsHandlers handlers)
  | .call span name => .call span name
  | .solicitResponse span operation port send receive =>
    .solicitResponse span operation port send receive
  | .notification span operation port send => .notification span operation port send
  | .assign span target value => .assign span target value
  | .compoundAssign span target operator value => .compoundAssign span target operator value
  | .update span path operator => .update span path operator
  | .pointer span left right => .pointer span left right
  | .deepCopy span left right => .deepCopy span left right
  | .undefine span path => .undefine span path
  | .nothing span => .nothing span
  | .throw span fault => .throw span fault
  | .exit span => .exit span
  | .compensate span name => .compensate span name
  | .linkIn span link => .linkIn span link
  | .linkOut span link => .linkOut span link
  | .run span code => .run span code
  | .currentHandler span => .currentHandler span

/-- Statements without inputs. -/
def withoutInputsAll : List Statement → List Statement
  | [] => []
  | s :: rest => withoutInputs s :: withoutInputsAll rest

/-- The branches of a choice without inputs. -/
def withoutInputsBranches : List (Branch Statement) → List (Branch Statement)
  | [] => []
  | ⟨guard, body⟩ :: rest =>
    ⟨withoutInputs guard, withoutInputs body⟩ :: withoutInputsBranches rest

/-- Conditional branches without inputs. -/
def withoutInputsArms : List (Arm Statement) → List (Arm Statement)
  | [] => []
  | ⟨condition, body⟩ :: rest => ⟨condition, withoutInputs body⟩ :: withoutInputsArms rest

/-- The last branch without inputs. -/
def withoutInputsElse : Option Statement → Option Statement
  | none => none
  | some body => some (withoutInputs body)

/-- Handlers without inputs. -/
def withoutInputsHandlers : List (Handler Statement) → List (Handler Statement)
  | [] => []
  | ⟨fault, body⟩ :: rest => ⟨fault, withoutInputs body⟩ :: withoutInputsHandlers rest

end

end Statement

/-- The definition without inputs. -/
def Definition.withoutInputs (d : Definition) : Definition :=
  { d with body := d.body.withoutInputs }

/-- The program without inputs. -/
def Program.withoutInputs (p : Program) : Program :=
  { p with definitions := p.definitions.map Definition.withoutInputs }

/-- The context of the program without inputs. -/
def Context.withoutInputs (ctx : Context) : Context :=
  { ctx with definitions := ctx.definitions.modify Definition.withoutInputs fun _ => rfl }

/-! ## Checks -/

theorem Sequel.append_empty (s : Sequel) : s.append .empty = s := by
  have hinputs : s.result.noteInputsOf .empty = s.result := by
    rw [Typing.noteInputsOf, show Typing.empty.startingOperation = none from rfl, Option.or_none]
    rfl
  rw [append, hinputs]
  rfl

namespace Check

theorem idle_apply (entry : Typing) (starter : Bool) (g : Progress) :
    idle entry starter g = ⟨.empty, starter, g⟩ := by
  rw [idle, pure, Progress.report_nil]

/-- An idle check in front of a sequence changes nothing. -/
theorem sequence_cons_idle (checks : List Check) : sequence (idle :: checks) = sequence checks := by
  funext entry starter g
  have hidle : followedBy (.start entry, starter, g) idle = (.start entry, starter, g) := by
    rw [followedBy, idle_apply, Sequel.append_empty]
  rw [sequence, sequence, List.foldl_cons, hidle]

/-- In single mode an input is checked as if it were not there. -/
theorem input_eq_idle {ctx : Context} (hmode : ctx.execution = .single) (span : Span)
    (operation : String) (receive : Option Path) : input ctx span operation receive = idle := by
  funext entry starter g
  rw [input, if_pos hmode, idle_apply]

end Check

namespace Statement

mutual

/-- In single mode a statement is checked as it is without inputs. -/
theorem check_withoutInputs {ctx : Context} (hmode : ctx.execution = .single) (visit : Visit) :
    ∀ s : Statement, s.withoutInputs.check ctx.withoutInputs visit = s.check ctx visit
  | .oneWay span operation receive => by
      rw [withoutInputs, check, check, Check.input_eq_idle hmode]
  | .requestResponse span operation receive _ body => by
      rw [withoutInputs, check, checkAll, checkAll, check_withoutInputs hmode visit body, check,
        Check.input_eq_idle hmode, Check.sequence_cons_idle]
  | .sequence _ children | .parallel _ children => by
      rw [withoutInputs, check, check, checkAll_withoutInputs hmode visit children]
  | .choice _ branches => by
      rw [withoutInputs, check, check, checkBranches_withoutInputs hmode visit branches]
  | .conditional _ arms otherwise => by
      rw [withoutInputs, check, check, checkArms_withoutInputs hmode visit arms,
        checkElse_withoutInputs hmode visit otherwise]
  | .forLoop _ init _ step body => by
      rw [withoutInputs, check, check, check_withoutInputs hmode visit init,
        check_withoutInputs hmode visit step, check_withoutInputs hmode visit body]
  | .whileLoop _ _ body | .forEach _ _ _ body | .scope _ _ body | .synchronized _ _ body
  | .spawn _ _ _ body => by
      rw [withoutInputs, check, check, check_withoutInputs hmode visit body]
  | .call _ _ | .solicitResponse _ _ _ _ _ | .notification _ _ _ _ | .assign _ _ _
  | .compoundAssign _ _ _ _ | .update _ _ _ | .pointer _ _ _ | .deepCopy _ _ _ | .undefine _ _
  | .nothing _ | .throw _ _ | .exit _ | .install _ _ | .compensate _ _ | .linkIn _ _
  | .linkOut _ _ | .run _ _ | .currentHandler _ => by
      rw [withoutInputs, check, check]

/-- Statements are checked alike without their inputs. -/
theorem checkAll_withoutInputs {ctx : Context} (hmode : ctx.execution = .single) (visit : Visit) :
    ∀ children : List Statement,
      checkAll ctx.withoutInputs visit (withoutInputsAll children) = checkAll ctx visit children
  | [] => rfl
  | s :: rest => by
      rw [withoutInputsAll, checkAll, checkAll, check_withoutInputs hmode visit s,
        checkAll_withoutInputs hmode visit rest]

theorem checkBranches_withoutInputs {ctx : Context} (hmode : ctx.execution = .single)
    (visit : Visit) : ∀ branches : List (Branch Statement),
      checkBranches ctx.withoutInputs visit (withoutInputsBranches branches) =
        checkBranches ctx visit branches
  | [] => rfl
  | ⟨guard, body⟩ :: rest => by
      rw [withoutInputsBranches, checkBranches, checkBranches,
        check_withoutInputs hmode visit guard, check_withoutInputs hmode visit body,
        checkBranches_withoutInputs hmode visit rest]

theorem checkArms_withoutInputs {ctx : Context} (hmode : ctx.execution = .single)
    (visit : Visit) : ∀ arms : List (Arm Statement),
      checkArms ctx.withoutInputs visit (withoutInputsArms arms) = checkArms ctx visit arms
  | [] => rfl
  | ⟨_, body⟩ :: rest => by
      rw [withoutInputsArms, checkArms, checkArms, check_withoutInputs hmode visit body,
        checkArms_withoutInputs hmode visit rest]

theorem checkElse_withoutInputs {ctx : Context} (hmode : ctx.execution = .single)
    (visit : Visit) : ∀ otherwise : Option Statement,
      checkElse ctx.withoutInputs visit (withoutInputsElse otherwise) =
        checkElse ctx visit otherwise
  | none => rfl
  | some body => by
      rw [withoutInputsElse, checkElse, checkElse, check_withoutInputs hmode visit body]

end

end Statement

/-! ## Definitions -/

namespace Context

variable {ctx : Context}

theorem find?_withoutInputs (ctx : Context) (name : String) :
    ctx.withoutInputs.definitions.find? name =
      (ctx.definitions.find? name).map Definition.withoutInputs :=
  OrderedSet.find?_modify ctx.definitions Definition.withoutInputs (fun _ => rfl) name

theorem entered_withoutInputs (ctx : Context) (visit : Visit) (d : Definition) (g : Progress) :
    ctx.withoutInputs.entered visit d.withoutInputs g = ctx.entered visit d g := by
  have hinit : ctx.withoutInputs.definitions.contains initName =
      ctx.definitions.contains initName :=
    OrderedSet.contains_modify (f := Definition.withoutInputs) (fun _ => rfl) ctx.definitions
      initName
  rw [entered, entered, hinit]
  rfl

/-- A body is checked alike without its inputs. -/
theorem bodyOutcome_withoutInputs (hmode : ctx.execution = .single) (visit : Visit)
    (d : Definition) (entry : Typing) (g : Progress) :
    ctx.withoutInputs.bodyOutcome visit d.withoutInputs entry g =
      ctx.bodyOutcome visit d entry g := by
  rw [bodyOutcome, bodyOutcome, ← Statement.check_eq_skeleton, ← Statement.check_eq_skeleton,
    Definition.withoutInputs, Statement.check_withoutInputs hmode]
  rfl

/-- In single mode a definition is called as it is without inputs. -/
theorem visitWithin_withoutInputs (hmode : ctx.execution = .single) (bound : Nat) :
    ctx.withoutInputs.visitWithin bound = ctx.visitWithin bound := by
  funext span name g
  have hfind := find?_withoutInputs ctx name
  cases htyped : g.typings.get? name with
  | some typing => rw [visitWithin_typed htyped, visitWithin_typed htyped]
  | none =>
    cases hname : ctx.definitions.find? name with
    | none =>
      rw [hname] at hfind
      rw [visitWithin_undeclared htyped hname, visitWithin_undeclared htyped hfind]
    | some d =>
      rw [hname] at hfind
      by_cases hprogress : name ∈ g.inProgress
      · rw [visitWithin_inProgress htyped hname hprogress,
          visitWithin_inProgress htyped hfind hprogress]
      · cases bound with
        | zero =>
          rw [visitWithin_zero htyped hname hprogress, visitWithin_zero htyped hfind hprogress]
        | succ bound =>
          obtain rfl := name_of_find? hname
          rw [visitWithin_succ htyped hname hprogress]
          refine (visitWithin_succ (d := d.withoutInputs) htyped hfind hprogress).trans ?_
          simp only [visitWithin_withoutInputs hmode bound, entered_withoutInputs,
            bodyOutcome_withoutInputs hmode]
          rfl

theorem typeDefinitions_withoutInputs (ctx : Context) (hmode : ctx.execution = .single) :
    ctx.withoutInputs.typeDefinitions = ctx.typeDefinitions := by
  have hkeys : ctx.withoutInputs.definitions.keys = ctx.definitions.keys :=
    OrderedSet.keys_modify ctx.definitions Definition.withoutInputs fun _ => rfl
  have hturns : ctx.withoutInputs.turns = ctx.turns := by rw [turns, turns, hkeys]
  have hsize : ctx.withoutInputs.definitions.size = ctx.definitions.size := List.length_map _
  funext g
  rw [typeDefinitions, typeDefinitions, hturns, visit, visit, hsize,
    visitWithin_withoutInputs hmode]

/-- The context of a program without inputs.  Its correlation sets are as good as before. -/
theorem ofProgram_withoutInputs (program : Program) (mode : Option ExecutionMode) :
    ofProgram program.withoutInputs mode =
      ((ofProgram program mode).1.withoutInputs, (ofProgram program mode).2) := by
  have hdefinitions : (OrderedSet.firsts (program.definitions.map Definition.withoutInputs) :
      OrderedSet Definition.name) =
        (OrderedSet.firsts program.definitions).modify Definition.withoutInputs fun _ => rfl :=
    (foldl_hom (OrderedSet.modify · Definition.withoutInputs fun _ => rfl) Definition.withoutInputs
      (OrderedSet.modify_insertNew (f := Definition.withoutInputs) fun _ => rfl)
      program.definitions OrderedSet.empty).symm
  rw [ofProgram, Program.withoutInputs, hdefinitions]
  rfl

end Context

/-! ## Verdicts -/

/-- In single mode, declared or given, a program gets the verdict of the program without inputs: the
same violations in the same order, the same typings and the same session. -/
theorem Program.check_withoutInputs_of_single (program : Program) (mode : Option ExecutionMode)
    (hmode : mode.getD program.execution = .single) :
    program.withoutInputs.check mode = program.check mode := by
  have htypings := Context.typeDefinitions_withoutInputs (Context.ofProgram program mode).1 hmode
  rw [check, check, Context.ofProgram_withoutInputs]
  simp only [htypings]
  rfl

/-- A session that takes messages in a choice, in a loop and in another definition. -/
def keyOnArrival : Program := { sampleProgram
  [("pay", .requestResponse .unknown "checkout" none none (.assign .unknown sampleKey .fresh)),
    ("main", .sequence .unknown
      [.choice .unknown [⟨.oneWay .unknown "login" (some sampleKey), .call .unknown "pay"⟩],
        .whileLoop .unknown (.bool true) (.oneWay .unknown "checkout" none)])] with
  execution := .single }

/-- Without inputs nothing changes in single mode, but it does in concurrent mode. -/
theorem check_withoutInputs_keyOnArrival :
    keyOnArrival.execution = .single ∧
      keyOnArrival.withoutInputs.check none = keyOnArrival.check none ∧
      (keyOnArrival.check none).violations = [] ∧
      (keyOnArrival.check (some .concurrent)).violations.map Violation.cause =
        [.receiveOnCorrelation sampleKey .input, .notInitialized sampleKey] ∧
      (keyOnArrival.withoutInputs.check (some .concurrent)).violations = [] :=
  ⟨rfl, Program.check_withoutInputs_of_single keyOnArrival none rfl, by decide +kernel,
    by decide +kernel, by decide +kernel⟩

end Correlation
