import Correlation.Interchange.Program
import Correlation.Proofs.PathTexts
import Correlation.Proofs.Records

/-!
# Programs and their JSON values

What is written of a program is read back as the program.  Two sorts of things need not be: a real
number, and a path whose text names another location or none.  They are the *atoms* of a program,
and everything below is about programs whose atoms can be told from their text (`Atom.IsPlain`).

The proofs follow the constructors of expressions and statements.  Each constructor is a row of the
table of kinds, so a case says which fields the row has and what they are read as
(`readTagged_ofKind`).  A tagged record is read with as many levels as it is deep, and its parts
with one less.
-/

namespace Correlation

open Json

/-! ## Atoms -/

/-- A part of a program that its text may not tell. -/
inductive Atom where
  | path (path : Path)
  | real (value : Float)

/-- An atom can be told from its text: it is a path that is read back. -/
def Atom.IsPlain : Atom → Prop
  | .path p => p.Reparses
  | .real _ => False

/-- An atom is no number. -/
def Atom.IsPath : Atom → Prop
  | .path _ => True
  | .real _ => False

/-- What is plain is no real number. -/
theorem Atom.IsPlain.isPath {a : Atom} (h : a.IsPlain) : a.IsPath := by
  cases a with
  | path p => trivial
  | real x => exact h.elim

instance (a : Atom) : Decidable a.IsPath :=
  match a with
  | .path _ => inferInstanceAs (Decidable True)
  | .real _ => inferInstanceAs (Decidable False)

instance (a : Atom) : Decidable a.IsPlain :=
  match a with
  | .path p => inferInstanceAs (Decidable p.Reparses)
  | .real _ => inferInstanceAs (Decidable False)

namespace Expression

mutual

/-- The paths and real numbers of an expression. -/
def atoms : Expression → List Atom
  | .int _ | .string _ | .bool _ | .fresh => []
  | .real value => [.real value]
  | .variable path | .update path _ | .vectorSize path | .isType path | .installFixed path =>
    [.path path]
  | .sum operands | .product operands | .conjunction operands | .disjunction operands =>
    allAtoms operands
  | .compare left right => left.atoms ++ right.atoms
  | .negation operand | .cast operand => operand.atoms

/-- The paths and real numbers of expressions. -/
def allAtoms : List Expression → List Atom
  | [] => []
  | e :: rest => e.atoms ++ allAtoms rest

end

/-- The paths and real numbers of an expression that may be missing. -/
def atoms? (e : Option Expression) : List Atom := e.elim [] atoms

end Expression

/-- The path, if it is not missing. -/
def Atom.path? (p : Option Path) : List Atom := p.toList.map .path

namespace Statement

mutual

/-- The paths and real numbers of a statement. -/
def atoms : Statement → List Atom
  | .sequence _ children | .parallel _ children => allAtoms children
  | .choice _ branches => branchesAtoms branches
  | .conditional _ arms otherwise => armsAtoms arms ++ elseAtoms otherwise
  | .whileLoop _ condition body => condition.atoms ++ body.atoms
  | .forLoop _ init condition step body =>
    init.atoms ++ condition.atoms ++ step.atoms ++ body.atoms
  | .forEach _ key target body => .path key :: .path target :: body.atoms
  | .scope _ _ body | .synchronized _ _ body => body.atoms
  | .oneWay _ _ receive => Atom.path? receive
  | .requestResponse _ _ receive reply body =>
    Atom.path? receive ++ Expression.atoms? reply ++ body.atoms
  | .solicitResponse _ _ _ send receive => Expression.atoms? send ++ Atom.path? receive
  | .notification _ _ _ send => Expression.atoms? send
  | .assign _ target value | .compoundAssign _ target _ value => .path target :: value.atoms
  | .pointer _ left right | .deepCopy _ left right => [.path left, .path right]
  | .update _ path _ | .undefine _ path => [.path path]
  | .install _ handlers => handlersAtoms handlers
  | .spawn _ index upperBound body => .path index :: upperBound.atoms ++ body.atoms
  | .run _ code => code.atoms
  | .call _ _ | .nothing _ | .throw _ _ | .exit _ | .compensate _ _ | .linkIn _ _ | .linkOut _ _
  | .currentHandler _ => []

/-- The paths and real numbers of statements. -/
def allAtoms : List Statement → List Atom
  | [] => []
  | s :: rest => s.atoms ++ allAtoms rest

/-- The paths and real numbers of the branches of a choice. -/
def branchesAtoms : List (Branch Statement) → List Atom
  | [] => []
  | ⟨guard, body⟩ :: rest => guard.atoms ++ body.atoms ++ branchesAtoms rest

/-- The paths and real numbers of conditional branches. -/
def armsAtoms : List (Arm Statement) → List Atom
  | [] => []
  | ⟨condition, body⟩ :: rest => condition.atoms ++ body.atoms ++ armsAtoms rest

/-- The paths and real numbers of the last branch. -/
def elseAtoms : Option Statement → List Atom
  | none => []
  | some s => s.atoms

/-- The paths and real numbers of handlers. -/
def handlersAtoms : List (Handler Statement) → List Atom
  | [] => []
  | ⟨_, body⟩ :: rest => body.atoms ++ handlersAtoms rest

end

end Statement

/-- The paths of a variable of a correlation set. -/
def CorrelationVariable.atoms (v : CorrelationVariable) : List Atom :=
  .path v.path :: v.aliases.map fun a => .path a.path

/-- The paths of a correlation set. -/
def CorrelationSet.atoms (s : CorrelationSet) : List Atom :=
  s.members.flatMap CorrelationVariable.atoms

/-- The paths and real numbers of a program. -/
def Program.atoms (p : Program) : List Atom :=
  p.correlationSets.flatMap CorrelationSet.atoms ++ p.definitions.flatMap fun d => d.body.atoms

/-! ## Points, spans and paths -/

/-- A word that is written as a number is read back. -/
theorem word32_toNat (n : UInt32) : word32 (.integer n.toNat) = .ok n := by
  have hn : n.toNat < UInt32.size := n.toNat_lt_size
  simp [word32, hn]

/-- An integer that is written as a number is read back. -/
theorem int64_toInt (n : Int64) : int64 (.integer n.toInt) = .ok n := by
  have hn : Int64.minValue.toInt ≤ n.toInt ∧ n.toInt ≤ Int64.maxValue.toInt :=
    ⟨n.minValue_le_toInt, n.toInt_le⟩
  rw [int64, if_pos hn, Int64.ofInt_toInt]

theorem exact_toNat (n : UInt32) : (Json.integer n.toNat).Exact := by
  have hn : n.toNat < 4294967296 := n.toNat_lt_size
  show IsWord n.toNat
  constructor <;> omega

theorem exact_toInt (n : Int64) : (Json.integer n.toInt).Exact := by
  have hlow := n.le_toInt
  have hhigh := n.toInt_lt
  show IsWord n.toInt
  constructor <;> omega

/-- A point is read back from what it is written as. -/
theorem Point.ofJson_toJson (p : Point) : ofJson p.toJson = .ok p := by
  refine record_full rfl (by decide) ?_
  simp [Record.withDefault, Record.field, Record.full, Record.find?, Gathered.ofExcept,
    word32_toNat]

theorem Point.exact_toJson (p : Point) : p.toJson.Exact :=
  ⟨exact_toNat _, exact_toNat _, exact_toNat _, trivial⟩

theorem Span.betweenOfJson_toJson (inner : Bool) (first last : Point) (file : String) :
    betweenOfJson inner (.object [("start", first.toJson), ("end", last.toJson),
      ("file", .string file)]) = .ok (.between first last file) := by
  have hscalar : (inner && (Json.object [("start", first.toJson), ("end", last.toJson),
      ("file", .string file)]).isScalar) = false := Bool.and_false inner
  rw [betweenOfJson, hscalar, if_neg Bool.false_ne_true]
  refine record_full rfl (by decide) ?_
  simp [Record.withDefault, Record.required, Record.field, Record.full, Record.find?,
    Gathered.ofExcept, Point.ofJson_toJson, text]

/-- A span is read back, known or unknown. -/
theorem Span.ofJson_toJson (inner : Bool) (s : Span) : ofJson inner s.toJson = .ok s := by
  cases s with
  | unknown => rfl
  | between first last file => exact betweenOfJson_toJson inner first last file

theorem Span.exact_toJson (s : Span) : s.toJson.Exact := by
  cases s with
  | unknown => trivial
  | between first last file =>
    exact ⟨⟨first.exact_toJson, last.exact_toJson, trivial, trivial⟩, trivial⟩

namespace Path

/-- A path whose text names it is read back from its text. -/
theorem ofText_display {p : Path} (h : p.Reparses) (span : Span) :
    ofText span p.display = .ok ⟨p.location, span⟩ := by
  rw [ofText, parse, display, Location.display, String.toList_ofList, reparses_iff.mp h]
  rfl

theorem partsOfFields_toJson (p : Path) :
    partsOfFields [("path", .string p.display), ("span", p.span.toJson)]
      = .ok (p.display, p.span) := by
  have hfull : recordOfObject false ["path", "span"]
      [("path", .string p.display), ("span", p.span.toJson)]
    = .full false [("path", .string p.display), ("span", p.span.toJson)] :=
    recordOfObject_eq_full (by rfl) (by decide) false
  rw [partsOfFields, hfull]
  simp [Record.build, Record.withDefault, Record.required, Record.field, Record.full,
    Record.find?, Gathered.ofExcept, Gathered.toExcept, text, Span.ofJson_toJson]

/-- Of what is written of a path its text is read, and its span. -/
theorem ofJson_toJson_eq_ofText (p : Path) : ofJson p.toJson = ofText p.span p.display := by
  rw [toJson]
  split
  case isTrue hspan => rw [ofJson, hspan]
  case isFalse => simp only [ofJson, partsOfFields_toJson]

/-- A path is read back from its text and its span. -/
theorem ofJson_toJson {p : Path} (h : p.Reparses) : ofJson p.toJson = .ok p := by
  rw [ofJson_toJson_eq_ofText, ofText_display h]

theorem exact_toJson (p : Path) : p.toJson.Exact := by
  rw [toJson]
  split
  case isTrue => trivial
  case isFalse => exact ⟨trivial, p.span.exact_toJson, trivial⟩

end Path

/-! ## Operators -/

theorem oneOf_updateOperator (inner : Bool) (operator : UpdateOperator) :
    oneOf inner UpdateOperator.names operator.toJson = .ok operator := by
  cases operator <;> rfl

theorem oneOf_compoundOperator (inner : Bool) (operator : CompoundOperator) :
    oneOf inner CompoundOperator.names operator.toJson = .ok operator := by
  cases operator <;> rfl

theorem UpdateOperator.exact_toJson (operator : UpdateOperator) : operator.toJson.Exact := by
  cases operator <;> trivial

theorem CompoundOperator.exact_toJson (operator : CompoundOperator) : operator.toJson.Exact := by
  cases operator <;> trivial

/-! ## Expressions -/

attribute [local simp] Record.span Record.text Record.path Record.required Record.withDefault
  Record.optional Record.field Record.full Record.find? Gathered.ofExcept text flag

namespace Expression

/-- No kind of expressions has two fields of one name. -/
theorem nodup_fields : ∀ kind ∈ kinds, (kindField :: kind.fields).Nodup := by
  simp [kinds, kindField]

mutual

theorem exact_toJson (e : Expression) (h : ∀ a ∈ e.atoms, a.IsPath) : e.toJson.Exact := by
  match e with
  | .int value => exact ⟨trivial, exact_toInt value, trivial⟩
  | .real value => exact (h (.real value) List.mem_cons_self).elim
  | .string _ | .bool _ => exact ⟨trivial, trivial, trivial⟩
  | .fresh => exact ⟨trivial, trivial⟩
  | .variable path | .vectorSize path | .isType path | .installFixed path =>
    exact ⟨trivial, path.exact_toJson, trivial⟩
  | .update path operator => exact ⟨trivial, path.exact_toJson, operator.exact_toJson, trivial⟩
  | .sum operands | .product operands | .conjunction operands | .disjunction operands =>
    exact ⟨trivial, exact_allToJson operands h, trivial⟩
  | .compare left right =>
    obtain ⟨hleft, hright⟩ := List.forall_mem_append.mp h
    exact ⟨trivial, exact_toJson left hleft, exact_toJson right hright, trivial⟩
  | .negation operand | .cast operand => exact ⟨trivial, exact_toJson operand h, trivial⟩

theorem exact_allToJson (es : List Expression) (h : ∀ a ∈ allAtoms es, a.IsPath) :
    ItemsExact (allToJson es) := by
  match es with
  | [] => trivial
  | e :: rest =>
    obtain ⟨he, hrest⟩ := List.forall_mem_append.mp h
    exact ⟨exact_toJson e he, exact_allToJson rest hrest⟩

end

mutual

/-- An expression is read back, wherever it stands. -/
theorem readTagged_toJson (e : Expression) (h : ∀ a ∈ e.atoms, a.IsPlain) (levels : Nat)
    (hdepth : e.toJson.depth ≤ levels) (inner : Bool) :
    readTagged "Expression" kinds levels inner e.toJson = .ok e := by
  match e with
  | .int value =>
    refine readTagged_ofKind nodup_fields hdepth rfl rfl fun levels _ => ?_
    simp [int64_toInt]
  | .real value => exact (h (.real value) List.mem_cons_self).elim
  | .string _ | .bool _ =>
    refine readTagged_ofKind nodup_fields hdepth rfl rfl fun levels _ => ?_
    simp
  | .fresh => exact readTagged_ofKind nodup_fields hdepth rfl rfl fun levels _ => rfl
  | .variable path | .vectorSize path | .isType path | .installFixed path =>
    have hpath := Path.ofJson_toJson (h (.path path) List.mem_cons_self)
    refine readTagged_ofKind nodup_fields hdepth rfl rfl fun levels _ => ?_
    simp [hpath]
  | .update path operator =>
    have hpath := Path.ofJson_toJson (h (.path path) List.mem_cons_self)
    refine readTagged_ofKind nodup_fields hdepth rfl rfl fun levels _ => ?_
    simp [hpath, oneOf_updateOperator]
  | .sum operands | .product operands | .conjunction operands | .disjunction operands =>
    refine readTagged_ofKind nodup_fields hdepth rfl rfl fun levels hlevels => ?_
    simp only [fieldsDepth, Nat.max_le] at hlevels
    simp [list_readTagged operands h levels hlevels.1]
  | .compare left right =>
    obtain ⟨hl, hr⟩ := List.forall_mem_append.mp h
    refine readTagged_ofKind nodup_fields hdepth rfl rfl fun levels hlevels => ?_
    simp only [fieldsDepth, Nat.max_le] at hlevels
    have hleft := readTagged_toJson left hl levels hlevels.1 true
    have hright := readTagged_toJson right hr levels hlevels.2.1 true
    simp [hleft, hright]
  | .negation operand | .cast operand =>
    refine readTagged_ofKind nodup_fields hdepth rfl rfl fun levels hlevels => ?_
    simp only [fieldsDepth, Nat.max_le] at hlevels
    simp [readTagged_toJson operand h levels hlevels.1 true]

theorem list_readTagged (es : List Expression) (h : ∀ a ∈ allAtoms es, a.IsPlain) (levels : Nat)
    (hdepth : (Json.array (allToJson es)).depth ≤ levels) :
    list (readTagged "Expression" kinds levels true) (.array (allToJson es)) = .ok es := by
  match es with
  | [] => rfl
  | e :: rest =>
    obtain ⟨he, hrest⟩ := List.forall_mem_append.mp h
    simp only [allToJson, Json.depth, itemsDepth] at hdepth
    exact list_cons (readTagged_toJson e he levels (by omega) true)
      (list_readTagged rest hrest levels (by simp only [Json.depth]; omega))

end

/-- An expression is read back from its value. -/
theorem ofJson_toJson (e : Expression) (h : ∀ a ∈ e.atoms, a.IsPlain) (inner : Bool) :
    ofJson inner e.toJson = .ok e :=
  readTagged_toJson e h _ (Nat.le_refl _) inner

end Expression

/-! ## Statements -/

theorem Path.orNull_optional {p : Option Path} (h : ∀ a ∈ Atom.path? p, a.IsPlain) :
    Record.orNull Path.ofJson (ofOption Path.toJson p) = .ok p := by
  refine orNull_ofOption fun q hq => ⟨?_, ofJson_toJson (h (.path q) ?_)⟩
  · rw [toJson]
    split <;> nofun
  · cases hq
    exact List.mem_cons_self

theorem Expression.orNull_optional {e : Option Expression}
    (h : ∀ a ∈ Expression.atoms? e, a.IsPlain) :
    Record.orNull (Expression.ofJson true) (ofOption Expression.toJson e) = .ok e := by
  refine orNull_ofOption fun f hf => ?_
  cases hf
  exact ⟨by cases f <;> nofun, ofJson_toJson f h true⟩

theorem Path.exact_optional (p : Option Path) : (ofOption Path.toJson p).Exact :=
  exact_ofOption fun q _ => q.exact_toJson

theorem Expression.exact_optional {e : Option Expression}
    (h : ∀ a ∈ Expression.atoms? e, a.IsPath) : (ofOption Expression.toJson e).Exact := by
  refine exact_ofOption fun f hf => ?_
  cases hf
  exact exact_toJson f h

namespace Statement

/-- No kind of statements has two fields of one name. -/
theorem nodup_fields : ∀ kind ∈ kinds, (kindField :: kind.fields).Nodup := by
  simp [kinds, kindField]

/-- A node can be written in full if its fields can. -/
theorem exact_node {kind : String} {span : Span} {fields : List (String × Json)}
    (h : FieldsExact fields) : (node kind span fields).Exact :=
  ⟨trivial, span.exact_toJson, h⟩

mutual

theorem exact_toJson (s : Statement) (h : ∀ a ∈ s.atoms, a.IsPath) : s.toJson.Exact := by
  match s with
  | .sequence _ children | .parallel _ children =>
    exact exact_node ⟨exact_allToJson children h, trivial⟩
  | .choice _ branches => exact exact_node ⟨exact_branchesToJson branches h, trivial⟩
  | .conditional _ arms otherwise =>
    obtain ⟨harms, helse⟩ := List.forall_mem_append.mp h
    exact exact_node ⟨exact_armsToJson arms harms, exact_elseToJson otherwise helse, trivial⟩
  | .whileLoop _ condition body =>
    obtain ⟨hcondition, hbody⟩ := List.forall_mem_append.mp h
    exact exact_node ⟨condition.exact_toJson hcondition, exact_toJson body hbody, trivial⟩
  | .forLoop _ init condition step body =>
    obtain ⟨h, hbody⟩ := List.forall_mem_append.mp h
    obtain ⟨h, hstep⟩ := List.forall_mem_append.mp h
    obtain ⟨hinit, hcondition⟩ := List.forall_mem_append.mp h
    exact exact_node ⟨exact_toJson init hinit, condition.exact_toJson hcondition,
      exact_toJson step hstep, exact_toJson body hbody, trivial⟩
  | .forEach _ key target body =>
    obtain ⟨-, h⟩ := List.forall_mem_cons.mp h
    obtain ⟨-, hbody⟩ := List.forall_mem_cons.mp h
    exact exact_node
      ⟨key.exact_toJson, target.exact_toJson, exact_toJson body hbody, trivial⟩
  | .scope _ _ body | .synchronized _ _ body =>
    exact exact_node ⟨trivial, exact_toJson body h, trivial⟩
  | .oneWay _ _ receive => exact exact_node ⟨trivial, Path.exact_optional receive, trivial⟩
  | .requestResponse _ _ receive reply body =>
    obtain ⟨h, hbody⟩ := List.forall_mem_append.mp h
    obtain ⟨-, hreply⟩ := List.forall_mem_append.mp h
    exact exact_node ⟨trivial, Path.exact_optional receive, Expression.exact_optional hreply,
      exact_toJson body hbody, trivial⟩
  | .solicitResponse _ _ _ send receive =>
    obtain ⟨hsend, -⟩ := List.forall_mem_append.mp h
    exact exact_node ⟨trivial, trivial, Expression.exact_optional hsend,
      Path.exact_optional receive, trivial⟩
  | .notification _ _ _ send =>
    exact exact_node ⟨trivial, trivial, Expression.exact_optional h, trivial⟩
  | .assign _ target value =>
    obtain ⟨-, hvalue⟩ := List.forall_mem_cons.mp h
    exact exact_node ⟨target.exact_toJson, value.exact_toJson hvalue, trivial⟩
  | .compoundAssign _ target operator value =>
    obtain ⟨-, hvalue⟩ := List.forall_mem_cons.mp h
    exact exact_node
      ⟨target.exact_toJson, operator.exact_toJson, value.exact_toJson hvalue, trivial⟩
  | .update _ path operator =>
    exact exact_node ⟨path.exact_toJson, operator.exact_toJson, trivial⟩
  | .pointer _ left right | .deepCopy _ left right =>
    exact exact_node ⟨left.exact_toJson, right.exact_toJson, trivial⟩
  | .undefine _ path => exact exact_node ⟨path.exact_toJson, trivial⟩
  | .install _ handlers => exact exact_node ⟨exact_handlersToJson handlers h, trivial⟩
  | .spawn _ index upperBound body =>
    obtain ⟨-, h⟩ := List.forall_mem_cons.mp h
    obtain ⟨hupper, hbody⟩ := List.forall_mem_append.mp h
    exact exact_node ⟨index.exact_toJson, upperBound.exact_toJson hupper,
      exact_toJson body hbody, trivial⟩
  | .run _ code => exact exact_node ⟨code.exact_toJson h, trivial⟩
  | .call _ _ | .throw _ _ | .compensate _ _ | .linkIn _ _ | .linkOut _ _ =>
    exact exact_node ⟨trivial, trivial⟩
  | .nothing _ | .exit _ | .currentHandler _ => exact exact_node trivial

theorem exact_allToJson (ss : List Statement) (h : ∀ a ∈ allAtoms ss, a.IsPath) :
    ItemsExact (allToJson ss) := by
  match ss with
  | [] => trivial
  | s :: rest =>
    obtain ⟨hs, hrest⟩ := List.forall_mem_append.mp h
    exact ⟨exact_toJson s hs, exact_allToJson rest hrest⟩

theorem exact_branchesToJson (branches : List (Branch Statement))
    (h : ∀ a ∈ branchesAtoms branches, a.IsPath) : ItemsExact (branchesToJson branches) := by
  match branches with
  | [] => trivial
  | ⟨guard, body⟩ :: rest =>
    obtain ⟨h, hrest⟩ := List.forall_mem_append.mp h
    obtain ⟨hguard, hbody⟩ := List.forall_mem_append.mp h
    exact ⟨⟨exact_toJson guard hguard, exact_toJson body hbody, trivial⟩,
      exact_branchesToJson rest hrest⟩

theorem exact_armsToJson (arms : List (Arm Statement))
    (h : ∀ a ∈ armsAtoms arms, a.IsPath) : ItemsExact (armsToJson arms) := by
  match arms with
  | [] => trivial
  | ⟨condition, body⟩ :: rest =>
    obtain ⟨h, hrest⟩ := List.forall_mem_append.mp h
    obtain ⟨hcondition, hbody⟩ := List.forall_mem_append.mp h
    exact ⟨⟨condition.exact_toJson hcondition, exact_toJson body hbody, trivial⟩,
      exact_armsToJson rest hrest⟩

theorem exact_elseToJson (otherwise : Option Statement)
    (h : ∀ a ∈ elseAtoms otherwise, a.IsPath) : (elseToJson otherwise).Exact := by
  match otherwise with
  | none => trivial
  | some s => exact exact_toJson s h

theorem exact_handlersToJson (handlers : List (Handler Statement))
    (h : ∀ a ∈ handlersAtoms handlers, a.IsPath) : ItemsExact (handlersToJson handlers) := by
  match handlers with
  | [] => trivial
  | ⟨_, body⟩ :: rest =>
    obtain ⟨hbody, hrest⟩ := List.forall_mem_append.mp h
    exact ⟨⟨trivial, exact_toJson body hbody, trivial⟩, exact_handlersToJson rest hrest⟩

end

attribute [local simp] expression expression? path? Span.ofJson_toJson

mutual

/-- A statement is read back, wherever it stands. -/
theorem readTagged_toJson (s : Statement) (h : ∀ a ∈ s.atoms, a.IsPlain) (levels : Nat)
    (hdepth : s.toJson.depth ≤ levels) (inner : Bool) :
    readTagged "Statement" kinds levels inner s.toJson = .ok s := by
  match s with
  | .sequence _ children | .parallel _ children =>
    refine readTagged_ofKind nodup_fields hdepth rfl rfl fun levels hlevels => ?_
    simp only [fieldsDepth, Nat.max_le] at hlevels
    simp [list_readTagged children h levels hlevels.2.1]
  | .choice _ branches =>
    refine readTagged_ofKind nodup_fields hdepth rfl rfl fun levels hlevels => ?_
    simp only [fieldsDepth, Nat.max_le] at hlevels
    simp [list_branch branches h levels hlevels.2.1]
  | .conditional _ arms otherwise =>
    obtain ⟨harms, helse⟩ := List.forall_mem_append.mp h
    refine readTagged_ofKind nodup_fields hdepth rfl rfl fun levels hlevels => ?_
    simp only [fieldsDepth, Nat.max_le] at hlevels
    have harms' := list_arm arms harms levels hlevels.2.1
    have helse' := orNull_elseToJson otherwise helse levels hlevels.2.2.1
    simp [harms', helse']
  | .whileLoop _ condition body =>
    obtain ⟨hc, hb⟩ := List.forall_mem_append.mp h
    refine readTagged_ofKind nodup_fields hdepth rfl rfl fun levels hlevels => ?_
    simp only [fieldsDepth, Nat.max_le] at hlevels
    have hcondition := condition.ofJson_toJson hc true
    have hbody := readTagged_toJson body hb levels hlevels.2.2.1 true
    simp [hcondition, hbody]
  | .forLoop _ init condition step body =>
    obtain ⟨h, hb⟩ := List.forall_mem_append.mp h
    obtain ⟨h, hs⟩ := List.forall_mem_append.mp h
    obtain ⟨hi, hc⟩ := List.forall_mem_append.mp h
    refine readTagged_ofKind nodup_fields hdepth rfl rfl fun levels hlevels => ?_
    simp only [fieldsDepth, Nat.max_le] at hlevels
    have hinit := readTagged_toJson init hi levels hlevels.2.1 true
    have hcondition := condition.ofJson_toJson hc true
    have hstep := readTagged_toJson step hs levels hlevels.2.2.2.1 true
    have hbody := readTagged_toJson body hb levels hlevels.2.2.2.2.1 true
    simp [hinit, hcondition, hstep, hbody]
  | .forEach _ key target body =>
    obtain ⟨hk, h⟩ := List.forall_mem_cons.mp h
    obtain ⟨ht, hb⟩ := List.forall_mem_cons.mp h
    refine readTagged_ofKind nodup_fields hdepth rfl rfl fun levels hlevels => ?_
    simp only [fieldsDepth, Nat.max_le] at hlevels
    have hkey := Path.ofJson_toJson hk
    have htarget := Path.ofJson_toJson ht
    have hbody := readTagged_toJson body hb levels hlevels.2.2.2.1 true
    simp [hkey, htarget, hbody]
  | .scope _ _ body | .synchronized _ _ body =>
    refine readTagged_ofKind nodup_fields hdepth rfl rfl fun levels hlevels => ?_
    simp only [fieldsDepth, Nat.max_le] at hlevels
    simp [readTagged_toJson body h levels hlevels.2.2.1 true]
  | .oneWay _ _ receive =>
    refine readTagged_ofKind nodup_fields hdepth rfl rfl fun levels _ => ?_
    simp [Path.orNull_optional h]
  | .requestResponse _ _ receive reply body =>
    obtain ⟨h, hb⟩ := List.forall_mem_append.mp h
    obtain ⟨hreceive, hreply⟩ := List.forall_mem_append.mp h
    refine readTagged_ofKind nodup_fields hdepth rfl rfl fun levels hlevels => ?_
    simp only [fieldsDepth, Nat.max_le] at hlevels
    have hbody := readTagged_toJson body hb levels hlevels.2.2.2.2.1 true
    simp [Path.orNull_optional hreceive, Expression.orNull_optional hreply, hbody]
  | .solicitResponse _ _ _ send receive =>
    obtain ⟨hsend, hreceive⟩ := List.forall_mem_append.mp h
    refine readTagged_ofKind nodup_fields hdepth rfl rfl fun levels _ => ?_
    simp [Path.orNull_optional hreceive, Expression.orNull_optional hsend]
  | .notification _ _ _ send =>
    refine readTagged_ofKind nodup_fields hdepth rfl rfl fun levels _ => ?_
    simp [Expression.orNull_optional h]
  | .assign _ target value =>
    obtain ⟨ht, hv⟩ := List.forall_mem_cons.mp h
    refine readTagged_ofKind nodup_fields hdepth rfl rfl fun levels _ => ?_
    simp [Path.ofJson_toJson ht, value.ofJson_toJson hv true]
  | .compoundAssign _ target operator value =>
    obtain ⟨ht, hv⟩ := List.forall_mem_cons.mp h
    refine readTagged_ofKind nodup_fields hdepth rfl rfl fun levels _ => ?_
    simp [Path.ofJson_toJson ht, oneOf_compoundOperator, value.ofJson_toJson hv true]
  | .update _ path operator =>
    obtain ⟨hp, -⟩ := List.forall_mem_cons.mp h
    refine readTagged_ofKind nodup_fields hdepth rfl rfl fun levels _ => ?_
    simp [Path.ofJson_toJson hp, oneOf_updateOperator]
  | .pointer _ left right | .deepCopy _ left right =>
    obtain ⟨hl, h⟩ := List.forall_mem_cons.mp h
    obtain ⟨hr, -⟩ := List.forall_mem_cons.mp h
    refine readTagged_ofKind nodup_fields hdepth rfl rfl fun levels _ => ?_
    simp [Path.ofJson_toJson hl, Path.ofJson_toJson hr]
  | .undefine _ path =>
    obtain ⟨hp, -⟩ := List.forall_mem_cons.mp h
    refine readTagged_ofKind nodup_fields hdepth rfl rfl fun levels _ => ?_
    simp [Path.ofJson_toJson hp]
  | .install _ handlers =>
    refine readTagged_ofKind nodup_fields hdepth rfl rfl fun levels hlevels => ?_
    simp only [fieldsDepth, Nat.max_le] at hlevels
    simp [list_handler handlers h levels hlevels.2.1]
  | .spawn _ index upperBound body =>
    obtain ⟨hi, h⟩ := List.forall_mem_cons.mp h
    obtain ⟨hu, hb⟩ := List.forall_mem_append.mp h
    refine readTagged_ofKind nodup_fields hdepth rfl rfl fun levels hlevels => ?_
    simp only [fieldsDepth, Nat.max_le] at hlevels
    have hupper := upperBound.ofJson_toJson hu true
    have hbody := readTagged_toJson body hb levels hlevels.2.2.2.1 true
    simp [Path.ofJson_toJson hi, hupper, hbody]
  | .run _ code =>
    refine readTagged_ofKind nodup_fields hdepth rfl rfl fun levels _ => ?_
    simp [code.ofJson_toJson h true]
  | .call _ _ | .throw _ _ | .compensate _ _ | .linkIn _ _ | .linkOut _ _ =>
    refine readTagged_ofKind nodup_fields hdepth rfl rfl fun levels _ => ?_
    simp
  | .nothing _ | .exit _ | .currentHandler _ =>
    refine readTagged_ofKind nodup_fields hdepth rfl rfl fun levels _ => ?_
    simp

theorem list_readTagged (ss : List Statement) (h : ∀ a ∈ allAtoms ss, a.IsPlain) (levels : Nat)
    (hdepth : (Json.array (allToJson ss)).depth ≤ levels) :
    list (readTagged "Statement" kinds levels true) (.array (allToJson ss)) = .ok ss := by
  match ss with
  | [] => rfl
  | s :: rest =>
    obtain ⟨hs, hrest⟩ := List.forall_mem_append.mp h
    simp only [allToJson, Json.depth, itemsDepth] at hdepth
    exact list_cons (readTagged_toJson s hs levels (by omega) true)
      (list_readTagged rest hrest levels (by simp only [Json.depth]; omega))

theorem list_branch (branches : List (Branch Statement))
    (h : ∀ a ∈ branchesAtoms branches, a.IsPlain) (levels : Nat)
    (hdepth : (Json.array (branchesToJson branches)).depth ≤ levels) :
    list (Branch.ofJson (readTagged "Statement" kinds levels true))
      (.array (branchesToJson branches)) = .ok branches := by
  match branches with
  | [] => rfl
  | ⟨guard, body⟩ :: rest =>
    obtain ⟨h, hrest⟩ := List.forall_mem_append.mp h
    obtain ⟨hg, hb⟩ := List.forall_mem_append.mp h
    simp only [branchesToJson, Json.depth, itemsDepth, fieldsDepth] at hdepth
    have hguard := readTagged_toJson guard hg levels (by omega) true
    have hbody := readTagged_toJson body hb levels (by omega) true
    refine list_cons (record_full rfl (by decide) (by simp [hguard, hbody]))
      (list_branch rest hrest levels (by simp only [Json.depth]; omega))

theorem list_arm (arms : List (Arm Statement)) (h : ∀ a ∈ armsAtoms arms, a.IsPlain)
    (levels : Nat) (hdepth : (Json.array (armsToJson arms)).depth ≤ levels) :
    list (Arm.ofJson (readTagged "Statement" kinds levels true)) (.array (armsToJson arms))
      = .ok arms := by
  match arms with
  | [] => rfl
  | ⟨condition, body⟩ :: rest =>
    obtain ⟨h, hrest⟩ := List.forall_mem_append.mp h
    obtain ⟨hc, hb⟩ := List.forall_mem_append.mp h
    simp only [armsToJson, Json.depth, itemsDepth, fieldsDepth] at hdepth
    have hcondition := condition.ofJson_toJson hc true
    have hbody := readTagged_toJson body hb levels (by omega) true
    refine list_cons (record_full rfl (by decide) (by simp [hcondition, hbody]))
      (list_arm rest hrest levels (by simp only [Json.depth]; omega))

theorem orNull_elseToJson (otherwise : Option Statement)
    (h : ∀ a ∈ elseAtoms otherwise, a.IsPlain) (levels : Nat)
    (hdepth : (elseToJson otherwise).depth ≤ levels) :
    Record.orNull (readTagged "Statement" kinds levels true) (elseToJson otherwise)
      = .ok otherwise := by
  match otherwise with
  | none => rfl
  | some s =>
    exact orNull_eq_ok (by cases s <;> nofun) (readTagged_toJson s h levels hdepth true)

theorem list_handler (handlers : List (Handler Statement))
    (h : ∀ a ∈ handlersAtoms handlers, a.IsPlain) (levels : Nat)
    (hdepth : (Json.array (handlersToJson handlers)).depth ≤ levels) :
    list (Handler.ofJson (readTagged "Statement" kinds levels true))
      (.array (handlersToJson handlers)) = .ok handlers := by
  match handlers with
  | [] => rfl
  | ⟨fault, body⟩ :: rest =>
    obtain ⟨hb, hrest⟩ := List.forall_mem_append.mp h
    simp only [handlersToJson, Json.depth, itemsDepth, fieldsDepth] at hdepth
    have hbody := readTagged_toJson body hb levels (by omega) true
    refine list_cons (record_full rfl (by decide) (by simp [hbody]))
      (list_handler rest hrest levels (by simp only [Json.depth]; omega))

end

/-- A statement is read back from its value. -/
theorem ofJson_toJson (s : Statement) (h : ∀ a ∈ s.atoms, a.IsPlain) (inner : Bool) :
    ofJson inner s.toJson = .ok s :=
  readTagged_toJson s h _ (Nat.le_refl _) inner

end Statement

/-! ## Programs -/

theorem ExecutionMode.ofJson_toJson (m : ExecutionMode) : ofJson m.toJson = .ok m := by
  cases m <;> rfl

theorem ExecutionMode.exact_toJson (m : ExecutionMode) : m.toJson.Exact := by
  cases m <;> trivial

theorem CorrelationAlias.ofJson_toJson (a : CorrelationAlias) (h : a.path.Reparses) :
    ofJson a.toJson = .ok a := by
  refine record_full rfl (by decide) ?_
  simp [Path.ofJson_toJson h]

theorem CorrelationAlias.exact_toJson (a : CorrelationAlias) : a.toJson.Exact :=
  ⟨trivial, a.path.exact_toJson, trivial⟩

theorem CorrelationVariable.ofJson_toJson (v : CorrelationVariable)
    (h : ∀ a ∈ v.atoms, a.IsPlain) : ofJson v.toJson = .ok v := by
  obtain ⟨hpath, halias⟩ := List.forall_mem_cons.mp h
  have haliases : list CorrelationAlias.ofJson (.array (v.aliases.map CorrelationAlias.toJson))
      = .ok v.aliases :=
    list_map fun a ha => a.ofJson_toJson (halias (.path a.path) (List.mem_map_of_mem ha))
  refine record_full rfl (by decide) ?_
  simp [Path.ofJson_toJson hpath, haliases]

theorem CorrelationVariable.exact_toJson (v : CorrelationVariable) : v.toJson.Exact :=
  ⟨v.path.exact_toJson, itemsExact_map fun a _ => a.exact_toJson, trivial⟩

theorem CorrelationSet.ofJson_toJson (s : CorrelationSet) (h : ∀ a ∈ s.atoms, a.IsPlain) :
    ofJson s.toJson = .ok s := by
  have hmembers : list CorrelationVariable.ofJson
      (.array (s.members.map CorrelationVariable.toJson)) = .ok s.members :=
    list_map fun v hv => v.ofJson_toJson fun a ha => h a (List.mem_flatMap.mpr ⟨v, hv, ha⟩)
  refine record_full rfl (by decide) ?_
  simp [Span.ofJson_toJson, hmembers]

theorem CorrelationSet.exact_toJson (s : CorrelationSet) : s.toJson.Exact :=
  ⟨s.span.exact_toJson, trivial, itemsExact_map fun v _ => v.exact_toJson, trivial⟩

theorem Definition.ofJson_toJson (d : Definition) (h : ∀ a ∈ d.body.atoms, a.IsPlain) :
    ofJson d.toJson = .ok d := by
  refine record_full rfl (by decide) ?_
  simp [Span.ofJson_toJson, d.body.ofJson_toJson h]

theorem Definition.exact_toJson (d : Definition) (h : ∀ a ∈ d.body.atoms, a.IsPath) :
    d.toJson.Exact :=
  ⟨d.span.exact_toJson, trivial, d.body.exact_toJson h, trivial⟩

namespace Program

variable {p : Program} (h : ∀ a ∈ p.atoms, a.IsPlain)
include h

theorem isPlain_of_mem_correlationSets {s : CorrelationSet} (hs : s ∈ p.correlationSets) :
    ∀ a ∈ s.atoms, a.IsPlain := fun a ha =>
  h a (List.mem_append_left _ (List.mem_flatMap.mpr ⟨s, hs, ha⟩))

theorem isPlain_of_mem_definitions {d : Definition} (hd : d ∈ p.definitions) :
    ∀ a ∈ d.body.atoms, a.IsPlain := fun a ha =>
  h a (List.mem_append_right _ (List.mem_flatMap.mpr ⟨d, hd, ha⟩))

/-- A program is read back from its value. -/
theorem ofJson_toJson : ofJson p.toJson = .ok p := by
  have hsets : list CorrelationSet.ofJson (.array (p.correlationSets.map CorrelationSet.toJson))
      = .ok p.correlationSets :=
    list_map fun s hs => s.ofJson_toJson (isPlain_of_mem_correlationSets h hs)
  have hdefinitions : list Definition.ofJson (.array (p.definitions.map Definition.toJson))
      = .ok p.definitions :=
    list_map fun d hd => d.ofJson_toJson (isPlain_of_mem_definitions h hd)
  refine record_full rfl (by decide) ?_
  simp [ExecutionMode.ofJson_toJson, hsets, hdefinitions]

end Program

/-- A program without real numbers can be written in full. -/
theorem Program.exact_toJson {p : Program} (h : ∀ a ∈ p.atoms, a.IsPath) : p.toJson.Exact := by
  have hdefinitions : ∀ d ∈ p.definitions, ∀ a ∈ d.body.atoms, a.IsPath := fun d hd a ha =>
    h a (List.mem_append_right _ (List.mem_flatMap.mpr ⟨d, hd, ha⟩))
  exact ⟨trivial, p.execution.exact_toJson, itemsExact_map fun s _ => s.exact_toJson,
    itemsExact_map fun d hd => d.exact_toJson (hdefinitions d hd), trivial⟩

end Correlation
