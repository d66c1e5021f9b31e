import Correlation.Proofs.Recovery
import Correlation.Proofs.RoundTrip

/-!
# Programs printed twice

A program that was loaded need not be told by its text: a path may be printed as the text of another
one.  But the text does not change any more.  If what was printed can be loaded again, then it is
printed as before (`Program.print_of_load_print`).

There are two reasons.  The text of a program is read as the value that was printed, or not at all
(`eq_of_read_chars`).  And whatever is read of that value is written as the same value (`Rewrites`),
although it may be another program.  For a path this says that what its text names is shown by the
same text (`Path.chars_of_location?_chars`).  Everything else is read back as it is, or put together
from what is.
-/

namespace Correlation

open Json

/-- Whatever is read of a value is written as that value. -/
def Rewrites (read : Json → Except Mismatch α) (write : α → Json) (j : Json) : Prop :=
  ∀ a, read j = .ok a → write a = j

namespace Json

section Combinators

variable {read : Json → Except Mismatch α} {write : α → Json} {j : Json}

/-- What is read back is written as before. -/
theorem rewrites_of_eq_ok {a : α} (h : read (write a) = .ok a) : Rewrites read write (write a) := by
  intro b hb
  rw [h] at hb
  cases hb
  rfl

/-- A list is rewritten as it was if its items are. -/
theorem rewrites_list {items : List Json} (h : ∀ j ∈ items, Rewrites read write j) :
    Rewrites (list read) (fun as => .array (as.map write)) (.array items) := by
  intro as has
  show Json.array (as.map write) = .array items
  induction items generalizing as with
  | nil =>
    cases has
    rfl
  | cons j rest ih =>
    obtain ⟨b, bs, hb, hbs, rfl⟩ := exists_of_list_cons has
    obtain ⟨hj, hrest⟩ := List.forall_mem_cons.mp h
    cases ih hrest bs hbs
    rw [List.map_cons, hj b hb]

theorem rewrites_list_map {as : List α} (h : ∀ a ∈ as, Rewrites read write (write a)) :
    Rewrites (list read) (fun as => .array (as.map write)) (.array (as.map write)) :=
  rewrites_list fun j hj => by
    obtain ⟨a, ha, rfl⟩ := List.mem_map.mp hj
    exact h a ha

/-- A value that may be missing is rewritten as it was if it is there. -/
theorem rewrites_ofOption {o : Option α} (h : ∀ a ∈ o, Rewrites read write (write a)) :
    Rewrites (Record.orNull read) (ofOption write) (ofOption write o) := by
  intro found hfound
  cases o with
  | none =>
    cases hfound
    rfl
  | some a =>
    have ha : Rewrites read write (write a) := h a rfl
    simp only [ofOption] at hfound ⊢
    generalize write a = j at ha hfound ⊢
    cases j with
    | null =>
      cases hfound
      rfl
    | _ =>
      obtain ⟨b, hb, rfl⟩ := exists_of_map_eq_ok hfound
      exact ha b hb

namespace Record

variable {r : Record} {name : String} {place : Nat}

/-- A field that is there is read of its value. -/
theorem rewrites_field {missing : Gathered α} (hfind : find? name 0 r.fields = some (place, j))
    (h : Rewrites read write j) : (r.field name missing read).Yields fun a => write a = j := by
  intro a ha
  rw [field, hfind] at ha
  cases hread : read j with
  | error e => simp only [hread] at ha; cases ha
  | ok b =>
    simp only [hread] at ha
    cases ha
    exact h a hread

theorem rewrites_required (hfind : find? name 0 r.fields = some (place, j))
    (h : Rewrites read write j) : (r.required name read).Yields fun a => write a = j :=
  rewrites_field hfind h

/-- A field with a default is rewritten as it was, since it is always written. -/
theorem rewrites_withDefault {default : α} (hfind : find? name 0 r.fields = some (place, j))
    (h : Rewrites read write j) :
    (r.withDefault name default read).Yields fun a => write a = j :=
  rewrites_field hfind h

theorem rewrites_optional {write : Option α → Json}
    (hfind : find? name 0 r.fields = some (place, j)) (h : Rewrites (orNull read) write j) :
    (r.optional name read).Yields fun o => write o = j :=
  rewrites_field hfind h

end Record

/-- A record is written as before if all of its fields are. -/
theorem rewrites_record {wanted : String} {names : List String} {make : Record → Gathered α}
    {fields : List (String × Json)} (hnames : fields.map Prod.fst = names) (hnodup : names.Nodup)
    (hmake : (make (.full false fields)).Yields fun a => write a = .object fields) :
    Rewrites (record wanted names make) write (.object fields) := by
  intro a ha
  rw [record, recordOfObject_eq_full hnames hnodup] at ha
  exact Record.yields_build hmake ha

/-- A tagged record is written as before if all of its fields are. -/
theorem rewrites_ofKind {sort name : String} {kinds : List (Kind α)} {kind : Kind α} {inner : Bool}
    {fields : List (String × Json)} {levels : Nat}
    (hkinds : ∀ kind ∈ kinds, (kindField :: kind.fields).Nodup)
    (hkind : readKind kinds inner (.string name) = .ok kind)
    (hfields : fields.map Prod.fst = kind.fields)
    (hmake : (kind.make (readTagged sort kinds levels true) (.full true fields)).Yields
      fun a => write a = ofKind name fields) :
    Rewrites (readTagged sort kinds (levels + 1) inner) write (ofKind name fields) := by
  intro a ha
  have htagged : tagged sort kinds inner (ofKind name fields) = .ok (kind, .full true fields) :=
    tagged_ofKind hkind hfields (hkinds kind (mem_of_readKind hkind))
  rw [readTagged, htagged] at ha
  exact Record.yields_build hmake ha

end Combinators

end Json

/-! ## Scalars, spans and paths -/

theorem rewrites_text (s : String) : Rewrites Json.text .string (.string s) :=
  rewrites_of_eq_ok rfl

theorem rewrites_flag (b : Bool) : Rewrites flag .bool (.bool b) := rewrites_of_eq_ok rfl

theorem rewrites_int64 (n : Int64) :
    Rewrites int64 (fun n => .integer n.toInt) (.integer n.toInt) := by
  intro a ha
  rw [int64_toInt] at ha
  cases ha
  rfl

theorem Span.rewrites_toJson (inner : Bool) (s : Span) :
    Rewrites (Span.ofJson inner) Span.toJson s.toJson :=
  rewrites_of_eq_ok (Span.ofJson_toJson inner s)

theorem UpdateOperator.rewrites_toJson (operator : UpdateOperator) :
    Rewrites (oneOf true UpdateOperator.names) UpdateOperator.toJson operator.toJson :=
  rewrites_of_eq_ok (oneOf_updateOperator true operator)

theorem CompoundOperator.rewrites_toJson (operator : CompoundOperator) :
    Rewrites (oneOf true CompoundOperator.names) CompoundOperator.toJson operator.toJson :=
  rewrites_of_eq_ok (oneOf_compoundOperator true operator)

/-- Whatever a path is read back as, it is shown by the same text. -/
theorem Path.rewrites_toJson {p : Path} (h : p.location.IsRead) :
    Rewrites Path.ofJson Path.toJson p.toJson := by
  intro q hq
  rw [ofJson_toJson_eq_ofText, ofText, parse, display, Location.display, String.toList_ofList] at hq
  cases hfound : location? p.location.chars with
  | error e => rw [hfound] at hq; cases hq
  | ok found =>
    rw [hfound] at hq
    cases hq
    simp [toJson, display, Location.display, chars_of_location?_chars h hfound]

section Fields

variable {r : Record} {name : String} {place : Nat}

theorem Json.Record.rewrites_text {s : String}
    (hfind : Record.find? name 0 r.fields = some (place, .string s)) :
    (r.text name).Yields fun t => Json.string t = .string s :=
  rewrites_required hfind (Correlation.rewrites_text s)

theorem Json.Record.rewrites_span {s : Span}
    (hfind : Record.find? "span" 0 r.fields = some (place, s.toJson)) :
    r.span.Yields fun t => t.toJson = s.toJson :=
  rewrites_withDefault hfind (s.rewrites_toJson r.isTagged)

/-- A path in a field is rewritten as it was if its location can be read. -/
theorem Json.Record.rewrites_path {p : Path}
    (hfind : Record.find? name 0 r.fields = some (place, p.toJson)) (h : p.location.IsRead) :
    (r.path name).Yields fun q => q.toJson = p.toJson :=
  rewrites_required hfind (Path.rewrites_toJson h)

end Fields

/-- An atom is a path that was read. -/
def Atom.IsReadPath : Atom → Prop
  | .path p => p.location.IsRead
  | .real _ => False

/-! ## Expressions -/

namespace Expression

theorem allToJson_eq_map (es : List Expression) : allToJson es = es.map toJson := by
  induction es with
  | nil => rfl
  | cons e rest ih => rw [allToJson, ih, List.map_cons]

/-- Whatever an expression is read back as, it is written by the same value.  The induction is on
the levels, for all parts are read with one level less, those of a list too. -/
theorem rewrites_readTagged (levels : Nat) (inner : Bool) (e : Expression)
    (h : ∀ a ∈ e.atoms, a.IsReadPath) :
    Rewrites (readTagged "Expression" kinds levels inner) toJson e.toJson := by
  induction levels generalizing inner e with
  | zero => nofun
  | succ levels ih =>
    have hoperands : ∀ es, (∀ a ∈ allAtoms es, a.IsReadPath) →
        Rewrites (list (readTagged "Expression" kinds levels true))
          (fun es => .array (allToJson es)) (.array (allToJson es)) := by
      intro es hes
      rw [allAtoms_eq_flatMap, List.forall_mem_flatMap] at hes
      simp only [allToJson_eq_map]
      exact rewrites_list_map fun e he => ih true e (hes e he)
    cases e with
    | real value => exact (h (.real value) List.mem_cons_self).elim
    | fresh =>
      refine rewrites_ofKind nodup_fields rfl rfl ?_
      rintro _ ⟨⟩
      rfl
    | int value =>
      refine rewrites_ofKind nodup_fields rfl rfl ?_
      refine .map (Record.rewrites_required rfl (rewrites_int64 value)) _ fun n hn => ?_
      simp only [toJson, hn]
    | string value =>
      refine rewrites_ofKind nodup_fields rfl rfl ?_
      refine .map (Record.rewrites_text rfl) _ fun s hs => ?_
      simp only [toJson, hs]
    | bool value =>
      refine rewrites_ofKind nodup_fields rfl rfl ?_
      refine .map (Record.rewrites_required rfl (rewrites_flag value)) _ fun b hb => ?_
      simp only [toJson, hb]
    | «variable» path | vectorSize path | isType path | installFixed path =>
      have hpath : path.location.IsRead := h (.path path) List.mem_cons_self
      refine rewrites_ofKind nodup_fields rfl rfl ?_
      refine .map (Record.rewrites_path rfl hpath) _ fun p hp => ?_
      simp only [toJson, hp]
    | update path operator =>
      have hpath : path.location.IsRead := h (.path path) List.mem_cons_self
      refine rewrites_ofKind nodup_fields rfl rfl ?_
      refine .seq (.map (Record.rewrites_path rfl hpath) _ ?_)
        (Record.rewrites_required rfl operator.rewrites_toJson)
      intro p hp o ho
      simp only [toJson, hp, ho]
    | sum operands | product operands | conjunction operands | disjunction operands =>
      refine rewrites_ofKind nodup_fields rfl rfl ?_
      refine .map (Record.rewrites_required rfl (hoperands operands h)) _ fun es hes => ?_
      simp only [toJson, hes]
    | compare left right =>
      obtain ⟨hleft, hright⟩ := List.forall_mem_append.mp h
      refine rewrites_ofKind nodup_fields rfl rfl ?_
      refine .seq (.map (Record.rewrites_required rfl (ih true left hleft)) _ ?_)
        (Record.rewrites_required rfl (ih true right hright))
      intro l hl r hr
      simp only [toJson, hl, hr]
    | negation operand | cast operand =>
      refine rewrites_ofKind nodup_fields rfl rfl ?_
      refine .map (Record.rewrites_required rfl (ih true operand h)) _ fun e he => ?_
      simp only [toJson, he]

theorem rewrites_toJson (inner : Bool) (e : Expression) (h : ∀ a ∈ e.atoms, a.IsReadPath) :
    Rewrites (ofJson inner) toJson e.toJson :=
  rewrites_readTagged e.toJson.depth inner e h

end Expression

/-! ## Statements -/

theorem Path.rewrites_optional {p : Option Path} (h : ∀ a ∈ Atom.path? p, a.IsReadPath) :
    Rewrites (Record.orNull Path.ofJson) (ofOption Path.toJson) (ofOption Path.toJson p) :=
  rewrites_ofOption fun q hq =>
    rewrites_toJson (h (.path q) (by cases hq; exact List.mem_cons_self))

theorem Expression.rewrites_optional {e : Option Expression}
    (h : ∀ a ∈ Expression.atoms? e, a.IsReadPath) :
    Rewrites (Record.orNull (Expression.ofJson true)) (ofOption Expression.toJson)
      (ofOption Expression.toJson e) :=
  rewrites_ofOption fun f hf => rewrites_toJson true f (by cases hf; exact h)

namespace Statement

theorem allToJson_eq_map (ss : List Statement) : allToJson ss = ss.map toJson := by
  induction ss with
  | nil => rfl
  | cons s rest ih => rw [allToJson, ih, List.map_cons]

theorem branchesToJson_eq_map (branches : List (Branch Statement)) :
    branchesToJson branches
      = branches.map fun b => .object [("guard", b.guard.toJson), ("body", b.body.toJson)] := by
  induction branches with
  | nil => rfl
  | cons b rest ih => rw [branchesToJson, ih, List.map_cons]

theorem armsToJson_eq_map (arms : List (Arm Statement)) :
    armsToJson arms
      = arms.map fun a => .object [("condition", a.condition.toJson), ("body", a.body.toJson)] := by
  induction arms with
  | nil => rfl
  | cons a rest ih => rw [armsToJson, ih, List.map_cons]

theorem handlersToJson_eq_map (handlers : List (Handler Statement)) :
    handlersToJson handlers
      = handlers.map fun h => .object [("fault", .string h.fault), ("body", h.body.toJson)] := by
  induction handlers with
  | nil => rfl
  | cons h rest ih => rw [handlersToJson, ih, List.map_cons]

/-- A last branch is written as a statement that may be missing. -/
theorem elseToJson_eq_ofOption (otherwise : Option Statement) :
    elseToJson otherwise = ofOption toJson otherwise := by
  cases otherwise <;> rfl

section Parts

variable {inner : Json → Except Mismatch Statement}
  (h : ∀ s : Statement, (∀ a ∈ s.atoms, a.IsReadPath) → Rewrites inner toJson s.toJson)
include h

/-- The children of a statement are rewritten as they were if each of them is. -/
theorem rewrites_children (ss : List Statement) (hss : ∀ a ∈ allAtoms ss, a.IsReadPath) :
    Rewrites (list inner) (fun ss => .array (allToJson ss)) (.array (allToJson ss)) := by
  rw [allAtoms_eq_flatMap, List.forall_mem_flatMap] at hss
  simp only [allToJson_eq_map]
  exact rewrites_list_map fun s hs => h s (hss s hs)

theorem rewrites_branches (branches : List (Branch Statement))
    (hbranches : ∀ a ∈ branchesAtoms branches, a.IsReadPath) :
    Rewrites (list (Branch.ofJson inner)) (fun branches => .array (branchesToJson branches))
      (.array (branchesToJson branches)) := by
  rw [branchesAtoms_eq_flatMap, List.forall_mem_flatMap] at hbranches
  simp only [branchesToJson_eq_map]
  refine rewrites_list_map fun b hb => ?_
  obtain ⟨hguard, hbody⟩ := List.forall_mem_append.mp (hbranches b hb)
  refine rewrites_record rfl (by decide) ?_
  refine .seq (.map (Record.rewrites_required rfl (h b.guard hguard)) _ ?_)
    (Record.rewrites_required rfl (h b.body hbody))
  intro g hg s hs
  simp only [hg, hs]

theorem rewrites_arms (arms : List (Arm Statement))
    (harms : ∀ a ∈ armsAtoms arms, a.IsReadPath) :
    Rewrites (list (Arm.ofJson inner)) (fun arms => .array (armsToJson arms))
      (.array (armsToJson arms)) := by
  rw [armsAtoms_eq_flatMap, List.forall_mem_flatMap] at harms
  simp only [armsToJson_eq_map]
  refine rewrites_list_map fun a ha => ?_
  obtain ⟨hcondition, hbody⟩ := List.forall_mem_append.mp (harms a ha)
  refine rewrites_record rfl (by decide) ?_
  refine .seq (.map (Record.rewrites_required rfl (a.condition.rewrites_toJson true hcondition)) _
    ?_) (Record.rewrites_required rfl (h a.body hbody))
  intro c hc s hs
  simp only [hc, hs]

theorem rewrites_handlers (handlers : List (Handler Statement))
    (hhandlers : ∀ a ∈ handlersAtoms handlers, a.IsReadPath) :
    Rewrites (list (Handler.ofJson inner)) (fun handlers => .array (handlersToJson handlers))
      (.array (handlersToJson handlers)) := by
  rw [handlersAtoms_eq_flatMap, List.forall_mem_flatMap] at hhandlers
  simp only [handlersToJson_eq_map]
  refine rewrites_list_map fun handler hhandler => ?_
  refine rewrites_record rfl (by decide) ?_
  refine .seq (.map (Record.rewrites_text rfl) _ ?_)
    (Record.rewrites_required rfl (h handler.body (hhandlers handler hhandler)))
  intro f hf s hs
  simp only [hf, hs]

theorem rewrites_else (otherwise : Option Statement)
    (hotherwise : ∀ a ∈ elseAtoms otherwise, a.IsReadPath) :
    Rewrites (Record.orNull inner) elseToJson (elseToJson otherwise) := by
  intro o ho
  rw [elseToJson_eq_ofOption] at ho ⊢
  rw [elseToJson_eq_ofOption]
  exact rewrites_ofOption (fun s hs => h s (by cases hs; exact hotherwise)) o ho

end Parts

/-- Whatever a statement is read back as, it is written by the same value. -/
theorem rewrites_readTagged (levels : Nat) (inner : Bool) (s : Statement)
    (h : ∀ a ∈ s.atoms, a.IsReadPath) :
    Rewrites (readTagged "Statement" kinds levels inner) toJson s.toJson := by
  induction levels generalizing inner s with
  | zero => nofun
  | succ levels ih =>
    cases s with
    | sequence span children | parallel span children =>
      refine rewrites_ofKind nodup_fields rfl rfl ?_
      refine .seq (.map (Record.rewrites_span rfl) _ ?_)
        (Record.rewrites_required rfl (rewrites_children (ih true) children h))
      intro sp hsp ss hss
      simp only [toJson, node, hsp, hss]
    | choice span branches =>
      refine rewrites_ofKind nodup_fields rfl rfl ?_
      refine .seq (.map (Record.rewrites_span rfl) _ ?_)
        (Record.rewrites_required rfl (rewrites_branches (ih true) branches h))
      intro sp hsp bs hbs
      simp only [toJson, node, hsp, hbs]
    | conditional span arms otherwise =>
      obtain ⟨harms, helse⟩ := List.forall_mem_append.mp h
      refine rewrites_ofKind nodup_fields rfl rfl ?_
      refine .seq (.seq (.map (Record.rewrites_span rfl) _ ?_)
        (Record.rewrites_required rfl (rewrites_arms (ih true) arms harms)))
        (Record.rewrites_optional rfl (rewrites_else (ih true) otherwise helse))
      intro sp hsp as has o ho
      simp only [toJson, node, hsp, has, ho]
    | whileLoop span condition body =>
      obtain ⟨hcondition, hbody⟩ := List.forall_mem_append.mp h
      refine rewrites_ofKind nodup_fields rfl rfl ?_
      refine .seq (.seq (.map (Record.rewrites_span rfl) _ ?_)
        (Record.rewrites_required rfl (condition.rewrites_toJson true hcondition)))
        (Record.rewrites_required rfl (ih true body hbody))
      intro sp hsp c hc b hb
      simp only [toJson, node, hsp, hc, hb]
    | forLoop span init condition step body =>
      obtain ⟨h, hbody⟩ := List.forall_mem_append.mp h
      obtain ⟨h, hstep⟩ := List.forall_mem_append.mp h
      obtain ⟨hinit, hcondition⟩ := List.forall_mem_append.mp h
      refine rewrites_ofKind nodup_fields rfl rfl ?_
      refine .seq (.seq (.seq (.seq (.map (Record.rewrites_span rfl) _ ?_)
        (Record.rewrites_required rfl (ih true init hinit)))
        (Record.rewrites_required rfl (condition.rewrites_toJson true hcondition)))
        (Record.rewrites_required rfl (ih true step hstep)))
        (Record.rewrites_required rfl (ih true body hbody))
      intro sp hsp i hi c hc t ht b hb
      simp only [toJson, node, hsp, hi, hc, ht, hb]
    | forEach span key target body =>
      obtain ⟨hkey, h⟩ := List.forall_mem_cons.mp h
      obtain ⟨htarget, hbody⟩ := List.forall_mem_cons.mp h
      refine rewrites_ofKind nodup_fields rfl rfl ?_
      refine .seq (.seq (.seq (.map (Record.rewrites_span rfl) _ ?_)
        (Record.rewrites_path rfl hkey))
        (Record.rewrites_path rfl htarget))
        (Record.rewrites_required rfl (ih true body hbody))
      intro sp hsp k hk t ht b hb
      simp only [toJson, node, hsp, hk, ht, hb]
    | scope span name body | synchronized span name body =>
      refine rewrites_ofKind nodup_fields rfl rfl ?_
      refine .seq (.seq (.map (Record.rewrites_span rfl) _ ?_)
        (Record.rewrites_text rfl))
        (Record.rewrites_required rfl (ih true body h))
      intro sp hsp n hn b hb
      simp only [toJson, node, hsp, hn, hb]
    | oneWay span operation receive =>
      refine rewrites_ofKind nodup_fields rfl rfl ?_
      refine .seq (.seq (.map (Record.rewrites_span rfl) _ ?_)
        (Record.rewrites_text rfl))
        (Record.rewrites_optional rfl (Path.rewrites_optional h))
      intro sp hsp n hn p hp
      simp only [toJson, node, hsp, hn, hp]
    | requestResponse span operation receive reply body =>
      obtain ⟨h, hbody⟩ := List.forall_mem_append.mp h
      obtain ⟨hreceive, hreply⟩ := List.forall_mem_append.mp h
      refine rewrites_ofKind nodup_fields rfl rfl ?_
      refine .seq (.seq (.seq (.seq (.map (Record.rewrites_span rfl) _ ?_)
        (Record.rewrites_text rfl))
        (Record.rewrites_optional rfl (Path.rewrites_optional hreceive)))
        (Record.rewrites_optional rfl (Expression.rewrites_optional hreply)))
        (Record.rewrites_required rfl (ih true body hbody))
      intro sp hsp n hn p hp e he b hb
      simp only [toJson, node, hsp, hn, hp, he, hb]
    | solicitResponse span operation port send receive =>
      obtain ⟨hsend, hreceive⟩ := List.forall_mem_append.mp h
      refine rewrites_ofKind nodup_fields rfl rfl ?_
      refine .seq (.seq (.seq (.seq (.map (Record.rewrites_span rfl) _ ?_)
        (Record.rewrites_text rfl))
        (Record.rewrites_text rfl))
        (Record.rewrites_optional rfl (Expression.rewrites_optional hsend)))
        (Record.rewrites_optional rfl (Path.rewrites_optional hreceive))
      intro sp hsp n hn t ht e he p hp
      simp only [toJson, node, hsp, hn, ht, he, hp]
    | notification span operation port send =>
      refine rewrites_ofKind nodup_fields rfl rfl ?_
      refine .seq (.seq (.seq (.map (Record.rewrites_span rfl) _ ?_)
        (Record.rewrites_text rfl))
        (Record.rewrites_text rfl))
        (Record.rewrites_optional rfl (Expression.rewrites_optional h))
      intro sp hsp n hn t ht e he
      simp only [toJson, node, hsp, hn, ht, he]
    | assign span target value =>
      obtain ⟨htarget, hvalue⟩ := List.forall_mem_cons.mp h
      refine rewrites_ofKind nodup_fields rfl rfl ?_
      refine .seq (.seq (.map (Record.rewrites_span rfl) _ ?_)
        (Record.rewrites_path rfl htarget))
        (Record.rewrites_required rfl (value.rewrites_toJson true hvalue))
      intro sp hsp p hp e he
      simp only [toJson, node, hsp, hp, he]
    | compoundAssign span target operator value =>
      obtain ⟨htarget, hvalue⟩ := List.forall_mem_cons.mp h
      refine rewrites_ofKind nodup_fields rfl rfl ?_
      refine .seq (.seq (.seq (.map (Record.rewrites_span rfl) _ ?_)
        (Record.rewrites_path rfl htarget))
        (Record.rewrites_required rfl operator.rewrites_toJson))
        (Record.rewrites_required rfl (value.rewrites_toJson true hvalue))
      intro sp hsp p hp o ho e he
      simp only [toJson, node, hsp, hp, ho, he]
    | update span path operator =>
      have hpath : path.location.IsRead := h (.path path) List.mem_cons_self
      refine rewrites_ofKind nodup_fields rfl rfl ?_
      refine .seq (.seq (.map (Record.rewrites_span rfl) _ ?_)
        (Record.rewrites_path rfl hpath))
        (Record.rewrites_required rfl operator.rewrites_toJson)
      intro sp hsp p hp o ho
      simp only [toJson, node, hsp, hp, ho]
    | pointer span left right | deepCopy span left right =>
      obtain ⟨hleft, h⟩ := List.forall_mem_cons.mp h
      obtain ⟨hright, -⟩ := List.forall_mem_cons.mp h
      refine rewrites_ofKind nodup_fields rfl rfl ?_
      refine .seq (.seq (.map (Record.rewrites_span rfl) _ ?_)
        (Record.rewrites_path rfl hleft))
        (Record.rewrites_path rfl hright)
      intro sp hsp p hp q hq
      simp only [toJson, node, hsp, hp, hq]
    | undefine span path =>
      have hpath : path.location.IsRead := h (.path path) List.mem_cons_self
      refine rewrites_ofKind nodup_fields rfl rfl ?_
      refine .seq (.map (Record.rewrites_span rfl) _ ?_)
        (Record.rewrites_path rfl hpath)
      intro sp hsp p hp
      simp only [toJson, node, hsp, hp]
    | install span handlers =>
      refine rewrites_ofKind nodup_fields rfl rfl ?_
      refine .seq (.map (Record.rewrites_span rfl) _ ?_)
        (Record.rewrites_required rfl (rewrites_handlers (ih true) handlers h))
      intro sp hsp hs hhs
      simp only [toJson, node, hsp, hhs]
    | spawn span index upperBound body =>
      obtain ⟨hindex, h⟩ := List.forall_mem_cons.mp h
      obtain ⟨hupper, hbody⟩ := List.forall_mem_append.mp h
      refine rewrites_ofKind nodup_fields rfl rfl ?_
      refine .seq (.seq (.seq (.map (Record.rewrites_span rfl) _ ?_)
        (Record.rewrites_path rfl hindex))
        (Record.rewrites_required rfl (upperBound.rewrites_toJson true hupper)))
        (Record.rewrites_required rfl (ih true body hbody))
      intro sp hsp p hp e he b hb
      simp only [toJson, node, hsp, hp, he, hb]
    | run span code =>
      refine rewrites_ofKind nodup_fields rfl rfl ?_
      refine .seq (.map (Record.rewrites_span rfl) _ ?_)
        (Record.rewrites_required rfl (code.rewrites_toJson true h))
      intro sp hsp e he
      simp only [toJson, node, hsp, he]
    | call span name | throw span name | compensate span name | linkIn span name
    | linkOut span name =>
      refine rewrites_ofKind nodup_fields rfl rfl ?_
      refine .seq (.map (Record.rewrites_span rfl) _ ?_)
        (Record.rewrites_text rfl)
      intro sp hsp n hn
      simp only [toJson, node, hsp, hn]
    | nothing span | exit span | currentHandler span =>
      refine rewrites_ofKind nodup_fields rfl rfl ?_
      refine .map (Record.rewrites_span rfl) _ fun sp hsp => ?_
      simp only [toJson, node, hsp]

theorem rewrites_toJson (inner : Bool) (s : Statement) (h : ∀ a ∈ s.atoms, a.IsReadPath) :
    Rewrites (ofJson inner) toJson s.toJson :=
  rewrites_readTagged s.toJson.depth inner s h

end Statement

/-! ## Programs -/

theorem ExecutionMode.rewrites_toJson (m : ExecutionMode) :
    Rewrites ExecutionMode.ofJson ExecutionMode.toJson m.toJson :=
  rewrites_of_eq_ok m.ofJson_toJson

theorem CorrelationAlias.rewrites_toJson (a : CorrelationAlias) (h : a.path.location.IsRead) :
    Rewrites CorrelationAlias.ofJson CorrelationAlias.toJson a.toJson := by
  refine rewrites_record rfl (by decide) ?_
  refine .seq (.map (Record.rewrites_text rfl) _ ?_)
    (Record.rewrites_path rfl h)
  intro n hn p hp
  simp only [toJson, hn, hp]

theorem CorrelationVariable.rewrites_toJson (v : CorrelationVariable)
    (h : ∀ a ∈ v.atoms, a.IsReadPath) :
    Rewrites CorrelationVariable.ofJson CorrelationVariable.toJson v.toJson := by
  obtain ⟨hpath, halias⟩ := List.forall_mem_cons.mp h
  have haliases := rewrites_list_map fun a ha =>
    CorrelationAlias.rewrites_toJson a (halias (.path a.path) (List.mem_map_of_mem ha))
  refine rewrites_record rfl (by decide) ?_
  refine .seq (.map (Record.rewrites_path rfl hpath) _ ?_)
    (Record.rewrites_withDefault rfl haliases)
  intro p hp as has
  simp only [toJson, hp, has]

theorem CorrelationSet.rewrites_toJson (s : CorrelationSet) (h : ∀ a ∈ s.atoms, a.IsReadPath) :
    Rewrites CorrelationSet.ofJson CorrelationSet.toJson s.toJson := by
  have hmembers := rewrites_list_map fun v hv =>
    CorrelationVariable.rewrites_toJson v fun a ha => h a (List.mem_flatMap.mpr ⟨v, hv, ha⟩)
  refine rewrites_record rfl (by decide) ?_
  refine .seq (.seq (.map (Record.rewrites_span rfl) _ ?_)
    (Record.rewrites_text rfl))
    (Record.rewrites_required rfl hmembers)
  intro sp hsp n hn vs hvs
  simp only [toJson, hsp, hn, hvs]

theorem Definition.rewrites_toJson (d : Definition) (h : ∀ a ∈ d.body.atoms, a.IsReadPath) :
    Rewrites Definition.ofJson Definition.toJson d.toJson := by
  refine rewrites_record rfl (by decide) ?_
  refine .seq (.seq (.map (Record.rewrites_span rfl) _ ?_)
    (Record.rewrites_text rfl))
    (Record.rewrites_required rfl (d.body.rewrites_toJson false h))
  intro sp hsp n hn b hb
  simp only [toJson, hsp, hn, hb]

namespace Program

/-- Whatever a program is read back as, it is written by the same value. -/
theorem rewrites_toJson (p : Program) (h : ∀ a ∈ p.atoms, a.IsReadPath) :
    Rewrites Program.ofJson Program.toJson p.toJson := by
  obtain ⟨hsets, hdefinitions⟩ := List.forall_mem_append.mp h
  have hsets := rewrites_list_map fun s hs =>
    CorrelationSet.rewrites_toJson s (List.forall_mem_flatMap.mp hsets s hs)
  have hdefinitions := rewrites_list_map fun d hd =>
    Definition.rewrites_toJson d (List.forall_mem_flatMap.mp hdefinitions d hd)
  refine rewrites_record rfl (by decide) ?_
  refine .seq (.seq (.seq (.map (Record.rewrites_withDefault rfl (rewrites_text p.file)) _ ?_)
    (Record.rewrites_withDefault rfl p.execution.rewrites_toJson))
    (Record.rewrites_withDefault rfl hsets)) (Record.rewrites_required rfl hdefinitions)
  intro f hf m hm ss hss ds hds
  simp only [toJson, hf, hm, hss, hds]

end Program

/-! ## Forms -/

/-- Nothing of a written point is skipped when it is read. -/
theorem Point.keeps_toJson (p : Point) : Keeps form p.toJson := by
  refine keeps_object rfl ?_
  simp only [List.forall_mem_cons]
  exact ⟨keeps_scalar _ _, keeps_scalar _ _, keeps_scalar _ _, nofun⟩

theorem Span.keeps_toJson (s : Span) : Keeps form s.toJson := by
  cases s with
  | unknown => rfl
  | between first last file =>
    refine keeps_object rfl (List.forall_mem_singleton.mpr (keeps_object rfl ?_))
    simp only [List.forall_mem_cons]
    exact ⟨first.keeps_toJson, last.keeps_toJson, keeps_scalar _ _, nofun⟩

theorem ExecutionMode.keeps_toJson (m : ExecutionMode) : Keeps form m.toJson := by
  cases m <;> rfl

theorem CorrelationAlias.keeps_toJson (a : CorrelationAlias) : Keeps form a.toJson := by
  refine keeps_object rfl ?_
  simp only [List.forall_mem_cons]
  exact ⟨keeps_scalar _ _, keeps_any _ _, nofun⟩

theorem CorrelationVariable.keeps_toJson (v : CorrelationVariable) : Keeps form v.toJson := by
  refine keeps_object rfl ?_
  simp only [List.forall_mem_cons]
  exact ⟨keeps_any _ _, keeps_list_map fun a _ => a.keeps_toJson, nofun⟩

theorem CorrelationSet.keeps_toJson (s : CorrelationSet) : Keeps form s.toJson := by
  refine keeps_object rfl ?_
  simp only [List.forall_mem_cons]
  exact ⟨s.span.keeps_toJson, keeps_scalar _ _, keeps_list_map fun v _ => v.keeps_toJson, nofun⟩

theorem Definition.keeps_toJson (d : Definition) : Keeps form d.toJson := by
  refine keeps_object rfl ?_
  simp only [List.forall_mem_cons]
  exact ⟨d.span.keeps_toJson, keeps_scalar _ _, keeps_tagged _ _ _, nofun⟩

namespace Program

/-- The form of programs asks for everything that is printed of one. -/
theorem keeps_toJson (p : Program) : Keeps form p.toJson := by
  refine keeps_object rfl ?_
  simp only [List.forall_mem_cons]
  exact ⟨keeps_scalar _ _, p.execution.keeps_toJson, keeps_list_map fun s _ => s.keeps_toJson,
    keeps_list_map fun d _ => d.keeps_toJson, nofun⟩

/-! ## Loading what was printed -/

/-- The text of a program is read as its value, if at all. -/
theorem ofJson_of_decode_print {p q : Program} (h : ∀ a ∈ p.atoms, a.IsPath)
    (hdecode : decode form ofJson p.print.toList = .ok q) : ofJson p.toJson = .ok q := by
  rw [print, pretty, String.toList_ofList] at hdecode
  obtain ⟨j, hread, hq⟩ := exists_of_decode hdecode
  rwa [eq_of_read_chars isBlank_pretty (exact_toJson h) p.keeps_toJson hread] at hq

/-- Programs that are written alike have the same file. -/
theorem file_eq_of_toJson {p q : Program} (h : q.toJson = p.toJson) : q.file = p.file := by
  simp only [toJson, Json.object.injEq, List.cons.injEq, Prod.mk.injEq, Json.string.injEq] at h
  exact h.1.2

/-- Loading what was printed of a program makes no difference to what is printed, if the program was
loaded itself and holds no real number. -/
theorem print_of_load_print {source file : String} {p q : Program}
    (hload : load source file = .ok p) (hreal : ∀ x, Atom.real x ∉ p.atoms)
    (hagain : load p.print file = .ok q) : q.print = p.print := by
  have hread : ∀ a ∈ p.atoms, a.IsReadPath := fun a ha => by
    cases a with
    | path l => exact isRead_of_load hload _ ha
    | real x => exact (hreal x ha).elim
  have hpath : ∀ a ∈ p.atoms, a.IsPath := fun a ha => by
    cases a with
    | path l => trivial
    | real x => exact (hreal x ha).elim
  obtain ⟨found, hdecode, rfl⟩ := exists_decode_of_load hagain
  have hvalue : found.toJson = p.toJson :=
    p.rewrites_toJson hread found (ofJson_of_decode_print hpath hdecode)
  have hprint : found.print = p.print := congrArg pretty hvalue
  split
  case isTrue hfound =>
    have hfile : file = found.file := by
      rw [hfound]
      exact file_of_load hload (file_eq_of_toJson hvalue ▸ hfound)
    rw [hfile]
    exact hprint
  case isFalse => exact hprint

/-- A program that undefines a node below the first one of `global`.  The text of that path names a
node of a global variable. -/
def seemingGlobalSource : String :=
  "[\"shop.ol\", \"single\", [], [[\"None\", \"main\", [\"undef\", \"None\", \"global[0].a\"]]]]"

theorem readsAgain?_of_load {source file : String} {p : Program} (h : load source file = .ok p) :
    readsAgain? source file = some (load p.print file).toOption.isSome := by
  simp only [readsAgain?, h]
  rw [load, print, pretty, String.toList_ofList]
  cases decode form ofJson (p.toJson.chars .pretty 0) <;> rfl

theorem print_of_load_print_seemingGlobal :
    ∃ p q, load seemingGlobalSource "shop.json" = .ok p ∧ (∀ x, Atom.real x ∉ p.atoms)
      ∧ (¬ ∀ a ∈ p.atoms, a.IsPlain) ∧ load p.print "shop.json" = .ok q ∧ q.print = p.print := by
  have hatoms : ((load seemingGlobalSource "shop.json").toOption.any fun p =>
      decide ((∀ a ∈ p.atoms, a.IsPath) ∧ ¬ ∀ a ∈ p.atoms, a.IsPlain)) = true := by
    decide +kernel
  have hreads : readsAgain? seemingGlobalSource "shop.json" = some true := by decide +kernel
  cases hload : load seemingGlobalSource "shop.json" with
  | error e => rw [hload] at hatoms; cases hatoms
  | ok p =>
    rw [hload] at hatoms
    obtain ⟨hpath, hplain⟩ := of_decide_eq_true hatoms
    have hreal : ∀ x, Atom.real x ∉ p.atoms := fun x hx => hpath (.real x) hx
    rw [readsAgain?_of_load hload] at hreads
    cases hagain : load p.print "shop.json" with
    | error e => rw [hagain] at hreads; cases hreads
    | ok q => exact ⟨p, q, rfl, hreal, hplain, hagain, print_of_load_print hload hreal hagain⟩

end Program

end Correlation
