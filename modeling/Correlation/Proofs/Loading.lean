import Correlation.Proofs.Codec

/-!
# Loaded programs

Every path of a program that was loaded has been read from a text.  Only a reader of paths yields a
path, and everything else that a program is made of is put together from what readers yield.
`Yields` says of a reader what holds of all its results, and there is one lemma per combinator.
-/

namespace Correlation

open Json

/-! ## What readers yield -/

/-- Whatever is read has a property. -/
def Yields (read : Json → Except Mismatch α) (P : α → Prop) : Prop :=
  ∀ j a, read j = .ok a → P a

namespace Gathered

/-- Whatever has been gathered has a property. -/
def Yields (g : Gathered α) (P : α → Prop) : Prop := ∀ a, g = .value a → P a

theorem Yields.anything (g : Gathered α) : g.Yields fun _ => True := fun _ _ => trivial

theorem Yields.map {g : Gathered α} {P : α → Prop} (h : g.Yields P) (f : α → β) {Q : β → Prop}
    (hf : ∀ a, P a → Q (f a)) : (f <$> g).Yields Q := by
  intro b hb
  cases g with
  | value a =>
    cases hb
    exact hf a (h a rfl)
  | mistake _ _ => cases hb

/-- Gathered values keep what holds of them when they are put together. -/
theorem Yields.seq {f : Gathered (α → β)} {g : Gathered α} {P : α → Prop} {Q : β → Prop}
    (hf : f.Yields fun k => ∀ a, P a → Q (k a)) (hg : g.Yields P) : (f <*> g).Yields Q := by
  intro b hb
  cases f with
  | value k =>
    cases g with
    | value a =>
      cases hb
      exact hf k rfl a (hg a rfl)
    | mistake _ _ => cases hb
  | mistake p r =>
    cases g with
    | value a => cases hb
    | mistake q s =>
      have hmistake : (if q < p then mistake q s else mistake p r : Gathered β) = value b := hb
      split at hmistake <;> cases hmistake

end Gathered

namespace Json

theorem exists_of_map_eq_ok {f : α → β} {x : Except ε α} {b : β} (h : x.map f = .ok b) :
    ∃ a, x = .ok a ∧ f a = b := by
  cases x with
  | error e => cases h
  | ok a =>
    cases h
    exact ⟨a, rfl, rfl⟩

/-- A list is read item by item. -/
theorem exists_of_list_cons {item : Json → Except Mismatch α} {j : Json} {rest : List Json}
    {as : List α} (h : list item (.array (j :: rest)) = .ok as) :
    ∃ b bs, item j = .ok b ∧ list item (.array rest) = .ok bs ∧ as = b :: bs := by
  rw [list, List.mapM_cons] at h
  cases hj : item j with
  | error e => rw [hj] at h; cases h
  | ok b =>
    cases hrest : rest.mapM item with
    | error e => rw [hj, hrest] at h; cases h
    | ok bs =>
      rw [hj, hrest] at h
      cases h
      exact ⟨b, bs, rfl, hrest, rfl⟩

/-- What holds of the items that are read holds of the items of a list. -/
theorem yields_list {item : Json → Except Mismatch α} {P : α → Prop} (h : Yields item P) :
    Yields (list item) fun as => ∀ a ∈ as, P a := by
  intro j as hread
  cases j with
  | array items =>
    induction items generalizing as with
    | nil =>
      cases hread
      exact List.forall_mem_nil P
    | cons j rest ih =>
      obtain ⟨b, bs, hb, hbs, rfl⟩ := exists_of_list_cons hread
      exact List.forall_mem_cons.mpr ⟨h j b hb, ih bs hbs⟩
  | _ => cases hread

namespace Record

variable {r : Record} {name : String} {read : Json → Except Mismatch α} {P : α → Prop}

/-- What holds of a value that is read, or of what stands for a missing one, holds of a field. -/
theorem yields_field {missing : Gathered α} (hmissing : missing.Yields P) (h : Yields read P) :
    (r.field name missing read).Yields P := by
  intro a ha
  rw [field] at ha
  split at ha
  case h_1 place value _ =>
    cases hvalue : read value with
    | error e => rw [hvalue] at ha; cases ha
    | ok b =>
      rw [hvalue] at ha
      cases ha
      exact h value a hvalue
  case h_2 => exact hmissing a ha

theorem yields_required (h : Yields read P) : (r.required name read).Yields P :=
  yields_field nofun h

theorem yields_withDefault {default : α} (hdefault : P default) (h : Yields read P) :
    (r.withDefault name default read).Yields P :=
  yields_field (fun _ ha => by cases ha; exact hdefault) h

theorem yields_optional (h : Yields read P) :
    (r.optional name read).Yields fun o => ∀ a ∈ o, P a := by
  refine yields_field (fun _ ha => by cases ha; nofun) fun j o hread => ?_
  cases j with
  | null => cases hread; nofun
  | _ =>
    obtain ⟨a, ha, rfl⟩ := exists_of_map_eq_ok hread
    rintro b ⟨⟩
    exact h _ a ha

/-- What holds of the gathered fields holds of the value that is built of them. -/
theorem yields_build {make : Record → Gathered α} (h : (make r).Yields P) {a : α}
    (ha : r.build make = .ok a) : P a := by
  rw [build] at ha
  cases hmake : make r <* r.flaw with
  | mistake _ _ => rw [hmake] at ha; cases ha
  | value b =>
    rw [hmake] at ha
    cases ha
    have hkept : (make r <* r.flaw).Yields P :=
      (h.map (Function.const Unit) fun b hb _ _ => hb).seq (.anything r.flaw)
    exact hkept a hmake

end Record

/-- What holds of every record holds of what is read as a record. -/
theorem yields_record {wanted : String} {names : List String} {make : Record → Gathered α}
    {P : α → Prop} (h : ∀ r, (make r).Yields P) : Yields (record wanted names make) P := by
  intro j a ha
  cases j with
  | object fields => exact Record.yields_build (h _) ha
  | array items => exact Record.yields_build (h _) ha
  | _ => cases ha

/-- A tagged object has one of the kinds. -/
theorem mem_of_tagged {sort : String} {kinds : List (Kind α)} {inner : Bool} {j : Json}
    {kind : Kind α} {r : Record} (h : tagged sort kinds inner j = .ok (kind, r)) :
    kind ∈ kinds := by
  cases j with
  | object fields =>
    simp only [tagged] at h
    split at h
    case h_1 => cases h
    case h_2 key tag more rest _ =>
      cases hkind : readKind kinds inner tag with
      | error e => rw [hkind] at h; cases h
      | ok found =>
        have hfound : found = kind := by
          rw [hkind] at h
          cases hmore : more.isEmpty <;> simp [hmore, bind, Except.bind, pure, Except.pure] at h
          exact h.1
        exact hfound ▸ mem_of_readKind hkind
  | array items =>
    cases items with
    | nil => cases h
    | cons tag items =>
      simp only [tagged] at h
      cases hkind : readKind kinds inner tag with
      | error e => rw [hkind] at h; cases h
      | ok found =>
        rw [hkind] at h
        cases h
        exact mem_of_readKind hkind
  | _ => cases h

/-- Tagged records have a property if it passes from the inner ones to those around them. -/
theorem yields_readTagged {sort : String} {kinds : List (Kind α)} {P : α → Prop}
    (h : ∀ inner, Yields inner P → ∀ kind ∈ kinds, ∀ r, (kind.make inner r).Yields P)
    (levels : Nat) (inner : Bool) : Yields (readTagged sort kinds levels inner) P := by
  induction levels generalizing inner with
  | zero => nofun
  | succ levels ih =>
    intro j a ha
    rw [readTagged] at ha
    cases htagged : tagged sort kinds inner j with
    | error e => rw [htagged] at ha; cases ha
    | ok found =>
      obtain ⟨kind, r⟩ := found
      rw [htagged] at ha
      exact Record.yields_build (h _ (ih true) kind (mem_of_tagged htagged) r) ha

end Json

namespace Json

/-- What is decoded from a text is read from its value. -/
theorem exists_of_decode {form : Form Mismatch} {read : Json → Except Mismatch α}
    {text : List Char} {a : α} (h : decode form read text = .ok a) :
    ∃ j, Json.read nestingLimit form text = .ok j ∧ read j = .ok a := by
  rw [decode] at h
  cases hj : Json.read nestingLimit form text with
  | error refusal => rw [hj] at h; cases h
  | ok j =>
    simp only [hj] at h
    cases ha : read j with
    | error reason => rw [ha] at h; cases h
    | ok b =>
      rw [ha] at h
      cases h
      exact ⟨j, rfl, ha⟩

end Json

/-! ## Paths in programs -/

/-- A path that was read, or any number. -/
def Atom.IsRead : Atom → Prop
  | .path p => p.location.IsRead
  | .real _ => True

/-- The location of a path that was read can be read. -/
theorem Path.yields_ofJson : Yields Path.ofJson fun p => p.location.IsRead := by
  have htext : ∀ {span text p}, ofText span text = .ok p → p.location.IsRead := by
    intro span text p h
    rw [ofText] at h
    cases hp : parse span text with
    | error e => rw [hp] at h; cases h
    | ok q =>
      rw [hp] at h
      cases h
      exact isRead_of_parse hp
  intro j p h
  cases j with
  | string text => exact htext h
  | object fields =>
    rw [ofJson] at h
    split at h
    case h_1 => exact htext h
    case h_2 => cases h
  | _ => cases h

namespace Expression

theorem allAtoms_eq_flatMap (es : List Expression) : allAtoms es = es.flatMap atoms := by
  induction es with
  | nil => rfl
  | cons e rest ih => rw [allAtoms, ih, List.flatMap_cons]

/-- All paths of an expression were read. -/
def IsRead (e : Expression) : Prop := ∀ a ∈ e.atoms, a.IsRead

theorem isRead_allAtoms {es : List Expression} (h : ∀ e ∈ es, e.IsRead) :
    ∀ a ∈ allAtoms es, a.IsRead := by
  rw [allAtoms_eq_flatMap]
  exact List.forall_mem_flatMap.mpr h

/-- The paths of an expression are those of its parts, whatever its kind is. -/
theorem yields_kinds {inner : Json → Except Mismatch Expression} (h : Yields inner IsRead) :
    ∀ kind ∈ kinds, ∀ r, (kind.make inner r).Yields IsRead := by
  have hpath : ∀ r : Record, (r.path "path").Yields fun p => p.location.IsRead :=
    fun r => Record.yields_required Path.yields_ofJson
  have hinner : ∀ (r : Record) name, (r.required name inner).Yields IsRead :=
    fun r name => Record.yields_required h
  have hoperands : ∀ r : Record, (r.required "operands" (list inner)).Yields
      fun es => ∀ a ∈ allAtoms es, a.IsRead :=
    fun r => Record.yields_required fun j es hes => isRead_allAtoms (yields_list h j es hes)
  simp only [kinds, List.forall_mem_cons]
  refine ⟨fun r => ?int, fun r => ?real, fun r => ?string, fun r => ?bool, fun r => ?ofVariable,
    fun r => ?fresh, fun r => ?update, fun r => ?sum, fun r => ?product, fun r => ?compare,
    fun r => ?conjunction, fun r => ?disjunction, fun r => ?negation, fun r => ?vectorSize,
    fun r => ?isType, fun r => ?cast, fun r => ?installFixed,
    List.forall_mem_nil _⟩
  case int | string | bool => exact .map (.anything _) _ fun _ _ => List.forall_mem_nil _
  case real => exact .map (.anything _) _ fun x _ => by simp [IsRead, atoms, Atom.IsRead]
  case fresh =>
    rintro _ ⟨⟩
    exact List.forall_mem_nil _
  case ofVariable | vectorSize | isType | installFixed =>
    exact .map (hpath r) _ fun p hp => List.forall_mem_singleton.mpr hp
  case update =>
    refine .seq (.map (hpath r) _ ?_) (.anything _)
    exact fun p hp _ _ => List.forall_mem_singleton.mpr hp
  case sum | product | conjunction | disjunction => exact .map (hoperands r) _ fun _ hes => hes
  case compare =>
    refine .seq (.map (hinner r "left") _ ?_) (hinner r "right")
    exact fun left hleft right hright => List.forall_mem_append.mpr ⟨hleft, hright⟩
  case negation | cast => exact .map (hinner r "operand") _ fun _ he => he

theorem yields_ofJson (inner : Bool) : Yields (ofJson inner) IsRead := fun j =>
  yields_readTagged (fun _ => yields_kinds) j.depth inner j

end Expression

namespace Statement

theorem allAtoms_eq_flatMap (ss : List Statement) : allAtoms ss = ss.flatMap atoms := by
  induction ss with
  | nil => rfl
  | cons s rest ih => rw [allAtoms, ih, List.flatMap_cons]

theorem branchesAtoms_eq_flatMap (branches : List (Branch Statement)) :
    branchesAtoms branches = branches.flatMap fun b => b.guard.atoms ++ b.body.atoms := by
  induction branches with
  | nil => rfl
  | cons b rest ih => rw [branchesAtoms, ih, List.flatMap_cons]

theorem armsAtoms_eq_flatMap (arms : List (Arm Statement)) :
    armsAtoms arms = arms.flatMap fun a => a.condition.atoms ++ a.body.atoms := by
  induction arms with
  | nil => rfl
  | cons a rest ih => rw [armsAtoms, ih, List.flatMap_cons]

theorem handlersAtoms_eq_flatMap (handlers : List (Handler Statement)) :
    handlersAtoms handlers = handlers.flatMap fun h => h.body.atoms := by
  induction handlers with
  | nil => rfl
  | cons h rest ih => rw [handlersAtoms, ih, List.flatMap_cons]

/-- All paths of a statement were read. -/
def IsRead (s : Statement) : Prop := ∀ a ∈ s.atoms, a.IsRead

section Parts

variable {inner : Json → Except Mismatch Statement} (h : Yields inner IsRead)
include h

theorem yields_branches (r : Record) :
    (r.required "branches" (list (Branch.ofJson inner))).Yields
      fun branches => ∀ a ∈ branchesAtoms branches, a.IsRead := by
  have hbranch : Yields (Branch.ofJson inner) fun b => b.guard.IsRead ∧ b.body.IsRead :=
    yields_record fun r => .seq (.map (Record.yields_required h) _ fun _ hg _ hb => ⟨hg, hb⟩)
      (Record.yields_required h)
  refine Record.yields_required fun j branches hbranches => ?_
  rw [branchesAtoms_eq_flatMap]
  exact List.forall_mem_flatMap.mpr fun b hb =>
    List.forall_mem_append.mpr (yields_list hbranch j branches hbranches b hb)

theorem yields_arms (r : Record) :
    (r.required "arms" (list (Arm.ofJson inner))).Yields
      fun arms => ∀ a ∈ armsAtoms arms, a.IsRead := by
  have harm : Yields (Arm.ofJson inner) fun a => a.condition.IsRead ∧ a.body.IsRead :=
    yields_record fun r => .seq
      (.map (Record.yields_required (Expression.yields_ofJson true)) _ fun _ hc _ hb => ⟨hc, hb⟩)
      (Record.yields_required h)
  refine Record.yields_required fun j arms harms => ?_
  rw [armsAtoms_eq_flatMap]
  exact List.forall_mem_flatMap.mpr fun a ha =>
    List.forall_mem_append.mpr (yields_list harm j arms harms a ha)

theorem yields_handlers (r : Record) :
    (r.required "handlers" (list (Handler.ofJson inner))).Yields
      fun handlers => ∀ a ∈ handlersAtoms handlers, a.IsRead := by
  have hhandler : Yields (Handler.ofJson inner) fun h => h.body.IsRead :=
    yields_record fun r => .seq (.map (.anything _) _ fun _ _ _ hb => hb)
      (Record.yields_required h)
  refine Record.yields_required fun j handlers hhandlers => ?_
  rw [handlersAtoms_eq_flatMap]
  exact List.forall_mem_flatMap.mpr (yields_list hhandler j handlers hhandlers)

theorem yields_children (r : Record) :
    (r.required "children" (list inner)).Yields fun ss => ∀ a ∈ allAtoms ss, a.IsRead := by
  refine Record.yields_required fun j ss hss => ?_
  rw [allAtoms_eq_flatMap]
  exact List.forall_mem_flatMap.mpr (yields_list h j ss hss)

theorem yields_else (r : Record) :
    (r.optional "else" inner).Yields fun o => ∀ a ∈ elseAtoms o, a.IsRead := by
  intro o ho
  cases o with
  | none => nofun
  | some s => exact Record.yields_optional h (some s) ho s rfl

end Parts

theorem yields_path? (r : Record) (name : String) :
    (path? r name).Yields fun o => ∀ a ∈ Atom.path? o, a.IsRead := by
  intro o ho
  cases o with
  | none => nofun
  | some p =>
    have hp := Record.yields_optional Path.yields_ofJson (some p) ho p rfl
    exact List.forall_mem_singleton.mpr hp

theorem yields_expression? (r : Record) (name : String) :
    (expression? r name).Yields fun o => ∀ a ∈ Expression.atoms? o, a.IsRead := by
  intro o ho
  cases o with
  | none => nofun
  | some e => exact Record.yields_optional (Expression.yields_ofJson true) (some e) ho e rfl

/-- The paths of a statement are those of its parts, whatever its kind is. -/
theorem yields_kinds {inner : Json → Except Mismatch Statement} (h : Yields inner IsRead) :
    ∀ kind ∈ kinds, ∀ r, (kind.make inner r).Yields IsRead := by
  have hpath : ∀ (r : Record) name, (r.path name).Yields fun p => p.location.IsRead :=
    fun r name => Record.yields_required Path.yields_ofJson
  have hinner : ∀ (r : Record) name, (r.required name inner).Yields IsRead :=
    fun r name => Record.yields_required h
  have hexpression : ∀ (r : Record) name, (expression r name).Yields Expression.IsRead :=
    fun r name => Record.yields_required (Expression.yields_ofJson true)
  simp only [kinds, List.forall_mem_cons]
  refine ⟨fun r => ?sequence, fun r => ?parallel, fun r => ?choice, fun r => ?conditional,
    fun r => ?whileLoop, fun r => ?forLoop, fun r => ?forEach, fun r => ?scope,
    fun r => ?synchronized, fun r => ?call, fun r => ?oneWay, fun r => ?requestResponse,
    fun r => ?solicitResponse, fun r => ?notification, fun r => ?assign, fun r => ?compoundAssign,
    fun r => ?update, fun r => ?pointer, fun r => ?deepCopy, fun r => ?undefine, fun r => ?nothing,
    fun r => ?throw, fun r => ?exit, fun r => ?install, fun r => ?compensate, fun r => ?spawn,
    fun r => ?linkIn, fun r => ?linkOut, fun r => ?run, fun r => ?currentHandler,
    List.forall_mem_nil _⟩
  case sequence | parallel =>
    exact .seq (.map (.anything _) _ fun _ _ _ hss => hss) (yields_children h r)
  case choice => exact .seq (.map (.anything _) _ fun _ _ _ hb => hb) (yields_branches h r)
  case conditional =>
    refine .seq (.seq (.map (.anything _) _ ?_) (yields_arms h r)) (yields_else h r)
    exact fun _ _ _ harms _ helse => List.forall_mem_append.mpr ⟨harms, helse⟩
  case whileLoop =>
    refine .seq (.seq (.map (.anything _) _ ?_) (hexpression r _)) (hinner r _)
    exact fun _ _ _ hc _ hb => List.forall_mem_append.mpr ⟨hc, hb⟩
  case forLoop =>
    refine .seq (.seq (.seq (.seq (.map (.anything _) _ ?_) (hinner r _)) (hexpression r _))
      (hinner r _)) (hinner r _)
    exact fun _ _ _ hi _ hc _ hs _ hb => List.forall_mem_append.mpr
      ⟨List.forall_mem_append.mpr ⟨List.forall_mem_append.mpr ⟨hi, hc⟩, hs⟩, hb⟩
  case forEach =>
    refine .seq (.seq (.seq (.map (.anything _) _ ?_) (hpath r _)) (hpath r _)) (hinner r _)
    exact fun _ _ _ hk _ ht _ hb =>
      List.forall_mem_cons.mpr ⟨hk, List.forall_mem_cons.mpr ⟨ht, hb⟩⟩
  case scope | synchronized =>
    refine .seq (.seq (.map (.anything _) _ ?_) (.anything _)) (hinner r _)
    exact fun _ _ _ _ _ hb => hb
  case oneWay =>
    refine .seq (.seq (.map (.anything _) _ ?_) (.anything _)) (yields_path? r _)
    exact fun _ _ _ _ _ hreceive => hreceive
  case requestResponse =>
    refine .seq (.seq (.seq (.seq (.map (.anything _) _ ?_) (.anything _))
      (yields_path? r _)) (yields_expression? r _)) (hinner r _)
    exact fun _ _ _ _ _ hreceive _ hreply _ hb =>
      List.forall_mem_append.mpr ⟨List.forall_mem_append.mpr ⟨hreceive, hreply⟩, hb⟩
  case solicitResponse =>
    refine .seq (.seq (.seq (.seq (.map (.anything _) _ ?_) (.anything _)) (.anything _))
      (yields_expression? r _)) (yields_path? r _)
    exact fun _ _ _ _ _ _ _ hsend _ hreceive => List.forall_mem_append.mpr ⟨hsend, hreceive⟩
  case notification =>
    refine .seq (.seq (.seq (.map (.anything _) _ ?_) (.anything _)) (.anything _))
      (yields_expression? r _)
    exact fun _ _ _ _ _ _ _ hsend => hsend
  case assign =>
    refine .seq (.seq (.map (.anything _) _ ?_) (hpath r _)) (hexpression r _)
    exact fun _ _ _ ht _ hv => List.forall_mem_cons.mpr ⟨ht, hv⟩
  case compoundAssign =>
    refine .seq (.seq (.seq (.map (.anything _) _ ?_) (hpath r _)) (.anything _))
      (hexpression r _)
    exact fun _ _ _ ht _ _ _ hv => List.forall_mem_cons.mpr ⟨ht, hv⟩
  case update =>
    refine .seq (.seq (.map (.anything _) _ ?_) (hpath r _)) (.anything _)
    exact fun _ _ _ hp _ _ => List.forall_mem_singleton.mpr hp
  case pointer | deepCopy =>
    refine .seq (.seq (.map (.anything _) _ ?_) (hpath r _)) (hpath r _)
    exact fun _ _ _ hl _ hr =>
      List.forall_mem_cons.mpr ⟨hl, List.forall_mem_singleton.mpr hr⟩
  case undefine =>
    refine .seq (.map (.anything _) _ ?_) (hpath r _)
    exact fun _ _ _ hp => List.forall_mem_singleton.mpr hp
  case install => exact .seq (.map (.anything _) _ fun _ _ _ hh => hh) (yields_handlers h r)
  case spawn =>
    refine .seq (.seq (.seq (.map (.anything _) _ ?_) (hpath r _)) (hexpression r _))
      (hinner r _)
    exact fun _ _ _ hi _ hu _ hb =>
      List.forall_mem_cons.mpr ⟨hi, List.forall_mem_append.mpr ⟨hu, hb⟩⟩
  case run => exact .seq (.map (.anything _) _ fun _ _ _ hc => hc) (hexpression r _)
  case call | throw | compensate | linkIn | linkOut =>
    exact .seq (.map (.anything _) _ fun _ _ _ _ => List.forall_mem_nil _) (.anything _)
  case nothing | exit | currentHandler =>
    exact .map (.anything _) _ fun _ _ => List.forall_mem_nil _

theorem yields_ofJson (inner : Bool) : Yields (ofJson inner) IsRead := fun j =>
  yields_readTagged (fun _ => yields_kinds) j.depth inner j

end Statement

theorem CorrelationAlias.yields_ofJson :
    Yields CorrelationAlias.ofJson fun a => a.path.location.IsRead :=
  yields_record fun _ => .seq (.map (.anything _) _ fun _ _ _ hp => hp)
    (Record.yields_required Path.yields_ofJson)

theorem CorrelationVariable.yields_ofJson :
    Yields CorrelationVariable.ofJson fun v => ∀ a ∈ v.atoms, a.IsRead := by
  refine yields_record fun _ => .seq (.map (Record.yields_required Path.yields_ofJson) _ ?_)
    (Record.yields_withDefault nofun (yields_list CorrelationAlias.yields_ofJson))
  exact fun _ hp _ haliases => List.forall_mem_cons.mpr ⟨hp, List.forall_mem_map.mpr haliases⟩

theorem CorrelationSet.yields_ofJson :
    Yields CorrelationSet.ofJson fun s => ∀ a ∈ s.atoms, a.IsRead := by
  refine yields_record fun _ => .seq (.seq (.map (.anything _) _ ?_) (.anything _))
    (Record.yields_required (yields_list CorrelationVariable.yields_ofJson))
  exact fun _ _ _ _ _ hmembers => List.forall_mem_flatMap.mpr hmembers

theorem Definition.yields_ofJson : Yields Definition.ofJson fun d => d.body.IsRead :=
  yields_record fun _ => .seq (.seq (.map (.anything _) _ fun _ _ _ _ _ hb => hb) (.anything _))
    (Record.yields_required (Statement.yields_ofJson false))

namespace Program

theorem yields_ofJson : Yields Program.ofJson fun p => ∀ a ∈ p.atoms, a.IsRead := by
  refine yields_record fun _ => .seq (.seq (.seq (.map (.anything _) _ ?_) (.anything _))
    (Record.yields_withDefault nofun (yields_list CorrelationSet.yields_ofJson)))
    (Record.yields_required (yields_list Definition.yields_ofJson))
  exact fun _ _ _ _ _ hsets _ hdefinitions => List.forall_mem_append.mpr
    ⟨List.forall_mem_flatMap.mpr hsets, List.forall_mem_flatMap.mpr hdefinitions⟩

/-- A program that was loaded has been decoded, and has got a file if it had none. -/
theorem exists_decode_of_load {source file : String} {p : Program} (h : load source file = .ok p) :
    ∃ q, decode form ofJson source.toList = .ok q
      ∧ p = if q.file = unknownFile then { q with file } else q := by
  simp only [load] at h
  cases hdecode : decode form ofJson source.toList with
  | error refusal => rw [hdecode] at h; cases h
  | ok q =>
    rw [hdecode] at h
    cases h
    exact ⟨q, rfl, rfl⟩

/-- All paths of a program that was loaded have been read. -/
theorem isRead_of_load {source file : String} {p : Program} (h : load source file = .ok p) :
    ∀ a ∈ p.atoms, a.IsRead := by
  obtain ⟨q, hdecode, rfl⟩ := exists_decode_of_load h
  obtain ⟨j, -, hq⟩ := exists_of_decode hdecode
  have hread := yields_ofJson j q hq
  split
  · exact hread
  · exact hread

/-- A program that was loaded has no file only if none was given. -/
theorem file_of_load {source file : String} {p : Program} (h : load source file = .ok p)
    (hp : p.file = unknownFile) : file = unknownFile := by
  obtain ⟨q, -, rfl⟩ := exists_decode_of_load h
  split at hp
  case isTrue => exact hp
  case isFalse hq => exact absurd hp hq

end Program

end Correlation
