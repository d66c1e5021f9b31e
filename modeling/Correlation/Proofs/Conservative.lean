import Correlation.Proofs.Circles
import Correlation.Proofs.DeclarationOrder
import Correlation.Proofs.Inlining
import Correlation.Proofs.SessionData

/-!
# Calls are checked conservatively

A definition is typed once, from an entry in which nothing is defined, and each of its calls gets
that typing.  Where the body stands in place of the call it is entered with more, so less is asked
for there.  Hence a valid program stays valid when a call is replaced by the body
(`isValid_of_inlines`).

The other definitions stay as they are, but some of them call the one that has changed.  The new
table is compared with the old one along the ranks of the new one: whatever is called refines what
was called before, so by `Inlines.improves` and `improves_self` the bodies improve
(`Inlined.refines_called`).  Then no part of a body has a fault that has not been there
(`Inlined.exists_fault`), and the session needs no more and has the same keys
(`Inlined.refines_sessionOf`).  That the new program has a settled table is seen from its call
graph: what the new body calls was called before, if only by way of the definition.
-/

namespace Correlation

open Skeleton

/-- A definition with another body, if it has the given name. -/
def Definition.rebody (name : String) (body : Statement) (e : Definition) : Definition :=
  if e.name = name then { e with body } else e

/-- The program in which the definition of a name has another body. -/
def Program.withBody (program : Program) (name : String) (body : Statement) : Program :=
  { program with definitions := program.definitions.map (Definition.rebody name body) }

namespace Definition

variable {name : String} {body : Statement} {e : Definition}

@[simp] theorem name_rebody (name : String) (body : Statement) (e : Definition) :
    (e.rebody name body).name = e.name := by
  rw [rebody]; split <;> rfl

@[simp] theorem span_rebody (name : String) (body : Statement) (e : Definition) :
    (e.rebody name body).span = e.span := by
  rw [rebody]; split <;> rfl

theorem body_rebody_of_eq (h : e.name = name) : (e.rebody name body).body = body := by
  rw [rebody, if_pos h]

theorem rebody_of_ne (h : e.name ≠ name) : e.rebody name body = e := if_neg h

end Definition

namespace Verdict

variable {s r : Typing}

/-- A session that needs no more than one that needs nothing needs nothing. -/
theorem needViolations_eq_nil (hkeys : s.neededKeys ⊆ r.neededKeys)
    (hdata : s.neededData.keys ⊆ r.neededData.keys) (hr : needViolations r = []) :
    needViolations s = [] := by
  obtain ⟨hcorrelation, hneeded⟩ := List.append_eq_nil_iff.mp hr
  rw [List.map_eq_nil_iff] at hcorrelation hneeded
  rw [Typing.neededKeys, Typing.neededKeys, OrderedSet.keys, OrderedSet.keys, hcorrelation,
    List.map_nil, List.subset_nil, List.map_eq_nil_iff] at hkeys
  rw [OrderedSet.keys, OrderedSet.keys, hneeded, List.map_nil, List.subset_nil,
    List.map_eq_nil_iff] at hdata
  rw [needViolations, hkeys, hdata]
  rfl

/-- Whether keys are fresh is told by the freshness of what a session provides. -/
theorem freshnessViolations_congr
    (h : ∀ l, s.providedCorrelation.freshness l = r.providedCorrelation.freshness l)
    (sets : List CorrelationSet) : freshnessViolations sets s = freshnessViolations sets r := by
  have hprovided : ∀ (set : CorrelationSet) (t : Typing),
      hasFreshValue set t = (let provided := set.members.filterMap fun v =>
        t.providedCorrelation.freshness v.path.location.underRoot
      provided.any id || provided.isEmpty) := by
    intro set t
    have hmap : (set.members.filterMap fun v =>
        t.providedCorrelation.freshness v.path.location.underRoot) =
          (set.members.filterMap fun v =>
            t.providedCorrelation.find? v.path.location.underRoot).map ProvidedPath.fresh :=
      List.map_filterMap.symm
    dsimp only
    rw [hmap, List.any_map, List.isEmpty_map]
    rfl
  rw [freshnessViolations, freshnessViolations]
  simp only [hprovided, h]

end Verdict

namespace Context

/-- The flag of a body is told by the name of the definition. -/
theorem partsOf_rebody (ctx : Context) (name : String) (body : Statement) (e : Definition) :
    ctx.partsOf (e.rebody name body) =
      visited ctx.execution (ctx.startsSession e) (e.rebody name body).body.skeleton := by
  rw [partsOf, startsSession, Definition.name_rebody]
  rfl

/-- The definitions of a context, but for one that has another body. -/
structure Rebodied (ctx : Context) (definitions : OrderedSet Definition.name) (f : Definition)
    (body : Statement) : Prop where
  caller : ctx.definitions.find? f.name = some f
  found : ∀ name, definitions.find? name =
    (ctx.definitions.find? name).map (Definition.rebody f.name body)

namespace Rebodied

variable {ctx : Context} {definitions : OrderedSet Definition.name} {f : Definition}
  {body : Statement} {name : String} (h : ctx.Rebodied definitions f body)

include h

/-- The same names are declared. -/
theorem contains_eq (name : String) :
    definitions.contains name = ctx.definitions.contains name := by
  rw [← OrderedSet.isSome_find?, h.found, Option.isSome_map, OrderedSet.isSome_find?]

/-- The same names are declared. -/
theorem mem_keys_iff : name ∈ definitions.keys ↔ name ∈ ctx.definitions.keys := by
  rw [← OrderedSet.contains_iff_mem_keys, h.contains_eq, OrderedSet.contains_iff_mem_keys]

/-- A definition comes from one with the same name. -/
theorem exists_of_find? {e' : Definition} (he' : definitions.find? e'.name = some e') :
    ∃ e, ctx.definitions.find? e.name = some e ∧ e.name = e'.name ∧
      e' = e.rebody f.name body := by
  rw [h.found] at he'
  obtain ⟨e, he, rfl⟩ := Option.map_eq_some_iff.mp he'
  rw [Definition.name_rebody] at he
  exact ⟨e, he, (Definition.name_rebody _ _ e).symm, rfl⟩

/-- Each definition is found with the body that it has now. -/
theorem find?_rebody {e : Definition} (he : ctx.definitions.find? e.name = some e) :
    definitions.find? (e.rebody f.name body).name = some (e.rebody f.name body) := by
  rw [Definition.name_rebody, h.found, he]
  rfl

theorem eq_caller {e : Definition} (he : ctx.definitions.find? e.name = some e)
    (hname : e.name = f.name) : e = f := by
  rw [hname, h.caller] at he
  exact (Option.some.inj he).symm

/-- A call has the typing of the body that its definition has now. -/
theorem called_eq_typing {new : NameTable Typing}
    (hnew : Context.Settled { ctx with definitions } new) {e : Definition}
    (he : ctx.definitions.find? e.name = some e) :
    called new e.name = typing ctx new (ctx.startsSession e) (e.rebody f.name body).body.skeleton
      (Context.entryOf { ctx with definitions } new (e.rebody f.name body)) := by
  have hcalled := hnew.called_eq (h.find?_rebody he)
  rw [typingOf, typing_rearrange, Definition.name_rebody] at hcalled
  rw [hcalled, startsSession, Definition.name_rebody]
  rfl

/-- What holds of a name that is not declared, and of a definition if it holds of what the new body
calls, holds of every name.  The induction is on the rank in the new table, below which all the
calls of a body are. -/
theorem rank_induction {new : NameTable Typing}
    (hnew : Context.Settled { ctx with definitions } new) {P : String → Prop}
    (undeclared : ∀ name, ctx.definitions.find? name = none → P name)
    (declared : ∀ e, ctx.definitions.find? e.name = some e →
      (∀ other, Context.Calls { ctx with definitions } (e.rebody f.name body) other →
        P other) → P e.name) (name : String) : P name := by
  induction hrank : new.keys.idxOf name using Nat.strongRecOn generalizing name with
  | ind rank ih =>
    cases hname : ctx.definitions.find? name with
    | none => exact undeclared name hname
    | some e =>
      obtain rfl := name_of_find? hname
      refine declared e hname fun other hother => ?_
      by_cases hdeclared : other ∈ definitions.keys
      · have hlt := hnew.ranked _ (h.find?_rebody hname) other hdeclared hother
        rw [Definition.name_rebody] at hlt
        exact ih _ (hrank ▸ hlt) other rfl
      · exact undeclared other
          (OrderedSet.find?_eq_none_iff.mpr fun hmem => hdeclared (h.mem_keys_iff.mpr hmem))

end Rebodied

/-- The definitions of a context, but for one body in which a call is replaced by the body of the
definition that is called. -/
structure Inlined (ctx : Context) (definitions : OrderedSet Definition.name) (f d : Definition)
    (body : Statement) : Prop where
  caller : ctx.definitions.find? f.name = some f
  callee : ctx.definitions.find? d.name = some d
  notInit : d.name ≠ initName
  notMain : d.name ≠ mainName
  inlines : f.body.Inlines ctx.execution d (ctx.startsSession f) body
  found : ∀ name, definitions.find? name =
    (ctx.definitions.find? name).map (Definition.rebody f.name body)

namespace Inlined

variable {ctx : Context} {definitions : OrderedSet Definition.name} {f d : Definition}
  {body : Statement} {name : String} (h : ctx.Inlined definitions f d body)

include h

theorem rebodied : ctx.Rebodied definitions f body := ⟨h.caller, h.found⟩

theorem startsSession_callee : ctx.startsSession d = false := by
  rw [startsSession, decide_eq_false h.notMain, Bool.false_and]

/-- The parts of the called definition have their flags cleared. -/
theorem partsOf_callee : ctx.partsOf d = visited ctx.execution false d.body.skeleton := by
  rw [partsOf, h.startsSession_callee]

/-- The definition that is called is typed from an entry in which nothing is defined. -/
theorem called_callee {old : NameTable Typing} (hold : ctx.Settled old) :
    called old d.name = typing ctx old false d.body.skeleton .empty := by
  rw [hold.called_eq h.callee, typingOf, h.startsSession_callee, entryOf,
    decide_eq_false h.notMain, Bool.false_and]
  rfl

/-- What a body calls was called before, by the same definition or by one that it called. -/
theorem mem_partsOf_call {e : Definition} (he : ctx.definitions.find? e.name = some e)
    {x : Bool × Skeleton} (hx : x ∈ ctx.partsOf (e.rebody f.name body)) {span : Span}
    (hcall : x.2 = .call span name) :
    x ∈ ctx.partsOf e ∨
      x ∈ ctx.partsOf d ∧ ∃ span, (false, .call span d.name) ∈ ctx.partsOf e := by
  by_cases hname : e.name = f.name
  · obtain rfl := h.rebodied.eq_caller he hname
    rw [partsOf_rebody, Definition.body_rebody_of_eq rfl] at hx
    rw [h.partsOf_callee]
    exact h.inlines.skeleton.mem_visited_call hx hcall
  · rw [Definition.rebody_of_ne hname] at hx
    exact Or.inl hx

/-! ## Typings -/

section Tables

variable {new old : NameTable Typing}

/-- A body is entered with no less, if that is so after `init`. -/
theorem covers_entryOf (e : Definition)
    (hinit : e.name = mainName → (called new initName).Refines (called old initName)) :
    (Context.entryOf { ctx with definitions } new (e.rebody f.name body)).Covers
      (ctx.entryOf old e) := by
  rw [entryOf, entryOf, Definition.name_rebody, h.rebodied.contains_eq]
  split
  · next hmain =>
    rw [Bool.and_eq_true, decide_eq_true_eq] at hmain
    exact (hinit hmain.1).provisions
  · exact .refl .empty

variable (hnew : Context.Settled { ctx with definitions } new) (hold : ctx.Settled old)

include hnew hold

/-- A body improves on the one before it, if its calls do. -/
theorem improves_body {e : Definition} (he : ctx.definitions.find? e.name = some e)
    (hcalls : CallsRefine ctx new old
      (ctx.startsSession e, (e.rebody f.name body).body.skeleton)) :
    Improves ctx new old (ctx.startsSession e, (e.rebody f.name body).body.skeleton)
      (ctx.startsSession e, e.body.skeleton) := by
  by_cases hname : e.name = f.name
  · obtain rfl := h.rebodied.eq_caller he hname
    rw [Definition.body_rebody_of_eq rfl] at hcalls ⊢
    exact h.inlines.skeleton.improves hnew.sorted hold.sorted (h.called_callee hold) hcalls
  · rw [Definition.rebody_of_ne hname] at hcalls ⊢
    exact improves_self hnew.sorted hold.sorted _ hcalls

/-- Every call asks for no more than before and gives no less. -/
theorem refines_called (name : String) : (called new name).Refines (called old name) := by
  induction name using h.rebodied.rank_induction hnew with
  | undeclared name hname =>
    rw [hold.called_undeclared hname, hnew.called_undeclared (by rw [h.found, hname]; rfl)]
    exact .refl .empty
  | declared e he ih =>
    have hentry := h.covers_entryOf e fun hmain =>
      ih initName (Or.inr ⟨(Definition.name_rebody _ _ e).trans hmain, rfl⟩)
    have hbody := h.improves_body hnew hold he fun x hx span other hcall =>
      ih other (Or.inl ⟨x, partsOf_rebody ctx f.name body e ▸ hx, span, hcall⟩)
    rw [h.rebodied.called_eq_typing hnew he, hold.called_eq he]
    exact hbody _ _ hentry

/-! ## Faults -/

/-- A part of a body has no fault that was not there before, in the same body or in the one that
stands in place of the call. -/
theorem exists_fault_of_part {e : Definition} (he : ctx.definitions.find? e.name = some e)
    {z : Bool × Skeleton} (hz : z ∈ ctx.partsOf (e.rebody f.name body)) {v : Violation}
    (hv : v ∈ faults ctx new (decide (e.name = initName)) z.1 z.2 .empty) :
    ∃ e, ctx.definitions.find? e.name = some e ∧ v ∈ ctx.faultsOf old e := by
  have hcalls : ∀ x, CallsRefine ctx new old x := fun x y _ span name _ =>
    h.refines_called hnew hold name
  by_cases hname : e.name = f.name
  · obtain rfl := h.rebodied.eq_caller he hname
    rw [partsOf_rebody, Definition.body_rebody_of_eq rfl] at hz
    obtain ⟨x, hx, hfaults⟩ := h.inlines.skeleton.exists_faults_eq hnew.sorted hold.sorted
      (h.called_callee hold) (hcalls _) hz (decide (e.name = initName))
    rw [hfaults] at hv
    rcases hx with hx | hx
    · exact ⟨e, he, List.mem_append_left _ (List.mem_flatMap.mpr ⟨x, hx, hv⟩)⟩
    · refine ⟨d, h.callee, List.mem_append_left _ (List.mem_flatMap.mpr ⟨x, ?_, ?_⟩)⟩
      · rwa [h.partsOf_callee]
      · rw [decide_eq_false h.notInit]
        exact faults_insideInit_subset ctx old _ x .empty hv
  · rw [Definition.rebody_of_ne hname] at hz
    rw [faults_self hnew.sorted hold.sorted z (hcalls z)] at hv
    exact ⟨e, he, List.mem_append_left _ (List.mem_flatMap.mpr ⟨z, hz, hv⟩)⟩

/-- Nothing is wrong with a definition that was not wrong before. -/
theorem exists_fault {e' : Definition} (he' : definitions.find? e'.name = some e') {v : Violation}
    (hv : v ∈ Context.faultsOf { ctx with definitions } new e') :
    ∃ e, ctx.definitions.find? e.name = some e ∧ v ∈ ctx.faultsOf old e := by
  obtain ⟨e, he, _, rfl⟩ := h.rebodied.exists_of_find? he'
  rcases List.mem_append.mp hv with hpart | hinit
  · obtain ⟨z, hz, hfault⟩ := List.mem_flatMap.mp hpart
    rw [faults_rearrange h.rebodied.contains_eq, Definition.name_rebody] at hfault
    exact h.exists_fault_of_part hnew hold he hz hfault
  · refine ⟨e, he, List.mem_append_right _ ?_⟩
    have hprovided := (h.refines_called hnew hold e.name).eq_providedCorrelation
    rw [← Definition.name_rebody f.name body e, hnew.called_eq he',
      Definition.name_rebody, hold.called_eq he] at hprovided
    rw [definitionViolations, initViolations, hprovided, Definition.name_rebody,
      Definition.span_rebody] at hinit
    exact hinit

/-! ## The session -/

/-- A session needs no more than before and has the same keys. -/
theorem refines_sessionOf : (sessionOf new).Refines (sessionOf old) := by
  have hmain := h.refines_called hnew hold mainName
  have hinit := h.refines_called hnew hold initName
  rw [sessionOf, sessionOf, hnew.get?_eq, hold.get?_eq]
  dsimp only
  rw [h.found]
  cases ctx.definitions.find? initName with
  | none => exact hmain
  | some e =>
    exact (Sequel.Refines.append (s := ⟨_, (called new initName).provisions, []⟩)
      (r := ⟨_, (called old initName).provisions, []⟩) ⟨hinit, hinit.provisions⟩
        (hnew.sorted mainName) (hold.sorted mainName) hmain).result

/-- If nothing is wrong with a session, nothing is wrong with it afterwards. -/
theorem ofTypings_eq_nil {file : String} {routing : Routing} {e : Definition}
    (he : ctx.definitions.find? mainName = some e)
    (hnone : (Verdict.ofTypings file routing old).2 = []) :
    (Verdict.ofTypings file routing new).2 = [] := by
  have hsession := h.refines_sessionOf hnew hold
  have hmain := h.refines_called hnew hold mainName
  have hinit := h.refines_called hnew hold initName
  have he' : definitions.find? mainName = some (e.rebody f.name body) := by
    rw [h.found, he]
    rfl
  obtain ⟨hclashes, hneeds, hfresh⟩ :=
    (Verdict.ofTypings_eq_nil_iff file routing hold he).mp hnone
  refine (Verdict.ofTypings_eq_nil_iff file routing hnew he').mpr ⟨?_, ?_, ?_⟩
  · rw [hinit.eq_providedCorrelation, hmain.eq_providedCorrelation, hclashes]
  · exact Verdict.needViolations_eq_nil hsession.neededCorrelation hsession.neededData hneeds
  · have hfreshness : ∀ l, (sessionOf new).providedCorrelation.freshness l =
        (sessionOf old).providedCorrelation.freshness l := fun l => by
      rw [hsession.eq_providedCorrelation]
    rw [Verdict.freshnessViolations_congr hfreshness, hfresh]

end Tables

end Inlined

end Context

/-! ## Programs -/

namespace Program

variable {program : Program} {mode : Option ExecutionMode} {f d : Definition} {body : Statement}

/-- A definition of the changed program is the one it was, perhaps with the new body. -/
theorem find?_withBody (program : Program) (mode : Option ExecutionMode) (name : String)
    (body : Statement) (other : String) :
    ((program.withBody name body).context mode).definitions.find? other =
      ((program.context mode).definitions.find? other).map (Definition.rebody name body) := by
  rw [find?_definitions, find?_definitions, definition?, definition?, withBody, List.find?_map]
  refine congrArg (Option.map _) (congrArg (List.find? · program.definitions) ?_)
  funext e
  rw [Function.comp_apply, Definition.name_rebody]

section Inlined

variable (h : (program.context mode).Inlined
  ((program.withBody f.name body).context mode).definitions f d body)

include h

/-- What a definition calls in the new program it called before, perhaps by way of the one whose
call is replaced. -/
theorem transGen_calls {caller callee : String}
    (hedge : (program.withBody f.name body).Calls caller callee) :
    Relation.TransGen program.Calls caller callee := by
  obtain ⟨e', he', hdeclared, hcalls⟩ := hedge.declared mode
  obtain rfl := Context.name_of_find? he'
  obtain ⟨e, he, hname, rfl⟩ := h.rebodied.exists_of_find? he'
  rw [← hname]
  have hkeys : callee ∈ (program.context mode).definitions.keys :=
    h.rebodied.mem_keys_iff.mp hdeclared
  rcases hcalls with ⟨x, hx, span, hcall⟩ | ⟨hmain, rfl⟩
  · rcases h.mem_partsOf_call he hx hcall with hkept | ⟨hbody, span', hy⟩
    · exact .single ((calls_iff he).mpr ⟨hkeys, Or.inl ⟨x, hkept, span, hcall⟩⟩)
    · have hcallee : d.name ∈ (program.context mode).definitions.keys :=
        List.mem_map_of_mem (OrderedSet.find?_eq_some_iff.mp h.callee).1
      exact .head ((calls_iff he).mpr ⟨hcallee, Or.inl ⟨_, hy, span', rfl⟩⟩)
        (.single ((calls_iff h.callee).mpr ⟨hkeys, Or.inl ⟨x, hbody, span, hcall⟩⟩))
  · exact .single ((calls_iff he).mpr ⟨hkeys, Or.inr ⟨hname.trans hmain, rfl⟩⟩)

/-- The new program has no circle of definitions if there was none. -/
theorem acyclic_withBody (hacyclic : ∀ names, .definitionCycle names ∉ (program.check mode).causes)
    (names : List String) :
    .definitionCycle names ∉ ((program.withBody f.name body).check mode).causes := by
  refine acyclic_of_not_transGen (fun name hname => not_transGen_of_acyclic hacyclic name ?_) names
  exact Relation.TransGen.closed (fun _ _ hedge => transGen_calls h hedge) name name hname

/-- The new program is valid if the old one was. -/
theorem isValid_withBody (hvalid : (program.check mode).isValid = true) :
    ((program.withBody f.name body).check mode).isValid = true := by
  have hacyclic := fun names => not_mem_causes_of_valid hvalid (.definitionCycle names)
  have hacyclic' := acyclic_withBody h hacyclic
  have hold := settled_check hacyclic
  have hnew : Context.Settled { program.context mode with
      definitions := ((program.withBody f.name body).context mode).definitions }
        ((program.withBody f.name body).check mode).typings := settled_check hacyclic'
  obtain ⟨hrouting, hfaults, hsession⟩ := (isValid_iff hacyclic).mp hvalid
  obtain ⟨e, he⟩ := exists_main_of_valid hvalid
  refine (isValid_iff hacyclic').mpr ⟨hrouting, fun e' he' => ?_, ?_⟩
  · refine List.eq_nil_iff_forall_not_mem.mpr fun v hv => ?_
    obtain ⟨d, hd, hv⟩ := h.exists_fault hnew hold he' hv
    exact List.not_mem_nil (hfaults d hd ▸ hv)
  · exact h.ofTypings_eq_nil hnew hold he hsession

end Inlined

end Program

/-- Calls are checked conservatively.  In a valid program whose definitions have different names a
call that is checked with the starter flag cleared may be replaced by the body of the definition
that it calls. -/
theorem isValid_of_inlines (program : Program) (mode : Option ExecutionMode)
    (hnames : (program.definitions.map Definition.name).Nodup)
    (hvalid : (program.check mode).isValid = true) {d : Definition} (hd : d ∈ program.definitions)
    (hinit : d.name ≠ initName) (hmain : d.name ≠ mainName) {f : Definition}
    (hf : f ∈ program.definitions) {body : Statement}
    (h : f.body.Inlines (program.context mode).execution d ((program.context mode).startsSession f)
      body) :
    ((program.withBody f.name body).check mode).isValid = true := by
  have hfind : ∀ e ∈ program.definitions,
      (program.context mode).definitions.find? e.name = some e := by
    intro e he
    refine OrderedSet.find?_eq_some_iff.mpr ⟨?_, rfl⟩
    rw [show (program.context mode).definitions.toList = program.definitions from
      OrderedSet.toList_firsts hnames]
    exact he
  exact Program.isValid_withBody
    { caller := hfind f hf
      callee := hfind d hd
      notInit := hinit
      notMain := hmain
      inlines := h
      found := Program.find?_withBody program mode f.name body } hvalid

/-- A definition copies an amount that its caller defines.  On its own it needs the amount. -/
def notedAmount : Program := sampleProgram
  [("note", .assign .unknown orderKey (.variable (sampleData "amount"))),
    ("main", .sequence .unknown [.oneWay .unknown "login" none,
      .assign .unknown sampleKey .fresh, .assign .unknown (sampleData "amount") (.int 1),
      .call .unknown "note", .oneWay .unknown "checkout" none])]

/-- In `main` the amount is there, and the body of `note` may stand in place of the call. -/
theorem isValid_notedAmount :
    (notedAmount.check none).isValid = true ∧
      ((notedAmount.withBody mainName (.sequence .unknown [.oneWay .unknown "login" none,
        .assign .unknown sampleKey .fresh, .assign .unknown (sampleData "amount") (.int 1),
        .assign .unknown orderKey (.variable (sampleData "amount")),
        .oneWay .unknown "checkout" none])).check none).isValid = true := by
  have hvalid : (notedAmount.check none).isValid = true := by decide +kernel
  refine ⟨hvalid, ?_⟩
  exact isValid_of_inlines notedAmount none (by decide +kernel) hvalid
    (d := ⟨.unknown, "note", .assign .unknown orderKey (.variable (sampleData "amount"))⟩)
    List.mem_cons_self (by decide) (by decide)
    (List.mem_cons_of_mem _ List.mem_cons_self)
    (.sequence .unknown [_, _, _] [_] (.here (.call .unknown)))

end Correlation
