import Correlation.Proofs.Conservative
import Correlation.Proofs.Siblings

/-!
# The order of siblings does not matter

Whether a program is valid does not depend on the order of the bodies of a conditional, nor on that
of the children of a parallel (`isValid_of_rearranged`).  There are two provisos.

* Where a session still waits for its first input, the same sibling has to take it in.  The first
  input need not be routed and all the others do, and the check takes siblings one after the other.
* Where the children of a parallel matter to `init`, its typing must not provide data that it also
  invalidates.  Such data comes from children that race for it, and their order decides whether
  `main` may count on it.

The definitions are looked up as before but for one body.  By induction on the ranks of the new
table the typings of all definitions resemble the old ones (`Reordered.resembles_called`).  Then
nothing that was in order before is wrong (`Reordered.faultsOf_eq_nil`,
`Reordered.ofTypings_eq_nil`), and the definitions still run without a circle.  So the new program
is valid if the old one was, and the siblings may be put back again.
-/

namespace Correlation

open Skeleton

/-! ## Sessions that resemble each other -/

theorem ProvidedSet.clashes_eq_nil_iff {before next : ProvidedSet} :
    before.clashes next = [] ↔ ∀ l ∈ next.keys, l ∉ before.keys := by
  rw [clashes, List.map_eq_nil_iff, List.filter_eq_nil_iff, OrderedSet.keys, List.forall_mem_map]
  exact forall₂_congr fun p _ => not_congr OrderedSet.contains_iff_mem_keys

namespace Typing

/-- No data is provided that is invalidated besides. -/
def KeepsData (t : Typing) : Prop := ∀ l ∈ t.providedData.keys, l ∉ t.invalidatedData.keys

instance (t : Typing) : Decidable t.KeepsData :=
  inferInstanceAs (Decidable (∀ l ∈ t.providedData.keys, l ∉ t.invalidatedData.keys))

end Typing

namespace Context

/-- The definitions of a context, but for one body in which siblings are written in another order.
-/
structure Reordered (ctx : Context) (definitions : OrderedSet Definition.name) (f : Definition)
    (body : Statement) (lax : Prop) : Prop extends ctx.Rebodied definitions f body where
  reorders : Reorders ctx.execution lax (ctx.startsSession f) f.body.skeleton body.skeleton

namespace Reordered

variable {ctx : Context} {definitions : OrderedSet Definition.name} {f : Definition}
  {body : Statement} {lax : Prop} {name : String} {e : Definition}
  (h : ctx.Reordered definitions f body lax)

include h

/-- Every body is reordered, if only by leaving it as it is. -/
theorem reorders_body (he : ctx.definitions.find? e.name = some e) :
    Reorders ctx.execution lax (ctx.startsSession e) e.body.skeleton
      (e.rebody f.name body).body.skeleton := by
  by_cases hname : e.name = f.name
  · obtain rfl := h.eq_caller he hname
    rw [Definition.body_rebody_of_eq rfl]
    exact h.reorders
  · rw [Definition.rebody_of_ne hname]
    exact .refl ..

/-- A definition calls nothing that it did not call before. -/
theorem calls_of_rebody (he : ctx.definitions.find? e.name = some e)
    (hcalls : Context.Calls { ctx with definitions } (e.rebody f.name body) name) :
    ctx.Calls e name := by
  rcases hcalls with ⟨x, hx, span, hcall⟩ | ⟨hmain, rfl⟩
  · obtain ⟨x', hx', hcall'⟩ :=
      (h.reorders_body he).exists_call (partsOf_rebody ctx f.name body e ▸ hx) hcall
    exact Or.inl ⟨x', hx', span, hcall'⟩
  · exact Or.inr ⟨(Definition.name_rebody _ _ e).symm.trans hmain, rfl⟩

section Tables

variable {new old : NameTable Typing}

/-- A body is entered with the same, if that is so after `init`. -/
theorem defined_entryOf (e : Definition)
    (hinit : e.name = mainName →
      (called new initName).Resembles False (called old initName)) :
    (Context.entryOf { ctx with definitions } new (e.rebody f.name body)).defined =
      (ctx.entryOf old e).defined := by
  rw [entryOf, entryOf, Definition.name_rebody, h.contains_eq]
  split
  · next hmain =>
    rw [Bool.and_eq_true, decide_eq_true_eq] at hmain
    exact (hinit hmain.1).defined
  · rfl

variable (hnew : Context.Settled { ctx with definitions } new) (hold : ctx.Settled old)

include hnew hold

/-! ## Typings -/

/-- What does not depend on the body that has changed is typed as before. -/
theorem resembles_apart (Apart : String → Prop)
    (hclosed : ∀ e, ctx.definitions.find? e.name = some e → Apart e.name → e.name ≠ f.name ∧
      ∀ other ∈ ctx.definitions.keys, ctx.Calls e other → Apart other)
    (hname : name ∈ ctx.definitions.keys → Apart name) :
    (called new name).Resembles False (called old name) := by
  revert hname
  induction name using h.rank_induction hnew with
  | undeclared name hname =>
    intro _
    rw [hold.called_undeclared hname, hnew.called_undeclared (by rw [h.found, hname]; rfl)]
    exact .refl False .empty
  | declared e he ih =>
    intro hapart
    obtain ⟨hne, hothers⟩ :=
      hclosed e he (hapart (List.mem_map_of_mem (OrderedSet.find?_eq_some_iff.mp he).1))
    rw [Definition.rebody_of_ne hne] at ih
    have hcalled : ∀ other, ctx.Calls e other →
        (called new other).Resembles False (called old other) :=
      fun other hother => ih other hother fun hdeclared => hothers other hdeclared hother
    have hentry := h.defined_entryOf e fun hmain => hcalled initName (Or.inr ⟨hmain, rfl⟩)
    have hbody : CallsMatch ctx new old False (ctx.startsSession e, e.body.skeleton) :=
      fun x hx span other hcall => hcalled other (Or.inl ⟨x, hx, span, hcall⟩)
    rw [h.called_eq_typing hnew he, hold.called_eq he, Definition.rebody_of_ne hne]
    rw [Definition.rebody_of_ne hne] at hentry
    exact matches_self hnew.sorted hold.sorted _ hbody _ _ hentry

variable (hnone : ∀ e, ctx.definitions.find? e.name = some e → ctx.faultsOf old e = [])
  (hinit : (called new initName).Resembles lax (called old initName) →
    (called new initName).Resembles False (called old initName))

include hnone

omit h hnew hold in
/-- Nothing was wrong with any part of a body. -/
theorem faults_part_old (he : ctx.definitions.find? e.name = some e) {z : Bool × Skeleton}
    (hz : z ∈ ctx.partsOf e) :
    faults ctx old (decide (e.name = initName)) z.1 z.2 .empty = [] :=
  List.flatMap_eq_nil_iff.mp (List.append_eq_nil_iff.mp (hnone e he)).1 z hz

include hinit

/-- Every call gets a typing that resembles the one that it got before.  The new body is compared by
both tables, and then both bodies by the old table. -/
theorem resembles_called (name : String) : (called new name).Resembles lax (called old name) := by
  induction name using h.rank_induction hnew with
  | undeclared name hname =>
    rw [hold.called_undeclared hname, hnew.called_undeclared (by rw [h.found, hname]; rfl)]
    exact .refl lax .empty
  | declared e he ih =>
    have hentry := h.defined_entryOf e fun hmain =>
      hinit (ih initName (Or.inr ⟨(Definition.name_rebody _ _ e).trans hmain, rfl⟩))
    have hcalls : CallsMatch ctx new old lax
        (ctx.startsSession e, (e.rebody f.name body).body.skeleton) :=
      fun x hx span other hcall =>
        ih other (Or.inl ⟨x, partsOf_rebody ctx f.name body e ▸ hx, span, hcall⟩)
    rw [h.called_eq_typing hnew he, hold.called_eq he]
    exact (matches_self hnew.sorted hold.sorted _ hcalls _ _ hentry).trans
      ((h.reorders_body he).matched hold.sorted (fun z => faults_part_old hnone he) _ _
        rfl)

/-! ## Faults -/

/-- Nothing is wrong with any part of a body. -/
theorem faults_part_eq_nil (he : ctx.definitions.find? e.name = some e) {z : Bool × Skeleton}
    (hz : z ∈ ctx.partsOf (e.rebody f.name body)) :
    faults { ctx with definitions } new (decide (e.name = initName)) z.1 z.2 .empty = [] := by
  have hreorders := h.reorders_body he
  have hbefore : ctx.startsSession e = true → ctx.execution ≠ .single ∧
      ctx.BeforeMain old (ctx.startsSession e, e.body.skeleton) ∧
        Context.BeforeMain { ctx with definitions } new
          (ctx.startsSession e, (e.rebody f.name body).body.skeleton) := by
    intro hstarts
    have hself : (true, e.body.skeleton) ∈ ctx.partsOf e := hstarts ▸ mem_visited_self _ _ _
    obtain ⟨hmain, hmode⟩ := startsSession_of_mem_partsOf hself
    have hfind := h.find?_rebody he
    have hnewMain := hnew.beforeMain_main (d := e.rebody f.name body)
      (by rwa [Definition.name_rebody, hmain] at hfind)
    rw [startsSession, Definition.name_rebody] at hnewMain
    exact ⟨hmode, hold.beforeMain_main (hmain ▸ he), hnewMain⟩
  rw [partsOf_rebody] at hz
  rw [faults_rearrange h.contains_eq]
  have hkept := hreorders.faults_part_eq_nil hold
    (fun hstarts => ⟨(hbefore hstarts).1, (hbefore hstarts).2.1⟩)
    (fun z => faults_part_old hnone he) hz
  have hmatches : ∀ c, Matches ctx new old lax c c := fun c =>
    matches_self hnew.sorted hold.sorted c fun _ _ _ other _ =>
      h.resembles_called hnew hold hnone hinit other
  have hstarts : ∀ c ∈ children ctx.execution z.1 z.2, StartsAlike ctx new old c c := by
    intro c hc hflag
    have hstarts : ctx.startsSession e = true := by
      by_contra hclear
      rw [eq_false_of_ne_true hclear] at hz
      have hmem := visited_subset hz (mem_visited_of_child hc (mem_visited_self _ _ _))
      exact Bool.noConfusion ((eq_false_of_mem_visited hmem).symm.trans hflag)
    obtain ⟨hmode, holdMain, hnewMain⟩ := hbefore hstarts
    have hnewInputs := hnew.startingOperation_eq hmode ((hnewMain.part hz).child hc)
    rw [inputsOf, typing_rearrange] at hnewInputs
    rw [hold.startingOperation_eq hmode (((hreorders.beforeMain holdMain).part hz).child hc)]
    exact hnewInputs
  exact faults_eq_nil_of_alike hnew.sorted hold.sorted (.refl z.2)
    (List.forall₂_same.mpr fun c hc => ⟨hmatches c, hstarts c hc⟩) hkept

/-- Nothing is wrong with any definition. -/
theorem faultsOf_eq_nil {e' : Definition} (he' : definitions.find? e'.name = some e') :
    Context.faultsOf { ctx with definitions } new e' = [] := by
  obtain ⟨e, he, hname, rfl⟩ := h.exists_of_find? he'
  rw [faultsOf, List.append_eq_nil_iff, List.flatMap_eq_nil_iff, Definition.name_rebody]
  refine ⟨fun z hz => h.faults_part_eq_nil hnew hold hnone hinit he hz, ?_⟩
  have hprovided := (h.resembles_called hnew hold hnone hinit e.name).mem_keys
  have hviolations := (List.append_eq_nil_iff.mp (hnone e he)).2
  rw [← hold.called_eq he] at hviolations
  rw [← hnew.called_eq he', Definition.name_rebody]
  rw [definitionViolations, initViolations] at hviolations ⊢
  rw [Definition.name_rebody]
  split
  · next hdecl =>
    rw [if_pos hdecl, List.map_eq_nil_iff] at hviolations
    rw [List.map_eq_nil_iff, ← List.map_eq_nil_iff (f := ProvidedPath.location)]
    refine List.eq_nil_iff_forall_not_mem.mpr fun l hl => ?_
    have hmem := (hprovided l).mp hl
    rw [OrderedSet.keys, hviolations] at hmem
    cases hmem
  · rfl

/-! ## The session -/

/-- The session resembles the one before. -/
theorem resembles_sessionOf : (sessionOf new).Resembles lax (sessionOf old) := by
  have hmain := h.resembles_called hnew hold hnone hinit mainName
  have hbefore := h.resembles_called hnew hold hnone hinit initName
  rw [sessionOf, sessionOf, hnew.get?_eq, hold.get?_eq]
  dsimp only
  rw [h.found]
  cases ctx.definitions.find? initName with
  | none => exact hmain
  | some e =>
    have hstart : Sequel.Resembles ⟨_, (called new initName).provisions, []⟩
        ⟨_, (called old initName).provisions, []⟩ := ⟨hinit hbefore, (hinit hbefore).defined⟩
    exact (hstart.append (hnew.sorted mainName) (hold.sorted mainName) hmain).result.weaken

/-- If nothing is wrong with a session, nothing is wrong with it afterwards. -/
theorem ofTypings_eq_nil {file : String} {routing : Routing}
    (he : ctx.definitions.find? mainName = some e)
    (hsession : (Verdict.ofTypings file routing old).2 = []) :
    (Verdict.ofTypings file routing new).2 = [] := by
  have hmain := h.resembles_called hnew hold hnone hinit mainName
  have hbefore := h.resembles_called hnew hold hnone hinit initName
  have hresembles := h.resembles_sessionOf hnew hold hnone hinit
  have he' : definitions.find? mainName = some (e.rebody f.name body) := by
    rw [h.found, he]
    rfl
  obtain ⟨hclashes, hneeds, hfresh⟩ :=
    (Verdict.ofTypings_eq_nil_iff file routing hold he).mp hsession
  refine (Verdict.ofTypings_eq_nil_iff file routing hnew he').mpr ⟨?_, ?_, ?_⟩
  · rw [ProvidedSet.clashes_eq_nil_iff] at hclashes ⊢
    intro l hl hl'
    exact hclashes l ((hmain.mem_keys l).mp hl) ((hbefore.mem_keys l).mp hl')
  · exact Verdict.needViolations_eq_nil (fun l => (hresembles.neededKeys l).mp)
      (fun l => (hresembles.neededData l).mp) hneeds
  · rw [Verdict.freshnessViolations_congr hresembles.freshness, hfresh]

end Tables

end Reordered

end Context

/-! ## Programs -/

namespace Program

variable {program : Program} {definitions : List Definition} {mode : Option ExecutionMode}
  {f : Definition} {body : Statement} {lax : Prop}

/-- In the typings that checking comes to, `init` provides no data that it also invalidates. -/
def KeepsInitData (program : Program) (mode : Option ExecutionMode) : Prop :=
  (called (program.check mode).typings initName).KeepsData

instance (program : Program) (mode : Option ExecutionMode) :
    Decidable (program.KeepsInitData mode) :=
  inferInstanceAs (Decidable (called (program.check mode).typings initName).KeepsData)

section Reordered

variable (h : (program.context mode).Reordered (.firsts definitions) f body lax)

include h

/-- What a definition calls in the new program it called before. -/
theorem calls_of_reordered {caller callee : String}
    (hedge : Program.Calls { program with definitions } caller callee) :
    program.Calls caller callee := by
  obtain ⟨e', he', hdeclared, hcalls⟩ := hedge.declared mode
  obtain rfl := Context.name_of_find? he'
  obtain ⟨e, he, hname, rfl⟩ := h.exists_of_find? he'
  rw [← hname]
  exact (calls_iff he).mpr ⟨h.mem_keys_iff.mp hdeclared, h.calls_of_rebody he hcalls⟩

/-- The new program is valid if the old one was. -/
theorem isValid_of_reordered
    (hinit : lax → Relation.ReflTransGen program.Calls initName f.name →
      Program.KeepsInitData { program with definitions } mode ∧ program.KeepsInitData mode)
    (hvalid : (program.check mode).isValid = true) :
    (Program.check { program with definitions } mode).isValid = true := by
  have hacyclic := fun names => not_mem_causes_of_valid hvalid (.definitionCycle names)
  have hacyclic' : ∀ names, .definitionCycle names ∉
      (Program.check { program with definitions } mode).causes :=
    acyclic_of_not_transGen fun name hname => not_transGen_of_acyclic hacyclic name
      (Relation.TransGen.mono (fun _ _ => calls_of_reordered h) _ _ hname)
  have hold := settled_check hacyclic
  have hnew : Context.Settled { program.context mode with definitions := .firsts definitions }
      (Program.check { program with definitions } mode).typings := settled_check hacyclic'
  obtain ⟨hrouting, hfaults, hsession⟩ := (isValid_iff hacyclic).mp hvalid
  have hstrict : (called (Program.check { program with definitions } mode).typings
      initName).Resembles lax (called (program.check mode).typings initName) →
        (called (Program.check { program with definitions } mode).typings
          initName).Resembles False (called (program.check mode).typings initName) := by
    intro hresembles
    by_cases hreach : Relation.ReflTransGen program.Calls initName f.name
    · exact hresembles.strict (fun hlax => (hinit hlax hreach).1) fun hlax => (hinit hlax hreach).2
    · refine h.resembles_apart hnew hold
        (fun name => ¬ Relation.ReflTransGen program.Calls name f.name) ?_ fun _ => hreach
      intro e he hapart
      refine ⟨fun hname => hapart (hname ▸ .refl), fun other hother hcalls hback => hapart ?_⟩
      exact .head ((calls_iff he).mpr ⟨hother, hcalls⟩) hback
  obtain ⟨e, he⟩ := exists_main_of_valid hvalid
  refine (isValid_iff hacyclic').mpr ⟨hrouting, fun e' he' => ?_, ?_⟩
  · exact h.faultsOf_eq_nil hnew hold hfaults hstrict he'
  · exact h.ofTypings_eq_nil hnew hold hfaults hstrict he hsession

end Reordered

section Definitions

variable {before after : List Definition}

/-- If the first definition of a name gets another body, so does what is found under the name. -/
theorem find?_of_first (hfirst : ∀ e ∈ before, e.name ≠ f.name) (name : String) :
    ((before ++ { f with body } :: after).find? fun e => decide (e.name = name)) =
      ((before ++ f :: after).find? fun e => decide (e.name = name)).map
        (Definition.rebody f.name body) := by
  induction before with
  | nil =>
    rw [List.nil_append, List.nil_append, List.find?_cons, List.find?_cons]
    by_cases hname : f.name = name
    · rw [decide_eq_true hname, Option.map_some, Definition.rebody, if_pos rfl]
    · rw [decide_eq_false hname]
      cases hfind : after.find? fun e => decide (e.name = name) with
      | none => rfl
      | some e =>
        have he : e.name = name := by simpa using List.find?_some hfind
        rw [Option.map_some, Definition.rebody_of_ne fun h => hname (h.symm.trans he)]
  | cons e rest ih =>
    obtain ⟨he, hrest⟩ := List.forall_mem_cons.mp hfirst
    rw [List.cons_append, List.cons_append, List.find?_cons, List.find?_cons, ih hrest]
    by_cases hname : e.name = name
    · rw [decide_eq_true hname, Option.map_some, Definition.rebody_of_ne he]
    · rw [decide_eq_false hname]

/-- Siblings change places in the first definition of a name. -/
theorem reordered_of_first (program : Program)
    (hdefinitions : program.definitions = before ++ f :: after)
    (hfirst : ∀ e ∈ before, e.name ≠ f.name)
    (hreorders : Reorders (program.context mode).execution lax
      ((program.context mode).startsSession f) f.body.skeleton body.skeleton) :
    (program.context mode).Reordered (.firsts (before ++ { f with body } :: after)) f body lax where
  caller := by
    rw [find?_definitions, definition?, hdefinitions, List.find?_append,
      List.find?_eq_none.mpr fun e he => by simpa using hfirst e he, Option.none_or,
      List.find?_cons, decide_eq_true rfl]
  found name := by
    rw [OrderedSet.find?_firsts, find?_of_first hfirst, find?_definitions, definition?,
      hdefinitions]
  reorders := hreorders

/-- A definition does not count if there is one of its name before it. -/
theorem firsts_of_hidden {e f' : Definition} (he : e ∈ before) (hname : e.name = f.name)
    (hname' : f'.name = f.name) :
    (OrderedSet.firsts (before ++ f' :: after) : OrderedSet Definition.name) =
      .firsts (before ++ f :: after) := by
  have hcontains : ∀ g : Definition, e.name = g.name →
      (OrderedSet.firsts before : OrderedSet Definition.name).contains g.name = true := fun g hg =>
    OrderedSet.contains_iff_mem_keys.mpr (OrderedSet.mem_keys_firsts.mpr ⟨e, he, hg⟩)
  have hskip : ∀ g : Definition, e.name = g.name →
      (OrderedSet.firsts (before ++ g :: after) : OrderedSet Definition.name) =
        after.foldl OrderedSet.insertNew (.firsts before) := by
    intro g hg
    rw [OrderedSet.firsts, List.foldl_append, List.foldl_cons, ← OrderedSet.firsts,
      OrderedSet.insertNew_of_contains (hcontains g hg)]
  rw [hskip f hname, hskip f' (hname.trans hname'.symm)]

end Definitions

/-- What a program is checked for is told by its first definitions. -/
theorem check_congr_firsts (program : Program)
    (h : (OrderedSet.firsts definitions : OrderedSet Definition.name) =
      .firsts program.definitions) :
    Program.check { program with definitions } mode = program.check mode := by
  rw [check, check, Context.ofProgram, Context.ofProgram, h]

end Program

/-- Whether a program is valid does not depend on the order of the bodies of a conditional, wherever
it stands, if the same one takes the first input in where the session still waits for it.  Nor does
it depend on the order of the children of a parallel, if besides `init` does not come to the
definition of the parallel, or keeps the data that it provides in both programs. -/
theorem isValid_of_rearranged (program : Program) (mode : Option ExecutionMode)
    {before after : List Definition} {f : Definition} {body : Statement}
    (hdefinitions : program.definitions = before ++ f :: after)
    (h : let ctx := program.context mode
      let changed := { program with definitions := before ++ { f with body } :: after }
      f.body.Within ctx.execution (Statement.PermutesBodies ctx.execution) (ctx.startsSession f)
          body ∨
        f.body.Within ctx.execution (Statement.PermutesChildren ctx.execution)
          (ctx.startsSession f) body ∧
            (Relation.ReflTransGen program.Calls initName f.name →
              program.KeepsInitData mode ∧ changed.KeepsInitData mode)) :
    (Program.check { program with definitions := before ++ { f with body } :: after }
      mode).isValid = (program.check mode).isValid := by
  obtain ⟨file, execution, sets, definitions⟩ := program
  obtain rfl : definitions = before ++ f :: after := hdefinitions
  let program : Program := ⟨file, execution, sets, before ++ f :: after⟩
  let changed : Program := ⟨file, execution, sets, before ++ { f with body } :: after⟩
  let ctx := program.context mode
  by_cases hfirst : ∀ e ∈ before, e.name ≠ f.name
  · obtain ⟨lax, hreorders, hback, hinit⟩ : ∃ lax : Prop,
        Reorders ctx.execution lax (ctx.startsSession f) f.body.skeleton body.skeleton ∧
        Reorders ctx.execution lax (ctx.startsSession f) body.skeleton f.body.skeleton ∧
        (lax → Relation.ReflTransGen program.Calls initName f.name →
          program.KeepsInitData mode ∧ changed.KeepsInitData mode) := by
      rcases h with h | ⟨h, hinit⟩
      · exact ⟨False, h.skeleton (fun h => h.skeleton) .same,
          (h.symm fun h => h.symm).skeleton (fun h => h.skeleton) .same, False.elim⟩
      · exact ⟨True, h.skeleton (fun h => h.skeleton trivial) .same,
          (h.symm fun h => h.symm).skeleton (fun h => h.skeleton trivial) .same, fun _ => hinit⟩
    have hforth := Program.reordered_of_first program rfl hfirst hreorders
    have hback := Program.reordered_of_first changed (f := { f with body }) rfl hfirst hback
    rw [Bool.eq_iff_iff]
    constructor
    · refine Program.isValid_of_reordered hback fun hlax hreach => hinit hlax ?_
      exact Relation.ReflTransGen.mono (fun _ _ => Program.calls_of_reordered hforth) _ _ hreach
    · exact Program.isValid_of_reordered hforth fun hlax hreach => (hinit hlax hreach).symm
  · obtain ⟨e, he, hname⟩ : ∃ e ∈ before, e.name = f.name := by simpa using hfirst
    have hhidden : (OrderedSet.firsts changed.definitions : OrderedSet Definition.name) =
        .firsts program.definitions := Program.firsts_of_hidden he hname rfl
    exact congrArg Verdict.isValid (Program.check_congr_firsts program hhidden)

/-- Data is set up by statements that run at the same time.  A session starts in one of two bodies,
and then it copies the data. -/
def sharedSetup (children : List Statement) (first last : Statement) : Program := sampleProgram
  [("init", .parallel .unknown children),
    ("main", .sequence .unknown [.conditional .unknown [⟨.bool true, first⟩] (some last),
      .assign .unknown sampleKey .fresh, .assign .unknown orderKey (.variable (sampleData "x")),
      .oneWay .unknown "checkout" none])]

/-- The bodies of `main` may change places, and so may the statements of `init`. -/
theorem isValid_sharedSetup :
    let login : Statement := .oneWay .unknown "login" none
    let define : Statement := .assign .unknown (sampleData "x") (.int 1)
    let remove : Statement := .undefine .unknown (sampleData "y")
    ((sharedSetup [define, remove] login (.nothing .unknown)).check none).isValid = true ∧
      ((sharedSetup [define, remove] (.nothing .unknown) login).check none).isValid = true ∧
      ((sharedSetup [remove, define] login (.nothing .unknown)).check none).isValid = true := by
  intro login define remove
  let program := sharedSetup [define, remove] login (.nothing .unknown)
  have hvalid : (program.check none).isValid = true := by decide +kernel
  have hbodies : Statement.PermutesBodies .concurrent true
      (.conditional .unknown [⟨.bool true, login⟩] (some (.nothing .unknown)))
      (.conditional .unknown [⟨.bool true, .nothing .unknown⟩] (some login)) :=
    .conditional .unknown rfl ⟨.swap _ _ _, fun _ => rfl⟩
  have hmain : program.definitions =
      [⟨.unknown, "init", .parallel .unknown [define, remove]⟩] ++ _ :: [] := rfl
  have hchildren : Statement.PermutesChildren .concurrent false
      (.parallel .unknown [define, remove]) (.parallel .unknown [remove, define]) :=
    .parallel .unknown ⟨.swap _ _ _, fun h => Bool.noConfusion h⟩
  have hinit : program.definitions =
      [] ++ ⟨.unknown, "init", .parallel .unknown [define, remove]⟩ :: [_] := rfl
  refine ⟨hvalid, ?_, ?_⟩
  · exact (isValid_of_rearranged program none hmain
      (.inl (.sequence .unknown [] _ (.here hbodies)))).trans hvalid
  · refine (isValid_of_rearranged program none hinit (.inr ⟨.here hchildren, fun _ => ?_⟩)).trans
      hvalid
    decide +kernel

/-- A key is set before the session gets its first input. -/
def earlyKey (s : Statement) : Program :=
  sampleProgram [("main", .sequence .unknown [.assign .unknown sampleKey .fresh, s])]

/-- A session copies data that `init` sets up by statements that run at the same time. -/
def racedSetup (children : List Statement) : Program := sampleProgram
  [("init", .parallel .unknown children),
    ("main", .sequence .unknown [.oneWay .unknown "login" none, .assign .unknown sampleKey .fresh,
      .assign .unknown orderKey (.variable (sampleData "x"))])]

/-- The order matters where the flag is set and an input that is not routed changes places with one
that is, and where `init` provides data or not as its children race for it. -/
theorem not_isValid_of_rearranged :
    let login : Statement := .oneWay .unknown "login" none
    let checkout : Statement := .oneWay .unknown "checkout" none
    let define : Statement := .assign .unknown (sampleData "x") (.int 1)
    let remove : Statement := .undefine .unknown (sampleData "x")
    let parallel (children : List Statement) := earlyKey (.parallel .unknown children)
    let conditional (first last : Statement) :=
      earlyKey (.conditional .unknown [⟨.bool true, first⟩] (some last))
    ((parallel [login, checkout]).check none).isValid = true ∧
      ((parallel [checkout, login]).check none).isValid = false ∧
      ((conditional login checkout).check none).isValid = true ∧
      ((conditional checkout login).check none).isValid = false ∧
      ((racedSetup [remove, define]).check none).isValid = true ∧
      ((racedSetup [define, remove]).check none).isValid = false := by
  decide +kernel

end Correlation
