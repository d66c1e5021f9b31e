import Correlation.Proofs.Accounting
import Correlation.Proofs.CallGraph
import Correlation.Proofs.Keyless
import Correlation.Proofs.SessionData

/-!
# Data that is defined after a statement

The result of a check says which data a statement provides and which it may leave without a value.
That holds of every run of the statement, from every store that has what the entry provides
(`defined_after_run`), if nothing runs at the same time and three more conditions hold of whatever
the statement comes to.

* `main` is not called, if there is an `init`.  The body of `main` is typed for a session, in which
  `init` has run.
* The correlation variables that are copied into data can be relied on: alternatives agree on them,
  and no loop defines them.
* Rounds agree, as in `copies_have_values_of_valid`.

None of the three can be left out (`not_defined_after_run`).  The program need not be valid.  It is
enough that there is no circle of definitions, and the check may start from every progress that fits
the program.

The proof is one induction on runs (`Settled.follows_of_run`), with what the run comes to as the
invariant.
-/

namespace Correlation

open Skeleton

/-! ## What a part comes to -/

/-- What holds of whatever a part comes to passes to its own parts and to the bodies it calls. -/
theorem Context.inherits_reaches (ctx : Context) (Q : Bool × Skeleton → Prop) :
    ctx.Inherits fun x => ∀ y, ctx.Reaches x y → Q y where
  child hx hc y hy := hx y (.child hc hy)
  call hx hcall hd y hy := hx y (.call hcall hd hy)

section Conditions

variable (ctx : Context) (table : NameTable Typing)

namespace Context

/-- Nothing that the part comes to runs at the same time as something else. -/
def InTurn (x : Bool × Skeleton) : Prop := ∀ y, ctx.Reaches x y → y.2.isParallel = false

/-- The part does not come to a call of `main`, if there is an `init`. -/
def OutsideMain (x : Bool × Skeleton) : Prop :=
  ∀ y, ctx.Reaches x y → ∀ span, y.2 = .call span mainName → initName ∉ ctx.definitions.keys

/-- The correlation variables that the part copies into data, wherever it comes to, can be relied
on: alternatives agree on whether they provide them, and no loop does. -/
def CopiesReliable (x : Bool × Skeleton) : Prop :=
  ∀ y, ctx.Reaches x y → ∀ l, y.2.copiedKey? = some l → ∀ z, ctx.Reaches x z →
    Agreed ctx (grants ctx table l) z ∧ Loopless ctx table l z

/-- No loop invalidates more data in a later round than in the first one, neither in the part, which
is entered with this typing, nor in the definitions to which it comes. -/
def SteadyRounds (x : Bool × Skeleton) (entry : Typing) : Prop :=
  (∀ z ∈ sites ctx table x.1 x.2 entry, z.roundsAgree ctx table = true) ∧
    ∀ y, ctx.Reaches x y → ∀ span name d, y.2 = .call span name →
      ctx.definitions.find? name = some d →
        ∀ z ∈ sites ctx table (ctx.startsSession d) d.body.skeleton .empty,
          z.roundsAgree ctx table = true

end Context

/-- What is asked of each of the parts to which a run comes, if the correlation variables that can
be relied on are given. -/
structure Dependable (keys : Location → Prop) (x : Bool × Skeleton) : Prop where
  sequential : x.2.isParallel = false
  copied : ∀ l, x.2.copiedKey? = some l → keys l
  reliable : ∀ l, keys l → Agreed ctx (grants ctx table l) x ∧ Loopless ctx table l x
  entered : ∀ span name d, x.2 = .call span name → ctx.definitions.find? name = some d →
    ctx.entryOf table d = .empty
  rounds : ∀ span name d, x.2 = .call span name → ctx.definitions.find? name = some d →
    ∀ z ∈ sites ctx table (ctx.startsSession d) d.body.skeleton .empty,
      z.roundsAgree ctx table = true

/-- A trace does to data what the typing says. -/
def Follows (keys : Location → Prop) (x : Bool × Skeleton) (t : List Event) : Prop :=
  ∀ entry (σ : Store), σ.Meets keys entry →
    (∀ z ∈ sites ctx table x.1 x.2 entry, z.roundsAgree ctx table = true) →
      (typing ctx table x.1 x.2 entry).Follows σ (σ.after ctx t)

end Conditions

/-! ## Runs -/

namespace Context.Settled

variable {ctx : Context} {table : NameTable Typing} {keys : Location → Prop}
  {Q : Bool × Skeleton → Prop} {x : Bool × Skeleton} {t : List Event} {l : Location}

section Runs

variable (h : ctx.Settled table) (hQ : ctx.Inherits Q)
  (hpart : ∀ x, Q x → Dependable ctx table keys x)

include h hQ hpart

/-- A correlation variable that can be relied on has a value after a run that provides it. -/
theorem after_of_inherited (hrun : Run ctx x.1 x.2 t) (hx : Q x) (entry : Typing) (σ : Store)
    (hl : l ∈ (typing ctx table x.1 x.2 entry).providedCorrelation.keys) (hkey : keys l) :
    σ.after ctx t l = true := by
  have hgrants : grants ctx table l x = true := by
    rw [providedCorrelation_typing h.sorted] at hl
    exact OrderedSet.contains_iff_mem_keys.mpr hl
  obtain ⟨e, he, hdefines⟩ := h.exists_of_inherited hQ
    (fun y hy => (hpart y hy).reliable l hkey) hrun hx hgrants
  exact Store.after_of_defines he hdefines

/-- Parts that run one after the other. -/
theorem follows_parts {starter : Bool} {parts : List Skeleton} {ts : List (List Event)}
    (hparts : List.Forall₂ (fun x t => Run ctx x.1 x.2 t ∧ Q x ∧ Follows ctx table keys x t)
      (flagged ctx.execution starter parts) ts)
    (s : Sequel) {σ₀ σ : Store} (hσ : σ.Meets keys s.running) (hresult : s.result.Follows σ₀ σ)
    (hsites : ∀ z ∈ sitesAlong ctx table starter parts s, z.roundsAgree ctx table = true) :
    (sequel ctx table starter parts s).result.Follows σ₀ (σ.after ctx ts.flatten) := by
  induction parts generalizing starter s ts σ with
  | nil =>
    cases hparts
    exact hresult
  | cons k rest ih =>
    obtain ⟨⟩ | ⟨⟨hrun, hk, hfollows⟩, hrest⟩ := hparts
    next t ts =>
    have ht := sorted_typing ctx h.sorted starter k s.running
    rw [sitesAlong] at hsites
    have hstep := hfollows s.running σ hσ fun z hz => hsites z (List.mem_append_left _ hz)
    rw [sequel, List.flatten_cons, Store.after_append]
    exact ih hrest (s.append (typing ctx table starter k s.running))
      (hσ.append ht hstep (fun l => Store.after_of_isCorrelation)
        fun l => h.after_of_inherited hQ hpart hrun hk s.running σ)
      (hresult.append ht hstep) fun z hz => hsites z (List.mem_append_right _ hz)

/-- A run does to data what the typing says. -/
theorem follows_of_run (hrun : Run ctx x.1 x.2 t) (hx : Q x) : Follows ctx table keys x t := by
  refine Run.induction
    (motive := fun starter k t => Q (starter, k) → Follows ctx table keys (starter, k) t)
    ?leaf ?sequence ?parallel ?choice ?choiceNone ?conditional ?conditionalNone ?repeated ?call
    ?undeclared hrun hx
  case leaf =>
    intro starter k e he hx entry σ hσ _
    exact follows_event h.sorted (x := (starter, k)) he hσ (hpart _ hx).copied
  case sequence =>
    intro starter parts ts hparts hx entry σ hσ hsites
    have hstart : σ.Meets keys (Sequel.start entry).running :=
      ⟨hσ.sorted.provisions, hσ.data, hσ.correlation⟩
    refine h.follows_parts hQ hpart (forall₂_imp_of_mem (fun c hc t hrun => ?_) hparts)
      (.start entry) hstart (Typing.Follows.refl_empty σ) fun z hz => hsites z ?_
    · have hc : c ∈ children ctx.execution starter (.sequence parts) := hc
      exact ⟨hrun.1, hQ.child hx hc, hrun.2 (hQ.child hx hc)⟩
    · rw [sites]
      exact List.mem_cons_of_mem _ hz
  case parallel =>
    intro starter parts ts t _ _ hx
    cases (hpart _ hx).sequential
  case choice =>
    intro starter span branches k t hk _ ih hx entry σ hσ hsites
    have hc : (starter, k) ∈ children ctx.execution starter (.choice span branches) :=
      List.mem_map_of_mem hk
    exact h.follows_one (x := (starter, .choice span branches)) rfl hc (ih (hQ.child hx hc) entry σ
      hσ fun z hz => hsites z (sites_subset_of_one rfl hc hz))
  case choiceNone =>
    exact fun {starter span} _ entry σ _ _ =>
      follows_none (x := (starter, .choice span [])) rfl rfl entry σ
  case conditional =>
    intro starter span branches c t hc _ ih hx entry σ hσ hsites
    exact h.follows_one (x := (starter, .conditional span branches)) rfl hc
      (ih (hQ.child hx hc) entry σ hσ fun z hz => hsites z
        (sites_subset_of_one (k := .conditional span branches) rfl hc hz))
  case conditionalNone =>
    exact fun {starter span} _ entry σ _ _ =>
      follows_none (x := (starter, .conditional span [])) rfl rfl entry σ
  case repeated =>
    intro starter span body ts hts hx entry σ hσ hsites
    rw [sites] at hsites
    have hc : (starter, body) ∈ children ctx.execution starter (.repeated span body) :=
      List.mem_singleton_self _
    exact h.follows_loop hσ (hsites _ List.mem_cons_self) fun t ht σ' hσ' =>
      (hts t ht).2 (hQ.child hx hc) _ σ' hσ' fun z hz => hsites z (List.mem_cons_of_mem _ hz)
  case call =>
    intro starter span name d t hd _ ih hx entry σ _ _
    have hentered := (hpart _ hx).entered span name d rfl hd
    have hbody := ih (hQ.call hx rfl hd) .empty σ (σ.meets_empty keys)
      ((hpart _ hx).rounds span name d rfl hd)
    obtain rfl := name_of_find? hd
    rw [typing, h.called_eq hd, typingOf, hentered]
    exact hbody
  case undeclared =>
    intro starter span name hname _ entry σ _ _
    rw [typing, h.called_undeclared hname]
    exact .refl_empty σ

end Runs

variable (h : ctx.Settled table)

include h

/-- A run of a part does to data what the typing says, if whatever the part comes to meets the
conditions. -/
theorem follows_of_reaches (hturn : ctx.InTurn x) (hmain : ctx.OutsideMain x)
    (hcopies : ctx.CopiesReliable table x) {entry : Typing}
    (hrounds : ctx.SteadyRounds table x entry) (hentry : entry.Sorted)
    (hrun : Run ctx x.1 x.2 t) {σ : Store} (hdata : ∀ l ∈ entry.providedData.keys, σ l = true)
    (hcorrelation : ∀ l ∈ entry.providedCorrelation.keys, σ l = true) :
    (typing ctx table x.1 x.2 entry).Follows σ (σ.after ctx t) := by
  let keys (l : Location) : Prop := ∃ y, ctx.Reaches x y ∧ y.2.copiedKey? = some l
  have hfollows : Follows ctx table keys x t := by
    refine h.follows_of_run (ctx.inherits_reaches fun y => ctx.Reaches x y) ?_ hrun fun y hy => hy
    intro y hy
    have hxy := hy y (.refl y)
    refine
      { sequential := hturn y hxy
        copied := fun l hl => ⟨y, hxy, hl⟩
        reliable := fun l ⟨z, hz, hl⟩ => hcopies z hz l hl y hxy
        entered := fun span name d hcall hd => ?_
        rounds := hrounds.2 y hxy }
    obtain rfl := name_of_find? hd
    rw [entryOf]
    split
    · next hsession =>
      rw [Bool.and_eq_true, decide_eq_true_eq, OrderedSet.contains_iff_mem_keys] at hsession
      exact absurd hsession.2 (hmain y hxy span (hsession.1 ▸ hcall))
    · rfl
  exact hfollows entry σ ⟨hentry, hdata, fun l hl _ => hcorrelation l hl⟩ hrounds.1

end Context.Settled

/-! ## Checks of statements -/

/-- A progress from which the statement may be checked: what is typed is typed as in the table, and
the statement calls nothing that is in progress, or that is typed later. -/
structure Statement.CheckedFrom (ctx : Context) (table : NameTable Typing) (s : Statement)
    (starter : Bool) (bound : Nat) (g : Progress) : Prop where
  typings : g.typings.toList ⊆ table.toList
  inProgress : ctx.InProgress g.inProgress bound
  calls : ∀ x ∈ visited ctx.execution starter s.skeleton, ∀ span name, x.2 = .call span name →
    ctx.RanksBelow table g.inProgress name

/-- Every statement may be checked when the program has been checked. -/
theorem Statement.checkedFrom_end (ctx : Context) (table : NameTable Typing) (s : Statement)
    (starter : Bool) :
    s.CheckedFrom ctx table starter ctx.definitions.size
      { Progress.start with typings := table } where
  typings := List.Subset.refl _
  inProgress := ctx.inProgress_nil
  calls _ _ _ _ _ _ _ h := nomatch h

/-- The check of a statement gives the typing that is computed from the table. -/
theorem Context.Settled.typing_check {ctx : Context} {table : NameTable Typing}
    (h : ctx.Settled table) {s : Statement} {starter : Bool} {bound : Nat} {g : Progress}
    (hg : s.CheckedFrom ctx table starter bound g) (entry : Typing) :
    (s.check ctx (ctx.visitWithin bound) entry starter g).typing =
      typing ctx table starter s.skeleton entry := by
  rw [s.check_eq_skeleton]
  have hcalls : ∀ x ∈ visited ctx.execution starter s.skeleton, ∀ span name,
      x.2 = .call span name → Answers ctx table (ctx.visitWithin bound) g.inProgress g.insideInit x
        (faults ctx table g.insideInit x.1 x.2 .empty) := by
    intro x hx span name hcall entry g' hg'
    have hanswers := visitWithin_answers h bound hg.inProgress span
      (hg.calls x hx span name hcall) g' hg'.inProgress hg'.typings
    rw [hcall]
    exact ⟨hanswers.typing, hanswers.adds⟩
  exact (check_answers (visitWithin_before ctx bound) h.sorted hcalls entry g
    ⟨hg.typings, rfl, rfl⟩).1

/-- After every run of the statement, from a store that has what the entry provides, there is a
value for the data that the result of the check provides, and for the data that the entry provides
and the result does not invalidate. -/
def Program.GuaranteesData (program : Program) (mode : Option ExecutionMode) (s : Statement)
    (starter : Bool) (entry : Typing) : Prop :=
  ∀ (bound : Nat) (g : Progress),
    s.CheckedFrom (program.context mode) (program.check mode).typings starter bound g →
      ∀ (t : List Event) (σ : Store), Run (program.context mode) starter s.skeleton t →
        (∀ l ∈ entry.providedData.keys, σ l = true) →
          (∀ l ∈ entry.providedCorrelation.keys, σ l = true) →
            let result := (s.check (program.context mode) ((program.context mode).visitWithin bound)
              entry starter g).typing
            ∀ l, l ∈ result.providedData.keys ∨
              l ∈ entry.providedData.keys ∧ l ∉ result.invalidatedData.keys →
                σ.after (program.context mode) t l = true

/-- Data that is guaranteed after a statement has a value after every run of it, if there is no
circle of definitions, and if in whatever the statement comes to nothing runs at the same time,
`main` is not called after an `init`, the correlation variables that are copied into data can be
relied on, and the rounds of loops agree. -/
theorem defined_after_run (program : Program) (mode : Option ExecutionMode)
    (hacyclic : ∀ names, .definitionCycle names ∉ (program.check mode).causes) (s : Statement)
    (starter : Bool) (entry : Typing) (hentry : entry.Sorted)
    (hturn : (program.context mode).InTurn (starter, s.skeleton))
    (hmain : (program.context mode).OutsideMain (starter, s.skeleton))
    (hcopies : (program.context mode).CopiesReliable (program.check mode).typings
      (starter, s.skeleton))
    (hrounds : (program.context mode).SteadyRounds (program.check mode).typings
      (starter, s.skeleton) entry) : program.GuaranteesData mode s starter entry := by
  have hsettled := Program.settled_check hacyclic
  intro bound g hg t σ hrun hdata hcorrelation result l hl
  have hfollows := hsettled.follows_of_reaches hturn hmain hcopies hrounds hentry hrun hdata
    hcorrelation
  have hresult : result = _ := hsettled.typing_check hg entry
  rw [hresult] at hl
  rcases hl with hl | ⟨hl, hkept⟩
  · exact hfollows.provided l hl
  · exact hfollows.kept l (hdata l hl) hkept

/-! ## Bodies of definitions -/

instance {β : Type} [DecidableEq β] (ctx : Context) (view : Bool × Skeleton → β)
    (x : Bool × Skeleton) : Decidable (Agreed ctx view x) :=
  inferInstanceAs (Decidable (x.2.shape = .one → ∀ c ∈ children ctx.execution x.1 x.2,
    ∀ c' ∈ children ctx.execution x.1 x.2, view c = view c'))

instance (ctx : Context) (table : NameTable Typing) (l : Location) (x : Bool × Skeleton) :
    Decidable (Loopless ctx table l x) :=
  inferInstanceAs (Decidable (x.2.shape = .loop → ∀ c ∈ children ctx.execution x.1 x.2,
    grants ctx table l c = false))

namespace Context

section Bodies

variable {ctx : Context} {table : NameTable Typing} {name : String} {d : Definition}
  (hd : ctx.definitions.find? name = some d)

include hd

/-- The body of a definition comes to parts of definitions only. -/
theorem exists_part_of_reaches {y : Bool × Skeleton}
    (hy : ctx.Reaches (ctx.startsSession d, d.body.skeleton) y) :
    ∃ e ∈ ctx.definitions.toList, y ∈ ctx.partsOf e := by
  obtain ⟨e, he, hy⟩ := hy.exists_definition
    ⟨d, (name_of_find? hd).symm ▸ hd, mem_visited_self _ _ _⟩
  exact ⟨e, (OrderedSet.find?_eq_some_iff.mp he).1, hy⟩

theorem inTurn_body (h : ∀ e ∈ ctx.definitions.toList, ∀ y ∈ ctx.partsOf e,
    y.2.isParallel = false) : ctx.InTurn (ctx.startsSession d, d.body.skeleton) := by
  intro y hy
  obtain ⟨e, he, hy⟩ := exists_part_of_reaches hd hy
  exact h e he y hy

theorem outsideMain_body (h : ∀ e ∈ ctx.definitions.toList, ∀ y ∈ ctx.partsOf e,
    y.2.callee? ≠ some mainName) : ctx.OutsideMain (ctx.startsSession d, d.body.skeleton) := by
  intro y hy span hcall
  obtain ⟨e, he, hy⟩ := exists_part_of_reaches hd hy
  exact absurd (callee?_eq_some_iff.mpr ⟨span, hcall⟩) (h e he y hy)

theorem copiesReliable_body
    (h : ∀ e ∈ ctx.definitions.toList, ∀ y ∈ ctx.partsOf e, ∀ l ∈ y.2.copiedKey?,
      ∀ f ∈ ctx.definitions.toList, ∀ z ∈ ctx.partsOf f,
        Agreed ctx (grants ctx table l) z ∧ Loopless ctx table l z) :
    ctx.CopiesReliable table (ctx.startsSession d, d.body.skeleton) := by
  intro y hy l hl z hz
  obtain ⟨e, he, hy⟩ := exists_part_of_reaches hd hy
  obtain ⟨f, hf, hz⟩ := exists_part_of_reaches hd hz
  exact h e he y hy l hl f hf z hz

end Bodies

theorem steadyRounds_of_definitions {ctx : Context} {table : NameTable Typing}
    {x : Bool × Skeleton} {entry : Typing}
    (hx : ∀ z ∈ sites ctx table x.1 x.2 entry, z.roundsAgree ctx table = true)
    (h : ∀ e ∈ ctx.definitions.toList, ∀ z ∈ sites ctx table (ctx.startsSession e) e.body.skeleton
      .empty, z.roundsAgree ctx table = true) : ctx.SteadyRounds table x entry :=
  ⟨hx, fun _ _ _ _ d _ hd => h d (OrderedSet.find?_eq_some_iff.mp hd).1⟩

end Context

/-- A session gets `sid` however it starts.  It copies `sid`, and it calls a definition that
provides `z` and has a loop. -/
def refilledMain : Statement := .sequence .unknown
  [.choice .unknown
    [⟨.oneWay .unknown "login" none, .assign .unknown sampleKey .fresh⟩,
      ⟨.oneWay .unknown "register" none, .assign .unknown sampleKey .fresh⟩],
    .assign .unknown (sampleData "x") (.variable sampleKey),
    .whileLoop .unknown (.bool true) (.undefine .unknown (sampleData "y")),
    .call .unknown "fill"]

/-- The program with this `main`. -/
def refilledOrder : Program := sampleProgram
  [("fill", .sequence .unknown [.assign .unknown (sampleData "z") (.int 1),
      .whileLoop .unknown (.bool true) (.undefine .unknown (sampleData "w"))]),
    ("main", refilledMain)]

/-- `main` is entered with values for `v` and `y`. -/
def refilledEntry : Typing :=
  (Typing.empty.provide (sampleData "v") false).provide (sampleData "y") false

/-- After `main` there are values for `x` and `z`, which it provides, and for `v`, which it keeps.
-/
theorem defined_after_run_refilledOrder :
    let σ := Store.after (refilledOrder.context none) refilledEntry.provides
      [.input "register" true, .assign sampleKey .fresh, .assign (sampleData "x") (.copy sampleKey),
        .invalidate [sampleData "y"], .assign (sampleData "z") .constant]
    σ (sampleData "x").location = true ∧ σ (sampleData "z").location = true ∧
      σ (sampleData "v").location = true := by
  have hcauses : (refilledOrder.check none).causes = [] := by decide +kernel
  have hmain : (refilledOrder.context none).definitions.find? mainName =
      some ⟨.unknown, mainName, refilledMain⟩ := rfl
  have hchoice : Run (refilledOrder.context none) true
      (.choice .unknown
        [.sequence [.input .unknown "login" none, .assign .unknown sampleKey .fresh],
          .sequence [.input .unknown "register" none, .assign .unknown sampleKey .fresh]])
      [.input "register" true, .assign sampleKey .fresh] :=
    .choice (List.mem_cons_of_mem _ List.mem_cons_self)
      (@Run.sequence _ _ _ [[.input "register" true], [.assign sampleKey .fresh]]
        (.cons (.leaf rfl) (.cons (.leaf rfl) .nil)))
  have hloop := @Run.repeated (refilledOrder.context none) false .unknown
    (.invalidate .unknown [sampleData "y"]) [[.invalidate [sampleData "y"]]]
    fun t ht => List.mem_singleton.mp ht ▸ .leaf rfl
  have hnone := @Run.repeated (refilledOrder.context none) false .unknown
    (.invalidate .unknown [sampleData "w"]) [] fun _ ht => nomatch ht
  have hfill : Run (refilledOrder.context none) false (.call .unknown "fill")
      [.assign (sampleData "z") .constant] :=
    .call rfl (@Run.sequence _ _ _ [[.assign (sampleData "z") .constant], []]
      (.cons (.leaf rfl) (.cons hnone .nil)))
  have hrun : Run (refilledOrder.context none) true refilledMain.skeleton _ :=
    @Run.sequence _ _ _ [[.input "register" true, .assign sampleKey .fresh],
        [.assign (sampleData "x") (.copy sampleKey)], [.invalidate [sampleData "y"]],
        [.assign (sampleData "z") .constant]]
      (.cons hchoice (.cons (.leaf rfl) (.cons hloop (.cons hfill .nil))))
  have hturn := Context.inTurn_body hmain (by decide +kernel)
  have houtside := Context.outsideMain_body hmain (by decide +kernel)
  have hcopies : (refilledOrder.context none).CopiesReliable (refilledOrder.check none).typings
      (true, refilledMain.skeleton) :=
    Context.copiesReliable_body hmain (by decide +kernel)
  have hrounds : (refilledOrder.context none).SteadyRounds (refilledOrder.check none).typings
      (true, refilledMain.skeleton) refilledEntry :=
    Context.steadyRounds_of_definitions (by decide +kernel) (by decide +kernel)
  have hdefined := defined_after_run refilledOrder none (fun names h => by
      rw [hcauses] at h
      cases h) refilledMain true refilledEntry ((Typing.sorted_empty.provide _ _).provide _ _)
    hturn houtside hcopies hrounds _ _ (refilledMain.checkedFrom_end _ _ true) _
    refilledEntry.provides hrun (by decide +kernel) (by decide +kernel)
  exact ⟨hdefined _ (by decide +kernel), hdefined _ (by decide +kernel),
    hdefined _ (by decide +kernel)⟩

/-! ## Each condition is needed -/

/-- `main` copies what `init` provides, and another definition calls it. -/
def mainAgain : Program := sampleProgram
  [("init", .assign .unknown (sampleData "x") (.int 1)),
    ("again", .call .unknown "main"),
    ("main", .assign .unknown (sampleData "y") (.variable (sampleData "x")))]

/-- Without one of the last three conditions there may be no value for data that is guaranteed. -/
theorem not_defined_after_run :
    (¬ ∀ (program : Program) (mode : Option ExecutionMode) (s : Statement) (starter : Bool)
      (entry : Typing), (∀ names, .definitionCycle names ∉ (program.check mode).causes) →
        entry.Sorted → (program.context mode).InTurn (starter, s.skeleton) →
        (program.context mode).CopiesReliable (program.check mode).typings (starter, s.skeleton) →
        (program.context mode).SteadyRounds (program.check mode).typings (starter, s.skeleton)
          entry → program.GuaranteesData mode s starter entry) ∧
    (¬ ∀ (program : Program) (mode : Option ExecutionMode) (s : Statement) (starter : Bool)
      (entry : Typing), (∀ names, .definitionCycle names ∉ (program.check mode).causes) →
        entry.Sorted → (program.context mode).InTurn (starter, s.skeleton) →
        (program.context mode).OutsideMain (starter, s.skeleton) →
        (program.context mode).SteadyRounds (program.check mode).typings (starter, s.skeleton)
          entry → program.GuaranteesData mode s starter entry) ∧
    ¬ ∀ (program : Program) (mode : Option ExecutionMode) (s : Statement) (starter : Bool)
      (entry : Typing), (∀ names, .definitionCycle names ∉ (program.check mode).causes) →
        entry.Sorted → (program.context mode).InTurn (starter, s.skeleton) →
        (program.context mode).OutsideMain (starter, s.skeleton) →
        (program.context mode).CopiesReliable (program.check mode).typings (starter, s.skeleton) →
          program.GuaranteesData mode s starter entry := by
  have hnone : ∀ l ∈ Typing.empty.providedData.keys, (fun _ => false : Store) l = true :=
    fun _ h => nomatch h
  have hnone' : ∀ l ∈ Typing.empty.providedCorrelation.keys, (fun _ => false : Store) l = true :=
    fun _ h => nomatch h
  have hacyclic : ∀ {program : Program}, (program.check none).causes = [] →
      ∀ names, .definitionCycle names ∉ (program.check none).causes := fun h names hcycle => by
    rw [h] at hcycle
    cases hcycle
  have hoff : ∀ {program : Program}, initName ∉ (program.context none).definitions.keys →
      ∀ x, (program.context none).OutsideMain x := fun h _ _ _ _ _ => h
  refine ⟨fun h => ?main, fun h => ?copies, fun h => ?rounds⟩
  case main =>
    have hagain : (mainAgain.context none).definitions.find? "again" =
        some ⟨.unknown, "again", .call .unknown "main"⟩ := rfl
    have hrun : Run (mainAgain.context none) false (.call .unknown "main")
        [.assign (sampleData "y") (.copy (sampleData "x"))] := .call rfl (.leaf rfl)
    have hvalue := h mainAgain none (.call .unknown "main") false .empty
      (hacyclic (by decide +kernel)) Typing.sorted_empty
      (Context.inTurn_body hagain (by decide +kernel))
      (Context.copiesReliable_body hagain (by decide +kernel))
      (Context.steadyRounds_of_definitions (by decide +kernel) (by decide +kernel)) _ _
      (Statement.checkedFrom_end _ _ _ false) _ _ hrun hnone hnone' (sampleData "y").location
      (by decide +kernel)
    revert hvalue
    decide +kernel
  case copies =>
    have hmain : (copiedStarter.context none).definitions.find? mainName = some _ := rfl
    have hvalue := h copiedStarter none _ true .empty (hacyclic (by decide +kernel))
      Typing.sorted_empty (Context.inTurn_body hmain (by decide +kernel))
      (hoff (by decide +kernel) _)
      (Context.steadyRounds_of_definitions (by decide +kernel) (by decide +kernel)) _ _
      (Statement.checkedFrom_end _ _ _ true) _ _ run_copiedStarter hnone hnone'
      (sampleData "x").location (by decide +kernel)
    revert hvalue
    decide +kernel
  case rounds =>
    have hmain : (copiedRounds.context none).definitions.find? mainName = some _ := rfl
    have hvalue := h copiedRounds none _ true .empty (hacyclic (by decide +kernel))
      Typing.sorted_empty (Context.inTurn_body hmain (by decide +kernel))
      (hoff (by decide +kernel) _) (Context.copiesReliable_body hmain (by decide +kernel)) _ _
      (Statement.checkedFrom_end _ _ _ true) _ _ run_copiedRounds hnone hnone'
      (sampleData "y").location (by decide +kernel)
    revert hvalue
    decide +kernel

end Correlation
