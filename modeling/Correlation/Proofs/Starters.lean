import Correlation.Proofs.Inputs
import Correlation.Proofs.SessionKeys

/-!
# Starter exclusivity

A choice that waits for the first input of a session has branches of its own for the operations that
may come first.  None of them is supposed to continue a session that another branch has started.

Of a branch only the first starter in the order of the text is compared with the inputs of the other
branches, since this is the one that its typing notes.  In a valid program it is taken in nowhere in
another branch with the flag cleared, calls included (`starter_exclusive_of_valid`).  A branch that
waits for one operation has one starter, so nothing escapes there.  A branch with a choice of its
own has several, and the later ones may be inputs of sessions that other branches start
(`not_starters_exclusive`).
-/

namespace Correlation

open Skeleton

/-- The starter of one alternative that belongs to a session in another one is a conflict. -/
theorem Typing.mem_starterConflicts {ts : List Typing} {i j : Nat} (hij : i ≠ j) {t u : Typing}
    (ht : ts[i]? = some t) (hu : ts[j]? = some u) {operation : String}
    (hstart : t.startingOperation = some operation)
    (hsession : operation ∈ u.sessionOperations.keys) : operation ∈ starterConflicts ts := by
  refine List.mem_filterMap.mpr ⟨(t, i), List.mk_mem_zipIdx_iff_getElem?.mpr ht, ?_⟩
  refine Option.filter_eq_some_iff.mpr ⟨hstart, List.any_eq_true.mpr ⟨(u, j), ?_, ?_⟩⟩
  · exact List.mk_mem_zipIdx_iff_getElem?.mpr hu
  · rw [Bool.and_eq_true, Bool.not_eq_true', decide_eq_false_iff_not,
      OrderedSet.contains_iff_mem_keys]
    exact ⟨hij, hsession⟩

/-- The parts of a part call nothing that the part does not. -/
theorem Context.BeforeMain.part {ctx : Context} {table : NameTable Typing} {x y : Bool × Skeleton}
    (hx : ctx.BeforeMain table x) (hy : y ∈ visited ctx.execution x.1 x.2) :
    ctx.BeforeMain table y :=
  fun z hz => hx z (visited_subset hy hz)

/-- Only the body of `main` has parts whose flag is set, and none in single mode. -/
theorem Context.startsSession_of_mem_partsOf {ctx : Context} {d : Definition} {k : Skeleton}
    (hk : (true, k) ∈ ctx.partsOf d) : d.name = mainName ∧ ctx.execution ≠ .single := by
  have hstarts : ctx.startsSession d = true := by
    by_contra hclear
    rw [partsOf, eq_false_of_ne_true hclear] at hk
    cases eq_false_of_mem_visited hk
  rw [startsSession, Bool.and_eq_true, decide_eq_true_eq, Bool.not_eq_true',
    decide_eq_false_iff_not] at hstarts
  exact hstarts

section Valid

variable {program : Program} {mode : Option ExecutionMode}

/-- In a valid program the first starter of a branch of a choice is not taken in with the flag
cleared by another branch, nor by the definitions that it calls. -/
theorem starter_exclusive_of_valid (hvalid : (program.check mode).isValid = true) {d : Definition}
    (hd : d ∈ (program.context mode).definitions.toList) {span : Span} {branches : List Skeleton}
    (hchoice : (true, .choice span branches) ∈ (program.context mode).partsOf d) {i j : Nat}
    (hij : i ≠ j) {a b : Skeleton} (ha : branches[i]? = some a) (hb : branches[j]? = some b)
    {operation : String}
    (hfirst : (starters (program.context mode).execution (true, a)).head? = some operation)
    (inputSpan : Span) (receive : Option Path) :
    ¬ (program.context mode).Reaches (true, b) (false, .input inputSpan operation receive) := by
  intro hreaches
  let ctx := program.context mode
  let table := (program.check mode).typings
  have hsettled : ctx.Settled table := Program.settled_of_valid hvalid
  obtain ⟨hmain, hmode⟩ := Context.startsSession_of_mem_partsOf hchoice
  have hfind : ctx.definitions.find? d.name = some d := OrderedSet.find?_eq_some_iff.mpr ⟨hd, rfl⟩
  have hbefore : ctx.BeforeMain table (true, a) :=
    ((hsettled.beforeMain_main (hmain ▸ hfind)).part hchoice).child
      (List.mem_map_of_mem (List.mem_of_getElem? ha))
  have hstart : (inputsOf ctx table (true, a)).2 = some operation :=
    (hsettled.startingOperation_eq hmode hbefore).trans hfirst
  have hsession : operation ∈ (inputsOf ctx table (true, b)).1.keys :=
    hsettled.mem_operations_of_reaches hmode hreaches
  have hconflict : operation ∈ Typing.starterConflicts (branches.map fun x =>
      typing ctx table true x .empty) :=
    Typing.mem_starterConflicts hij (by rw [List.getElem?_map, ha]; rfl)
      (by rw [List.getElem?_map, hb]; rfl) hstart hsession
  have hfault : (⟨span, .starterUsedInSession operation⟩ : Violation) ∈
      (Skeleton.choice span branches).faults ctx table (decide (d.name = initName)) true
        .empty := by
    rw [faults, branchTypings_eq_map]
    exact List.mem_map_of_mem hconflict
  exact Program.not_mem_causes_of_valid hvalid _
    (Program.cause_of_part (fun _ => Program.not_mem_causes_of_valid hvalid _) hfind hchoice hfault)

end Valid

/-- A session starts with one of two operations once a link is open, or else with `browse`, and then
it goes on with `checkout`. -/
def nestedStarters (first second : String) : Program :=
  sampleProgram [("main", .choice .unknown
    [⟨.linkIn .unknown "open", .choice .unknown
        [⟨.oneWay .unknown first none, .nothing .unknown⟩,
          ⟨.oneWay .unknown second none, .nothing .unknown⟩]⟩,
      ⟨.oneWay .unknown "browse" none, .sequence .unknown
        [.assign .unknown sampleKey .fresh, .oneWay .unknown "checkout" none]⟩])]

/-- Of the two starters in one branch it is the first that the other branch does not take in. -/
theorem starter_exclusive_nestedStarters :
    let ctx := (nestedStarters "login" "checkout").context none
    ((nestedStarters "login" "checkout").check none).isValid = true ∧
      ∃ d ∈ ctx.definitions.toList, ∃ span a b, (true, .choice span [a, b]) ∈ ctx.partsOf d ∧
        starters ctx.execution (true, a) = ["login", "checkout"] ∧
          ∀ inputSpan receive,
            ¬ ctx.Reaches (true, b) (false, .input inputSpan "login" receive) := by
  intro ctx
  have hvalid : ((nestedStarters "login" "checkout").check none).isValid = true := by
    decide +kernel
  refine ⟨hvalid, _, List.mem_singleton_self _, .unknown, _, _, mem_visited_self _ _ _, ?_, ?_⟩
  · decide +kernel
  · exact starter_exclusive_of_valid hvalid (List.mem_singleton_self _) (mem_visited_self _ _ _)
      (i := 0) (j := 1) Nat.zero_ne_one rfl rfl (by decide +kernel)

/-- The second starter of a branch may continue a session that another branch has started.  The same
starter is a conflict if the branches of the inner choice change places. -/
theorem not_starters_exclusive :
    let ctx := (nestedStarters "login" "checkout").context none
    ((nestedStarters "login" "checkout").check none).isValid = true ∧
      (∃ d ∈ ctx.definitions.toList, ∃ span a b, (true, .choice span [a, b]) ∈ ctx.partsOf d ∧
        "checkout" ∈ starters ctx.execution (true, a) ∧
          ctx.Reaches (true, b) (false, .input .unknown "checkout" none)) ∧
        ((nestedStarters "checkout" "login").check none).causes =
          [.starterUsedInSession "checkout"] := by
  intro ctx
  refine ⟨by decide +kernel, ?_, by decide +kernel⟩
  refine ⟨_, List.mem_singleton_self _, .unknown, _, _, mem_visited_self _ _ _, ?_, ?_⟩
  · decide +kernel
  · exact .child (List.mem_cons_of_mem _ List.mem_cons_self)
      (.child (List.mem_cons_of_mem _ List.mem_cons_self) (.refl _))

end Correlation
