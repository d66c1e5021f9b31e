import Correlation.Proofs.Needs

/-!
# The inputs that a typing notes

A typing notes the inputs below it in two fields.  Those that belong to a running session are
collected in a set.  Of those that start a session it keeps one only.

* `Context.Reaches` says which parts a part comes to: its own parts and, through calls, those of
  definitions.  Every operation that is taken in at a part reached with the flag cleared is among
  the session operations (`Settled.mem_operations_of_reaches`).
* `starters` are the operations that are taken in with the flag set, in the order of the text.  The
  starting operation is the first of them (`Settled.startingOperation_eq`), as long as `main` is not
  called.  So a typing tells nothing of any further ones.
-/

namespace Correlation

open Skeleton

/-- A part comes to another one: to its own parts, and to the parts of the definitions that it
calls, which have the flags of their definitions. -/
inductive Context.Reaches (ctx : Context) : Bool × Skeleton → Bool × Skeleton → Prop
  | refl (x : Bool × Skeleton) : ctx.Reaches x x
  | child {x c y : Bool × Skeleton} (hc : c ∈ children ctx.execution x.1 x.2)
      (h : ctx.Reaches c y) : ctx.Reaches x y
  | call {x y : Bool × Skeleton} {span : Span} {name : String} {d : Definition}
      (hcall : x.2 = .call span name) (hd : ctx.definitions.find? name = some d)
      (h : ctx.Reaches (ctx.startsSession d, d.body.skeleton) y) : ctx.Reaches x y

namespace Skeleton

/-- The operation that a part takes in by itself to start a session. -/
def starter? : Bool × Skeleton → Option String
  | (true, .input _ operation _) => some operation
  | _ => none

/-- The operations that a part takes in to start a session, in the order of the text. -/
def starters (mode : ExecutionMode) (x : Bool × Skeleton) : List String :=
  (visited mode x.1 x.2).filterMap starter?

theorem starters_eq {mode : ExecutionMode} {starter : Bool} {k : Skeleton}
    (hk : k.shape ≠ .leaf) :
    starters mode (starter, k) = (children mode starter k).flatMap (starters mode) := by
  have hself : starter? (starter, k) = none := by
    cases k with
    | input => exact absurd rfl hk
    | _ => cases starter <;> rfl
  rw [starters, visited_eq, List.filterMap_cons, hself, List.filterMap_flatMap]
  rfl

/-- Only inputs start a session. -/
theorem starters_of_leaf {mode : ExecutionMode} {starter : Bool} {k : Skeleton}
    (hk : k.shape = .leaf) (hinput : ∀ span operation receive, k ≠ .input span operation receive) :
    starters mode (starter, k) = [] := by
  have hself : starter? (starter, k) = none := by
    cases k with
    | input span operation receive => exact absurd rfl (hinput span operation receive)
    | _ => cases starter <;> rfl
  rw [starters, visited_eq, children_of_leaf hk, List.flatMap_nil, List.filterMap_cons, hself,
    List.filterMap_nil]

/-- Where the flag is cleared, no session starts. -/
theorem starters_of_clear {mode : ExecutionMode} (k : Skeleton) :
    starters mode (false, k) = [] := by
  refine List.filterMap_eq_nil_iff.mpr fun x hx => ?_
  obtain ⟨starter, part⟩ := x
  obtain rfl : starter = false := eq_false_of_mem_visited hx
  rfl

end Skeleton

/-! ## Inputs of parts put together -/

section Inputs

/-- The inputs of a statement and then those of another one. -/
def joinInputs (before next : NameSet × Option String) : NameSet × Option String :=
  (before.1.union next.1, before.2.or next.2)

/-- Joined inputs have the operations of all the parts. -/
theorem mem_foldl_joinInputs {parts : List (NameSet × Option String)}
    {acc : NameSet × Option String} {operation : String} :
    operation ∈ (parts.foldl joinInputs acc).1.keys ↔
      operation ∈ acc.1.keys ∨ ∃ i ∈ parts, operation ∈ i.1.keys := by
  induction parts generalizing acc with
  | nil => simp
  | cons i rest ih =>
    rw [List.foldl_cons, ih, List.exists_mem_cons_iff, ← or_assoc]
    exact or_congr_left OrderedSet.mem_keys_union

theorem foldl_joinInputs_snd (parts : List (NameSet × Option String))
    (acc : NameSet × Option String) :
    (parts.foldl joinInputs acc).2 = acc.2.or (parts.findSome? Prod.snd) := by
  induction parts generalizing acc with
  | nil => exact (Option.or_none).symm
  | cons i rest ih =>
    rw [List.foldl_cons, ih, joinInputs, Option.or_assoc, List.findSome?_cons]
    cases i.2 <;> rfl

variable (ctx : Context) (table : NameTable Typing)

/-- The inputs that the typing of a part notes. -/
def inputsOf (x : Bool × Skeleton) : NameSet × Option String :=
  (typing ctx table x.1 x.2 .empty).inputs

variable {ctx table}

/-- The inputs of a part do not depend on where it is entered. -/
theorem inputs_typing (htable : SortedTable table) (x : Bool × Skeleton) (entry : Typing) :
    (typing ctx table x.1 x.2 entry).inputs = inputsOf ctx table x :=
  congrArg Prod.snd (steady_typing htable x.1 x.2 entry .empty)

theorem inputs_sequel (htable : SortedTable table) {starter : Bool} {parts : List Skeleton}
    (s : Sequel) : (sequel ctx table starter parts s).result.inputs =
      ((flagged ctx.execution starter parts).map (inputsOf ctx table)).foldl joinInputs
        s.result.inputs := by
  induction parts generalizing starter s with
  | nil => rfl
  | cons x rest ih =>
    have ht := sorted_typing ctx htable starter x s.running
    rw [sequel, ih, flagged, List.map_cons, List.foldl_cons,
      ← inputs_typing htable (starter, x) s.running]
    exact congrArg (List.foldl joinInputs · _) (congrArg Prod.snd (Sequel.append_steady s ht).1)

/-- The inputs of statements at the same time are those of all of them, and the first starter
counts. -/
theorem inputs_parallel (ts : List Typing) :
    (Typing.parallel ts).1.inputs = (ts.map Typing.inputs).foldl joinInputs (.empty, none) := by
  rw [List.foldl_map]
  refine foldl_view (fun acc : Typing × List Violation => acc.1.inputs) (fun acc t _ => ?_)
    (.empty, [])
  exact congrArg Prod.snd (Typing.beside_steady acc.1 t).1

/-- The inputs of branches are those of all of them, and the first starter counts. -/
theorem inputs_alternatives (ts : List Typing) (sessionStart : Bool) :
    (Typing.alternatives ts sessionStart).inputs =
      (ts.map Typing.inputs).foldl joinInputs (.empty, none) := by
  rw [List.foldl_map]
  refine foldl_view Typing.inputs (fun t b _ => ?_) .empty
  exact congrArg Prod.snd (Typing.steady_joinEffects t b)

/-- A part with parts notes their inputs. -/
theorem inputsOf_eq (htable : SortedTable table) {starter : Bool} {k : Skeleton}
    (hk : k.shape ≠ .leaf) : inputsOf ctx table (starter, k) =
      ((children ctx.execution starter k).map (inputsOf ctx table)).foldl joinInputs
        (.empty, none) := by
  have halternatives : k.shape = .one → inputsOf ctx table (starter, k) =
      ((children ctx.execution starter k).map (inputsOf ctx table)).foldl joinInputs
        (.empty, none) := by
    intro hone
    obtain ⟨sessionStart, htyping⟩ := exists_alternatives ctx table starter hone Typing.empty
    rw [inputsOf, htyping, inputs_alternatives, List.map_map]
    rfl
  cases k with
  | sequence parts =>
    rw [inputsOf, typing]
    exact inputs_sequel htable (.start .empty)
  | parallel parts =>
    rw [inputsOf, typing, typings_eq_map, inputs_parallel, List.map_map]
    rfl
  | choice | conditional => exact halternatives rfl
  | repeated span body =>
    show inputsOf ctx table (starter, body) = joinInputs (.empty, none) (inputsOf ctx table _)
    rw [joinInputs, OrderedSet.empty_union, Option.none_or]
  | idle | request | input | assign | invalidate | call => exact absurd rfl hk

theorem inputs_provide (t : Typing) (p : Path) (fresh : Bool) :
    (t.provide p fresh).inputs = t.inputs := by
  rw [Typing.provide]
  split <;> rfl

/-- An assignment notes no inputs. -/
theorem inputs_initialTyping (span : Span) (target : Path) (value : Initializer)
    (entry : Typing) : (Check.initialTyping span target value entry).1.inputs = (.empty, none) := by
  have hprovided : ∀ fresh, (Typing.empty.provide target fresh).inputs = (.empty, none) :=
    fun fresh => inputs_provide .empty target fresh
  unfold Check.initialTyping
  cases value with
  | constant => exact hprovided false
  | fresh => exact hprovided true
  | update path =>
    dsimp only
    split
    · rfl
    · exact hprovided false
  | copy source =>
    have hneeded : ((Typing.empty.need (source.locatedIn span)).provide target false).inputs =
        (.empty, none) :=
      (inputs_provide _ target false).trans (congrArg Prod.snd (Typing.steady_need .empty _))
    dsimp only
    split
    · split
      · exact hprovided false
      · split
        · exact hneeded
        · rfl
    · rfl
  | other => rfl

/-- A part that is not put together notes an input only if it is one. -/
theorem startingOperation_of_leaf (hmode : ctx.execution ≠ .single) {starter : Bool} {k : Skeleton}
    (hk : k.shape = .leaf) (hcall : ∀ span name, k ≠ .call span name) :
    (inputsOf ctx table (starter, k)).2 = (starters ctx.execution (starter, k)).head? := by
  cases k with
  | input span operation receive =>
    rw [inputsOf, typing, if_neg hmode]
    cases starter with
    | true => rfl
    | false =>
      have hkeeps : ∀ keys : List Path, (Check.inputTyping keys false).inputs = (.empty, none) :=
        fun keys => foldl_keeps Typing.inputs
          (fun t p _ => congrArg Prod.snd (Typing.steady_need t p)) Typing.empty
      exact congrArg Prod.snd (hkeeps (ctx.keysFor operation span))
  | assign span target value =>
    rw [inputsOf, typing, starters_of_leaf rfl (by simp)]
    split
    · exact congrArg Prod.snd (inputs_initialTyping span _ value .empty)
    · rfl
  | invalidate span paths =>
    have hkeeps : (paths.foldl (fun t p => t.invalidate (p.locatedIn span)) Typing.empty).inputs =
        (.empty, none) := by
      refine foldl_keeps Typing.inputs (fun t p _ => ?_) .empty
      exact congrArg Prod.snd (Typing.steady_invalidate t (p.locatedIn span))
    rw [starters_of_leaf rfl (by simp)]
    exact congrArg Prod.snd hkeeps
  | call span name => exact absurd rfl (hcall span name)
  | idle | request => rw [starters_of_leaf rfl (by simp)]; rfl
  | _ => cases hk

end Inputs

/-! ## The inputs that a part reaches -/

namespace Context.Settled

variable {ctx : Context} {table : NameTable Typing} (h : ctx.Settled table)
  {x : Bool × Skeleton} {span : Span} {operation : String} {receive : Option Path}

include h

/-- A call notes the inputs of the body of its definition. -/
theorem inputsOf_call {name : String} {d : Definition} (hcall : x.2 = .call span name)
    (hd : ctx.definitions.find? name = some d) :
    inputsOf ctx table x = inputsOf ctx table (ctx.startsSession d, d.body.skeleton) := by
  obtain ⟨starter, k⟩ := x
  obtain rfl := hcall
  obtain rfl := name_of_find? hd
  rw [inputsOf, typing, h.called_eq hd, typingOf]
  exact inputs_typing h.sorted (ctx.startsSession d, d.body.skeleton) _

/-- An input that is reached with the flag cleared is one of the session operations. -/
theorem mem_operations_of_reaches (hmode : ctx.execution ≠ .single)
    (hx : ctx.Reaches x (false, .input span operation receive)) :
    operation ∈ (inputsOf ctx table x).1.keys := by
  generalize hy : (false, Skeleton.input span operation receive) = y at hx
  induction hx with
  | refl x =>
    subst hy
    rw [inputsOf, typing, if_neg hmode]
    exact OrderedSet.mem_keys_insertNew.mpr (Or.inl rfl)
  | @child x c y hc _ ih =>
    have hk : x.2.shape ≠ .leaf := fun hleaf => by
      rw [children_of_leaf hleaf] at hc
      cases hc
    rw [inputsOf_eq h.sorted hk]
    exact mem_foldl_joinInputs.mpr (Or.inr ⟨_, List.mem_map_of_mem hc, ih hy⟩)
  | call hcall hd _ ih =>
    rw [h.inputsOf_call hcall hd]
    exact ih hy

/-- The starting operation is the first input that is taken in with the flag set. -/
theorem startingOperation_eq (hmode : ctx.execution ≠ .single) (hx : ctx.BeforeMain table x) :
    (inputsOf ctx table x).2 = (starters ctx.execution x).head? := by
  obtain ⟨starter, k⟩ := x
  induction starter, k using h.induction with
  | step starter k ih ihcall =>
    by_cases hcall : ∃ span name, k = .call span name
    · obtain ⟨span, name, rfl⟩ := hcall
      refine Eq.trans ?_ (congrArg List.head? (starters_of_leaf rfl (by simp))).symm
      cases hd : ctx.definitions.find? name with
      | none =>
        rw [inputsOf, typing, h.called_undeclared hd]
        rfl
      | some d =>
        obtain ⟨hmain, hbody⟩ := h.beforeMain_call hx rfl hd
        have hstarts : ctx.startsSession d = false := by
          rw [startsSession, decide_eq_false hmain, Bool.false_and]
        rw [h.inputsOf_call rfl hd, ihcall span name d rfl hd hbody, hstarts, starters_of_clear]
    · have hcall : ∀ span name, k ≠ .call span name := fun span name h => hcall ⟨span, name, h⟩
      by_cases hk : k.shape = .leaf
      · exact startingOperation_of_leaf hmode hk hcall
      · have hchildren : (children ctx.execution starter k).map (Prod.snd ∘ inputsOf ctx table) =
            (children ctx.execution starter k).map (List.head? ∘ starters ctx.execution) :=
          List.map_congr_left fun c hc => ih c hc (hx.child hc)
        have hfirst := congrArg (List.findSome? id) hchildren
        rw [List.findSome?_map, List.findSome?_map] at hfirst
        rw [inputsOf_eq h.sorted hk, starters_eq hk, foldl_joinInputs_snd, List.head?_flatMap,
          Option.none_or, List.findSome?_map]
        exact hfirst

end Context.Settled

end Correlation
