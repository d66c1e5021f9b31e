import Correlation.Proofs.Verdicts

/-!
# Uninitialised use

A correlation variable is reported to be not initialised exactly if some session needs it before
giving it a value.  This holds if definitions do not call each other in a circle, no loop defines a
correlation variable, and alternatives agree on whether they provide the variable.  All of that is
reported as well, but for the branches of a choice that may start the session.

* What the typing of a session needs, some session needs first (`exists_session_of_needed`).
* What a session needs first, the typing needs (`mem_neededKeys_of_session`).
-/

namespace Correlation

open Skeleton

namespace Context.Settled

variable {ctx : Context} {table : NameTable Typing} {l : Location} {d : Definition}
  {t : List Event} (h : ctx.Settled table) (hd : ctx.definitions.find? mainName = some d)

include h hd

/-- What `main` calls is typed before `main`. -/
theorem beforeMain_main : ctx.BeforeMain table (ctx.startsSession d, d.body.skeleton) := by
  obtain hname := name_of_find? hd
  exact h.beforeMain_body (hname.symm ▸ hd) (Nat.le_of_eq (by rw [hname]))

/-- `init` is typed before `main`. -/
theorem beforeMain_initCall : ctx.BeforeMain table initCall := by
  obtain hname := name_of_find? hd
  intro y hy span name hcall hdeclared
  obtain rfl := List.mem_singleton.mp hy
  cases hcall
  have hrank := h.ranked d (hname.symm ▸ hd) initName hdeclared (Or.inr ⟨hname, rfl⟩)
  rwa [hname] at hrank

/-- What the typing of a session needs, some session needs first. -/
theorem exists_session_of_needed (hneed : l ∈ (sessionOf table).neededKeys) :
    ∃ t, ctx.Session t ∧ NeedsFirst ctx l t := by
  rcases (h.mem_neededKeys_sessionOf hd).mp hneed with hneed | ⟨hinit, hneed⟩
  · obtain ⟨t, ht, hneeds⟩ := h.exists_run_of_needed (h.beforeMain_initCall hd) hneed
    obtain ⟨u, hu⟩ := h.exists_some_run mainCall
    exact ⟨t ++ u, ⟨t, u, ht, hu, rfl⟩, meetsBefore_append.mpr (Or.inl hneeds)⟩
  · obtain ⟨t, ht⟩ := h.exists_some_run initCall
    obtain ⟨u, hu, hneeds⟩ := h.exists_run_of_needed (h.beforeMain_main hd) hneed
    refine ⟨t ++ u, ⟨t, u, ht, .call hd hu, rfl⟩, meetsBefore_append.mpr (Or.inr ⟨?_, hneeds⟩)⟩
    exact fun e he hdefines => hinit (h.grants_of_run (x := initCall) ht he hdefines)

/-- What a session needs first, the typing needs. -/
theorem mem_neededKeys_of_session
    (hQ : ctx.Throughout fun x => Agreed ctx (grants ctx table l) x ∧ Loopless ctx table l x)
    (hsession : ctx.Session t) (hneeds : NeedsFirst ctx l t) :
    l ∈ (sessionOf table).neededKeys := by
  have hcall : ∀ y ∈ visited ctx.execution initCall.1 initCall.2,
      Agreed ctx (grants ctx table l) y ∧ Loopless ctx table l y :=
    forall_visited_call ⟨by nofun, by nofun⟩
  obtain ⟨init, main, hinit, hmain, rfl⟩ := hsession
  rw [h.mem_neededKeys_sessionOf hd]
  rcases meetsBefore_append.mp hneeds with hneeds | ⟨hnone, hneeds⟩
  · exact Or.inl (h.mem_needed_of_run hQ hinit hcall (h.beforeMain_initCall hd) hneeds)
  · refine Or.inr ⟨fun hgrants => ?_, ?_⟩
    · obtain ⟨e, he, hdefines⟩ := h.exists_of_run hQ hinit hcall hgrants
      exact hnone e he hdefines
    · cases hmain with
      | leaf he => cases he
      | call hd' hrun =>
        obtain rfl := Option.some.inj (hd.symm.trans hd')
        exact h.mem_needed_of_run (x := (ctx.startsSession d, d.body.skeleton)) hQ hrun
          (hQ d (name_of_find? hd ▸ hd)) (h.beforeMain_main hd) hneeds
      | undeclared hname => exact hneeds.elim

end Context.Settled

/-- A correlation variable is reported to be not initialised exactly if some session needs it and
has not given it a value before. -/
theorem notInitialized_iff_exists_session (program : Program) (mode : Option ExecutionMode)
    (hmain : ∃ d ∈ program.definitions, d.name = mainName)
    (hacyclic : ∀ names, .definitionCycle names ∉ (program.check mode).causes)
    (hloop : ∀ path, .initializedInLoop path ∉ (program.check mode).causes)
    (hbranches : ∀ path kind, .notInitializedInEveryBranch path kind ∉ (program.check mode).causes)
    (l : Location) (hstarts : (program.context mode).StartsAgree
      (grants (program.context mode) (program.check mode).typings l)) :
    (∃ path : Path, path.location = l ∧ .notInitialized path ∈ (program.check mode).causes) ↔
      ∃ before e after, (program.context mode).Session (before ++ e :: after) ∧
        e.needs (program.context mode) l = true ∧
          ∀ b ∈ before, ¬ b.defines (program.context mode) l = true := by
  have hsettled := Program.settled_check hacyclic
  obtain ⟨d, hd⟩ := Context.find?_of_mem_keys (Program.mem_keys_definitions.mpr hmain)
  rw [Program.exists_need_check hacyclic hd]
  constructor
  · intro hneed
    obtain ⟨t, hsession, hneeds⟩ := hsettled.exists_session_of_needed hd hneed
    obtain ⟨before, e, after, rfl, hneeds, hnone⟩ := meetsBefore_iff_exists.mp hneeds
    exact ⟨before, e, after, hsession, hneeds, hnone⟩
  · rintro ⟨before, e, after, hsession, hneeds, hnone⟩
    have hagreed := Program.agreed_of_check hacyclic hbranches hstarts
    have hloopless := Program.loopless_of_check hacyclic hloop l
    exact hsettled.mem_neededKeys_of_session hd
      (fun d hd x hx => ⟨hagreed d hd x hx, hloopless d hd x hx⟩) hsession
      (meetsBefore_iff_exists.mpr ⟨before, e, after, rfl, hneeds, hnone⟩)

/-- The key gets a value at the same time as an input needs it. -/
def hastyCheckout : Program :=
  sampleProgram [("main", .parallel .unknown
    [.choice .unknown
      [⟨.oneWay .unknown "login" none, .assign .unknown sampleKey .fresh⟩,
        ⟨.oneWay .unknown "register" none, .assign .unknown sampleKey .fresh⟩],
      .oneWay .unknown "checkout" none])]

/-- In some session of `hastyCheckout` the input comes before the key has a value. -/
theorem exists_session_hastyCheckout :
    ∃ before e after, (hastyCheckout.context none).Session (before ++ e :: after) ∧
      e.needs (hastyCheckout.context none) sampleKey.location = true ∧
        ∀ b ∈ before, ¬ b.defines (hastyCheckout.context none) sampleKey.location = true := by
  have hcauses : (hastyCheckout.check none).causes = [.notInitialized sampleKey] := by
    decide +kernel
  refine (notInitialized_iff_exists_session hastyCheckout none ?_ ?_ ?_ ?_ sampleKey.location
    (by decide +kernel)).mp ⟨sampleKey, rfl, ?_⟩
  · exact ⟨_, List.mem_singleton_self _, rfl⟩
  · intro names
    rw [hcauses, List.mem_singleton]
    nofun
  · intro path
    rw [hcauses, List.mem_singleton]
    nofun
  · intro path kind
    rw [hcauses, List.mem_singleton]
    nofun
  · rw [hcauses]
    exact List.mem_singleton_self _

end Correlation
