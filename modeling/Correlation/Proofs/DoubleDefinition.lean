import Correlation.Proofs.Verdicts

/-!
# Double definitions

A correlation variable is reported to be defined twice exactly if some run gives it a value twice: a
run of the body of a definition, or of a session.  This holds if definitions do not call each other
in a circle and no loop defines a correlation variable, both of which are reported too.

* Two parts that both run and both provide the variable have runs that both give it a value.  They
  are met in a run of the body (`exists_run_of_clash`).
* Without such parts every run gives it a value at most once (`countP_body_le`,
  `countP_session_le`).
-/

namespace Correlation

open Skeleton

theorem toNat_add_le {a b : Bool} (h : ¬ (a = true ∧ b = true)) : a.toNat + b.toNat ≤ 1 := by
  revert a b
  decide

namespace Context.Settled

variable {ctx : Context} {table : NameTable Typing} {l : Location} {d : Definition}
  {t : List Event} (h : ctx.Settled table)

include h

/-! ## Runs with two definitions -/

/-- If two parts that both run provide a variable, some run of the body defines it twice. -/
theorem exists_run_of_clash {x : Bool × Skeleton} (hx : x ∈ ctx.partsOf d)
    (hlone : ¬ Lone ctx table l x) :
    ∃ t, Run ctx (ctx.startsSession d) d.body.skeleton t ∧
      2 ≤ t.countP (Event.defines ctx l) := by
  rw [Lone, Classical.not_imp, Nat.not_le] at hlone
  obtain ⟨hall, htwo⟩ := hlone
  obtain ⟨ts, hts⟩ := exists_forall₂ fun c (_ : c ∈ children ctx.execution x.1 x.2) =>
    h.exists_run l c.1 c.2
  have hcount := countP_le_flatten (P := grants ctx table l) hts fun _ _ h => h.2
  obtain ⟨u, hu, hpart⟩ := h.exists_run_of_part (.of_all hall (hts.imp fun _ _ h => h.1)) hx
  exact ⟨u, hu, Nat.le_trans htwo (Nat.le_trans hcount (hpart.countP_le))⟩

/-- If both parts of a session provide a variable, some session defines it twice. -/
theorem exists_session_of_clash (hinit : grants ctx table l initCall = true)
    (hmain : grants ctx table l mainCall = true) :
    ∃ t, ctx.Session t ∧ 2 ≤ t.countP (Event.defines ctx l) := by
  obtain ⟨t, ht, hdefines⟩ := h.exists_run l initCall.1 initCall.2
  obtain ⟨u, hu, hdefines'⟩ := h.exists_run l mainCall.1 mainCall.2
  refine ⟨t ++ u, ⟨t, u, ht, hu, rfl⟩, ?_⟩
  rw [List.countP_append]
  exact Nat.add_le_add (List.countP_pos_iff.mpr (hdefines hinit))
    (List.countP_pos_iff.mpr (hdefines' hmain))

/-! ## Runs without -/

variable (hQ : ctx.Throughout fun x => Lone ctx table l x ∧ Loopless ctx table l x)

include hQ

/-- Without clash and loop every run of a body defines a variable at most once. -/
theorem countP_body_le (hd : ctx.definitions.find? d.name = some d)
    (hrun : Run ctx (ctx.startsSession d) d.body.skeleton t) :
    t.countP (Event.defines ctx l) ≤ 1 :=
  Nat.le_trans (h.countP_run_le (x := (ctx.startsSession d, d.body.skeleton)) hQ hrun (hQ d hd))
    (Bool.toNat_le _)

/-- A call defines a variable at most once, and only if it provides it. -/
theorem countP_call_le {starter : Bool} {span : Span} {name : String}
    (hrun : Run ctx starter (.call span name) t) : t.countP (Event.defines ctx l) ≤
      (grants ctx table l (starter, .call span name)).toNat :=
  h.countP_run_le hQ hrun (forall_visited_call ⟨by nofun, by nofun⟩)

/-- A session defines a variable at most once for each of its parts that provide it. -/
theorem countP_session_le (hsession : ctx.Session t) :
    t.countP (Event.defines ctx l) ≤
      (grants ctx table l initCall).toNat + (grants ctx table l mainCall).toNat := by
  obtain ⟨init, main, hinit, hmain, rfl⟩ := hsession
  rw [List.countP_append]
  exact Nat.add_le_add (h.countP_call_le hQ hinit) (h.countP_call_le hQ hmain)

end Context.Settled

/-- A correlation variable is reported to be defined twice exactly if some run of a definition or of
a session defines it twice. -/
theorem definedMoreThanOnce_iff_exists_run (program : Program) (mode : Option ExecutionMode)
    (hacyclic : ∀ names, .definitionCycle names ∉ (program.check mode).causes)
    (hloop : ∀ path, .initializedInLoop path ∉ (program.check mode).causes) (l : Location) :
    (∃ path : Path, path.location = l ∧ .definedMoreThanOnce path ∈ (program.check mode).causes) ↔
      ∃ t, ((∃ d ∈ (program.context mode).definitions.toList,
          Run (program.context mode) ((program.context mode).startsSession d) d.body.skeleton t) ∨
        (program.context mode).Session t) ∧
          2 ≤ t.countP (Event.defines (program.context mode) l) := by
  have hsettled := Program.settled_check hacyclic
  have hloopless := Program.loopless_of_check hacyclic hloop l
  rw [Program.exists_clash_check hacyclic]
  constructor
  · rintro (⟨d, hd, x, hx, hlone⟩ | ⟨hinit, hmain⟩)
    · obtain ⟨t, hrun, htwo⟩ := hsettled.exists_run_of_clash hx hlone
      exact ⟨t, Or.inl ⟨d, (OrderedSet.find?_eq_some_iff.mp hd).1, hrun⟩, htwo⟩
    · obtain ⟨t, hsession, htwo⟩ := hsettled.exists_session_of_clash hinit hmain
      exact ⟨t, Or.inr hsession, htwo⟩
  · rintro ⟨t, hrun, htwo⟩
    by_contra hclash
    rw [not_or] at hclash
    have hQ : (program.context mode).Throughout fun x =>
        Lone (program.context mode) (program.check mode).typings l x ∧
          Loopless (program.context mode) (program.check mode).typings l x := by
      refine fun d hd x hx => ⟨?_, hloopless d hd x hx⟩
      by_contra hlone
      exact hclash.1 ⟨d, hd, x, hx, hlone⟩
    have hone : t.countP (Event.defines (program.context mode) l) ≤ 1 := by
      rcases hrun with ⟨d, hd, hrun⟩ | hsession
      · exact hsettled.countP_body_le hQ (OrderedSet.find?_eq_some_iff.mpr ⟨hd, rfl⟩) hrun
      · exact Nat.le_trans (hsettled.countP_session_le hQ hsession) (toNat_add_le hclash.2)
    exact absurd (Nat.le_trans htwo hone) (by decide)

/-- Both parts of a parallel statement give the key a value. -/
def doubledKey : Program :=
  sampleProgram [("main", .parallel .unknown
    [.assign .unknown sampleKey .fresh, .assign .unknown sampleKey .fresh])]

/-- The key of `doubledKey` gets a value twice in some run, since that is reported. -/
theorem exists_run_doubledKey :
    ∃ t, ((∃ d ∈ (doubledKey.context none).definitions.toList,
        Run (doubledKey.context none) ((doubledKey.context none).startsSession d)
          d.body.skeleton t) ∨
      (doubledKey.context none).Session t) ∧
        2 ≤ t.countP (Event.defines (doubledKey.context none) sampleKey.location) := by
  have hcauses : (doubledKey.check none).causes = [.definedMoreThanOnce sampleKey] := by
    decide +kernel
  refine (definedMoreThanOnce_iff_exists_run doubledKey none ?_ ?_ sampleKey.location).mp
    ⟨sampleKey, rfl, ?_⟩
  · intro names
    rw [hcauses, List.mem_singleton]
    nofun
  · intro path
    rw [hcauses, List.mem_singleton]
    nofun
  · rw [hcauses]
    exact List.mem_singleton_self _

end Correlation
