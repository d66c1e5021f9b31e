import Correlation.Proofs.CallGraph
import Correlation.Proofs.Tasks
import Mathlib.Data.List.Dedup

/-!
# Every definition is checked once

Definitions call each other by name, also in circles, so the check of a body may come to the check
of any other body.  It ends nevertheless: a definition that is called while it is in progress is not
entered again, and one that is typed is not checked again.

`Context.Visits` says what a call of a definition comes to and what happens in its course, without a
bound on how many definitions may be entered.  A derivation is the tree of calls that are made.  It
agrees with the check, which has such a bound (`Visits.eq_visitWithin`), and there always is one
(`exists_visits`), since the bound is never reached.  There is no other one either
(`Visits.unique`).

What holds of all calls is then shown by induction on derivations.  Every name that is typed in the
course of a call has its first definition checked in its course (`Visits.keys_perm`,
`Visits.first`), and the definitions in progress are always different from each other
(`Visits.nested`).  So in a run every first definition has its body checked exactly once
(`Program.checks_bodies_once`).
-/

namespace Correlation

/-- What happens in the course of checking a program, with the progress at that point. -/
inductive Moment where
  /-- A definition is called, or it has its turn. -/
  | call (c : Call)
  /-- The body of a definition begins to be checked. -/
  | body (d : Definition) (progress : Progress)
  /-- A part of a body begins to be checked. -/
  | part (t : Task)

namespace Moment

/-- The progress at that point. -/
def progress : Moment → Progress
  | .call c => c.progress
  | .body _ g => g
  | .part t => t.progress

/-- The definition whose body begins to be checked. -/
def body? : Moment → Option Definition
  | .body d _ => some d
  | .call _ | .part _ => none

/-- A task, and what happens in the call that it is. -/
def ofTask (log : Call → List Moment) (t : Task) : List Moment :=
  .part t :: t.call?.elim [] log

end Moment

/-- The definitions whose bodies are checked, in the order in which that begins. -/
def bodies (log : List Moment) : List Definition := log.filterMap Moment.body?

/-- The progress when a definition is entered. -/
def Progress.enter (g : Progress) (name : String) : Progress :=
  { g with inProgress := g.inProgress ++ [name] }

namespace Context

section Define

variable (ctx : Context) (visit : Visit) (d : Definition) (g : Progress)

/-- The call of `init` that gives `main` its entry. -/
def entryCalls : List Call :=
  if decide (d.name = mainName) && ctx.definitions.contains initName then [⟨d.span, initName, g⟩]
  else []

/-- The check of the body of a definition. -/
def bodyTask : Task :=
  let e := ctx.entered visit d g
  ⟨d.body.skeleton, e.1, ctx.startsSession d,
    { e.2 with insideInit := decide (d.name = initName) }⟩

/-- The calls that a definition in progress makes, one after the other. -/
def callsOf : List Call := ctx.entryCalls d g ++ (ctx.bodyTask visit d g).calls ctx visit

/-- What a definition in progress comes to. -/
def define : Typing × Progress :=
  finish d (ctx.entered visit d g).2.insideInit ((ctx.bodyTask visit d g).outcome ctx visit)

/-- What happens while a definition is in progress, given what happens in its calls. -/
def logOf (log : Call → List Moment) : List Moment :=
  (ctx.entryCalls d g).flatMap log ++ .body d (ctx.bodyTask visit d g).progress ::
    ((ctx.bodyTask visit d g).tasks ctx visit).flatMap (Moment.ofTask log)

end Define

/-- A call comes to a typing and a progress, and this happens in its course.  There is no bound on
how many definitions may be entered, so a derivation is a tree of calls that has come to its end. -/
inductive Visits (ctx : Context) : Call → Typing × Progress → List Moment → Prop where
  /-- The definition has been checked. -/
  | typed {c : Call} {typing : Typing} (htyped : c.progress.typings.get? c.name = some typing) :
    ctx.Visits c (typing, c.progress) [.call c]
  /-- There is no definition of that name. -/
  | undeclared {c : Call} (htyped : c.progress.typings.get? c.name = none)
    (hname : ctx.definitions.find? c.name = none) :
    ctx.Visits c (.empty, c.progress.report [⟨c.span, .definitionNotFound c.name⟩]) [.call c]
  /-- The definition is in progress. -/
  | circle {c : Call} {d : Definition} (htyped : c.progress.typings.get? c.name = none)
    (hname : ctx.definitions.find? c.name = some d) (hprogress : c.name ∈ c.progress.inProgress) :
    ctx.Visits c
      (.empty, c.progress.report
        [⟨c.span, .definitionCycle (Context.circle c.progress.inProgress c.name)⟩]) [.call c]
  /-- The definition is entered, and the calls that it makes are answered by `visit`. -/
  | enter {c : Call} {d : Definition} {visit : Visit} {log : Call → List Moment}
    (htyped : c.progress.typings.get? c.name = none)
    (hname : ctx.definitions.find? c.name = some d) (hprogress : c.name ∉ c.progress.inProgress)
    (hcalls : ∀ c' ∈ ctx.callsOf visit d (c.progress.enter c.name),
      ctx.Visits c' (c'.answer visit) (log c')) :
    ctx.Visits c (ctx.define visit d (c.progress.enter c.name))
      (.call c :: ctx.logOf visit d (c.progress.enter c.name) log)

/-- A run of the check: definitions have their turns one after the other. -/
inductive Runs (ctx : Context) : List String → Progress → Progress → List Moment → Prop where
  | nil (g : Progress) : ctx.Runs [] g g []
  | cons {name : String} {names : List String} {g h : Progress} {r : Typing × Progress}
    {log logs : List Moment} (hvisit : ctx.Visits ⟨.unknown, name, g⟩ r log)
    (hrest : ctx.Runs names r.2 h logs) : ctx.Runs (name :: names) g h (log ++ logs)

/-! ## What answers matter -/

section Congr

variable {ctx : Context} {visit other : Visit} {d : Definition} {g : Progress}

/-- A body is entered in the same way if the calls on the way have the same answers. -/
theorem entered_congr (h : ∀ c ∈ ctx.entryCalls d g, c.answer visit = c.answer other) :
    ctx.entered visit d g = ctx.entered other d g := by
  rw [entered, entered]
  rw [entryCalls] at h
  split at h
  · next hmain =>
    have hinit : visit d.span initName g = other d.span initName g := h _ List.mem_cons_self
    rw [if_pos hmain, if_pos hmain, hinit]
  · next hmain => rw [if_neg hmain, if_neg hmain]

/-- Two ways to answer calls that agree on those that a definition makes come to the same. -/
theorem define_congr (h : ∀ c ∈ ctx.callsOf visit d g, c.answer visit = c.answer other) :
    ctx.callsOf visit d g = ctx.callsOf other d g ∧
      (∀ log, ctx.logOf visit d g log = ctx.logOf other d g log) ∧
      ctx.define visit d g = ctx.define other d g := by
  obtain ⟨hentry, hbody⟩ := List.forall_mem_append.mp h
  have hentered := entered_congr hentry
  have htask : ctx.bodyTask visit d g = ctx.bodyTask other d g := by
    rw [bodyTask, bodyTask, hentered]
  obtain ⟨htasks, houtcome⟩ := Task.outcome_congr (ctx.bodyTask visit d g) hbody
  rw [htask] at htasks houtcome
  refine ⟨?_, fun log => ?_, ?_⟩
  · rw [callsOf, callsOf, Task.calls, Task.calls, htask, htasks]
  · rw [logOf, logOf, htask, htasks]
  · rw [define, define, hentered, htask, houtcome]

/-- What is logged of a definition is logged of one of its calls, or it is the check of one of its
parts. -/
theorem exists_of_mem_logOf {log : Call → List Moment} {m : Moment}
    (h : m ∈ ctx.logOf visit d g log) :
    (∃ c ∈ ctx.callsOf visit d g, m ∈ log c) ∨
      ∃ t ∈ (ctx.bodyTask visit d g).tasks ctx visit, m.progress = t.progress := by
  rcases List.mem_append.mp h with h | h
  · obtain ⟨c, hc, hm⟩ := List.mem_flatMap.mp h
    exact .inl ⟨c, List.mem_append_left _ hc, hm⟩
  · rcases List.mem_cons.mp h with rfl | h
    · exact .inr ⟨_, Task.mem_tasks_self ctx visit _, rfl⟩
    · obtain ⟨t, ht, hm⟩ := List.mem_flatMap.mp h
      rcases List.mem_cons.mp hm with rfl | hm
      · exact .inr ⟨t, ht, rfl⟩
      · cases hcall : t.call? with
        | none =>
          rw [hcall] at hm
          cases hm
        | some c =>
          rw [hcall] at hm
          exact .inl ⟨c, List.mem_append_right _ (List.mem_filterMap.mpr ⟨t, ht, hcall⟩), hm⟩

/-- Only the logs of the calls that are made count. -/
theorem logOf_congr {log logs : Call → List Moment}
    (h : ∀ c ∈ ctx.callsOf visit d g, log c = logs c) :
    ctx.logOf visit d g log = ctx.logOf visit d g logs := by
  obtain ⟨hentry, hbody⟩ := List.forall_mem_append.mp h
  have htasks : ∀ t ∈ (ctx.bodyTask visit d g).tasks ctx visit,
      Moment.ofTask log t = Moment.ofTask logs t := by
    intro t ht
    rw [Moment.ofTask, Moment.ofTask]
    cases hcall : t.call? with
    | none => rfl
    | some c => exact congrArg _ (hbody c (List.mem_filterMap.mpr ⟨t, ht, hcall⟩))
  rw [logOf, logOf, List.flatMap_congr hentry, List.flatMap_congr htasks]

end Congr

/-! ## What calls do to the progress -/

section Before

variable {ctx : Context} {visit : Visit} {d : Definition} {g : Progress}

theorem composes_before (ctx : Context) :
    Task.Composes fun g h (_ : List Call) => g.Before ctx h :=
  ⟨fun g vs => Progress.before_report g vs, Progress.Before.trans⟩

theorem entered_composes {R : Progress → Progress → List Call → Prop} (hR : Task.Composes R)
    (h : ∀ c ∈ ctx.entryCalls d g, R c.progress (c.answer visit).2 [c]) :
    R g (ctx.entered visit d g).2 (ctx.entryCalls d g) := by
  rw [entered]
  rw [entryCalls] at h ⊢
  split
  · next hmain =>
    rw [if_pos hmain] at h
    exact h _ List.mem_cons_self
  · exact hR.refl g

section Define

variable (h : ∀ c ∈ ctx.callsOf visit d g, c.progress.Before ctx (c.answer visit).2)

include h

theorem before_entered : g.Before ctx (ctx.entered visit d g).2 :=
  entered_composes (composes_before ctx) (List.forall_mem_append.mp h).1

/-- While a definition is in progress, the definitions in progress are the same in all its tasks. -/
theorem inProgress_of_mem_tasks {t : Task} (ht : t ∈ (ctx.bodyTask visit d g).tasks ctx visit) :
    t.progress.inProgress = g.inProgress := by
  obtain ⟨_, htasks⟩ := (composes_before ctx).task (ctx.bodyTask visit d g)
    (List.forall_mem_append.mp h).2
  obtain ⟨_, hbefore⟩ := htasks t ht
  exact hbefore.inProgress.trans (before_entered h).inProgress

/-- The calls of a definition are made while the same definitions are in progress. -/
theorem inProgress_of_mem_callsOf {c : Call} (hc : c ∈ ctx.callsOf visit d g) :
    c.progress.inProgress = g.inProgress := by
  rcases List.mem_append.mp hc with hc | hc
  · rw [entryCalls] at hc
    rw [List.mem_singleton.mp (List.mem_ite_nil_right.mp hc).2]
  · obtain ⟨t, ht, hcall⟩ := List.mem_filterMap.mp hc
    rw [← (Task.call?_eq_some hcall).2]
    exact inProgress_of_mem_tasks h ht

/-- What may still be entered in the calls that a definition makes. -/
theorem InProgress.of_mem_callsOf {bound : Nat} (hbound : ctx.InProgress g.inProgress bound)
    {c : Call} (hc : c ∈ ctx.callsOf visit d g) : ctx.InProgress c.progress.inProgress bound := by
  rw [inProgress_of_mem_callsOf h hc]
  exact hbound

theorem before_outcome : Progress.Before ctx { g with insideInit := decide (d.name = initName) }
    ((ctx.bodyTask visit d g).outcome ctx visit).progress :=
  ((before_entered h).inside _).trans ((composes_before ctx).task (ctx.bodyTask visit d g)
    (List.forall_mem_append.mp h).2).1

end Define

theorem define_before (hname : ctx.definitions.find? d.name = some d)
    (htyped : d.name ∉ g.typings.keys) (hprogress : d.name ∉ g.inProgress)
    (h : ∀ c ∈ ctx.callsOf visit d (g.enter d.name), c.progress.Before ctx (c.answer visit).2) :
    g.Before ctx (ctx.define visit d (g.enter d.name)).2 := by
  rw [define, (before_entered h).insideInit]
  exact finish_before hname htyped hprogress (before_outcome h)

end Before

section Visits

variable {ctx : Context} {c : Call} {r : Typing × Progress} {log : List Moment}

/-- A call only adds to the progress. -/
theorem Visits.before (h : ctx.Visits c r log) : c.progress.Before ctx r.2 := by
  induction h with
  | typed => exact .refl _
  | undeclared | circle => exact Progress.before_report _ _
  | @enter c d _ _ htyped hname hprogress hcalls ih =>
    obtain ⟨span, name, g⟩ := c
    obtain rfl := name_of_find? hname
    exact define_before hname (get?_eq_none_iff.mp htyped) hprogress ih

/-! ## Calls and how many definitions may still be entered -/

variable {bound : Nat}

theorem visitWithin_enter {d : Definition} (htyped : c.progress.typings.get? c.name = none)
    (hname : ctx.definitions.find? c.name = some d) (hprogress : c.name ∉ c.progress.inProgress) :
    c.answer (ctx.visitWithin (bound + 1)) =
      ctx.define (ctx.visitWithin bound) d (c.progress.enter c.name) := by
  obtain ⟨span, name, g⟩ := c
  obtain rfl := name_of_find? hname
  exact visitWithin_succ htyped hname hprogress

/-- One more definition is entered. -/
theorem InProgress.exists_enter {name : String} {names : List String} {d : Definition}
    (h : ctx.InProgress names bound) (hname : ctx.definitions.find? name = some d)
    (hnew : name ∉ names) :
    ∃ rest, bound = rest + 1 ∧ ctx.InProgress (names ++ [name]) rest := by
  have hdeclared : name ∈ ctx.definitions.keys := by
    rw [← name_of_find? hname]
    exact List.mem_map_of_mem (OrderedSet.find?_eq_some_iff.mp hname).1
  obtain ⟨rest, rfl⟩ := Nat.exists_eq_add_of_lt (h.bound_pos hdeclared hnew)
  rw [Nat.zero_add] at h ⊢
  exact ⟨rest, rfl, h.enter hdeclared hnew⟩

/-- What a call comes to is found with any bound that is enough. -/
theorem Visits.eq_visitWithin (h : ctx.Visits c r log)
    (hbound : ctx.InProgress c.progress.inProgress bound) :
    r = c.answer (ctx.visitWithin bound) := by
  induction h generalizing bound with
  | typed htyped => exact (visitWithin_typed htyped).symm
  | undeclared htyped hname => exact (visitWithin_undeclared htyped hname).symm
  | circle htyped hname hprogress => exact (visitWithin_inProgress htyped hname hprogress).symm
  | enter htyped hname hprogress hcalls ih =>
    obtain ⟨rest, rfl, hrest⟩ := hbound.exists_enter hname hprogress
    rw [visitWithin_enter htyped hname hprogress]
    have hbefore := fun c' hc' => (hcalls c' hc').before
    exact (define_congr fun c' hc' => ih c' hc' (.of_mem_callsOf hbefore hrest hc')).2.2

/-- Every call comes to an end. -/
theorem exists_visits (ctx : Context) (bound : Nat) (c : Call)
    (hbound : ctx.InProgress c.progress.inProgress bound) :
    ∃ log, ctx.Visits c (c.answer (ctx.visitWithin bound)) log := by
  cases htyped : c.progress.typings.get? c.name with
  | some typing =>
    rw [Call.answer, visitWithin_typed htyped]
    exact ⟨_, .typed htyped⟩
  | none =>
    cases hname : ctx.definitions.find? c.name with
    | none =>
      rw [Call.answer, visitWithin_undeclared htyped hname]
      exact ⟨_, .undeclared htyped hname⟩
    | some d =>
      by_cases hprogress : c.name ∈ c.progress.inProgress
      · rw [Call.answer, visitWithin_inProgress htyped hname hprogress]
        exact ⟨_, .circle htyped hname hprogress⟩
      · obtain ⟨rest, rfl, hrest⟩ := hbound.exists_enter hname hprogress
        have hcalls : ∀ c' ∈ ctx.callsOf (ctx.visitWithin rest) d (c.progress.enter c.name),
            ∃ log, ctx.Visits c' (c'.answer (ctx.visitWithin rest)) log := by
          intro c' hc'
          refine exists_visits ctx rest c' (.of_mem_callsOf (fun c' _ => ?_) hrest hc')
          exact visitWithin_before ctx rest c'.span c'.name c'.progress
        choose! log hlog using hcalls
        rw [visitWithin_enter htyped hname hprogress]
        exact ⟨_, .enter htyped hname hprogress hlog⟩

/-- A call comes to one end only, and the same happens in its course. -/
theorem Visits.unique {r' : Typing × Progress} {log' : List Moment} (h : ctx.Visits c r log)
    (h' : ctx.Visits c r' log') (hbound : ctx.InProgress c.progress.inProgress bound) :
    log = log' := by
  induction h generalizing r' log' bound with
  | typed htyped =>
    cases h' with
    | enter htyped' => exact nomatch htyped.symm.trans htyped'
    | _ => rfl
  | undeclared htyped hname =>
    cases h' with
    | enter _ hname' => exact nomatch hname.symm.trans hname'
    | _ => rfl
  | circle htyped hname hprogress =>
    cases h' with
    | enter _ _ hprogress' => exact absurd hprogress hprogress'
    | _ => rfl
  | @enter c d visit log htyped hname hprogress hcalls ih =>
    cases h' with
    | typed htyped' => exact nomatch htyped.symm.trans htyped'
    | undeclared _ hname' => exact nomatch hname.symm.trans hname'
    | circle _ _ hprogress' => exact absurd hprogress' hprogress
    | @enter _ d' visit' log' _ hname' _ hcalls' =>
      rw [hname] at hname'
      obtain rfl := Option.some.inj hname'
      obtain ⟨rest, rfl, hrest⟩ := hbound.exists_enter hname hprogress
      have hinner := fun c' hc' =>
        InProgress.of_mem_callsOf (fun c' hc' => (hcalls c' hc').before) hrest (c := c') hc'
      have hinner' := fun c' hc' =>
        InProgress.of_mem_callsOf (fun c' hc' => (hcalls' c' hc').before) hrest (c := c') hc'
      obtain ⟨hsame, hlog, _⟩ := define_congr fun c' hc' =>
        (hcalls c' hc').eq_visitWithin (hinner c' hc')
      obtain ⟨hsame', hlog', _⟩ := define_congr fun c' hc' =>
        (hcalls' c' hc').eq_visitWithin (hinner' c' hc')
      rw [hlog, hlog']
      refine congrArg _ (logOf_congr fun c' hc' => ?_)
      have hmem := hsame ▸ hc'
      exact ih c' hmem (hcalls' c' (hsame' ▸ hc')) (hinner c' hmem)

/-! ## Which bodies are checked -/

/-- Between two points of a run definitions are typed whose bodies are checked: first definitions of
their names, each once.  All the while the definitions in progress are declared, and different from
each other. -/
structure Accounts (ctx : Context) (g h : Progress) (log : List Moment) : Prop where
  typings : h.typings.keys.Perm (g.typings.keys ++ (bodies log).map Definition.name)
  first : ∀ d ∈ bodies log, ctx.definitions.find? d.name = some d
  nested : ∀ m ∈ log,
    m.progress.inProgress.Nodup ∧ m.progress.inProgress ⊆ ctx.definitions.keys

theorem bodies_call_cons (c : Call) (log : List Moment) : bodies (.call c :: log) = bodies log :=
  rfl

theorem bodies_append (log logs : List Moment) : bodies (log ++ logs) = bodies log ++ bodies logs :=
  List.filterMap_append

/-- Logs that account for two stretches of a check account for the whole. -/
theorem Accounts.append {ctx : Context} {g h i : Progress} {log logs : List Moment}
    (hgh : ctx.Accounts g h log) (hhi : ctx.Accounts h i logs) :
    ctx.Accounts g i (log ++ logs) where
  typings := by
    rw [bodies_append, List.map_append, ← List.append_assoc]
    exact hhi.typings.trans (hgh.typings.append_right _)
  first := by
    rw [bodies_append]
    exact List.forall_mem_append.mpr ⟨hgh.first, hhi.first⟩
  nested := List.forall_mem_append.mpr ⟨hgh.nested, hhi.nested⟩

theorem bodies_flatMap {α : Type} (as : List α) (log : α → List Moment) :
    bodies (as.flatMap log) = as.flatMap fun a => bodies (log a) :=
  List.filterMap_flatMap

theorem bodies_ofTasks (log : Call → List Moment) (ts : List Task) :
    bodies (ts.flatMap (Moment.ofTask log)) =
      (ts.filterMap Task.call?).flatMap fun c => bodies (log c) := by
  induction ts with
  | nil => rfl
  | cons t rest ih =>
    rw [List.flatMap_cons, bodies_append, ih, List.filterMap_cons, Moment.ofTask]
    cases t.call? <;> rfl

/-- The bodies that are checked while a definition is in progress. -/
theorem bodies_logOf (ctx : Context) (visit : Visit) (d : Definition) (g : Progress)
    (log : Call → List Moment) :
    bodies (ctx.logOf visit d g log) =
      ((ctx.entryCalls d g).flatMap fun c => bodies (log c)) ++
        d :: ((ctx.bodyTask visit d g).calls ctx visit).flatMap fun c => bodies (log c) := by
  rw [logOf, bodies_append, bodies_flatMap]
  exact congrArg _ (congrArg _ (bodies_ofTasks log _))

theorem composes_typings (log : Call → List Moment) :
    Task.Composes fun g h (cs : List Call) => h.typings.keys.Perm
      (g.typings.keys ++ (cs.flatMap fun c => bodies (log c)).map Definition.name) where
  report g vs := by
    rw [List.flatMap_nil, List.map_nil, List.append_nil]
    exact .rfl
  trans hgh hhi := by
    rw [List.flatMap_append, List.map_append, ← List.append_assoc]
    exact hhi.trans (hgh.append_right _)

/-- What is typed in the course of a call has its body checked in its course. -/
theorem Visits.keys_perm (h : ctx.Visits c r log) :
    r.2.typings.keys.Perm (c.progress.typings.keys ++ (bodies log).map Definition.name) := by
  induction h with
  | typed | undeclared | circle =>
    exact .of_eq (List.append_nil _).symm
  | @enter c d visit log htyped hname hprogress hcalls ih =>
    obtain ⟨span, name, g⟩ := c
    obtain rfl := name_of_find? hname
    have hbefore := before_outcome fun c' hc' => (hcalls c' hc').before
    have hnew := hbefore.not_mem_keys (List.mem_append_right _ (List.mem_singleton_self _))
      (get?_eq_none_iff.mp htyped)
    obtain ⟨hcallsEntry, hcallsBody⟩ := List.forall_mem_append.mp fun c' hc' => by
      have hc := ih c' hc'
      rwa [← List.flatMap_singleton (fun c => bodies (log c)) c'] at hc
    have hentry := entered_composes (composes_typings log) hcallsEntry
    have hbody := ((composes_typings log).task (ctx.bodyTask visit d (g.enter d.name)) hcallsBody).1
    have hkeys := hbody.trans (hentry.append_right _)
    have hfinish : (ctx.define visit d (g.enter d.name)).2.typings.keys =
        ((ctx.bodyTask visit d (g.enter d.name)).outcome ctx visit).progress.typings.keys ++
          [d.name] :=
      (OrderedSet.keys_insert _ _).trans (if_neg hnew)
    rw [hfinish, bodies_call_cons, bodies_logOf]
    refine (hkeys.append_right [d.name]).trans ?_
    simp only [List.append_assoc, List.map_append, List.map_cons]
    exact .append_left _ (.append_left _ (List.perm_append_singleton _ _))

/-- Only the first definition of a name has its body checked. -/
theorem Visits.first (h : ctx.Visits c r log) :
    ∀ d ∈ bodies log, ctx.definitions.find? d.name = some d := by
  induction h with
  | typed | undeclared | circle => exact nofun
  | @enter c d visit log htyped hname hprogress hcalls ih =>
    intro d' hd'
    rw [bodies_call_cons, bodies_logOf, List.mem_append, List.mem_cons] at hd'
    obtain ⟨hentry, hbody⟩ := List.forall_mem_append.mp ih
    rcases hd' with hd' | rfl | hd'
    · obtain ⟨c', hc', hd'⟩ := List.mem_flatMap.mp hd'
      exact hentry c' hc' d' hd'
    · rw [name_of_find? hname]
      exact hname
    · obtain ⟨c', hc', hd'⟩ := List.mem_flatMap.mp hd'
      exact hbody c' hc' d' hd'

/-- The definitions in progress in the course of a call are declared and different from each other,
if they are at its beginning. -/
theorem Visits.nested (h : ctx.Visits c r log)
    (hbound : ctx.InProgress c.progress.inProgress bound) :
    ∀ m ∈ log, m.progress.inProgress.Nodup ∧ m.progress.inProgress ⊆ ctx.definitions.keys := by
  induction h generalizing bound with
  | typed | undeclared | circle =>
    intro m hm
    rw [List.mem_singleton.mp hm]
    exact ⟨hbound.nodup, hbound.declared⟩
  | @enter c d visit log htyped hname hprogress hcalls ih =>
    obtain ⟨rest, rfl, hrest⟩ := hbound.exists_enter hname hprogress
    have hbefore := fun c' hc' => (hcalls c' hc').before
    refine List.forall_mem_cons.mpr ⟨⟨hbound.nodup, hbound.declared⟩, fun m hm => ?_⟩
    rcases exists_of_mem_logOf hm with ⟨c', hc', hm⟩ | ⟨t, ht, hm⟩
    · exact ih c' hc' (.of_mem_callsOf hbefore hrest hc') m hm
    · rw [hm, inProgress_of_mem_tasks hbefore ht]
      exact ⟨hrest.nodup, hrest.declared⟩

/-- The log of a call accounts for the typings that the call adds. -/
theorem Visits.accounts (h : ctx.Visits c r log)
    (hbound : ctx.InProgress c.progress.inProgress bound) :
    ctx.Accounts c.progress r.2 log :=
  ⟨h.keys_perm, h.first, h.nested hbound⟩

/-- A declared definition that is not in progress is typed by a call. -/
theorem Visits.mem_keys (h : ctx.Visits c r log) (hname : c.name ∈ ctx.definitions.keys)
    (hprogress : c.name ∉ c.progress.inProgress) : c.name ∈ r.2.typings.keys := by
  cases h with
  | typed htyped =>
    by_contra hnot
    exact nomatch htyped.symm.trans (get?_eq_none_iff.mpr hnot)
  | undeclared _ hnone => exact absurd hname (OrderedSet.find?_eq_none_iff.mp hnone)
  | circle _ _ hmem => exact absurd hmem hprogress
  | enter _ hd =>
    rw [← name_of_find? hd]
    exact OrderedSet.mem_keys_insert.mpr (.inl rfl)

end Visits

/-! ## Runs -/

section Runs

variable {ctx : Context} {names : List String} {g h : Progress} {log : List Moment}

theorem Runs.before (hrun : ctx.Runs names g h log) : g.Before ctx h := by
  induction hrun with
  | nil g => exact .refl g
  | cons hvisit _ ih => exact hvisit.before.trans ih

theorem inProgress_of_nil (ctx : Context) (hg : g.inProgress = []) :
    ctx.InProgress g.inProgress ctx.definitions.size := by
  rw [hg]
  exact ctx.inProgress_nil

/-- A run comes to what the check of the definitions comes to. -/
theorem Runs.eq_foldl (hrun : ctx.Runs names g h log) (hg : g.inProgress = []) :
    h = names.foldl (fun g name => (ctx.visit .unknown name g).2) g := by
  induction hrun with
  | nil => rfl
  | @cons name names g h r log logs hvisit _ ih =>
    have hr : r = ctx.visit .unknown name g := hvisit.eq_visitWithin (inProgress_of_nil ctx hg)
    rw [List.foldl_cons, ← hr]
    exact ih (hvisit.before.inProgress.trans hg)

/-- Definitions that are visited one after the other have a log. -/
theorem exists_runs (ctx : Context) (names : List String) (g : Progress) (hg : g.inProgress = []) :
    ∃ log, ctx.Runs names g (names.foldl (fun g name => (ctx.visit .unknown name g).2) g) log := by
  induction names generalizing g with
  | nil => exact ⟨[], .nil g⟩
  | cons name names ih =>
    obtain ⟨log, hvisit⟩ := exists_visits ctx ctx.definitions.size ⟨.unknown, name, g⟩
      (inProgress_of_nil ctx hg)
    obtain ⟨logs, hrest⟩ := ih (ctx.visit .unknown name g).2 (hvisit.before.inProgress.trans hg)
    exact ⟨log ++ logs, .cons hvisit hrest⟩

/-- A run has only one log. -/
theorem Runs.unique {h' : Progress} {log' : List Moment} (hrun : ctx.Runs names g h log)
    (hrun' : ctx.Runs names g h' log') (hg : g.inProgress = []) : log = log' := by
  induction hrun generalizing h' log' with
  | nil =>
    cases hrun'
    rfl
  | cons hvisit _ ih =>
    cases hrun' with
    | cons hvisit' hrest' =>
      have hbound := inProgress_of_nil ctx hg
      obtain rfl := (hvisit.eq_visitWithin hbound).trans (hvisit'.eq_visitWithin hbound).symm
      rw [hvisit.unique hvisit' hbound, ih hrest' (hvisit.before.inProgress.trans hg)]

/-- The log of a run accounts for the typings that the run adds. -/
theorem Runs.accounts (hrun : ctx.Runs names g h log) (hg : g.inProgress = []) :
    ctx.Accounts g h log := by
  induction hrun with
  | nil g => exact ⟨.of_eq (List.append_nil _).symm, nofun, nofun⟩
  | cons hvisit _ ih =>
    have hrest := ih (hvisit.before.inProgress.trans hg)
    exact (hvisit.accounts (inProgress_of_nil ctx hg)).append hrest

/-- All definitions that are visited in a run are typed after it. -/
theorem Runs.subset_keys (hrun : ctx.Runs names g h log) (hg : g.inProgress = [])
    (hnames : names ⊆ ctx.definitions.keys) : names ⊆ h.typings.keys := by
  induction hrun with
  | nil => exact List.nil_subset _
  | @cons name names g h r log logs hvisit hrest ih =>
    obtain ⟨hname, hnames⟩ := List.cons_subset.mp hnames
    have hnew : name ∉ g.inProgress := by
      rw [hg]
      exact List.not_mem_nil
    exact List.cons_subset.mpr ⟨hrest.before.keys_subset (hvisit.mem_keys hname hnew),
      ih (hvisit.before.inProgress.trans hg) hnames⟩

/-- In a run over all turns every first definition of a name has its body checked once. -/
theorem Runs.bodies_perm (hrun : ctx.Runs ctx.turns g h log) (hg : g.inProgress = [])
    (hstart : g.typings.keys = []) :
    h.typings.keys.Perm ctx.definitions.keys ∧ (bodies log).Perm ctx.definitions.toList := by
  obtain ⟨htypings, hfirst, _⟩ := hrun.accounts hg
  rw [hstart, List.nil_append] at htypings
  have hnodup : ((bodies log).map Definition.name).Nodup :=
    htypings.nodup_iff.mp h.typings.nodup_keys
  have hall : ctx.definitions.keys ⊆ (bodies log).map Definition.name := fun name hname =>
    htypings.subset (hrun.subset_keys hg (fun _ => mem_turns_iff.mp) (mem_turns_iff.mpr hname))
  have hbodies : (bodies log).Perm ctx.definitions.toList := by
    refine (List.perm_ext_iff_of_nodup (.of_map _ hnodup)
      (.of_map _ ctx.definitions.nodup)).mpr fun d => ⟨fun hd => ?_, fun hd => ?_⟩
    · exact (OrderedSet.find?_eq_some_iff.mp (hfirst d hd)).1
    · obtain ⟨d', hd', hname⟩ := List.mem_map.mp (hall (List.mem_map_of_mem hd))
      have hfound := hfirst d' hd'
      rw [hname, OrderedSet.find?_eq_some_iff.mpr ⟨hd, rfl⟩] at hfound
      rw [Option.some.inj hfound]
      exact hd'
  exact ⟨htypings.trans (hbodies.map Definition.name), hbodies⟩

end Runs

end Context

namespace Program

/-- The names of a program are looked up, each once. -/
theorem keys_definitions_perm (program : Program) (mode : Option ExecutionMode) :
    (program.context mode).definitions.keys.Perm
      (program.definitions.map Definition.name).dedup := by
  refine (List.perm_ext_iff_of_nodup (OrderedSet.nodup_keys _) (List.nodup_dedup _)).mpr
    fun name => ?_
  rw [List.mem_dedup, List.mem_map]
  exact OrderedSet.mem_keys_firsts

/-- The check of a program comes to an end, in one way only, whatever its definitions call.  Then
exactly the declared names are typed, each once.  Of the definitions of a name the first one has its
body checked once, and no other one does.

At any moment the definitions in progress are declared and different from each other, so that there
are no more of them than declared names. -/
theorem checks_bodies_once (program : Program) (mode : Option ExecutionMode) :
    let ctx := program.context mode
    let start := Progress.start.report (Context.ofProgram program mode).2
    let names := (program.definitions.map Definition.name).dedup
    ∃ log, ctx.Runs ctx.turns start (ctx.typeDefinitions start) log ∧
      (∀ g log', ctx.Runs ctx.turns start g log' → g = ctx.typeDefinitions start ∧ log' = log) ∧
      (program.check mode).typings.keys.Perm names ∧
      (∀ name, (bodies log).filter (fun d => decide (d.name = name)) =
        (program.definition? name).toList) ∧
      ∀ m ∈ log, m.progress.inProgress.Nodup ∧ m.progress.inProgress ⊆ names ∧
        m.progress.inProgress.length ≤ names.length := by
  intro ctx start names
  have hstart : start.inProgress = [] := rfl
  have hnames : ctx.definitions.keys.Perm names := keys_definitions_perm program mode
  obtain ⟨log, hrun⟩ := Context.exists_runs ctx ctx.turns start hstart
  obtain ⟨hkeys, hbodies⟩ := hrun.bodies_perm hstart rfl
  refine ⟨log, hrun, fun g log' hrun' => ?_, hkeys.trans hnames, fun name => ?_, fun m hm => ?_⟩
  · exact ⟨hrun'.eq_foldl hstart, hrun'.unique hrun hstart⟩
  · rw [OrderedSet.filter_of_perm hbodies name, find?_definitions]
  · obtain ⟨hnodup, hdeclared⟩ := (hrun.accounts hstart).nested m hm
    have hsubset : m.progress.inProgress ⊆ names := List.Subset.trans hdeclared hnames.subset
    exact ⟨hnodup, hsubset, (List.subperm_of_subset hnodup hsubset).length_le⟩

/-- Definitions that call each other and themselves, two of one name, and an `init` that calls
`main`. -/
def crossedCalls : Program := sampleProgram [("ping", .call .unknown "pong"),
  ("pong", .sequence .unknown [.call .unknown "ping", .call .unknown "pong"]),
  ("ping", .call .unknown "absent"), ("init", .call .unknown "main"),
  ("main", .parallel .unknown [.call .unknown "ping", .call .unknown "ping"])]

/-- The run begins with `init`, in the course of which all the others are checked. -/
theorem checks_bodies_once_crossedCalls :
    ∃ log, (crossedCalls.context none).Runs ["init", "ping", "pong", "main"] .start
        ((crossedCalls.context none).typeDefinitions .start) log ∧
      (bodies log).filter (fun d => decide (d.name = "ping")) =
        [⟨.unknown, "ping", .call .unknown "pong"⟩] ∧
      (∀ m ∈ log, m.progress.inProgress.length ≤ 4) ∧
      (crossedCalls.check none).typings.keys = ["pong", "ping", "main", "init"] := by
  obtain ⟨log, hrun, _, _, hbodies, hnested⟩ := checks_bodies_once crossedCalls none
  have hturns : (crossedCalls.context none).turns = ["init", "ping", "pong", "main"] := by
    decide +kernel
  rw [hturns] at hrun
  exact ⟨log, hrun, hbodies "ping", fun m hm => (hnested m hm).2.2, by decide +kernel⟩

end Program

end Correlation
