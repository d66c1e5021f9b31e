import Correlation.Proofs.Agreement

/-!
# What a check goes through

The check of a part of a body is a *task*.  It comes to tasks for the parts below, one after the
other, and to calls of definitions at the leaves (`subtasks`, `calls`).  Each of them begins with
the progress that the one before has left (`exists_linked`).

Two things follow by induction on tasks.  First, what a call is answered matters for the calls that
are made and for nothing else, so two ways to answer calls that agree on those come to the same
(`outcome_congr`).  Second, a relation between points of a check holds from the beginning of a task
to its end, and to the beginning of every task below, if calls and reports keep to it
(`Composes.task`).
-/

namespace Correlation

/-- A call of a definition, with the progress at that point. -/
structure Call where
  span : Span
  name : String
  progress : Progress

/-- What a call comes to. -/
def Call.answer (visit : Visit) (c : Call) : Typing × Progress := visit c.span c.name c.progress

/-- The check of a part of a body, with what it is given. -/
structure Task where
  part : Skeleton
  entry : Typing
  starter : Bool
  progress : Progress

namespace Task

open Skeleton (children flagged checkWith join? check_sequence check_join)

/-! ## Tasks below a task -/

/-- The call that a task is. -/
def call? (t : Task) : Option Call :=
  match t.part with
  | .call span name => some ⟨span, name, t.progress⟩
  | _ => none

/-- A task that is a call is the check of a call from its progress. -/
theorem call?_eq_some {t : Task} {c : Call} (h : t.call? = some c) :
    t.part = .call c.span c.name ∧ t.progress = c.progress := by
  obtain ⟨k, entry, starter, g⟩ := t
  cases k with
  | call span name =>
    obtain rfl := Option.some.inj h
    exact ⟨rfl, rfl⟩
  | _ => cases h

section Subtasks

variable (ctx : Context) (visit : Visit)

/-- What a task comes to. -/
def outcome (t : Task) : Outcome := t.part.check ctx visit t.entry t.starter t.progress

/-- Tasks one after the other, each with what is defined at that point. -/
def inTurn : List (Bool × Skeleton) → Sequel × Bool × Progress → List Task
  | [], _ => []
  | x :: rest, acc =>
    ⟨x.2, acc.1.running, x.1, acc.2.2⟩ ::
      inTurn rest (Check.followedBy acc (checkWith ctx visit x))

/-- Tasks with one entry. -/
def beside (entry : Typing) : List (Bool × Skeleton) → Progress → List Task
  | [], _ => []
  | x :: rest, g =>
    ⟨x.2, entry, x.1, g⟩ :: beside entry rest (x.2.check ctx visit entry x.1 g).progress

/-- The tasks just below a task. -/
def subtasks (t : Task) : List Task :=
  let xs := children ctx.execution t.starter t.part
  match t.part with
  | .sequence _ => inTurn ctx visit xs (.start t.entry, t.starter, t.progress)
  | _ => beside ctx visit t.entry xs t.progress

variable {ctx visit}

/-- Tasks in turn are the checks of the given parts. -/
theorem map_part_inTurn (xs : List (Bool × Skeleton)) (acc : Sequel × Bool × Progress) :
    (inTurn ctx visit xs acc).map part = xs.map Prod.snd := by
  induction xs generalizing acc with
  | nil => rfl
  | cons x rest ih => rw [inTurn, List.map_cons, List.map_cons, ih]

theorem map_part_beside (entry : Typing) (xs : List (Bool × Skeleton)) (g : Progress) :
    (beside ctx visit entry xs g).map part = xs.map Prod.snd := by
  induction xs generalizing g with
  | nil => rfl
  | cons x rest ih => rw [beside, List.map_cons, List.map_cons, ih]

/-- The tasks just below a task are those for the parts just below its part. -/
theorem map_part_subtasks (t : Task) : (subtasks ctx visit t).map part =
    (children ctx.execution t.starter t.part).map Prod.snd := by
  rw [subtasks]
  split
  · exact map_part_inTurn _ _
  · exact map_part_beside _ _ _

theorem sizeOf_lt_of_mem_children {mode : ExecutionMode} {starter : Bool} {k : Skeleton}
    {x : Bool × Skeleton} (h : x ∈ children mode starter k) : sizeOf x.2 < sizeOf k := by
  cases k with
  | sequence parts | parallel parts | conditional _ parts =>
    have := List.sizeOf_lt_of_mem (Skeleton.exists_of_mem_flagged h)
    simp only [Skeleton.sequence.sizeOf_spec, Skeleton.parallel.sizeOf_spec,
      Skeleton.conditional.sizeOf_spec]
    omega
  | choice span branches =>
    obtain ⟨y, hy, rfl⟩ := List.mem_map.mp h
    have := List.sizeOf_lt_of_mem hy
    simp only [Skeleton.choice.sizeOf_spec]
    omega
  | repeated span body =>
    rw [List.mem_singleton.mp h]
    simp only [Skeleton.repeated.sizeOf_spec]
    omega
  | idle | request | input | assign | invalidate | call => cases h

theorem sizeOf_lt_of_mem_subtasks {s t : Task} (h : s ∈ subtasks ctx visit t) :
    sizeOf s.part < sizeOf t.part := by
  have hpart : s.part ∈ (subtasks ctx visit t).map part := List.mem_map_of_mem h
  rw [map_part_subtasks] at hpart
  obtain ⟨x, hx, hs⟩ := List.mem_map.mp hpart
  rw [← hs]
  exact sizeOf_lt_of_mem_children hx

variable (ctx visit)

/-- A task and all tasks below, in the order in which they begin. -/
def tasks (t : Task) : List Task :=
  t :: (subtasks ctx visit t).attach.flatMap fun s => tasks s.1
termination_by sizeOf t.part
decreasing_by exact sizeOf_lt_of_mem_subtasks s.2

/-- The calls that are made in the course of a task. -/
def calls (t : Task) : List Call := (tasks ctx visit t).filterMap call?

/-- A task comes before the ones below it. -/
theorem tasks_eq (t : Task) :
    tasks ctx visit t = t :: (subtasks ctx visit t).flatMap (tasks ctx visit) := by
  rw [tasks]
  simp

theorem calls_eq (t : Task) :
    calls ctx visit t = t.call?.toList ++ (subtasks ctx visit t).flatMap (calls ctx visit) := by
  rw [calls, tasks_eq, List.filterMap_cons, List.filterMap_flatMap]
  cases t.call? <;> rfl

theorem mem_tasks_self (t : Task) : t ∈ tasks ctx visit t := by
  rw [tasks_eq]
  exact List.mem_cons_self

/-- Induction on tasks, with a hypothesis for every task just below. -/
@[elab_as_elim]
theorem induction {motive : Task → Prop}
    (step : ∀ t, (∀ s ∈ subtasks ctx visit t, motive s) → motive t) (t : Task) : motive t :=
  step t fun s _ => induction step s
termination_by sizeOf t.part
decreasing_by exact sizeOf_lt_of_mem_subtasks ‹_›

end Subtasks

/-! ## From the beginning of a task to its end -/

section Linked

variable (ctx : Context) (visit : Visit)

/-- Tasks one after the other: each begins with the progress that the one before has left. -/
inductive Linked : Progress → List Task → Progress → Prop where
  | nil (g : Progress) : Linked g [] g
  | cons {t : Task} {rest : List Task} {h : Progress} :
    Linked (t.outcome ctx visit).progress rest h → Linked t.progress (t :: rest) h

variable {ctx visit}

/-- Tasks in turn hand the progress on. -/
theorem linked_inTurn (xs : List (Bool × Skeleton)) (acc : Sequel × Bool × Progress) :
    Linked ctx visit acc.2.2 (inTurn ctx visit xs acc)
      ((xs.map (checkWith ctx visit)).foldl Check.followedBy acc).2.2 := by
  induction xs generalizing acc with
  | nil => exact .nil _
  | cons x rest ih =>
    exact Linked.cons (t := ⟨x.2, acc.1.running, x.1, acc.2.2⟩)
      (ih (Check.followedBy acc (checkWith ctx visit x)))

theorem linked_beside (entry : Typing) (xs : List (Bool × Skeleton)) (starter : Bool)
    (g : Progress) : Linked ctx visit g (beside ctx visit entry xs g)
      (Check.collect entry (xs.map (checkWith ctx visit)) starter g).2.2 := by
  induction xs generalizing starter g with
  | nil => exact .nil g
  | cons x rest ih =>
    exact Linked.cons (t := ⟨x.2, entry, x.1, g⟩) (ih (x.2.check ctx visit entry x.1 g).starter _)

/-- A task that is not a call comes to the tasks just below it, and then it reports. -/
theorem exists_linked (ctx : Context) (visit : Visit) {t : Task} (ht : t.call? = none) :
    ∃ h vs, Linked ctx visit t.progress (subtasks ctx visit t) h ∧
      (t.outcome ctx visit).progress = h.report vs := by
  obtain ⟨k, entry, starter, g⟩ := t
  have hleaf : k.shape = .leaf → (∀ span name, k ≠ .call span name) → ∃ h vs,
      Linked ctx visit g (beside ctx visit entry (children ctx.execution starter k) g) h ∧
        (k.check ctx visit entry starter g).progress = h.report vs := by
    intro hk hcall
    rw [Skeleton.children_of_leaf hk]
    exact ⟨g, Skeleton.faults ctx .empty g.insideInit starter k entry, .nil g,
      Skeleton.check_leaf hk hcall entry g⟩
  have hjoin : ∀ join, join? starter k = some join → ∃ h vs,
      Linked ctx visit g (beside ctx visit entry (children ctx.execution starter k) g) h ∧
        (k.check ctx visit entry starter g).progress = h.report vs :=
    fun join hk => ⟨_, _, linked_beside entry _ starter g, (check_join ctx visit hk entry g).2⟩
  cases k with
  | sequence parts =>
    exact ⟨_, _, linked_inTurn _ (.start entry, starter, g),
      (check_sequence ctx visit parts entry starter g).2⟩
  | parallel | choice | conditional => exact hjoin _ rfl
  | repeated span body => exact ⟨_, _, linked_beside entry [(starter, body)] starter g, rfl⟩
  | call => cases ht
  | idle | request | input | assign | invalidate => exact hleaf rfl nofun

end Linked

section Calls

variable {ctx : Context} {visit : Visit} {t : Task} {c : Call}

theorem tasks_of_call (h : t.call? = some c) : tasks ctx visit t = [t] := by
  have hsubtasks : subtasks ctx visit t = [] := by
    rw [subtasks, (call?_eq_some h).1]
    rfl
  rw [tasks_eq, hsubtasks, List.flatMap_nil]

theorem calls_of_call (h : t.call? = some c) : calls ctx visit t = [c] := by
  rw [calls, tasks_of_call h, List.filterMap_cons, h, List.filterMap_nil]

/-- The outcome of a call is its answer. -/
theorem outcome_of_call (h : t.call? = some c) :
    t.outcome ctx visit = ⟨(c.answer visit).1, t.starter, (c.answer visit).2⟩ := by
  obtain ⟨hpart, hprogress⟩ := call?_eq_some h
  rw [outcome, hpart, hprogress]
  rfl

/-- A task that is no call makes the calls of the ones below it. -/
theorem calls_of_none (h : t.call? = none) :
    calls ctx visit t = (subtasks ctx visit t).flatMap (calls ctx visit) := by
  rw [calls_eq, h]
  rfl

end Calls

/-! ## What holds between the beginning of a task and its end -/

/-- A relation between two points of a check, given the calls that are answered in between.  Reports
keep to it, and it can be put together. -/
structure Composes (R : Progress → Progress → List Call → Prop) : Prop where
  report : ∀ g vs, R g (g.report vs) []
  trans : ∀ {g h i cs ds}, R g h cs → R h i ds → R g i (cs ++ ds)

section Composes

variable {ctx : Context} {visit : Visit} {R : Progress → Progress → List Call → Prop}
  (hR : Composes R)

include hR

theorem Composes.refl (g : Progress) : R g g [] := by
  have h := hR.report g []
  rwa [Progress.report_nil] at h

/-- The relation holds over linked tasks, if it does over each of them. -/
theorem Composes.linked {g h : Progress} {ts : List Task} (hlinked : Linked ctx visit g ts h)
    (hts : ∀ s ∈ ts, R s.progress (s.outcome ctx visit).progress (calls ctx visit s) ∧
      ∀ u ∈ tasks ctx visit s, ∃ cs, R s.progress u.progress cs) :
    R g h (ts.flatMap (calls ctx visit)) ∧
      ∀ u ∈ ts.flatMap (tasks ctx visit), ∃ cs, R g u.progress cs := by
  induction hlinked with
  | nil g => exact ⟨hR.refl g, nofun⟩
  | @cons s rest h _ ih =>
    obtain ⟨hs, hbelow⟩ := hts s List.mem_cons_self
    obtain ⟨hrest, hlater⟩ := ih fun u hu => hts u (List.mem_cons_of_mem s hu)
    rw [List.flatMap_cons, List.flatMap_cons]
    refine ⟨hR.trans hs hrest, List.forall_mem_append.mpr ⟨hbelow, fun u hu => ?_⟩⟩
    obtain ⟨cs, hcs⟩ := hlater u hu
    exact ⟨_, hR.trans hs hcs⟩

/-- If all calls in the course of a task keep to the relation, it holds from the beginning of the
task to its end, and to the beginning of every task below. -/
theorem Composes.task (t : Task)
    (hcalls : ∀ c ∈ calls ctx visit t, R c.progress (c.answer visit).2 [c]) :
    R t.progress (t.outcome ctx visit).progress (calls ctx visit t) ∧
      ∀ s ∈ tasks ctx visit t, ∃ cs, R t.progress s.progress cs := by
  induction t using induction ctx visit with
  | step t ih =>
    cases ht : t.call? with
    | some c =>
      rw [calls_of_call ht] at hcalls ⊢
      rw [tasks_of_call ht, outcome_of_call ht, (call?_eq_some ht).2]
      refine ⟨hcalls c (List.mem_singleton_self c), fun s hs => ⟨[], ?_⟩⟩
      rw [List.mem_singleton.mp hs, (call?_eq_some ht).2]
      exact hR.refl _
    | none =>
      obtain ⟨h, vs, hlinked, hreport⟩ := exists_linked ctx visit ht
      rw [calls_of_none ht] at hcalls ⊢
      obtain ⟨hend, hbelow⟩ := hR.linked hlinked fun s hs =>
        ih s hs fun c hc => hcalls c (List.mem_flatMap_of_mem hs hc)
      rw [tasks_eq, hreport]
      refine ⟨?_, List.forall_mem_cons.mpr ⟨⟨[], hR.refl _⟩, hbelow⟩⟩
      have hall := hR.trans hend (hR.report h vs)
      rwa [List.append_nil] at hall

end Composes

/-! ## What answers matter -/

section Congr

variable {ctx : Context} {visit other : Visit}

theorem inTurn_congr (xs : List (Bool × Skeleton)) (acc : Sequel × Bool × Progress)
    (h : ∀ s ∈ inTurn ctx visit xs acc, s.outcome ctx visit = s.outcome ctx other) :
    inTurn ctx visit xs acc = inTurn ctx other xs acc ∧
      (xs.map (checkWith ctx visit)).foldl Check.followedBy acc =
        (xs.map (checkWith ctx other)).foldl Check.followedBy acc := by
  induction xs generalizing acc with
  | nil => exact ⟨rfl, rfl⟩
  | cons x rest ih =>
    rw [inTurn, List.forall_mem_cons] at h
    have hnext : Check.followedBy acc (checkWith ctx visit x) =
        Check.followedBy acc (checkWith ctx other x) :=
      congrArg (fun o : Outcome => (acc.1.append o.typing, o.starter, o.progress)) h.1
    obtain ⟨htasks, hend⟩ := ih _ h.2
    rw [inTurn, inTurn, List.map_cons, List.map_cons, List.foldl_cons, List.foldl_cons, ← hnext,
      htasks, hend]
    exact ⟨rfl, rfl⟩

theorem beside_congr {entry : Typing} {xs : List (Bool × Skeleton)} (starter : Bool) {g : Progress}
    (h : ∀ s ∈ beside ctx visit entry xs g, s.outcome ctx visit = s.outcome ctx other) :
    beside ctx visit entry xs g = beside ctx other entry xs g ∧
      Check.collect entry (xs.map (checkWith ctx visit)) starter g =
        Check.collect entry (xs.map (checkWith ctx other)) starter g := by
  induction xs generalizing starter g with
  | nil => exact ⟨rfl, rfl⟩
  | cons x rest ih =>
    rw [beside, List.forall_mem_cons] at h
    have hnext : x.2.check ctx visit entry x.1 g = x.2.check ctx other entry x.1 g := h.1
    obtain ⟨htasks, hend⟩ := ih (x.2.check ctx visit entry x.1 g).starter h.2
    rw [beside, beside, List.map_cons, List.map_cons, Check.collect, Check.collect]
    simp only [checkWith, Check.withStarter] at hend ⊢
    rw [← hnext, htasks, hend]
    exact ⟨rfl, rfl⟩

/-- Outcomes are equal if typings and progress are: the flag does not hang on the answers. -/
theorem outcome_eq {t : Task}
    (htyping : (t.outcome ctx visit).typing = (t.outcome ctx other).typing)
    (hprogress : (t.outcome ctx visit).progress = (t.outcome ctx other).progress) :
    t.outcome ctx visit = t.outcome ctx other := by
  have hstarter : (t.outcome ctx visit).starter = (t.outcome ctx other).starter :=
    (Skeleton.starter_check ctx visit t.part t.entry t.starter t.progress).trans
      (Skeleton.starter_check ctx other t.part t.entry t.starter t.progress).symm
  generalize t.outcome ctx visit = o at *
  generalize t.outcome ctx other = r at *
  cases o
  cases r
  rw [Outcome.mk.injEq]
  exact ⟨htyping, hstarter, hprogress⟩

/-- A task that is not a call hangs on the tasks just below it. -/
theorem subtasks_congr {t : Task} (ht : t.call? = none)
    (h : ∀ s ∈ subtasks ctx visit t, s.outcome ctx visit = s.outcome ctx other) :
    subtasks ctx visit t = subtasks ctx other t ∧ t.outcome ctx visit = t.outcome ctx other := by
  obtain ⟨k, entry, starter, g⟩ := t
  have hjoin : ∀ join, join? starter k = some join →
      (∀ s ∈ beside ctx visit entry (children ctx.execution starter k) g,
        s.outcome ctx visit = s.outcome ctx other) →
      beside ctx visit entry (children ctx.execution starter k) g =
          beside ctx other entry (children ctx.execution starter k) g ∧
        outcome ctx visit ⟨k, entry, starter, g⟩ = outcome ctx other ⟨k, entry, starter, g⟩ := by
    intro join hk h
    obtain ⟨htasks, hend⟩ := beside_congr starter h
    obtain ⟨htyping, hprogress⟩ := check_join ctx visit hk entry g
    obtain ⟨htyping', hprogress'⟩ := check_join ctx other hk entry g
    rw [hend] at htyping hprogress
    exact ⟨htasks, outcome_eq (htyping.trans htyping'.symm) (hprogress.trans hprogress'.symm)⟩
  cases k with
  | sequence parts =>
    obtain ⟨htasks, hend⟩ :=
      inTurn_congr (flagged ctx.execution starter parts) (.start entry, starter, g) h
    obtain ⟨htyping, hprogress⟩ := check_sequence ctx visit parts entry starter g
    obtain ⟨htyping', hprogress'⟩ := check_sequence ctx other parts entry starter g
    rw [hend] at htyping hprogress
    exact ⟨htasks, outcome_eq (htyping.trans htyping'.symm) (hprogress.trans hprogress'.symm)⟩
  | parallel | choice | conditional => exact hjoin _ rfl h
  | repeated span body =>
    have hbody : body.check ctx visit entry starter g = body.check ctx other entry starter g :=
      h ⟨body, entry, starter, g⟩ List.mem_cons_self
    refine ⟨(beside_congr starter h).1, ?_⟩
    simp only [outcome, Skeleton.check, Check.repeated, hbody]
  | call => cases ht
  | idle | request | input | assign | invalidate => exact ⟨rfl, rfl⟩

/-- Two ways to answer calls that agree on those that are made come to the same. -/
theorem outcome_congr (t : Task)
    (h : ∀ c ∈ calls ctx visit t, c.answer visit = c.answer other) :
    tasks ctx visit t = tasks ctx other t ∧ t.outcome ctx visit = t.outcome ctx other := by
  induction t using induction ctx visit with
  | step t ih =>
    cases ht : t.call? with
    | some c =>
      rw [tasks_of_call ht, tasks_of_call ht, outcome_of_call ht, outcome_of_call ht]
      rw [calls_of_call ht] at h
      rw [h c (List.mem_singleton_self c)]
      exact ⟨rfl, rfl⟩
    | none =>
      rw [calls_of_none ht] at h
      have hbelow := fun s hs => ih s hs fun c hc => h c (List.mem_flatMap_of_mem hs hc)
      obtain ⟨hsubtasks, houtcome⟩ := subtasks_congr ht fun s hs => (hbelow s hs).2
      rw [tasks_eq, tasks_eq, ← hsubtasks]
      exact ⟨congrArg (t :: ·) (List.flatMap_congr fun s hs => (hbelow s hs).1), houtcome⟩

end Congr

end Task

end Correlation
