import Correlation.Proofs.Parts
import Correlation.Proofs.Sets

/-!
# Checking only adds to the progress

Whatever is checked, the violations found before stay, and so do the typings of the definitions that
were typed before.  New typings are those of declared definitions that were not in progress.  The
definitions in progress, and whether `init` is the innermost of them, are in the end what they were
at the start.  `Progress.Before` puts this into one relation, and `check_before` and
`visitWithin_before` say that every check and every call of a definition keeps to it
(`checks_restore_progress`).

The second main result is `exists_check_of_mem_visited`: in the course of the check of a skeleton
every part of it is checked, with the starter flag that `visited` gives it.
-/

namespace Correlation

/-- The first progress may become the second one in the course of a check. -/
structure Progress.Before (ctx : Context) (g h : Progress) : Prop where
  /-- Violations are added at the end. -/
  violations : g.violations <+: h.violations
  /-- Typings are added at the end. -/
  typings : ∃ new, h.typings.toList = g.typings.toList ++ new ∧
    ∀ e ∈ new, e.1 ∈ ctx.definitions.keys ∧ e.1 ∉ g.inProgress
  /-- What was in progress still is. -/
  inProgress : h.inProgress = g.inProgress
  /-- The innermost definition is the same. -/
  insideInit : h.insideInit = g.insideInit

namespace Progress

variable {ctx : Context}

theorem Before.refl (g : Progress) : g.Before ctx g :=
  ⟨List.prefix_rfl, ⟨[], (List.append_nil _).symm, fun _ h => nomatch h⟩, rfl, rfl⟩

/-- Progress moves on from stretch to stretch. -/
theorem Before.trans {g h i : Progress} (hgh : g.Before ctx h) (hhi : h.Before ctx i) :
    g.Before ctx i := by
  obtain ⟨new, hnew, hnewNames⟩ := hgh.typings
  obtain ⟨newer, hnewer, hnewerNames⟩ := hhi.typings
  refine ⟨hgh.violations.trans hhi.violations, ⟨new ++ newer, ?_, fun e he => ?_⟩,
    hhi.inProgress.trans hgh.inProgress, hhi.insideInit.trans hgh.insideInit⟩
  · rw [hnewer, hnew, List.append_assoc]
  · rcases List.mem_append.mp he with he | he
    · exact hnewNames e he
    · rw [← hgh.inProgress]
      exact hnewerNames e he

theorem before_report (g : Progress) (vs : List Violation) : g.Before ctx (g.report vs) :=
  ⟨List.prefix_append _ _, ⟨[], (List.append_nil _).symm, fun _ h => nomatch h⟩, rfl, rfl⟩

/-- The relation does not hang on which definition is the innermost one. -/
theorem Before.inside {g h : Progress} (hgh : g.Before ctx h) (insideInit : Bool) :
    Before ctx { g with insideInit } { h with insideInit } :=
  ⟨hgh.violations, hgh.typings, hgh.inProgress, rfl⟩

/-- What was typed stays typed. -/
theorem Before.keys_subset {g h : Progress} (hgh : g.Before ctx h) :
    g.typings.keys ⊆ h.typings.keys := by
  obtain ⟨new, hnew, _⟩ := hgh.typings
  rw [OrderedSet.keys, OrderedSet.keys, hnew, List.map_append]
  exact List.subset_append_left _ _

/-- A definition in progress is not typed in the meantime. -/
theorem Before.not_mem_keys {g h : Progress} (hgh : g.Before ctx h) {name : String}
    (hprogress : name ∈ g.inProgress) (htyped : name ∉ g.typings.keys) :
    name ∉ h.typings.keys := by
  obtain ⟨new, hnew, hnewNames⟩ := hgh.typings
  intro hmem
  rw [OrderedSet.keys, hnew, List.map_append, List.mem_append] at hmem
  rcases hmem with hmem | hmem
  · exact htyped hmem
  · obtain ⟨e, he, rfl⟩ := List.mem_map.mp hmem
    exact (hnewNames e he).2 hprogress

end Progress

/-- A call of a definition that only adds to the progress. -/
def Visit.Advances (ctx : Context) (visit : Visit) : Prop :=
  ∀ (span : Span) (name : String) (g : Progress), g.Before ctx (visit span name g).2

namespace Skeleton

section Visits

variable {ctx : Context} {visit : Visit}

/-! ## Lists of checks -/

/-- Checks one after the other move progress on if each of them does. -/
theorem foldl_before {checks : List Check}
    (h : ∀ c ∈ checks, ∀ (entry : Typing) (starter : Bool) (g : Progress),
      g.Before ctx (c entry starter g).progress)
    (acc : Sequel × Bool × Progress) :
    acc.2.2.Before ctx (checks.foldl Check.followedBy acc).2.2 := by
  induction checks generalizing acc with
  | nil => exact .refl _
  | cons c rest ih =>
    exact (h c List.mem_cons_self acc.1.running acc.2.1 acc.2.2).trans
      (ih (fun d hd => h d (List.mem_cons_of_mem c hd)) (Check.followedBy acc c))

theorem collect_before {checks : List Check}
    (h : ∀ c ∈ checks, ∀ (entry : Typing) (starter : Bool) (g : Progress),
      g.Before ctx (c entry starter g).progress)
    (entry : Typing) (starter : Bool) (g : Progress) :
    g.Before ctx (Check.collect entry checks starter g).2.2 := by
  induction checks generalizing starter g with
  | nil => exact .refl _
  | cons c rest ih =>
    exact (h c List.mem_cons_self entry starter g).trans
      (ih (fun d hd => h d (List.mem_cons_of_mem c hd)) _ _)

/-- Every check only adds to the progress, if calls do. -/
theorem check_before (hvisit : visit.Advances ctx) (k : Skeleton) (entry : Typing)
    (starter : Bool) (g : Progress) :
    g.Before ctx (k.check ctx visit entry starter g).progress := by
  induction starter, k using induction_children ctx.execution generalizing entry g with
  | step starter k ih =>
    have hchildren : ∀ c ∈ (children ctx.execution starter k).map (checkWith ctx visit),
        ∀ (entry : Typing) (starter : Bool) (g : Progress),
          g.Before ctx (c entry starter g).progress :=
      List.forall_mem_map.mpr fun c hc entry _ g => ih c hc entry g
    have hjoin : ∀ join, join? starter k = some join →
        g.Before ctx (k.check ctx visit entry starter g).progress := by
      intro join hk
      rw [(check_join ctx visit hk entry g).2]
      exact (collect_before hchildren entry starter g).trans (Progress.before_report _ _)
    cases k with
    | idle => exact Progress.before_report g []
    | request span receive => exact Progress.before_report g _
    | input span operation receive =>
      rw [check, Check.input]
      by_cases hmode : ctx.execution = .single
      · rw [if_pos hmode]
        exact .refl g
      · rw [if_neg hmode]
        exact Progress.before_report g _
    | assign span target value =>
      rw [check]
      by_cases htarget : target.isStatic = true
      · simp only [htarget, if_true]
        exact Progress.before_report g _
      · simp only [htarget, if_false, Bool.false_eq_true]
        exact .refl g
    | invalidate span paths => exact Progress.before_report g _
    | call span name => exact hvisit span name g
    | sequence parts =>
      rw [(check_sequence ctx visit parts entry starter g).2]
      exact (foldl_before hchildren (.start entry, starter, g)).trans (Progress.before_report _ _)
    | parallel | choice | conditional => exact hjoin _ rfl
    | repeated span body =>
      exact (ih (starter, body) (List.mem_singleton_self _) entry g).trans
        (Progress.before_report _ _)

theorem checkWith_before (hvisit : visit.Advances ctx) (xs : List (Bool × Skeleton)) :
    ∀ c ∈ xs.map (checkWith ctx visit), ∀ (entry : Typing) (starter : Bool) (g : Progress),
      g.Before ctx (c entry starter g).progress :=
  List.forall_mem_map.mpr fun x _ entry _ g => check_before hvisit x.2 entry x.1 g

/-! ## Parts are checked -/

/-- Of checks one after the other each is made, and before the end. -/
theorem exists_check_of_foldl {checks : List Check}
    (h : ∀ c ∈ checks, ∀ (entry : Typing) (starter : Bool) (g : Progress),
      g.Before ctx (c entry starter g).progress)
    (acc : Sequel × Bool × Progress) {c : Check} (hc : c ∈ checks) :
    ∃ entry starter g, (c entry starter g).progress.Before ctx
      (checks.foldl Check.followedBy acc).2.2 := by
  induction checks generalizing acc with
  | nil => cases hc
  | cons d rest ih =>
    have hrest := fun e (he : e ∈ rest) => h e (List.mem_cons_of_mem d he)
    rcases List.mem_cons.mp hc with rfl | hc
    · exact ⟨acc.1.running, acc.2.1, acc.2.2, foldl_before hrest (Check.followedBy acc c)⟩
    · exact ih hrest (Check.followedBy acc d) hc

theorem exists_check_of_collect {checks : List Check}
    (h : ∀ c ∈ checks, ∀ (entry : Typing) (starter : Bool) (g : Progress),
      g.Before ctx (c entry starter g).progress)
    (entry : Typing) (starter : Bool) (g : Progress) {c : Check} (hc : c ∈ checks) :
    ∃ entry' starter' g', (c entry' starter' g').progress.Before ctx
      (Check.collect entry checks starter g).2.2 := by
  induction checks generalizing starter g with
  | nil => cases hc
  | cons d rest ih =>
    have hrest := fun e (he : e ∈ rest) => h e (List.mem_cons_of_mem d he)
    rcases List.mem_cons.mp hc with rfl | hc
    · exact ⟨entry, starter, g, collect_before hrest entry _ _⟩
    · exact ih hrest _ _ hc

/-- The check of a skeleton checks the parts just below it, with their flags. -/
theorem exists_check_of_mem_children (hvisit : visit.Advances ctx) {k : Skeleton}
    (entry : Typing) {starter : Bool} (g : Progress) {c : Bool × Skeleton}
    (hc : c ∈ children ctx.execution starter k) :
    ∃ entry' g', (c.2.check ctx visit entry' c.1 g').progress.Before ctx
      (k.check ctx visit entry starter g).progress := by
  have hchildren := checkWith_before hvisit (children ctx.execution starter k)
  have hmem := List.mem_map_of_mem (f := checkWith ctx visit) hc
  have hjoin : ∀ join, join? starter k = some join →
      ∃ entry' g', (c.2.check ctx visit entry' c.1 g').progress.Before ctx
        (k.check ctx visit entry starter g).progress := by
    intro join hk
    obtain ⟨entry', _, g', h⟩ := exists_check_of_collect hchildren entry starter g hmem
    rw [(check_join ctx visit hk entry g).2]
    exact ⟨entry', g', h.trans (Progress.before_report _ _)⟩
  cases k with
  | sequence parts =>
    obtain ⟨entry', _, g', h⟩ := exists_check_of_foldl hchildren (.start entry, starter, g) hmem
    rw [(check_sequence ctx visit parts entry starter g).2]
    exact ⟨entry', g', h.trans (Progress.before_report _ _)⟩
  | parallel | choice | conditional => exact hjoin _ rfl
  | repeated span body =>
    rw [List.mem_singleton.mp hc, check]
    exact ⟨entry, g, Progress.before_report _ _⟩
  | idle | request | input | assign | invalidate | call => cases hc

/-- The check of a skeleton checks all its parts, with their flags. -/
theorem exists_check_of_mem_visited (hvisit : visit.Advances ctx) {k : Skeleton}
    (entry : Typing) {starter : Bool} (g : Progress) {x : Bool × Skeleton}
    (hx : x ∈ visited ctx.execution starter k) :
    ∃ entry' g', (x.2.check ctx visit entry' x.1 g').progress.Before ctx
      (k.check ctx visit entry starter g).progress := by
  induction starter, k using induction_children ctx.execution generalizing entry g with
  | step starter k ih =>
    rcases mem_visited_iff.mp hx with rfl | ⟨c, hc, hx⟩
    · exact ⟨entry, g, .refl _⟩
    · obtain ⟨entry', g', hchild⟩ := exists_check_of_mem_children hvisit entry g hc
      obtain ⟨entry'', g'', hpart⟩ := ih c hc entry' g' hx
      exact ⟨entry'', g'', hpart.trans hchild⟩

end Visits

end Skeleton

/-! ## Definitions -/

namespace Context

section Definitions

variable (ctx : Context)

/-- The starter flag with which the body of a definition is checked. -/
def startsSession (d : Definition) : Bool :=
  decide (d.name = mainName) && !decide (ctx.execution = .single)

/-- The entry of the body of a definition, and the progress once the entry is known. -/
def entered (visit : Visit) (d : Definition) (g : Progress) : Typing × Progress :=
  if decide (d.name = mainName) && ctx.definitions.contains initName then
    let (typing, g) := visit d.span initName g
    (typing.provisions, g)
  else (.empty, g)

/-- The outcome of checking the body of a definition from a known entry. -/
def bodyOutcome (visit : Visit) (d : Definition) (entry : Typing) (g : Progress) : Outcome :=
  d.body.skeleton.check ctx visit entry (ctx.startsSession d)
    { g with insideInit := decide (d.name = initName) }

/-- The violations of a definition apart from those of its body. -/
def definitionViolations (d : Definition) (typing : Typing) : List Violation :=
  if decide (d.name = initName) then initViolations d typing else []

/-- The typing of a definition is kept, and the definition is no longer in progress. -/
def finish (d : Definition) (insideInit : Bool) (o : Outcome) : Typing × Progress :=
  (o.typing,
    { o.progress.report (definitionViolations d o.typing) with
      insideInit
      inProgress := o.progress.inProgress.erase d.name
      typings := o.progress.typings.insert (d.name, o.typing) })

variable {ctx} {bound : Nat} {span : Span} {name : String} {d : Definition} {g : Progress}

/-- A definition that is typed is not checked again. -/
theorem visitWithin_typed {typing : Typing} (h : g.typings.get? name = some typing) :
    ctx.visitWithin bound span name g = (typing, g) := by
  rw [visitWithin, h]

/-- A call of what is not declared is reported. -/
theorem visitWithin_undeclared (h : g.typings.get? name = none)
    (hname : ctx.definitions.find? name = none) :
    ctx.visitWithin bound span name g =
      (.empty, g.report [⟨span, .definitionNotFound name⟩]) := by
  rw [visitWithin, h, hname]

/-- A call of what is in progress closes a circle. -/
theorem visitWithin_inProgress (h : g.typings.get? name = none)
    (hname : ctx.definitions.find? name = some d) (hprogress : name ∈ g.inProgress) :
    ctx.visitWithin bound span name g =
      (.empty, g.report [⟨span, .definitionCycle (circle g.inProgress name)⟩]) := by
  rw [visitWithin, h, hname]
  simp only [List.contains_iff_mem.mpr hprogress, if_true]

theorem visitWithin_zero (h : g.typings.get? name = none)
    (hname : ctx.definitions.find? name = some d) (hprogress : name ∉ g.inProgress) :
    ctx.visitWithin 0 span name g = (.empty, g) := by
  have hcontains : g.inProgress.contains name = false := by simpa using hprogress
  rw [visitWithin, h, hname]
  simp only [hcontains, Bool.false_eq_true, if_false]

/-- Any other call checks the body of the definition. -/
theorem visitWithin_succ (h : g.typings.get? d.name = none)
    (hname : ctx.definitions.find? d.name = some d) (hprogress : d.name ∉ g.inProgress) :
    ctx.visitWithin (bound + 1) span d.name g =
      let e := ctx.entered (ctx.visitWithin bound) d
        { g with inProgress := g.inProgress ++ [d.name] }
      finish d e.2.insideInit (ctx.bodyOutcome (ctx.visitWithin bound) d e.1 e.2) := by
  have hcontains : g.inProgress.contains d.name = false := by simpa using hprogress
  rw [visitWithin, h, hname]
  simp only [hcontains, Bool.false_eq_true, if_false, Statement.check_eq_skeleton]
  rfl

/-- The definition of a name has that name. -/
theorem name_of_find? (h : ctx.definitions.find? name = some d) : d.name = name :=
  (OrderedSet.find?_eq_some_iff.mp h).2

/-- What is typed is found, and what is found is typed. -/
theorem get?_eq_none_iff {t : NameTable Typing} : t.get? name = none ↔ name ∉ t.keys := by
  rw [NameTable.get?, Option.map_eq_none_iff, OrderedSet.find?_eq_none_iff]

theorem entered_before {visit : Visit} (hvisit : visit.Advances ctx) (d : Definition)
    (g : Progress) : g.Before ctx (ctx.entered visit d g).2 := by
  rw [entered]
  split
  · exact hvisit d.span initName g
  · exact .refl g

/-- What happens between the entry and the end of a definition only adds to the progress. -/
theorem finish_before {o : Outcome} (hname : ctx.definitions.find? d.name = some d)
    (htyped : d.name ∉ g.typings.keys) (hprogress : d.name ∉ g.inProgress) {insideInit : Bool}
    (ho : Progress.Before ctx
      { g with inProgress := g.inProgress ++ [d.name], insideInit } o.progress) :
    g.Before ctx (finish d g.insideInit o).2 := by
  obtain ⟨new, hnew, hnewNames⟩ := ho.typings
  have hlater : d.name ∉ o.progress.typings.keys :=
    ho.not_mem_keys (List.mem_append_right _ (List.mem_singleton_self _)) htyped
  have hinsert : (o.progress.typings.insert (d.name, o.typing)).toList =
      o.progress.typings.toList ++ [(d.name, o.typing)] := OrderedSet.toList_insert hlater
  refine ⟨ho.violations.trans (List.prefix_append _ _), ⟨new ++ [(d.name, o.typing)], ?_, ?_⟩,
    ?_, rfl⟩
  · rw [← List.append_assoc, ← hnew]
    exact hinsert
  · intro e he
    rcases List.mem_append.mp he with he | he
    · exact ⟨(hnewNames e he).1, fun h => (hnewNames e he).2 (List.mem_append_left _ h)⟩
    · rw [List.mem_singleton.mp he]
      refine ⟨?_, hprogress⟩
      exact List.mem_map_of_mem (OrderedSet.find?_eq_some_iff.mp hname).1
  · have herase : (g.inProgress ++ [d.name]).erase d.name = g.inProgress := by
      rw [List.erase_append_right _ hprogress, List.erase_cons_head, List.append_nil]
    exact (congrArg (List.erase · d.name) ho.inProgress).trans herase

/-- A call of a definition only adds to the progress. -/
theorem visitWithin_before (ctx : Context) (bound : Nat) :
    Visit.Advances ctx (ctx.visitWithin bound) := by
  intro span name g
  cases htyping : g.typings.get? name with
  | some typing => rw [visitWithin_typed htyping]; exact .refl g
  | none =>
    cases hname : ctx.definitions.find? name with
    | none => rw [visitWithin_undeclared htyping hname]; exact Progress.before_report g _
    | some d =>
      by_cases hprogress : name ∈ g.inProgress
      · rw [visitWithin_inProgress htyping hname hprogress]; exact Progress.before_report g _
      · cases bound with
        | zero => rw [visitWithin_zero htyping hname hprogress]; exact .refl g
        | succ bound =>
          obtain rfl := name_of_find? hname
          have hvisit := visitWithin_before ctx bound
          have hentered := entered_before hvisit d
            { g with inProgress := g.inProgress ++ [d.name] }
          rw [visitWithin_succ htyping hname hprogress]
          simp only [hentered.insideInit]
          exact finish_before hname (get?_eq_none_iff.mp htyping) hprogress
            ((hentered.inside _).trans (Skeleton.check_before hvisit _ _ _ _))

end Definitions

/-! ## What checks restore -/

/-- Every check of a statement and every call of a definition leaves the definitions in progress as
they were, and adds violations and typings at the end.  A starter flag that is not set stays so.

This holds from any progress on, also where a definition is typed, in progress or not declared, and
however many definitions may still be entered.  What stands in the context, no check changes. -/
theorem checks_restore_progress (ctx : Context) (bound : Nat) (g : Progress) :
    (∀ (s : Statement) (entry : Typing) (starter : Bool),
      let o := s.check ctx (ctx.visitWithin bound) entry starter g
      g.Before ctx o.progress ∧ (starter = false → o.starter = false)) ∧
      ∀ (span : Span) (name : String), g.Before ctx (ctx.visitWithin bound span name g).2 := by
  refine ⟨fun s entry starter => ?_, fun span name => visitWithin_before ctx bound span name g⟩
  rw [Statement.check_eq_skeleton]
  refine ⟨Skeleton.check_before (visitWithin_before ctx bound) s.skeleton entry starter g, ?_⟩
  rintro rfl
  rw [Skeleton.starter_check, Skeleton.starterAfter_false]

/-- With `main` and `ping` in progress, a call of `ping` closes a circle, and so does one of `pong`,
which calls `ping`.  Then `open` is typed, in which an input has no correlation set, and `close` is
not declared. -/
theorem checks_restore_pingInProgress :
    let ctx : Context := ⟨.concurrent, (Routing.ofSets []).1, .firsts
      [⟨.unknown, "ping", .call .unknown "pong"⟩, ⟨.unknown, "pong", .call .unknown "ping"⟩,
        ⟨.unknown, "open", .oneWay .unknown "login" none⟩]⟩
    let g : Progress := ⟨[⟨.unknown, .mainNotFound⟩], .empty, ["main", "ping"], true⟩
    let s : Statement := .sequence .unknown
      [.call .unknown "ping", .call .unknown "pong", .call .unknown "open", .call .unknown "open",
        .call .unknown "close"]
    let o := s.check ctx (ctx.visitWithin 2) .empty false g
    g.Before ctx o.progress ∧ o.starter = false ∧
      o.progress.violations.map Violation.cause =
        [.mainNotFound, .definitionCycle ["ping", "ping"],
          .definitionCycle ["ping", "pong", "ping"], .noCorrelationSet "login",
          .definitionNotFound "close"] ∧
      o.progress.typings.keys = ["pong", "open"] := by
  intro ctx g s o
  obtain ⟨hbefore, hstarter⟩ := (checks_restore_progress ctx 2 g).1 s .empty false
  exact ⟨hbefore, hstarter rfl, by decide +kernel, by decide +kernel⟩

end Context

end Correlation
