import Correlation.Proofs.Agreement

/-!
# What checking comes to

Checking that finds no circle of definitions comes to a table in which every declared definition has
the typing of its body, and in which a definition comes after those that it calls
(`Context.Settled`).  The violations are those of the correlation sets and the faults of the bodies,
and no others (`settled_typeDefinitions`).

The typing of `main` is that of a session after `init`: its body is entered with what `init`
provides, so `main` counts as calling `init`.

On the way the progress is `Honest` about the final table: what is typed is typed as there, after
what it calls, and its faults are among the violations.  A call keeps that by induction on how many
definitions may still be entered (`visitWithin_honest`).
-/

namespace Correlation

namespace Context

section Definitions

variable (ctx : Context) (table : NameTable Typing)

/-- The parts of the body of a definition with their starter flags. -/
def partsOf (d : Definition) : List (Bool × Skeleton) :=
  Skeleton.visited ctx.execution (ctx.startsSession d) d.body.skeleton

/-- A definition runs another one.  `init` has run when `main` does. -/
def Calls (d : Definition) (name : String) : Prop :=
  (∃ x ∈ ctx.partsOf d, ∃ span, x.2 = .call span name) ∨
    d.name = mainName ∧ name = initName

/-- What is defined when the body of a definition runs. -/
def entryOf (d : Definition) : Typing :=
  if decide (d.name = mainName) && ctx.definitions.contains initName then
    (called table initName).provisions
  else .empty

/-- The typing of the body of a definition. -/
def typingOf (d : Definition) : Typing :=
  d.body.skeleton.typing ctx table (ctx.startsSession d) (ctx.entryOf table d)

/-- What is wrong with a definition. -/
def faultsOf (d : Definition) : List Violation :=
  ((ctx.partsOf d).flatMap fun x =>
      x.2.faults ctx table (decide (d.name = initName)) x.1 .empty) ++
    definitionViolations d (ctx.typingOf table d)

/-- All declared definitions are typed, each by its body and after those that it calls. -/
structure Settled : Prop where
  typed : ∀ d, ctx.definitions.find? d.name = some d →
    table.get? d.name = some (ctx.typingOf table d)
  undeclared : ∀ name, name ∉ ctx.definitions.keys → table.get? name = none
  ranked : ∀ d, ctx.definitions.find? d.name = some d → ∀ name ∈ ctx.definitions.keys,
    ctx.Calls d name → table.keys.idxOf name < table.keys.idxOf d.name
  sorted : SortedTable table

end Definitions

end Context

/-- The violations and typings so far fit the table of typings at the end. -/
structure Progress.Honest (ctx : Context) (table : NameTable Typing) (initial : List Violation)
    (g : Progress) : Prop where
  typings : ∀ e ∈ g.typings.toList, ∃ d, ctx.definitions.find? e.1 = some d ∧
    e.2 = ctx.typingOf table d ∧ ∀ name ∈ ctx.definitions.keys, ctx.Calls d name →
      table.keys.idxOf name < table.keys.idxOf e.1
  violations : SortedTable table → ∀ v ∈ g.violations, v ∈ initial ∨
    ∃ d, ctx.definitions.find? d.name = some d ∧ v ∈ ctx.faultsOf table d
  faults : SortedTable table → ∀ d, ctx.definitions.find? d.name = some d →
    d.name ∈ g.typings.keys → ctx.faultsOf table d ⊆ g.violations

namespace Progress

variable {ctx : Context} {table : NameTable Typing} {initial : List Violation} {g : Progress}

theorem Honest.report (hg : g.Honest ctx table initial) {vs : List Violation}
    (hvs : SortedTable table → ∀ v ∈ vs, ∃ d, ctx.definitions.find? d.name = some d ∧
      v ∈ ctx.faultsOf table d) : (g.report vs).Honest ctx table initial where
  typings := hg.typings
  violations htable v hv := by
    rcases List.mem_append.mp hv with hv | hv
    · exact hg.violations htable v hv
    · exact Or.inr (hvs htable v hv)
  faults htable d hd hname :=
    List.Subset.trans (hg.faults htable d hd hname) (List.subset_append_left _ _)

theorem Honest.inside (hg : g.Honest ctx table initial) (inProgress : List String)
    (insideInit : Bool) : Honest ctx table initial { g with inProgress, insideInit } :=
  ⟨hg.typings, hg.violations, hg.faults⟩

end Progress

/-- Calls keep the progress honest. -/
def Visit.Honest (ctx : Context) (table : NameTable Typing) (names : List String)
    (initial : List Violation) (visit : Visit) : Prop :=
  ∀ span name (g : Progress), g.inProgress = names → name ∈ ctx.definitions.keys →
    (visit span name g).2.Settles table → g.Honest ctx table initial →
      (visit span name g).2.Honest ctx table initial

/-- Keys that come later in a list have a greater index. -/
theorem idxOf_lt_idxOf {names rest : List String} {name last : String} (hname : name ∈ names)
    (hlast : last ∉ names) :
    (names ++ last :: rest).idxOf name < (names ++ last :: rest).idxOf last := by
  rw [List.idxOf_append_of_mem hname, List.idxOf_append_of_notMem hlast, List.idxOf_cons_self,
    Nat.add_zero]
  exact List.idxOf_lt_length_of_mem hname

namespace Context

variable {ctx : Context} {table : NameTable Typing} {initial : List Violation}

/-- The table goes on after a definition that is finished. -/
theorem finish_settles {d : Definition} {insideInit : Bool} {o : Outcome}
    (hnew : d.name ∉ o.progress.typings.keys)
    (hsettles : (finish d insideInit o).2.Settles table) :
    o.progress.Settles table ∧
      ∃ rest, table.keys = o.progress.typings.keys ++ d.name :: rest := by
  have htypings : (finish d insideInit o).2.typings.toList =
      o.progress.typings.toList ++ [(d.name, o.typing)] := OrderedSet.toList_insert hnew
  obtain ⟨rest, hrest⟩ := hsettles.typings
  rw [htypings, List.append_assoc] at hrest
  refine ⟨⟨fun v hv => hsettles.acyclic v (List.mem_append_left _ hv), _, hrest⟩,
    rest.map Prod.fst, ?_⟩
  rw [OrderedSet.keys, ← hrest, List.map_append, List.map_append]
  rfl

section Body

variable {visit : Visit} {names : List String} {d : Definition} {entry : Typing} {g : Progress}

/-- The check of a body checks its parts. -/
theorem exists_check_of_mem_partsOf (hvisit : visit.Faithful ctx table names)
    (hg : g.inProgress = names) (d : Definition) (entry : Typing) {x : Bool × Skeleton}
    (hx : x ∈ ctx.partsOf d) :
    ∃ entry' g', g'.inProgress = names ∧ g'.insideInit = decide (d.name = initName) ∧
      (x.2.check ctx visit entry' x.1 g').progress.Before ctx
        (ctx.bodyOutcome visit d entry g).progress := by
  obtain ⟨entry', g', hbefore⟩ := Skeleton.exists_check_of_mem_visited hvisit.advances entry
    { g with insideInit := decide (d.name = initName) } hx
  have hpart := Skeleton.check_before hvisit.advances x.2 entry' x.1 g'
  have hbody := Skeleton.check_before hvisit.advances d.body.skeleton entry (ctx.startsSession d)
    { g with insideInit := decide (d.name = initName) }
  refine ⟨entry', g', ?_, ?_, hbefore⟩
  · rw [← hpart.inProgress, ← hbefore.inProgress, hbody.inProgress]
    exact hg
  · rw [← hpart.insideInit, ← hbefore.insideInit, hbody.insideInit]

/-- What the body of a definition calls is typed when the body is checked. -/
theorem mem_keys_of_call (hvisit : visit.Faithful ctx table names) (hg : g.inProgress = names)
    (hsettles : (ctx.bodyOutcome visit d entry g).progress.Settles table) {x : Bool × Skeleton}
    (hx : x ∈ ctx.partsOf d) {span : Span} {name : String} (hcall : x.2 = .call span name)
    (hname : name ∈ ctx.definitions.keys) :
    name ∈ (ctx.bodyOutcome visit d entry g).progress.typings.keys := by
  obtain ⟨entry', g', hprogress, _, hbefore⟩ :=
    exists_check_of_mem_partsOf hvisit hg d entry hx
  rw [hcall] at hbefore
  exact hbefore.keys_subset
    (hvisit.declared span name g' hprogress (hsettles.before hbefore) hname).2

/-- The faults of the parts of a body are reported when the body is checked. -/
theorem faults_subset_body (hvisit : visit.Faithful ctx table names) (hg : g.inProgress = names)
    (hsettles : (ctx.bodyOutcome visit d entry g).progress.Settles table)
    (htable : SortedTable table) {x : Bool × Skeleton} (hx : x ∈ ctx.partsOf d) :
    x.2.faults ctx table (decide (d.name = initName)) x.1 .empty ⊆
      (ctx.bodyOutcome visit d entry g).progress.violations := by
  obtain ⟨entry', g', hprogress, hinside, hbefore⟩ :=
    exists_check_of_mem_partsOf hvisit hg d entry hx
  refine List.Subset.trans ?_ hbefore.violations.subset
  rw [Skeleton.faults_congr htable _ _ _ _ entry', ← hinside]
  by_cases hcall : ∃ span name, x.2 = .call span name
  · obtain ⟨span, name, hcall⟩ := hcall
    rw [hcall] at hbefore ⊢
    by_cases hname : name ∈ ctx.definitions.keys
    · rw [Skeleton.faults, if_pos (OrderedSet.contains_iff_mem_keys.mpr hname)]
      exact List.nil_subset _
    · have hresult := (hvisit.undeclared span name g' hprogress (hsettles.before hbefore) hname).2
      rw [Skeleton.faults, if_neg fun h => hname (OrderedSet.contains_iff_mem_keys.mp h)]
      show _ ⊆ (visit span name g').2.violations
      rw [hresult]
      exact List.subset_append_right _ _
  · exact Skeleton.faults_subset_check hvisit (fun span name h => hcall ⟨span, name, h⟩) entry' g'
      hprogress (hsettles.before hbefore)

/-- The check of a body keeps the progress honest, if calls do. -/
theorem body_honest (hvisit : visit.Faithful ctx table names) (hg : g.inProgress = names)
    (hd : ctx.definitions.find? d.name = some d)
    (hcalls : visit.Honest ctx table names initial)
    (hsettles : (ctx.bodyOutcome visit d entry g).progress.Settles table)
    (hhonest : g.Honest ctx table initial) :
    (ctx.bodyOutcome visit d entry g).progress.Honest ctx table initial := by
  let P (g : Progress) : Prop := g.Honest ctx table initial ∧ g.inProgress = names ∧
    g.insideInit = decide (d.name = initName)
  have hpart : ∀ x ∈ ctx.partsOf d, ∀ entry, SortedTable table →
      ∀ v ∈ x.2.faults ctx table (decide (d.name = initName)) x.1 entry,
        ∃ d, ctx.definitions.find? d.name = some d ∧ v ∈ ctx.faultsOf table d := by
    intro x hx entry htable v hv
    rw [Skeleton.faults_congr htable _ _ _ _ .empty] at hv
    exact ⟨d, hd, List.mem_append_left _ (List.mem_flatMap.mpr ⟨x, hx, hv⟩)⟩
  refine (Skeleton.check_keeps hvisit (P := P) (fun g hg => hg.2.1) (fun g hg => hg.2.2) ?_ ?_ entry
    _ hsettles ⟨hhonest.inside _ _, hg, rfl⟩).1
  · intro x hx _ entry g hg
    exact ⟨hg.1.report (hpart x hx entry), hg.2⟩
  · intro x hx span name hcall g hsettles hg
    have hbefore := hvisit.advances span name g
    refine ⟨?_, hbefore.inProgress.trans hg.2.1, hbefore.insideInit.trans hg.2.2⟩
    by_cases hname : name ∈ ctx.definitions.keys
    · exact hcalls span name g hg.2.1 hname hsettles hg.1
    · rw [(hvisit.undeclared span name g hg.2.1 hsettles hname).2]
      have hfaults := hpart x hx .empty
      rw [hcall, Skeleton.faults, if_neg fun h => hname (OrderedSet.contains_iff_mem_keys.mp h)]
        at hfaults
      exact hg.1.report hfaults

/-- A body that is checked from its entry has the typing of its definition. -/
theorem typing_body (hvisit : visit.Faithful ctx table names) (hg : g.inProgress = names)
    (hsettles : (ctx.bodyOutcome visit d (ctx.entryOf table d) g).progress.Settles table) :
    (ctx.bodyOutcome visit d (ctx.entryOf table d) g).typing = ctx.typingOf table d :=
  Skeleton.typing_check hvisit d.body.skeleton (ctx.entryOf table d) (ctx.startsSession d) _ hg
    hsettles

/-- The faults of a definition are reported when its body is checked and the definition finished. -/
theorem faultsOf_subset_finish (hvisit : visit.Faithful ctx table names)
    (hg : g.inProgress = names) {insideInit : Bool}
    (hbody : (ctx.bodyOutcome visit d (ctx.entryOf table d) g).progress.Settles table)
    (htable : SortedTable table) :
    ctx.faultsOf table d ⊆
      (finish d insideInit (ctx.bodyOutcome visit d (ctx.entryOf table d) g)).2.violations := by
  refine List.append_subset.mpr ⟨fun v hv => ?_, ?_⟩
  · obtain ⟨x, hx, hv⟩ := List.mem_flatMap.mp hv
    exact List.mem_append_left _ (faults_subset_body hvisit hg hbody htable hx hv)
  · rw [← typing_body hvisit hg hbody]
    exact List.subset_append_right _ _

/-- What a definition calls is typed when its body is checked. -/
theorem mem_keys_of_calls (hvisit : visit.Faithful ctx table names) (hg : g.inProgress = names)
    (hsettles : (ctx.bodyOutcome visit d entry g).progress.Settles table)
    (hinit : d.name = mainName → initName ∈ ctx.definitions.keys → initName ∈ g.typings.keys)
    {name : String} (hname : name ∈ ctx.definitions.keys) (hcalls : ctx.Calls d name) :
    name ∈ (ctx.bodyOutcome visit d entry g).progress.typings.keys := by
  rcases hcalls with ⟨x, hx, span, hcall⟩ | ⟨hmain, rfl⟩
  · exact mem_keys_of_call hvisit hg hsettles hx hcall hname
  · have hbefore := Skeleton.check_before hvisit.advances d.body.skeleton entry
      (ctx.startsSession d) { g with insideInit := decide (d.name = initName) }
    exact hbefore.keys_subset (hinit hmain hname)

/-- A definition that is finished is honest, if its body was checked from its entry. -/
theorem finish_honest (hvisit : visit.Faithful ctx table names) (hg : g.inProgress = names)
    (hd : ctx.definitions.find? d.name = some d) {insideInit : Bool}
    (hnew : d.name ∉ (ctx.bodyOutcome visit d (ctx.entryOf table d) g).progress.typings.keys)
    (hsettles : (finish d insideInit
      (ctx.bodyOutcome visit d (ctx.entryOf table d) g)).2.Settles table)
    (hinit : d.name = mainName → initName ∈ ctx.definitions.keys → initName ∈ g.typings.keys)
    (hhonest : (ctx.bodyOutcome visit d (ctx.entryOf table d) g).progress.Honest ctx table
      initial) :
    (finish d insideInit (ctx.bodyOutcome visit d (ctx.entryOf table d) g)).2.Honest ctx table
      initial := by
  obtain ⟨hbody, rest, hkeys⟩ := finish_settles hnew hsettles
  have htyping := typing_body hvisit hg hbody
  refine ⟨fun e he => ?_, fun htable v hv => ?_, fun htable d' hd' hname => ?_⟩
  · have htypings : (finish d insideInit (ctx.bodyOutcome visit d (ctx.entryOf table d)
        g)).2.typings.toList = _ := OrderedSet.toList_insert hnew
    rw [htypings] at he
    rcases List.mem_append.mp he with he | he
    · exact hhonest.typings e he
    · rw [List.mem_singleton.mp he]
      refine ⟨d, hd, htyping, fun name hname hcalls => ?_⟩
      rw [hkeys]
      exact idxOf_lt_idxOf (mem_keys_of_calls hvisit hg hbody hinit hname hcalls) hnew
  · rcases List.mem_append.mp hv with hv | hv
    · exact hhonest.violations htable v hv
    · rw [htyping] at hv
      exact Or.inr ⟨d, hd, List.mem_append_right _ hv⟩
  · rcases OrderedSet.mem_keys_insert.mp hname with hname | hname
    · dsimp only at hname
      obtain rfl : d = d' := by
        rw [hname, hd] at hd'
        exact Option.some.inj hd'
      exact faultsOf_subset_finish hvisit hg hbody htable
    · exact List.Subset.trans (hhonest.faults htable d' hd' hname) (List.subset_append_left _ _)

/-- The entry of a definition is that of the table, if calls agree with it. -/
theorem entered_honest (hvisit : visit.Faithful ctx table names) (hg : g.inProgress = names)
    (hcalls : visit.Honest ctx table names initial)
    (hsettles : (ctx.entered visit d g).2.Settles table) (hhonest : g.Honest ctx table initial) :
    (ctx.entered visit d g).1 = ctx.entryOf table d ∧
      (ctx.entered visit d g).2.Honest ctx table initial ∧
        (d.name = mainName → initName ∈ ctx.definitions.keys →
          initName ∈ (ctx.entered visit d g).2.typings.keys) := by
  rw [entered] at hsettles ⊢
  rw [entryOf]
  by_cases hmain : (decide (d.name = mainName) && ctx.definitions.contains initName) = true
  · rw [if_pos hmain] at hsettles ⊢
    rw [if_pos hmain]
    rw [Bool.and_eq_true, OrderedSet.contains_iff_mem_keys] at hmain
    refine ⟨congrArg Typing.provisions (hvisit.typing hg hsettles), ?_, fun _ _ => ?_⟩
    · exact hcalls d.span initName g hg hmain.2 hsettles hhonest
    · exact (hvisit.declared d.span initName g hg hsettles hmain.2).2
  · rw [if_neg hmain, if_neg hmain]
    refine ⟨rfl, hhonest, fun hname hinit => absurd ?_ hmain⟩
    rw [Bool.and_eq_true, OrderedSet.contains_iff_mem_keys]
    exact ⟨decide_eq_true hname, hinit⟩

/-- Entering a definition, checking its body and finishing it keeps the progress honest, if calls
do. -/
theorem define_honest (hvisit : visit.Faithful ctx table names)
    (hcalls : visit.Honest ctx table names initial) (hg : g.inProgress = names)
    (hd : ctx.definitions.find? d.name = some d) (hself : d.name ∈ names)
    (hnew : d.name ∉ g.typings.keys) {insideInit : Bool}
    (hsettles : (finish d insideInit (ctx.bodyOutcome visit d (ctx.entered visit d g).1
      (ctx.entered visit d g).2)).2.Settles table) (hhonest : g.Honest ctx table initial) :
    (finish d insideInit (ctx.bodyOutcome visit d (ctx.entered visit d g).1
      (ctx.entered visit d g).2)).2.Honest ctx table initial := by
  have hentered := entered_before hvisit.advances d g
  have hbody := Skeleton.check_before hvisit.advances d.body.skeleton (ctx.entered visit d g).1
    (ctx.startsSession d)
    { (ctx.entered visit d g).2 with insideInit := decide (d.name = initName) }
  have hprogress : (ctx.entered visit d g).2.inProgress = names := hentered.inProgress.trans hg
  have hnew' := hbody.not_mem_keys (hprogress ▸ hself) (hentered.not_mem_keys (hg ▸ hself) hnew)
  have hchecked := (finish_settles hnew' hsettles).1
  have hstart : (ctx.entered visit d g).2.Settles table :=
    ⟨(hchecked.before hbody).acyclic, (hchecked.before hbody).typings⟩
  obtain ⟨hentry, hhonest, hinit⟩ := entered_honest hvisit hg hcalls hstart hhonest
  rw [hentry] at hsettles hchecked hnew' ⊢
  exact finish_honest hvisit hprogress hd hnew' hsettles hinit
    (body_honest hvisit hprogress hd hcalls hchecked hhonest)

end Body

/-- A call keeps the progress honest. -/
theorem visitWithin_honest (htable : table.keys ⊆ ctx.definitions.keys) (bound : Nat)
    {names : List String} (hnames : ctx.InProgress names bound) :
    Visit.Honest ctx table names initial (ctx.visitWithin bound) := by
  intro span name g hg hname hsettles hhonest
  cases htyping : g.typings.get? name with
  | some t => rw [visitWithin_typed htyping]; exact hhonest
  | none =>
    obtain ⟨d, hd⟩ := find?_of_mem_keys hname
    by_cases hprogress : name ∈ g.inProgress
    · rw [visitWithin_inProgress htyping hd hprogress] at hsettles
      exact absurd rfl
        (hsettles.acyclic _ (List.mem_append_right _ (List.mem_singleton_self _)) _)
    · have hfresh : name ∉ names := hg ▸ hprogress
      cases bound with
      | zero => exact absurd (hnames.bound_pos hname hfresh) (Nat.lt_irrefl 0)
      | succ bound =>
        obtain rfl := name_of_find? hd
        have hentered := hnames.enter hname hfresh
        rw [visitWithin_succ htyping hd hprogress] at hsettles ⊢
        exact define_honest (g := { g with inProgress := g.inProgress ++ [d.name] })
          (visitWithin_faithful bound htable hentered)
          (visitWithin_honest htable bound hentered) (congrArg (· ++ [d.name]) hg) hd
          (List.mem_append_right _ (List.mem_singleton_self _)) (get?_eq_none_iff.mp htyping)
          hsettles (hhonest.inside _ _)

/-! ## All definitions -/

/-- Every declared name has its turn. -/
theorem mem_turns_iff {name : String} : name ∈ ctx.turns ↔ name ∈ ctx.definitions.keys := by
  simp only [turns, List.mem_append, List.mem_filter, Bool.and_eq_true, Bool.not_eq_true',
    decide_eq_true_eq, decide_eq_false_iff_not]
  tauto

theorem foldl_visit_before (ctx : Context) (turns : List String) (g : Progress) :
    g.Before ctx (turns.foldl (fun g name => (ctx.visit .unknown name g).2) g) := by
  induction turns generalizing g with
  | nil => exact .refl g
  | cons name rest ih => exact (visitWithin_before ctx _ .unknown name g).trans (ih _)

theorem foldl_visit_honest (htable : table.keys ⊆ ctx.definitions.keys) {turns : List String}
    (hturns : turns ⊆ ctx.definitions.keys) (g : Progress) (hg : g.inProgress = [])
    (hsettles : (turns.foldl (fun g name => (ctx.visit .unknown name g).2) g).Settles table)
    (hhonest : g.Honest ctx table initial) :
    (turns.foldl (fun g name => (ctx.visit .unknown name g).2) g).Honest ctx table initial ∧
      turns ⊆ (turns.foldl (fun g name => (ctx.visit .unknown name g).2) g).typings.keys := by
  induction turns generalizing g with
  | nil => exact ⟨hhonest, List.nil_subset _⟩
  | cons name rest ih =>
    obtain ⟨hname, hrest⟩ := List.cons_subset.mp hturns
    have hbefore := visitWithin_before ctx ctx.definitions.size .unknown name g
    have hafter := foldl_visit_before ctx rest (ctx.visit .unknown name g).2
    have hstep := hsettles.before hafter
    have hvisit := visitWithin_faithful ctx.definitions.size htable ctx.inProgress_nil
    have hnext := visitWithin_honest htable ctx.definitions.size ctx.inProgress_nil .unknown name g
      hg hname hstep hhonest
    obtain ⟨hend, hkeys⟩ := ih hrest (ctx.visit .unknown name g).2 (hbefore.inProgress.trans hg)
      hsettles hnext
    exact ⟨hend, List.cons_subset.mpr
      ⟨hafter.keys_subset (hvisit.declared .unknown name g hg hstep hname).2, hkeys⟩⟩

/-- Typings of bodies that come after those that they call are sorted. -/
theorem sortedTable_of_ranked
    (htyped : ∀ d, ctx.definitions.find? d.name = some d →
      table.get? d.name = some (ctx.typingOf table d))
    (hundeclared : ∀ name, name ∉ ctx.definitions.keys → table.get? name = none)
    (hranked : ∀ d, ctx.definitions.find? d.name = some d → ∀ name ∈ ctx.definitions.keys,
      ctx.Calls d name → table.keys.idxOf name < table.keys.idxOf d.name) :
    SortedTable table := by
  intro name
  induction hrank : table.keys.idxOf name using Nat.strongRecOn generalizing name with
  | ind rank ih =>
    by_cases hname : name ∈ ctx.definitions.keys
    · obtain ⟨d, hd⟩ := find?_of_mem_keys hname
      obtain rfl := name_of_find? hd
      rw [called, htyped d hd]
      refine Skeleton.sorted_typing_of_calls fun x hx span other hcall => ?_
      by_cases hother : other ∈ ctx.definitions.keys
      · exact ih _ (hrank ▸ hranked d hd other hother (Or.inl ⟨x, hx, span, hcall⟩)) other rfl
      · rw [called, hundeclared other hother]
        exact Typing.sorted_empty
    · rw [called, hundeclared name hname]
      exact Typing.sorted_empty

/-- Checking that finds no circle comes to a settled table and an honest progress. -/
theorem settled_typeDefinitions (ctx : Context) (initial : List Violation)
    (hacyclic : ∀ v ∈ (ctx.typeDefinitions (Progress.start.report initial)).violations, ∀ names,
      v.cause ≠ .definitionCycle names) :
    ctx.Settled (ctx.typeDefinitions (Progress.start.report initial)).typings ∧
      (ctx.typeDefinitions (Progress.start.report initial)).Honest ctx
        (ctx.typeDefinitions (Progress.start.report initial)).typings initial := by
  have hbefore := foldl_visit_before ctx ctx.turns (Progress.start.report initial)
  have hstart : ∀ table, (Progress.start.report initial).Honest ctx table initial := fun table =>
    ⟨fun _ h => (nomatch h), fun _ v hv => Or.inl hv, fun _ _ _ h => (nomatch h)⟩
  generalize hend : ctx.typeDefinitions (Progress.start.report initial) = g at hacyclic ⊢
  rw [typeDefinitions] at hend
  rw [hend] at hbefore
  have htable : g.typings.keys ⊆ ctx.definitions.keys := by
    obtain ⟨new, hnew, hnewNames⟩ := hbefore.typings
    intro name hname
    rw [OrderedSet.keys, hnew] at hname
    obtain ⟨e, he, rfl⟩ := List.mem_map.mp hname
    exact (hnewNames e he).1
  have hsettles : g.Settles g.typings := ⟨hacyclic, List.prefix_rfl⟩
  obtain ⟨hhonest, hkeys⟩ := foldl_visit_honest htable (fun _ h => mem_turns_iff.mp h)
    (Progress.start.report initial) rfl (hend.symm ▸ hsettles) (hstart g.typings)
  rw [hend] at hhonest hkeys
  have hentry : ∀ d, ctx.definitions.find? d.name = some d →
      g.typings.get? d.name = some (ctx.typingOf g.typings d) ∧
        ∀ name ∈ ctx.definitions.keys, ctx.Calls d name →
          g.typings.keys.idxOf name < g.typings.keys.idxOf d.name := by
    intro d hd
    have hdeclared : d.name ∈ ctx.definitions.keys :=
      List.mem_map_of_mem (OrderedSet.find?_eq_some_iff.mp hd).1
    obtain ⟨e, he, hname⟩ := List.mem_map.mp (hkeys (mem_turns_iff.mpr hdeclared))
    obtain ⟨d', hd', htyping, hranked⟩ := hhonest.typings e he
    rw [hname] at hd' hranked
    obtain rfl : d = d' := Option.some.inj (hd.symm.trans hd')
    have hfind : g.typings.find? d.name = some e := OrderedSet.find?_eq_some_iff.mpr ⟨he, hname⟩
    refine ⟨?_, hranked⟩
    rw [NameTable.get?, hfind, ← htyping]
    rfl
  have hundeclared : ∀ name, name ∉ ctx.definitions.keys → g.typings.get? name = none :=
    fun name hname => get?_eq_none_iff.mpr fun h => hname (htable h)
  exact ⟨⟨fun d hd => (hentry d hd).1, hundeclared, fun d hd => (hentry d hd).2,
    sortedTable_of_ranked (fun d hd => (hentry d hd).1) hundeclared fun d hd => (hentry d hd).2⟩,
    hhonest⟩

namespace Settled

variable (h : ctx.Settled table)

include h

/-- A call gets the typing of the body of its definition. -/
theorem called_eq {d : Definition} (hd : ctx.definitions.find? d.name = some d) :
    called table d.name = ctx.typingOf table d := by
  rw [called, h.typed d hd]
  rfl

/-- A call of what is not declared gets the empty typing. -/
theorem called_undeclared {name : String} (hname : ctx.definitions.find? name = none) :
    called table name = .empty := by
  rw [called, h.undeclared name (OrderedSet.find?_eq_none_iff.mp hname)]
  rfl

/-- The table has the typings of the declared names and no others. -/
theorem get?_eq (name : String) :
    table.get? name = (ctx.definitions.find? name).map fun _ => called table name := by
  cases hname : ctx.definitions.find? name with
  | none => exact h.undeclared name (OrderedSet.find?_eq_none_iff.mp hname)
  | some d =>
    obtain rfl := name_of_find? hname
    rw [h.called_eq hname]
    exact h.typed d hname

theorem get?_of_find? {name : String} {d : Definition}
    (hd : ctx.definitions.find? name = some d) : table.get? name = some (called table name) := by
  rw [h.get?_eq, hd]
  rfl

/-- Induction on skeletons that goes on in the bodies of the definitions that they call. -/
theorem induction {motive : Bool → Skeleton → Prop}
    (step : ∀ starter k, (∀ c ∈ Skeleton.children ctx.execution starter k, motive c.1 c.2) →
      (∀ span name d, k = .call span name → ctx.definitions.find? name = some d →
        motive (ctx.startsSession d) d.body.skeleton) → motive starter k)
    (starter : Bool) (k : Skeleton) : motive starter k := by
  have hbody : ∀ d, ctx.definitions.find? d.name = some d →
      motive (ctx.startsSession d) d.body.skeleton := by
    intro d hd
    induction hrank : table.keys.idxOf d.name using Nat.strongRecOn generalizing d with
    | ind rank ih =>
      have hparts : ∀ starter k, (starter, k) ∈ ctx.partsOf d → motive starter k := by
        intro starter k hk
        induction starter, k using Skeleton.induction_children ctx.execution with
        | step starter k ihk =>
          refine step starter k (fun c hc => ihk c hc ?_) fun span name d' hcall hd' => ?_
          · exact Skeleton.visited_subset hk
              (Skeleton.mem_visited_of_child hc (Skeleton.mem_visited_self _ _ _))
          · obtain rfl := name_of_find? hd'
            have hdeclared : d'.name ∈ ctx.definitions.keys :=
              List.mem_map_of_mem (OrderedSet.find?_eq_some_iff.mp hd').1
            have hcalls : ctx.Calls d d'.name := Or.inl ⟨(starter, k), hk, span, hcall⟩
            exact ih _ (hrank ▸ h.ranked d hd d'.name hdeclared hcalls) d' hd' rfl
      exact hparts _ _ (Skeleton.mem_visited_self _ _ _)
  induction starter, k using Skeleton.induction_children ctx.execution with
  | step starter k ih =>
    refine step starter k ih fun span name d _ hd => hbody d ?_
    rw [name_of_find? hd]
    exact hd

end Settled

end Context

end Correlation
