import Correlation.Proofs.Settled

/-!
# Checking accounts for every definition once

`Context.settled_typeDefinitions` goes from a check without a circle to a settled table.  This
module goes the other way.  If a context has a settled table at all, then checking finds that table,
in whatever order the definitions have their turns, and it finds every fault of every definition
exactly once (`Context.typeDefinitions_of_settled`).

The invariant is `Progress.Adds`.  Between two points of a check the violations grow by the faults
of the definitions that are typed in the meantime, and by those that the check itself has to answer
for.  No circle is closed on the way, since the definitions in progress all rank above the one that
is called.
-/

namespace Correlation

/-- What is wrong with the definition of a name. -/
def Context.faultsNamed (ctx : Context) (table : NameTable Typing) (name : String) :
    List Violation :=
  (ctx.definitions.find? name).elim [] (ctx.faultsOf table)

namespace Progress

section Adds

variable (ctx : Context) (table : NameTable Typing)

/-- From the first progress to the second one definitions are typed as in the table.  Their faults
and the given violations are reported, each once, and nothing else is. -/
def Adds (g h : Progress) (vs : List Violation) : Prop :=
  ∃ new : List (String × Typing), h.typings.toList = g.typings.toList ++ new ∧
    new ⊆ table.toList ∧
    h.violations.Perm (g.violations ++ (new.flatMap (fun e => ctx.faultsNamed table e.1) ++ vs))

/-- What is typed here is typed as in the table, while these definitions are in progress. -/
structure Fits (names : List String) (insideInit : Bool) (g : Progress) : Prop where
  typings : g.typings.toList ⊆ table.toList
  inProgress : g.inProgress = names
  insideInit : g.insideInit = insideInit

end Adds

variable {ctx : Context} {table : NameTable Typing} {g h i : Progress} {vs ws : List Violation}
  {names : List String} {insideInit : Bool}

theorem Adds.refl (g : Progress) : g.Adds ctx table g [] :=
  ⟨[], (List.append_nil _).symm, List.nil_subset _, by rw [List.flatMap_nil, List.append_nil,
    List.append_nil]⟩

theorem adds_report (g : Progress) (vs : List Violation) : g.Adds ctx table (g.report vs) vs :=
  ⟨[], (List.append_nil _).symm, List.nil_subset _, .refl _⟩

theorem Adds.perm (hgh : g.Adds ctx table h vs) (hvs : vs.Perm ws) : g.Adds ctx table h ws := by
  obtain ⟨new, htypings, hnew, hviolations⟩ := hgh
  exact ⟨new, htypings, hnew, hviolations.trans ((hvs.append_left _).append_left _)⟩

/-- What two stretches of a check add, the whole adds. -/
theorem Adds.trans (hgh : g.Adds ctx table h vs) (hhi : h.Adds ctx table i ws) :
    g.Adds ctx table i (vs ++ ws) := by
  obtain ⟨new, htypings, hnew, hviolations⟩ := hgh
  obtain ⟨newer, htypings', hnewer, hviolations'⟩ := hhi
  refine ⟨new ++ newer, ?_, List.append_subset.mpr ⟨hnew, hnewer⟩, ?_⟩
  · rw [htypings', htypings, List.append_assoc]
  · refine hviolations'.trans ((hviolations.append_right _).trans ?_)
    simp only [List.flatMap_append, List.append_assoc]
    refine List.Perm.append_left _ (List.Perm.append_left _ ?_)
    rw [← List.append_assoc, ← List.append_assoc]
    exact List.perm_append_comm.append_right _

theorem Adds.typings_subset (hgh : g.Adds ctx table h vs) (hg : g.typings.toList ⊆ table.toList) :
    h.typings.toList ⊆ table.toList := by
  obtain ⟨new, htypings, hnew, _⟩ := hgh
  rw [htypings]
  exact List.append_subset.mpr ⟨hg, hnew⟩

/-- Progress that fits the table still does after a stretch of a check. -/
theorem Fits.after (hg : g.Fits table names insideInit) (hbefore : g.Before ctx h)
    (hadds : g.Adds ctx table h vs) : h.Fits table names insideInit :=
  ⟨hadds.typings_subset hg.typings, hbefore.inProgress.trans hg.inProgress,
    hbefore.insideInit.trans hg.insideInit⟩

end Progress

namespace Skeleton

section Checks

variable (ctx : Context) (table : NameTable Typing) (visit : Visit) (names : List String)
  (insideInit : Bool)

/-- From every progress that fits the table a part has the typing that is computed from the table,
and these violations are what its check has to answer for. -/
def Answers (x : Bool × Skeleton) (vs : List Violation) : Prop :=
  ∀ entry (g : Progress), g.Fits table names insideInit →
    (x.2.check ctx visit entry x.1 g).typing = typing ctx table x.1 x.2 entry ∧
      g.Adds ctx table (x.2.check ctx visit entry x.1 g).progress vs

variable {ctx table visit names insideInit} {owed : Bool × Skeleton → List Violation}

/-- Parts one after the other answer for what each of them owes. -/
theorem foldl_answers (hvisit : visit.Advances ctx) {starter : Bool} {parts : List Skeleton}
    (h : ∀ x ∈ flagged ctx.execution starter parts,
      Answers ctx table visit names insideInit x (owed x))
    (acc : Sequel × Bool × Progress) (hacc : acc.2.2.Fits table names insideInit) :
    let last := ((flagged ctx.execution starter parts).map (checkWith ctx visit)).foldl
      Check.followedBy acc
    last.1 = sequel ctx table starter parts acc.1 ∧ acc.2.2.Adds ctx table last.2.2
      ((flagged ctx.execution starter parts).flatMap owed) := by
  induction parts generalizing starter acc with
  | nil => exact ⟨rfl, .refl _⟩
  | cons x rest ih =>
    obtain ⟨htyping, hadds⟩ := h (starter, x) List.mem_cons_self acc.1.running acc.2.2 hacc
    have hbefore := check_before hvisit x acc.1.running starter acc.2.2
    obtain ⟨hlast, hrest⟩ := ih (fun y hy => h y (List.mem_cons_of_mem _ hy))
      (Check.followedBy acc (checkWith ctx visit (starter, x))) (hacc.after hbefore hadds)
    rw [flagged, List.map_cons, List.foldl_cons, List.flatMap_cons, sequel, ← htyping]
    exact ⟨hlast, hadds.trans hrest⟩

/-- Parts that share an entry answer for what each of them owes. -/
theorem collect_answers (hvisit : visit.Advances ctx) {xs : List (Bool × Skeleton)}
    (h : ∀ x ∈ xs, Answers ctx table visit names insideInit x (owed x)) (entry : Typing)
    (starter : Bool) (g : Progress) (hg : g.Fits table names insideInit) :
    let last := Check.collect entry (xs.map (checkWith ctx visit)) starter g
    last.1 = xs.map (fun x => typing ctx table x.1 x.2 entry) ∧
      g.Adds ctx table last.2.2 (xs.flatMap owed) := by
  induction xs generalizing starter g with
  | nil => exact ⟨rfl, .refl _⟩
  | cons x rest ih =>
    obtain ⟨htyping, hadds⟩ := h x List.mem_cons_self entry g hg
    have hbefore := check_before hvisit x.2 entry x.1 g
    obtain ⟨hlast, hrest⟩ := ih (fun y hy => h y (List.mem_cons_of_mem _ hy))
      (x.2.check ctx visit entry x.1 g).starter _ (hg.after hbefore hadds)
    rw [List.map_cons, List.map_cons, List.flatMap_cons, ← htyping]
    exact ⟨congrArg _ hlast, hadds.trans hrest⟩

/-- The check of a part without parts that is not a call. -/
theorem leaf_answers {starter : Bool} {k : Skeleton} (hk : k.shape = .leaf)
    (hcall : ∀ span name, k ≠ .call span name) (htable : SortedTable table) :
    Answers ctx table visit names insideInit (starter, k)
      (faults ctx table insideInit starter k .empty) := by
  intro entry g hg
  constructor
  · cases k with
    | idle | request | invalidate => rw [check, typing]; rfl
    | input span operation receive =>
      rw [check, Check.input, typing]
      split <;> rfl
    | assign span target value =>
      rw [check, typing]
      split <;> rfl
    | call span name => exact absurd rfl (hcall span name)
    | _ => cases hk
  · have hprogress : (k.check ctx visit entry starter g).progress =
        g.report (faults ctx table g.insideInit starter k entry) := check_leaf hk hcall entry g
    rw [hprogress, hg.insideInit, faults_congr htable _ _ _ entry .empty]
    exact Progress.adds_report g _

/-- The violations of a skeleton are its own and those of the parts just below, each once. -/
theorem flatMap_visited_perm (mode : ExecutionMode) (starter : Bool) (k : Skeleton)
    (own : Bool × Skeleton → List Violation) :
    (((children mode starter k).flatMap fun c => (visited mode c.1 c.2).flatMap own) ++
      own (starter, k)).Perm ((visited mode starter k).flatMap own) := by
  rw [visited_eq, List.flatMap_cons, List.flatMap_assoc]
  exact List.perm_append_comm

/-- A skeleton has the typing that is computed from the table, and its check has to answer for the
faults of its parts, if calls do so. -/
theorem check_answers (hvisit : visit.Advances ctx) (htable : SortedTable table) {starter : Bool}
    {k : Skeleton}
    (hcalls : ∀ x ∈ visited ctx.execution starter k, ∀ span name, x.2 = .call span name →
      Answers ctx table visit names insideInit x (faults ctx table insideInit x.1 x.2 .empty)) :
    Answers ctx table visit names insideInit (starter, k)
      ((visited ctx.execution starter k).flatMap fun x =>
        faults ctx table insideInit x.1 x.2 .empty) := by
  induction starter, k using induction_children ctx.execution with
  | step starter k ih =>
    have hchildren : ∀ c ∈ children ctx.execution starter k,
        Answers ctx table visit names insideInit c ((visited ctx.execution c.1 c.2).flatMap
          fun x => faults ctx table insideInit x.1 x.2 .empty) :=
      fun c hc => ih c hc fun x hx => hcalls x (mem_visited_of_child hc hx)
    have hleaf : k.shape = .leaf →
        Answers ctx table visit names insideInit (starter, k)
          (faults ctx table insideInit starter k .empty) := by
      intro hk
      by_cases hcall : ∃ span name, k = .call span name
      · obtain ⟨span, name, hcall⟩ := hcall
        exact hcalls _ (mem_visited_self _ _ _) span name hcall
      · exact leaf_answers hk (fun span name h => hcall ⟨span, name, h⟩) htable
    have hjoin : ∀ join, join? starter k = some join → ∀ entry g,
        g.Fits table names insideInit →
          (k.check ctx visit entry starter g).typing = typing ctx table starter k entry ∧
            g.Adds ctx table (k.check ctx visit entry starter g).progress
              (((children ctx.execution starter k).flatMap fun c =>
                (visited ctx.execution c.1 c.2).flatMap fun x =>
                  faults ctx table insideInit x.1 x.2 .empty) ++
                faults ctx table insideInit starter k entry) := by
      intro join hk entry g hg
      obtain ⟨htypings, hadds⟩ := collect_answers hvisit hchildren entry starter g hg
      obtain ⟨htyping, hprogress⟩ := check_join ctx visit hk entry g
      rw [htyping, hprogress, typing_join ctx table hk, faults_join ctx table hk, htypings]
      exact ⟨rfl, hadds.trans (Progress.adds_report _ _)⟩
    intro entry g hg
    suffices hcheck : (k.check ctx visit entry starter g).typing =
        typing ctx table starter k entry ∧
          g.Adds ctx table (k.check ctx visit entry starter g).progress
            (((children ctx.execution starter k).flatMap fun c =>
              (visited ctx.execution c.1 c.2).flatMap fun x =>
                faults ctx table insideInit x.1 x.2 .empty) ++
              faults ctx table insideInit starter k entry) by
      rw [faults_congr htable insideInit starter k entry .empty] at hcheck
      exact ⟨hcheck.1, hcheck.2.perm (flatMap_visited_perm ctx.execution starter k fun x =>
        faults ctx table insideInit x.1 x.2 .empty)⟩
    cases k with
    | idle | request | input | assign | invalidate | call =>
      rw [faults_congr htable insideInit _ _ entry .empty]
      exact hleaf rfl entry g hg
    | sequence parts =>
      obtain ⟨hlast, hadds⟩ := foldl_answers hvisit hchildren (.start entry, starter, g) hg
      obtain ⟨htyping, hprogress⟩ := check_sequence ctx visit parts entry starter g
      rw [htyping, hprogress, hlast, typing, faults]
      exact ⟨rfl, hadds.trans (Progress.adds_report _ _)⟩
    | parallel | choice | conditional => exact hjoin _ rfl entry g hg
    | repeated span body =>
      obtain ⟨htyping, hadds⟩ :=
        hchildren (starter, body) (List.mem_singleton_self _) entry g hg
      rw [check, typing, faults, ← htyping, children, List.flatMap_singleton]
      exact ⟨rfl, hadds.trans (Progress.adds_report _ _)⟩

end Checks

end Skeleton

namespace Context

variable {ctx : Context} {table : NameTable Typing} {names : List String} {bound : Nat}

/-- A call of a definition gives the typing of the table.  It has to answer for nothing, if the name
is declared, and the definition is typed afterwards. -/
structure CallAnswers (ctx : Context) (table : NameTable Typing) (visit : Visit) (span : Span)
    (name : String) (g : Progress) : Prop where
  typing : (visit span name g).1 = called table name
  adds : g.Adds ctx table (visit span name g).2
    ((Skeleton.call span name).faults ctx table false false .empty)
  typed : name ∈ ctx.definitions.keys → name ∈ (visit span name g).2.typings.keys

/-- The definition of a name ranks below these. -/
def RanksBelow (ctx : Context) (table : NameTable Typing) (names : List String) (name : String) :
    Prop :=
  name ∈ ctx.definitions.keys →
    ∀ other ∈ names, table.keys.idxOf name < table.keys.idxOf other

theorem faults_call_of_declared {span : Span} {name : String} (h : name ∈ ctx.definitions.keys)
    {insideInit starter : Bool} {entry : Typing} :
    (Skeleton.call span name).faults ctx table insideInit starter entry = [] := by
  rw [Skeleton.faults, if_pos (OrderedSet.contains_iff_mem_keys.mpr h)]

theorem faultsNamed_eq {d : Definition} (hd : ctx.definitions.find? d.name = some d) :
    ctx.faultsNamed table d.name = ctx.faultsOf table d := by
  rw [faultsNamed, hd]
  rfl

/-- A definition that is finished is accounted for.  The faults of its body have been reported
before. -/
theorem finish_adds {d : Definition} {g : Progress} {o : Outcome} {insideInit : Bool}
    (hd : ctx.definitions.find? d.name = some d)
    (htyped : table.get? d.name = some (ctx.typingOf table d))
    (htyping : o.typing = ctx.typingOf table d) (hnew : d.name ∉ o.progress.typings.keys)
    (hbody : g.Adds ctx table o.progress ((ctx.partsOf d).flatMap fun x =>
      x.2.faults ctx table (decide (d.name = initName)) x.1 .empty)) :
    g.Adds ctx table (finish d insideInit o).2 [] := by
  obtain ⟨new, htypings, hsubset, hviolations⟩ := hbody
  have hkept : (finish d insideInit o).2.typings.toList =
      o.progress.typings.toList ++ [(d.name, o.typing)] := OrderedSet.toList_insert hnew
  refine ⟨new ++ [(d.name, o.typing)], ?_, List.append_subset.mpr ⟨hsubset, ?_⟩, ?_⟩
  · rw [hkept, htypings, List.append_assoc]
  · obtain ⟨e, he, htyping'⟩ := Option.map_eq_some_iff.mp htyped
    obtain ⟨hmem, hname⟩ := OrderedSet.find?_eq_some_iff.mp he
    have heq : e = (d.name, o.typing) := Prod.ext hname (htyping'.trans htyping.symm)
    exact List.cons_subset.mpr ⟨heq ▸ hmem, List.nil_subset _⟩
  · show (o.progress.violations ++ definitionViolations d o.typing).Perm _
    rw [List.append_nil, List.flatMap_append, List.flatMap_singleton, faultsNamed_eq hd, faultsOf,
      ← htyping]
    refine (hviolations.append_right _).trans (List.Perm.of_eq ?_)
    simp only [List.append_assoc]

/-- The entry of a definition is that of the table, if the call of `init` answers. -/
theorem entered_answers {visit : Visit} {d : Definition} {g : Progress}
    (hcall : d.name = mainName → CallAnswers ctx table visit d.span initName g) :
    (ctx.entered visit d g).1 = ctx.entryOf table d ∧
      g.Adds ctx table (ctx.entered visit d g).2 [] := by
  rw [entered, entryOf]
  by_cases hmain : (decide (d.name = mainName) && ctx.definitions.contains initName) = true
  · rw [if_pos hmain, if_pos hmain]
    rw [Bool.and_eq_true, OrderedSet.contains_iff_mem_keys, decide_eq_true_eq] at hmain
    have hinit := hcall hmain.1
    refine ⟨congrArg Typing.provisions hinit.typing, ?_⟩
    have hadds := hinit.adds
    rw [faults_call_of_declared hmain.2] at hadds
    exact hadds
  · rw [if_neg hmain, if_neg hmain]
    exact ⟨rfl, .refl _⟩

section Settled

variable (h : ctx.Settled table)

include h

/-- Entering a definition, checking its body and finishing it answers, if the calls in it do. -/
theorem define_answers {visit : Visit} (hvisit : visit.Advances ctx) {d : Definition}
    (hd : ctx.definitions.find? d.name = some d) {g : Progress}
    (hself : d.name ∈ g.inProgress) (hnew : d.name ∉ g.typings.keys)
    (hfits : g.typings.toList ⊆ table.toList)
    (hcalls : ∀ name, ctx.Calls d name → ∀ span (g' : Progress), g'.inProgress = g.inProgress →
      g'.typings.toList ⊆ table.toList → CallAnswers ctx table visit span name g') :
    let e := ctx.entered visit d g
    let o := ctx.bodyOutcome visit d e.1 e.2
    o.typing = called table d.name ∧ g.Adds ctx table (finish d e.2.insideInit o).2 [] := by
  have hentered := entered_before hvisit d g
  obtain ⟨hentry, hadds⟩ : (ctx.entered visit d g).1 = ctx.entryOf table d ∧
      g.Adds ctx table (ctx.entered visit d g).2 [] :=
    entered_answers fun hmain => hcalls initName (Or.inr ⟨hmain, rfl⟩) d.span g rfl hfits
  intro e o
  have hbody : Skeleton.Answers ctx table visit g.inProgress (decide (d.name = initName))
      (ctx.startsSession d, d.body.skeleton) ((ctx.partsOf d).flatMap fun x =>
        x.2.faults ctx table (decide (d.name = initName)) x.1 .empty) := by
    refine Skeleton.check_answers hvisit h.sorted fun x hx span name hcall entry g hg => ?_
    obtain ⟨htyping, hadds, _⟩ :=
      hcalls name (Or.inl ⟨x, hx, span, hcall⟩) span g hg.inProgress hg.typings
    rw [hcall]
    exact ⟨htyping, hadds⟩
  obtain ⟨htyping, hchecked⟩ := hbody e.1 { e.2 with insideInit := decide (d.name = initName) }
    ⟨hadds.typings_subset hfits, hentered.inProgress, rfl⟩
  have htypingOf : o.typing = ctx.typingOf table d := by
    rw [typingOf, ← hentry]
    exact htyping
  have hlater : d.name ∉ o.progress.typings.keys :=
    (Skeleton.check_before hvisit _ _ _ _).not_mem_keys (hentered.inProgress.symm ▸ hself)
      (hentered.not_mem_keys hself hnew)
  refine ⟨htypingOf.trans (h.called_eq hd).symm, ?_⟩
  exact finish_adds hd (h.typed d hd) htypingOf hlater (hadds.trans hchecked)

/-- A call answers, if its definition ranks below those in progress.  Whatever that definition calls
ranks below it, and so below all that is in progress then. -/
theorem visitWithin_answers (bound : Nat) {names : List String}
    (hnames : ctx.InProgress names bound) (span : Span) {name : String}
    (hbelow : ctx.RanksBelow table names name) (g : Progress) (hg : g.inProgress = names)
    (hfits : g.typings.toList ⊆ table.toList) :
    CallAnswers ctx table (ctx.visitWithin bound) span name g := by
  cases htyping : g.typings.get? name with
  | some t =>
    obtain ⟨e, he, rfl⟩ := Option.map_eq_some_iff.mp htyping
    obtain ⟨hmem, hname⟩ := OrderedSet.find?_eq_some_iff.mp he
    have htable : table.get? name = some e.2 := by
      rw [NameTable.get?, OrderedSet.find?_eq_some_iff.mpr ⟨hfits hmem, hname⟩]
      rfl
    have hdeclared : name ∈ ctx.definitions.keys := by
      by_contra hnot
      rw [h.undeclared name hnot] at htable
      cases htable
    refine ⟨?_, ?_, fun _ => ?_⟩
    · rw [visitWithin_typed htyping, called, htable]
      rfl
    · rw [visitWithin_typed htyping, faults_call_of_declared hdeclared]
      exact .refl g
    · rw [visitWithin_typed htyping]
      exact hname ▸ List.mem_map_of_mem hmem
  | none =>
    by_cases hdeclared : name ∈ ctx.definitions.keys
    · obtain ⟨d, hd⟩ := find?_of_mem_keys hdeclared
      have hfresh : name ∉ names := fun hmem => Nat.lt_irrefl _ (hbelow hdeclared name hmem)
      cases bound with
      | zero => exact absurd (hnames.bound_pos hdeclared hfresh) (Nat.lt_irrefl 0)
      | succ bound =>
        obtain rfl := name_of_find? hd
        have hcalls : ∀ other, ctx.Calls d other →
            ctx.RanksBelow table (names ++ [d.name]) other := by
          intro other hother hkeys last hlast
          have hlower := h.ranked d hd other hkeys hother
          rcases List.mem_append.mp hlast with hlast | hlast
          · exact Nat.lt_trans hlower (hbelow hdeclared last hlast)
          · rw [List.mem_singleton.mp hlast]
            exact hlower
        obtain ⟨hresult, hadds⟩ := define_answers h (visitWithin_before ctx bound) hd
          (g := { g with inProgress := g.inProgress ++ [d.name] })
          (List.mem_append_right _ (List.mem_singleton_self _)) (get?_eq_none_iff.mp htyping) hfits
          fun other hother span g' hg' => visitWithin_answers bound (hnames.enter hdeclared hfresh)
            span (hcalls other hother) g' (hg'.trans (congrArg (· ++ [d.name]) hg))
        have hvisit : ctx.visitWithin (bound + 1) span d.name g = _ :=
          visitWithin_succ htyping hd (hg ▸ hfresh)
        refine ⟨?_, ?_, fun _ => ?_⟩
        · rw [hvisit]
          exact hresult
        · rw [hvisit, faults_call_of_declared hdeclared]
          exact hadds
        · rw [hvisit]
          exact OrderedSet.mem_keys_insert.mpr (Or.inl rfl)
    · have hundeclared := OrderedSet.find?_eq_none_iff.mpr hdeclared
      have hvisit : ctx.visitWithin bound span name g = _ :=
        visitWithin_undeclared htyping hundeclared
      refine ⟨?_, ?_, fun hkeys => absurd hkeys hdeclared⟩
      · rw [hvisit, h.called_undeclared hundeclared]
      · rw [hvisit, Skeleton.faults,
          if_neg fun hc => hdeclared (OrderedSet.contains_iff_mem_keys.mp hc)]
        exact Progress.adds_report g _

/-! ## All definitions -/

/-- Visiting definitions in turn adds the faults of those that were not typed before. -/
theorem foldl_visit_adds {turns : List String} (hturns : turns ⊆ ctx.definitions.keys)
    (g : Progress) (hg : g.inProgress = []) (hfits : g.typings.toList ⊆ table.toList) :
    let last := turns.foldl (fun g name => (ctx.visit .unknown name g).2) g
    g.Adds ctx table last [] ∧ turns ⊆ last.typings.keys := by
  induction turns generalizing g with
  | nil => exact ⟨.refl g, List.nil_subset _⟩
  | cons name rest ih =>
    obtain ⟨hname, hrest⟩ := List.cons_subset.mp hturns
    have hbelow : ctx.RanksBelow table [] name := fun _ _ h => nomatch h
    obtain ⟨_, hadds, htyped⟩ := visitWithin_answers h ctx.definitions.size ctx.inProgress_nil
      .unknown hbelow g hg hfits
    rw [faults_call_of_declared hname] at hadds
    have hbefore := visitWithin_before ctx ctx.definitions.size .unknown name g
    obtain ⟨hlast, hkeys⟩ := ih hrest (ctx.visit .unknown name g).2 (hbefore.inProgress.trans hg)
      (hadds.typings_subset hfits)
    have hafter := foldl_visit_before ctx rest (ctx.visit .unknown name g).2
    exact ⟨hadds.trans hlast, List.cons_subset.mpr ⟨hafter.keys_subset (htyped hname), hkeys⟩⟩

/-- Checking finds the settled table, and the faults of every definition exactly once.  The typed
names are the declared ones, each once, whatever their order. -/
theorem typeDefinitions_of_settled (initial : List Violation) :
    let g := ctx.typeDefinitions (Progress.start.report initial)
    (∀ name, g.typings.get? name = table.get? name) ∧
      g.violations.Perm (initial ++ ctx.definitions.toList.flatMap (ctx.faultsOf table)) := by
  intro g
  obtain ⟨⟨new, htypings, hnew, hviolations⟩, hkeys⟩ := foldl_visit_adds h
    (fun _ h => mem_turns_iff.mp h) (Progress.start.report initial) rfl (List.nil_subset _)
  have htypings : g.typings.toList = new := htypings
  have hfits : g.typings.toList ⊆ table.toList := htypings ▸ hnew
  have hdeclared : ∀ {name}, name ∈ g.typings.keys ↔ name ∈ ctx.definitions.keys := by
    refine fun {name} => ⟨fun hname => ?_, fun hname => hkeys (mem_turns_iff.mpr hname)⟩
    by_contra hnot
    have hnone := get?_eq_none_iff.mp (h.undeclared name hnot)
    exact hnone (List.map_subset _ hfits hname)
  constructor
  · intro name
    by_cases hname : name ∈ ctx.definitions.keys
    · obtain ⟨e, he, rfl⟩ := List.mem_map.mp (hdeclared.mpr hname)
      rw [NameTable.get?, NameTable.get?, OrderedSet.find?_eq_some_iff.mpr ⟨he, rfl⟩,
        OrderedSet.find?_eq_some_iff.mpr ⟨hfits he, rfl⟩]
    · rw [h.undeclared name hname, get?_eq_none_iff.mpr fun hkeys => hname (hdeclared.mp hkeys)]
  · have hnames : g.typings.keys.Perm ctx.definitions.keys :=
      (List.perm_ext_iff_of_nodup g.typings.nodup_keys ctx.definitions.nodup_keys).mpr
        fun _ => hdeclared
    have hnew : new.flatMap (fun e => ctx.faultsNamed table e.1) =
        g.typings.keys.flatMap (ctx.faultsNamed table) := by
      rw [OrderedSet.keys, htypings, List.flatMap_map]
    have hfaults : ctx.definitions.keys.flatMap (ctx.faultsNamed table) =
        ctx.definitions.toList.flatMap (ctx.faultsOf table) := by
      rw [OrderedSet.keys, List.flatMap_map]
      refine List.flatMap_congr fun d hd => ?_
      exact faultsNamed_eq (OrderedSet.find?_eq_some_iff.mpr ⟨hd, rfl⟩)
    rw [List.append_nil, hnew] at hviolations
    rw [← hfaults]
    exact hviolations.trans ((hnames.flatMap_right _).append_left initial)

end Settled

end Context

end Correlation
