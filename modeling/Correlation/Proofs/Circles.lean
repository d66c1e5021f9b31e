import Correlation.Proofs.CallGraph

/-!
# Circles of definitions

Checking follows calls depth first.  The definitions in progress are then a walk in the call graph,
on which no name comes twice, and a call of one of them closes a circle.  So whatever circle is
reported is one (`isCircuit_of_cause`).  If the graph has a circle, some circle is reported: without
a report checking comes to a settled table, and such a table ranks callees below their callers.

That checking only follows edges of the graph is an invariant of the progress, `Traced`.  The check
of a skeleton keeps whatever its calls and the violations of leaves, joins and loops keep
(`check_invariant`), and a call keeps the invariant by induction on how many definitions may still
be entered (`visitWithin_traced`).
-/

namespace Correlation

/-! ## Closed walks -/

/-- A walk along the edges back to where it started, which comes by no other node twice. -/
def IsCircuit (edge : String → String → Prop) (names : List String) : Prop :=
  ∃ first rest, names = first :: rest ++ [first] ∧ (first :: rest).Nodup ∧ names.IsChain edge

section Circuits

variable {edge : String → String → Prop} {names : List String} {name : String}

/-- A circuit leads from a name back to it. -/
theorem IsCircuit.exists_transGen (h : IsCircuit edge names) :
    ∃ name, Relation.TransGen edge name name := by
  obtain ⟨first, rest, rfl, _, hchain⟩ := h
  obtain ⟨next, tail, htail⟩ := List.exists_cons_of_ne_nil (List.append_ne_nil_of_right_ne_nil rest
    (List.cons_ne_nil first []))
  rw [List.cons_append, htail, List.isChain_cons_cons] at hchain
  have hlast : (next :: tail).getLast (List.cons_ne_nil _ _) = first := by
    simp only [← htail, List.getLast_append_singleton]
  exact ⟨first, .head' hchain.1 (List.relationReflTransGen_of_exists_isChain_cons tail hchain.2
    hlast)⟩

/-- A walk goes on to a new node. -/
theorem isChain_concat (hchain : names.IsChain edge)
    (hlast : ∀ last ∈ names.getLast?, edge last name) : (names ++ [name]).IsChain edge :=
  hchain.append (.singleton name) fun last h other hother => by
    obtain rfl := Option.some.inj hother
    exact hlast last h

/-- A walk that comes back to one of its nodes has closed a circle. -/
theorem isCircuit_circle (hchain : names.IsChain edge) (hnodup : names.Nodup) (hmem : name ∈ names)
    (hlast : ∀ last ∈ names.getLast?, edge last name) :
    IsCircuit edge (Context.circle names name) := by
  obtain ⟨before, after, rfl⟩ := List.append_of_mem hmem
  have hbefore : ∀ other ∈ before, (!decide (other = name)) = true := by
    rintro other hother
    have hne : other ≠ name := fun h =>
      (List.nodup_append.mp hnodup).2.2 other hother name List.mem_cons_self h
    simpa using hne
  have hcircle : Context.circle (before ++ name :: after) name = name :: after ++ [name] := by
    rw [Context.circle, List.dropWhile_append_of_pos hbefore, List.dropWhile_cons_of_neg (by simp)]
  rw [hcircle]
  refine ⟨name, after, rfl, hnodup.sublist (List.sublist_append_right _ _), ?_⟩
  exact isChain_concat (hchain.suffix (List.suffix_append _ _)) fun last h =>
    hlast last (by rw [List.getLast?_append_cons]; exact h)

end Circuits

/-! ## What the check of a skeleton keeps -/

/-- No circle of definitions is among the violations. -/
def Circleless (vs : List Violation) : Prop := ∀ v ∈ vs, ∀ names, v.cause ≠ .definitionCycle names

theorem circleless_nil : Circleless [] := fun _ h => nomatch h

theorem Circleless.append {vs ws : List Violation} (hvs : Circleless vs) (hws : Circleless ws) :
    Circleless (vs ++ ws) :=
  List.forall_mem_append.mpr ⟨hvs, hws⟩

/-- Violations that are found at skeletons are no circles. -/
theorem circleless_of_shape {vs : List Violation} (h : ∀ v ∈ vs, v.cause.shape? ≠ none) :
    Circleless vs :=
  fun v hv _ hcause => h v hv (congrArg Violation.Cause.shape? hcause)

theorem circleless_clashes (before next : ProvidedSet) : Circleless (before.clashes next) :=
  circleless_of_shape fun v hv => by
    rw [shape_of_clashes hv]
    exact Option.some_ne_none _

/-- Appending a statement reports no circle. -/
theorem circleless_append {s : Sequel} (hs : Circleless s.violations) (t : Typing) :
    Circleless (s.append t).violations := by
  have hneeded : Circleless ({ s with result := s.result.noteInputsOf t } : Sequel).violations := hs
  refine foldl_induction (P := fun s : Sequel => Circleless s.violations) ?_
    fun s p _ h => h
  refine foldl_induction (P := fun s : Sequel => Circleless s.violations) ?_
    fun s p _ h => h
  refine foldl_induction (P := fun s : Sequel => Circleless s.violations) hneeded ?_
  intro s p _ h
  rw [Sequel.define]
  split
  · refine h.append fun v hv names hcause => ?_
    rw [List.mem_singleton.mp hv] at hcause
    cases hcause
  · exact h

theorem circleless_parallel (ts : List Typing) : Circleless (Typing.parallel ts).2 :=
  foldl_induction (P := fun acc : Typing × List Violation => Circleless acc.2) circleless_nil
    fun acc t _ h => h.append ((Typing.beside_steady acc.1 t).2 ▸ circleless_clashes _ _)

theorem circleless_choice (span : Span) (kind : BranchKind) (sessionStart : Bool)
    (ts : List Typing) : Circleless (Typing.choice span kind sessionStart ts).2 :=
  circleless_of_shape fun v hv => by
    rw [shape_of_choice hv]
    exact Option.some_ne_none _

theorem circleless_join {starter : Bool} {k : Skeleton}
    {join : List Typing → Typing × List Violation} (hk : Skeleton.join? starter k = some join)
    (ts : List Typing) : Circleless (join ts).2 := by
  cases k with
  | parallel parts => cases hk; exact circleless_parallel ts
  | choice span branches => cases hk; exact circleless_choice _ _ _ ts
  | conditional span branches => cases hk; exact circleless_choice _ _ _ ts
  | _ => cases hk

/-- A loop reports no circle by itself. -/
theorem circleless_repeated (t : Typing) (span : Span) : Circleless (t.repeated span).2 := by
  rw [Typing.repeated]
  dsimp only
  split
  · exact circleless_nil
  · intro v hv names hcause
    rw [List.mem_singleton.mp hv] at hcause
    cases hcause

namespace Skeleton

section Invariant

variable {ctx : Context} {visit : Visit} {P : Progress → Prop}

/-- What checks keep, they keep one after the other, and they add no circle to a sequence. -/
theorem foldl_invariant {xs : List (Bool × Skeleton)}
    (h : ∀ x ∈ xs, ∀ entry g, P g → P (x.2.check ctx visit entry x.1 g).progress)
    (acc : Sequel × Bool × Progress) (hviolations : Circleless acc.1.violations)
    (hprogress : P acc.2.2) :
    Circleless ((xs.map (checkWith ctx visit)).foldl Check.followedBy acc).1.violations ∧
      P ((xs.map (checkWith ctx visit)).foldl Check.followedBy acc).2.2 := by
  induction xs generalizing acc with
  | nil => exact ⟨hviolations, hprogress⟩
  | cons x rest ih =>
    exact ih (fun y hy => h y (List.mem_cons_of_mem x hy)) _
      (circleless_append hviolations _) (h x List.mem_cons_self _ _ hprogress)

/-- What checks keep, they keep when they share an entry. -/
theorem collect_invariant {xs : List (Bool × Skeleton)}
    (h : ∀ x ∈ xs, ∀ entry g, P g → P (x.2.check ctx visit entry x.1 g).progress) (entry : Typing)
    (starter : Bool) (g : Progress) (hg : P g) :
    P (Check.collect entry (xs.map (checkWith ctx visit)) starter g).2.2 := by
  induction xs generalizing starter g with
  | nil => exact hg
  | cons x rest ih =>
    exact ih (fun y hy => h y (List.mem_cons_of_mem x hy)) _ _
      (h x List.mem_cons_self entry g hg)

/-- What calls keep and violations other than circles do not break, a check keeps. -/
theorem check_invariant (hreport : ∀ g vs, Circleless vs → P g → P (g.report vs))
    {starter : Bool} {k : Skeleton}
    (hcall : ∀ x ∈ visited ctx.execution starter k, ∀ span name, x.2 = .call span name →
      ∀ g, P g → P (visit span name g).2)
    (entry : Typing) (g : Progress) (hg : P g) :
    P (k.check ctx visit entry starter g).progress := by
  induction starter, k using induction_children ctx.execution generalizing entry g with
  | step starter k ih =>
    have hchildren : ∀ c ∈ children ctx.execution starter k, ∀ entry g, P g →
        P (c.2.check ctx visit entry c.1 g).progress :=
      fun c hc => ih c hc fun x hx => hcall x (mem_visited_of_child hc hx)
    have hjoin : ∀ join, join? starter k = some join →
        P (k.check ctx visit entry starter g).progress := by
      intro join hk
      rw [(check_join ctx visit hk entry g).2]
      exact hreport _ _ (circleless_join hk _) (collect_invariant hchildren entry starter g hg)
    have hleaf : ∀ {vs : List Violation}, (∀ v ∈ vs, v.cause.shape? = some .leaf) →
        P (g.report vs) := by
      intro vs hvs
      refine hreport g vs (circleless_of_shape fun v hv => ?_) hg
      rw [hvs v hv]
      exact Option.some_ne_none _
    cases k with
    | idle | invalidate => exact hleaf fun _ h => nomatch h
    | request span receive => exact hleaf fun v hv => shape_of_receiveViolations hv
    | input span operation receive =>
      rw [check, Check.input]
      split
      · exact hg
      · refine hleaf fun v hv => ?_
        rcases List.mem_append.mp hv with hv | hv
        · exact shape_of_receiveViolations hv
        · rw [List.mem_singleton.mp (List.mem_ite_nil_right.mp hv).2]
          rfl
    | assign span target value =>
      rw [check]
      split
      · exact hleaf fun v hv => shape_of_initialTyping hv
      · exact hg
    | call span name => exact hcall _ (mem_visited_self _ _ _) span name rfl g hg
    | sequence parts =>
      rw [(check_sequence ctx visit parts entry starter g).2]
      obtain ⟨hviolations, hprogress⟩ :=
        foldl_invariant hchildren (.start entry, starter, g) circleless_nil hg
      exact hreport _ _ hviolations hprogress
    | parallel | choice | conditional => exact hjoin _ rfl
    | repeated span body =>
      exact hreport _ _ (circleless_repeated _ span)
        (hchildren (starter, body) (List.mem_singleton_self _) entry g hg)

end Invariant

end Skeleton

/-! ## What calls keep -/

namespace Context

section Traced

variable (ctx : Context)

/-- An edge between declared names. -/
def Edge (caller callee : String) : Prop :=
  ∃ d, ctx.definitions.find? caller = some d ∧ callee ∈ ctx.definitions.keys ∧
    ctx.Calls d callee

/-- Whatever circle has been reported is one. -/
def Traced (vs : List Violation) : Prop :=
  ∀ v ∈ vs, ∀ names, v.cause = .definitionCycle names → IsCircuit ctx.Edge names

variable {ctx} {vs ws : List Violation}

theorem Traced.append (hvs : ctx.Traced vs) (hws : ctx.Traced ws) : ctx.Traced (vs ++ ws) :=
  List.forall_mem_append.mpr ⟨hvs, hws⟩

theorem traced_of_circleless (h : Circleless vs) : ctx.Traced vs :=
  fun v hv names hcause => absurd hcause (h v hv names)

theorem circleless_definitionViolations (d : Definition) (t : Typing) :
    Circleless (definitionViolations d t) := by
  rw [definitionViolations]
  split
  · intro v hv names hcause
    obtain ⟨p, _, rfl⟩ := List.mem_map.mp hv
    cases hcause
  · exact circleless_nil

section Definition

variable {visit : Visit} {d : Definition} {names : List String}
  (hd : ctx.definitions.find? d.name = some d)
  (hcall : ∀ span name (g : Progress), g.inProgress = names → ctx.Traced g.violations →
    (name ∈ ctx.definitions.keys → ctx.Edge d.name name) →
      ctx.Traced (visit span name g).2.violations)

include hd hcall

/-- The check of a body keeps to the walk, if calls from its definition do. -/
theorem body_traced (hvisit : visit.Advances ctx) (entry : Typing) (g : Progress)
    (hg : g.inProgress = names) (htraced : ctx.Traced g.violations) :
    ctx.Traced (ctx.bodyOutcome visit d entry g).progress.violations := by
  refine (Skeleton.check_invariant
    (P := fun g => g.inProgress = names ∧ ctx.Traced g.violations) ?_ ?_ entry
    { g with insideInit := decide (d.name = initName) } ⟨hg, htraced⟩).2
  · exact fun g vs hvs h => ⟨h.1, h.2.append (traced_of_circleless hvs)⟩
  · intro x hx span name hname g h
    refine ⟨(hvisit span name g).inProgress.trans h.1,
      hcall span name g h.1 h.2 fun hdeclared => ?_⟩
    exact ⟨d, hd, hdeclared, Or.inl ⟨x, hx, span, hname⟩⟩

/-- So does finding the entry of a definition, which calls `init` if the definition is `main`. -/
theorem entered_traced (g : Progress) (hg : g.inProgress = names)
    (htraced : ctx.Traced g.violations) : ctx.Traced (ctx.entered visit d g).2.violations := by
  rw [entered]
  split
  · next hmain =>
    rw [Bool.and_eq_true, decide_eq_true_eq] at hmain
    exact hcall d.span initName g hg htraced fun hinit => ⟨d, hd, hinit, Or.inr ⟨hmain.1, rfl⟩⟩
  · exact htraced

/-- Entering a definition, checking its body and finishing it keeps to the walk. -/
theorem define_traced (hvisit : visit.Advances ctx) (g : Progress) (hg : g.inProgress = names)
    (htraced : ctx.Traced g.violations) {insideInit : Bool} :
    ctx.Traced (finish d insideInit (ctx.bodyOutcome visit d (ctx.entered visit d g).1
      (ctx.entered visit d g).2)).2.violations := by
  have hentered := entered_traced hd hcall g hg htraced
  refine Traced.append ?_ (traced_of_circleless (circleless_definitionViolations d _))
  exact body_traced hd hcall hvisit _ _ ((entered_before hvisit d g).inProgress.trans hg) hentered

end Definition

/-- A call from the innermost definition in progress only reports circles that are some.  The
definitions in progress are a walk on which no name comes twice. -/
theorem visitWithin_traced (ctx : Context) (bound : Nat) {names : List String}
    (hchain : names.IsChain ctx.Edge) (hnodup : names.Nodup) (span : Span) (name : String)
    (g : Progress) (hg : g.inProgress = names) (htraced : ctx.Traced g.violations)
    (hlast : name ∈ ctx.definitions.keys → ∀ last ∈ names.getLast?, ctx.Edge last name) :
    ctx.Traced (ctx.visitWithin bound span name g).2.violations := by
  cases htyping : g.typings.get? name with
  | some typing =>
    rw [visitWithin_typed htyping]
    exact htraced
  | none =>
    cases hname : ctx.definitions.find? name with
    | none =>
      rw [visitWithin_undeclared htyping hname]
      refine htraced.append (traced_of_circleless fun v hv names hcause => ?_)
      rw [List.mem_singleton.mp hv] at hcause
      cases hcause
    | some d =>
      obtain rfl := name_of_find? hname
      have hdeclared : d.name ∈ ctx.definitions.keys :=
        List.mem_map_of_mem (OrderedSet.find?_eq_some_iff.mp hname).1
      by_cases hprogress : d.name ∈ g.inProgress
      · rw [visitWithin_inProgress htyping hname hprogress]
        refine htraced.append fun v hv circle hcause => ?_
        rw [List.mem_singleton.mp hv] at hcause
        obtain rfl := Violation.Cause.definitionCycle.inj hcause
        rw [hg] at hprogress ⊢
        exact isCircuit_circle hchain hnodup hprogress (hlast hdeclared)
      · cases bound with
        | zero =>
          rw [visitWithin_zero htyping hname hprogress]
          exact htraced
        | succ bound =>
          have hwalk : (names ++ [d.name]).IsChain ctx.Edge :=
            isChain_concat hchain (hlast hdeclared)
          have hnames : (names ++ [d.name]).Nodup :=
            (List.perm_append_singleton d.name names).nodup_iff.mpr
              (List.nodup_cons.mpr ⟨hg ▸ hprogress, hnodup⟩)
          have hcall : ∀ span name (g : Progress), g.inProgress = names ++ [d.name] →
              ctx.Traced g.violations → (name ∈ ctx.definitions.keys → ctx.Edge d.name name) →
                ctx.Traced (ctx.visitWithin bound span name g).2.violations := by
            intro span name g hg htraced hedge
            refine visitWithin_traced ctx bound hwalk hnames span name g hg htraced ?_
            intro hdeclared last hlast
            rw [List.getLast?_concat] at hlast
            exact Option.some.inj hlast ▸ hedge hdeclared
          rw [visitWithin_succ htyping hname hprogress]
          exact define_traced hname hcall (visitWithin_before ctx bound)
            { g with inProgress := g.inProgress ++ [d.name] } (congrArg (· ++ [d.name]) hg) htraced

/-- Whatever circle is reported when all definitions are typed is one. -/
theorem typeDefinitions_traced (ctx : Context) {g : Progress} (hg : g.inProgress = [])
    (htraced : ctx.Traced g.violations) : ctx.Traced (ctx.typeDefinitions g).violations := by
  refine (foldl_induction
    (P := fun g : Progress => g.inProgress = [] ∧ ctx.Traced g.violations) ⟨hg, htraced⟩ ?_).2
  intro g name _ h
  refine ⟨(visitWithin_before ctx _ .unknown name g).inProgress.trans h.1, ?_⟩
  exact visitWithin_traced ctx _ .nil List.nodup_nil .unknown name g h.1 h.2 fun _ _ h => nomatch h

end Traced

end Context

/-! ## The session -/

/-- Putting a session together reports no circle. -/
theorem Verdict.circleless_sessionTyping (init? : Option Typing) (main : Typing) :
    Circleless (sessionTyping init? main).2 := by
  cases init? with
  | none => exact circleless_nil
  | some init => exact circleless_append (s := ⟨init, init.provisions, []⟩) circleless_nil main

theorem Verdict.circleless_ofTypings (file : String) (routing : Routing)
    (table : NameTable Typing) : Circleless (ofTypings file routing table).2 := by
  rw [ofTypings]
  split
  · intro v hv names hcause
    rw [List.mem_singleton.mp hv] at hcause
    cases hcause
  · next main _ =>
    refine Circleless.append (Circleless.append (circleless_sessionTyping _ main) ?_) ?_
    · intro v hv names hcause
      rcases List.mem_append.mp hv with hv | hv <;> obtain ⟨p, _, rfl⟩ := List.mem_map.mp hv <;>
        cases hcause
    · intro v hv names hcause
      obtain ⟨set, _, rfl⟩ := List.mem_map.mp hv
      cases hcause

namespace Program

variable {program : Program} {mode : Option ExecutionMode} {names : List String}

/-- Whatever circle a check reports is one in the call graph. -/
theorem isCircuit_of_cause (h : .definitionCycle names ∈ (program.check mode).causes) :
    IsCircuit program.Calls names := by
  have hrouting : Circleless (Routing.ofSets program.correlationSets).2 := by
    intro v hv names hcause
    have hv := Routing.cause_of_ofSets hv
    rw [hcause] at hv
    rcases hv with ⟨_, _, _, hv⟩ | ⟨_, _, hv⟩ <;> cases hv
  have htraced := (program.context mode).typeDefinitions_traced
    (g := Progress.start.report (Routing.ofSets program.correlationSets).2) rfl
    (Context.traced_of_circleless hrouting)
  obtain ⟨v, hv, hcause⟩ := List.mem_map.mp h
  rcases List.mem_append.mp hv with hv | hv
  · obtain ⟨first, rest, rfl, hnodup, hchain⟩ := htraced v hv names hcause
    refine ⟨first, rest, rfl, hnodup, hchain.imp fun caller callee hedge => ?_⟩
    obtain ⟨d, hd, hcalls⟩ := hedge
    exact (calls_iff hd).mpr hcalls
  · exact absurd hcause (Verdict.circleless_ofTypings _ _ _ v hv names)

/-- A check that reports no circle has met no walk that comes back. -/
theorem not_transGen_of_acyclic
    (hacyclic : ∀ names, .definitionCycle names ∉ (program.check mode).causes) (name : String) :
    ¬ Relation.TransGen program.Calls name name :=
  not_transGen_calls (settled_check hacyclic) name

/-- A call graph without a walk that comes back gives no report of a circle. -/
theorem acyclic_of_not_transGen (h : ∀ name, ¬ Relation.TransGen program.Calls name name)
    (names : List String) : .definitionCycle names ∉ (program.check mode).causes := by
  intro hcause
  obtain ⟨name, hname⟩ := (isCircuit_of_cause hcause).exists_transGen
  exact h name hname

/-- A check reports a circle of definitions exactly if the call graph has one.  What it reports is a
walk in the graph back to where it started that comes by no other definition twice. -/
theorem definitionCycle_iff_exists_circuit (program : Program) (mode : Option ExecutionMode) :
    ((∃ names, .definitionCycle names ∈ (program.check mode).causes) ↔
        ∃ name, Relation.TransGen program.Calls name name) ∧
      ∀ names, .definitionCycle names ∈ (program.check mode).causes →
        IsCircuit program.Calls names := by
  refine ⟨⟨fun ⟨names, hcause⟩ => (isCircuit_of_cause hcause).exists_transGen, ?_⟩,
    fun names => isCircuit_of_cause⟩
  rintro ⟨name, hname⟩
  by_contra hnone
  exact not_transGen_of_acyclic (fun names hcause => hnone ⟨names, hcause⟩) name hname

/-- Here `main` is off the circle, and the definition that closes it is called in a loop. -/
theorem definitionCycle_pingPong :
    let program := sampleProgram [("main", .call .unknown "ping"), ("ping", .call .unknown "pong"),
      ("pong", .whileLoop .unknown (.bool true) (.call .unknown "ping"))]
    .definitionCycle ["ping", "pong", "ping"] ∈ (program.check none).causes ∧
      (∃ name, Relation.TransGen program.Calls name name) ∧
        IsCircuit program.Calls ["ping", "pong", "ping"] := by
  intro program
  have hcause : .definitionCycle ["ping", "pong", "ping"] ∈ (program.check none).causes := by
    decide +kernel
  exact ⟨hcause, (definitionCycle_iff_exists_circuit program none).1.mp ⟨_, hcause⟩,
    (definitionCycle_iff_exists_circuit program none).2 _ hcause⟩

end Program

end Correlation
