import Correlation.Proofs.Joins
import Correlation.Proofs.Parts

/-!
# Typings without the progress

The check of a skeleton carries the progress along, since a call may type the definition that it
calls.  Once the typings of all definitions are known the progress is not needed any more: `typing`
looks a call up in a table.  What is wrong with the skeleton itself, apart from its parts, are its
`faults`.

Typings keep correlation variables and data apart (`sorted_typing`).  The steady part of a typing
and the faults do not depend on the entry (`steady_typing`, `faults_congr`).
-/

namespace Correlation

/-- The typing of a call, if the table has all typings of definitions. -/
def called (table : NameTable Typing) (name : String) : Typing := (table.get? name).getD .empty

/-- All typings of a table keep correlation variables and data apart. -/
def SortedTable (table : NameTable Typing) : Prop := ∀ name, (called table name).Sorted

/-- The variables of the set that routes an operation, as if they were written at a span. -/
def Context.keysFor (ctx : Context) (operation : String) (span : Span) : List Path :=
  match ctx.routing.setFor operation with
  | some set => set.paths span
  | none => []

namespace Skeleton

section Judgement

variable (ctx : Context) (table : NameTable Typing)

mutual

/-- The typing of a skeleton with a starter flag and an entry. -/
def typing : Bool → Skeleton → Typing → Typing
  | starter, .input span operation _, _ =>
    if ctx.execution = .single then .empty
    else (Check.inputTyping (ctx.keysFor operation span) starter).noteInput operation starter
  | _, .assign span target value, entry =>
    if target.isStatic then (Check.initialTyping span (target.locatedIn span) value entry).1
    else .empty
  | _, .invalidate span paths, _ =>
    paths.foldl (fun t p => t.invalidate (p.locatedIn span)) .empty
  | _, .call _ name, _ => called table name
  | starter, .sequence parts, entry => (sequel starter parts (.start entry)).result
  | starter, .parallel parts, entry => (Typing.parallel (typings starter parts entry)).1
  | starter, .choice span branches, entry =>
    (Typing.choice span .choice starter (branchTypings starter branches entry)).1
  | starter, .conditional span branches, entry =>
    (Typing.choice span .conditional false (typings starter branches entry)).1
  | starter, .repeated span body, entry => ((typing starter body entry).repeated span).1
  | _, .idle, _ | _, .request _ _, _ => .empty

/-- A sequence that goes on with skeletons. -/
def sequel : Bool → List Skeleton → Sequel → Sequel
  | _, [], s => s
  | starter, x :: rest, s =>
    sequel (starterAfter ctx.execution starter x) rest (s.append (typing starter x s.running))

/-- The typings of skeletons that hand the starter flag on. -/
def typings : Bool → List Skeleton → Typing → List Typing
  | _, [], _ => []
  | starter, x :: rest, entry =>
    typing starter x entry :: typings (starterAfter ctx.execution starter x) rest entry

/-- The typings of skeletons that share the starter flag. -/
def branchTypings : Bool → List Skeleton → Typing → List Typing
  | _, [], _ => []
  | starter, x :: rest, entry => typing starter x entry :: branchTypings starter rest entry

end

/-- What is wrong with a skeleton apart from its parts. -/
def faults (insideInit : Bool) : Bool → Skeleton → Typing → List Violation
  | _, .request span receive, _ => Check.receiveViolations span .answer receive
  | starter, .input span operation receive, _ =>
    if ctx.execution = .single then []
    else
      Check.receiveViolations span .input receive ++
        if !starter && !insideInit && (ctx.keysFor operation span).isEmpty then
          [⟨span, .noCorrelationSet operation⟩]
        else []
  | _, .assign span target value, entry =>
    if target.isStatic then (Check.initialTyping span (target.locatedIn span) value entry).2 else []
  | _, .call span name, _ =>
    if ctx.definitions.contains name then [] else [⟨span, .definitionNotFound name⟩]
  | starter, .sequence parts, entry => (sequel ctx table starter parts (.start entry)).violations
  | starter, .parallel parts, entry => (Typing.parallel (typings ctx table starter parts entry)).2
  | starter, .choice span branches, entry =>
    (Typing.choice span .choice starter (branchTypings ctx table starter branches entry)).2
  | starter, .conditional span branches, entry =>
    (Typing.choice span .conditional false (typings ctx table starter branches entry)).2
  | starter, .repeated span body, entry =>
    ((typing ctx table starter body entry).repeated span).2
  | _, .idle, _ | _, .invalidate _ _, _ => []

/-! ## Lists of parts -/

theorem typings_eq_map (starter : Bool) (parts : List Skeleton) (entry : Typing) :
    typings ctx table starter parts entry =
      (flagged ctx.execution starter parts).map fun x => typing ctx table x.1 x.2 entry := by
  induction parts generalizing starter with
  | nil => rfl
  | cons x rest ih => rw [typings, flagged, List.map_cons, ih]

theorem branchTypings_eq_map (starter : Bool) (branches : List Skeleton) (entry : Typing) :
    branchTypings ctx table starter branches entry =
      branches.map fun x => typing ctx table starter x entry := by
  induction branches with
  | nil => rfl
  | cons x rest ih => rw [branchTypings, List.map_cons, ih]

variable {starter : Bool} {k : Skeleton} {join : List Typing → Typing × List Violation}

/-- A skeleton whose parts share its entry joins their typings. -/
theorem typing_join (hk : join? starter k = some join) (entry : Typing) :
    typing ctx table starter k entry = (join ((children ctx.execution starter k).map fun x =>
      typing ctx table x.1 x.2 entry)).1 := by
  cases k with
  | parallel parts => cases hk; rw [typing, typings_eq_map, children]
  | choice span branches => cases hk; rw [typing, branchTypings_eq_map, children, List.map_map]; rfl
  | conditional span branches => cases hk; rw [typing, typings_eq_map, children]
  | _ => cases hk

/-- What is wrong with it is what is wrong with the join. -/
theorem faults_join (hk : join? starter k = some join) (insideInit : Bool) (entry : Typing) :
    faults ctx table insideInit starter k entry =
      (join ((children ctx.execution starter k).map fun x =>
        typing ctx table x.1 x.2 entry)).2 := by
  cases k with
  | parallel parts => cases hk; rw [faults, typings_eq_map, children]
  | choice span branches => cases hk; rw [faults, branchTypings_eq_map, children, List.map_map]; rfl
  | conditional span branches => cases hk; rw [faults, typings_eq_map, children]
  | _ => cases hk

end Judgement

/-! ## Joins -/

section Join

variable {starter : Bool} {k : Skeleton} {join : List Typing → Typing × List Violation}

/-- A join of parts keeps to the kinds. -/
theorem sorted_join (hk : join? starter k = some join) {ts : List Typing}
    (h : ∀ t ∈ ts, t.Sorted) : (join ts).1.Sorted := by
  cases k with
  | parallel => cases hk; exact Typing.Sorted.parallel h
  | choice => cases hk; exact Typing.Sorted.alternatives h starter
  | conditional => cases hk; exact Typing.Sorted.alternatives h false
  | _ => cases hk

/-- The steady part of a join, and what is reported of it, are told by the steady parts of the
typings. -/
theorem join_congr (hk : join? starter k = some join) {ts us : List Typing}
    (h : ts.map Typing.steady = us.map Typing.steady) :
    (join ts).1.steady = (join us).1.steady ∧ (join ts).2 = (join us).2 := by
  cases k with
  | parallel => cases hk; exact Typing.parallel_congr h
  | choice | conditional => cases hk; exact Typing.choice_congr h
  | _ => cases hk

end Join

/-! ## Kinds of paths -/

section Sorted

variable (ctx : Context) {table : NameTable Typing}

theorem sorted_inputTyping (keys : List Path) (starter : Bool) :
    (Check.inputTyping keys starter).Sorted := by
  refine foldl_induction Typing.sorted_empty fun t p _ ht => ?_
  cases starter with
  | true => exact ht.provide p true
  | false => exact ht.need p

theorem sorted_initialTyping (span : Span) (target : Path) (value : Initializer) (entry : Typing) :
    (Check.initialTyping span target value entry).1.Sorted := by
  unfold Check.initialTyping
  cases value with
  | constant => exact Typing.sorted_empty.provide target false
  | fresh => exact Typing.sorted_empty.provide target true
  | update path =>
    dsimp only
    split
    · exact Typing.sorted_empty
    · exact Typing.sorted_empty.provide target false
  | copy source =>
    dsimp only
    split
    · split
      · exact Typing.sorted_empty.provide target false
      · split
        · exact (Typing.sorted_empty.need _).provide target false
        · exact Typing.sorted_empty
    · exact Typing.sorted_empty
  | other => exact Typing.sorted_empty

variable {ctx}

/-- A sequence keeps to the kinds if its parts do. -/
theorem sorted_sequel {starter : Bool} {parts : List Skeleton}
    (h : ∀ x ∈ flagged ctx.execution starter parts, ∀ entry,
      (typing ctx table x.1 x.2 entry).Sorted) {s : Sequel} (hs : s.result.Sorted) :
    (sequel ctx table starter parts s).result.Sorted := by
  induction parts generalizing starter s with
  | nil => exact hs
  | cons x rest ih =>
    rw [sequel]
    exact ih (fun y hy => h y (List.mem_cons_of_mem _ hy))
      (Sequel.sorted_result_append hs (h (starter, x) List.mem_cons_self s.running))

/-- A typing keeps correlation variables and data apart, if the typings of its calls do. -/
theorem sorted_typing_of_calls {starter : Bool} {k : Skeleton} {entry : Typing}
    (h : ∀ x ∈ visited ctx.execution starter k, ∀ span name, x.2 = .call span name →
      (called table name).Sorted) : (typing ctx table starter k entry).Sorted := by
  induction starter, k using induction_children ctx.execution generalizing entry with
  | step starter k ih =>
    have hchildren : ∀ c ∈ children ctx.execution starter k, ∀ entry,
        (typing ctx table c.1 c.2 entry).Sorted :=
      fun c hc entry => ih c hc fun x hx => h x (mem_visited_of_child hc hx)
    have hjoin : ∀ join, join? starter k = some join →
        (typing ctx table starter k entry).Sorted := by
      intro join hk
      rw [typing_join ctx table hk]
      exact sorted_join hk (List.forall_mem_map.mpr fun c hc => hchildren c hc entry)
    cases k with
    | idle | request => rw [typing]; exact Typing.sorted_empty
    | input span operation receive =>
      rw [typing]
      split
      · exact Typing.sorted_empty
      · exact (sorted_inputTyping _ starter).noteInput operation starter
    | assign span target value =>
      rw [typing]
      split
      · exact sorted_initialTyping span _ value entry
      · exact Typing.sorted_empty
    | invalidate span paths =>
      rw [typing]
      exact foldl_induction (P := Typing.Sorted) Typing.sorted_empty
        fun _ p _ h => h.invalidate (p.locatedIn span)
    | call span name =>
      rw [typing]
      exact h _ (mem_visited_self _ _ _) span name rfl
    | sequence parts =>
      rw [typing]
      exact sorted_sequel hchildren Typing.sorted_empty
    | parallel | choice | conditional => exact hjoin _ rfl
    | repeated span body =>
      rw [typing]
      exact (hchildren (starter, body) (List.mem_singleton_self _) entry).repeated span

variable (ctx)

/-- Typings keep correlation variables and data apart. -/
theorem sorted_typing (htable : SortedTable table) (starter : Bool) (k : Skeleton)
    (entry : Typing) : (typing ctx table starter k entry).Sorted :=
  sorted_typing_of_calls fun _ _ _ name _ => htable name

end Sorted

/-! ## Independence of the entry -/

section Entry

variable {ctx : Context} {table : NameTable Typing}

theorem steady_provide {t u : Typing} (h : t.steady = u.steady) (p : Path) (fresh : Bool) :
    (t.provide p fresh).steady = (u.provide p fresh).steady := by
  simp only [Typing.steady, Typing.inputs, Prod.mk.injEq] at h
  rw [Typing.provide, Typing.provide]
  split
  · simp only [Typing.steady, Typing.inputs, h]
  · simp only [Typing.steady, Typing.inputs, h]

/-- The steady part of an initialisation is the same from every entry.  A copy provides its target,
or the target is data and has no part in it. -/
theorem initialTyping_congr (span : Span) (target : Path) (value : Initializer)
    (entry other : Typing) :
    (Check.initialTyping span target value entry).1.steady =
        (Check.initialTyping span target value other).1.steady ∧
      (Check.initialTyping span target value entry).2 =
        (Check.initialTyping span target value other).2 := by
  unfold Check.initialTyping
  cases value with
  | copy source =>
    have hcopy : ∀ entry : Typing,
        let copied :=
          if entry.provides source.location then (Typing.empty.provide target false, [])
          else if target.isCorrelation then
            ((Typing.empty.need (source.locatedIn span)).provide target false,
              ([] : List Violation))
          else (.empty, [])
        copied.1.steady = (Typing.empty.provide target false).steady ∧ copied.2 = [] := by
      intro entry
      dsimp only
      split
      · exact ⟨rfl, rfl⟩
      · split
        · exact ⟨steady_provide (Typing.steady_need _ _) target false, rfl⟩
        · next h =>
          exact ⟨(Typing.steady_provide_data _ (eq_false_of_ne_true h) false).symm, rfl⟩
    by_cases hsource : source.isStatic = true
    · simp only [hsource, if_true]
      exact ⟨(hcopy entry).1.trans (hcopy other).1.symm, (hcopy entry).2.trans (hcopy other).2.symm⟩
    · simp only [hsource]
      exact ⟨rfl, rfl⟩
  | _ => exact ⟨rfl, rfl⟩

/-- Sequences that have the same steady part still do after the same parts. -/
theorem sequel_congr (htable : SortedTable table) {starter : Bool} {parts : List Skeleton}
    (h : ∀ x ∈ flagged ctx.execution starter parts, ∀ entry other,
      (typing ctx table x.1 x.2 entry).steady = (typing ctx table x.1 x.2 other).steady)
    (s s' : Sequel) (hresult : s.result.steady = s'.result.steady)
    (hviolations : s.violations = s'.violations) :
    (sequel ctx table starter parts s).result.steady =
        (sequel ctx table starter parts s').result.steady ∧
      (sequel ctx table starter parts s).violations =
        (sequel ctx table starter parts s').violations := by
  induction parts generalizing starter s s' with
  | nil => exact ⟨hresult, hviolations⟩
  | cons x rest ih =>
    have ht := sorted_typing ctx htable starter x s.running
    have ht' := sorted_typing ctx htable starter x s'.running
    have hx := h (starter, x) List.mem_cons_self s.running s'.running
    have hprovided : s.result.providedCorrelation = s'.result.providedCorrelation :=
      congrArg Prod.fst hresult
    have hnext : (typing ctx table starter x s.running).providedCorrelation =
        (typing ctx table starter x s'.running).providedCorrelation := congrArg Prod.fst hx
    have hinputs := congrArg Prod.snd (Typing.steady_noteInputsOf hresult hx)
    rw [sequel, sequel]
    refine ih (fun y hy => h y (List.mem_cons_of_mem _ hy)) _ _ ?_ ?_
    · rw [(Sequel.append_steady s ht).1, (Sequel.append_steady s' ht').1, hprovided, hnext]
      exact congrArg (Prod.mk _) hinputs
    · rw [(Sequel.append_steady s ht).2, (Sequel.append_steady s' ht').2, hprovided, hnext,
        hviolations]

/-- The steady part of a typing does not depend on the entry. -/
theorem steady_typing (htable : SortedTable table) (starter : Bool) (k : Skeleton)
    (entry other : Typing) :
    (typing ctx table starter k entry).steady = (typing ctx table starter k other).steady := by
  induction starter, k using induction_children ctx.execution generalizing entry other with
  | step starter k ih =>
    have hjoin : ∀ join, join? starter k = some join →
        (typing ctx table starter k entry).steady = (typing ctx table starter k other).steady := by
      intro join hk
      rw [typing_join ctx table hk, typing_join ctx table hk]
      refine (join_congr hk ?_).1
      rw [List.map_map, List.map_map]
      exact List.map_congr_left fun c hc => ih c hc entry other
    cases k with
    | assign span target value =>
      rw [typing, typing]
      split
      · exact (initialTyping_congr span _ value entry other).1
      · rfl
    | sequence parts =>
      rw [typing, typing]
      exact (sequel_congr htable ih (.start entry) (.start other) rfl rfl).1
    | parallel | choice | conditional => exact hjoin _ rfl
    | repeated span body =>
      rw [typing, typing]
      exact ih (starter, body) (List.mem_singleton_self _) entry other
    | idle | request | input | invalidate | call => rw [typing, typing]

/-- What is wrong with a skeleton apart from its parts does not depend on the entry. -/
theorem faults_congr (htable : SortedTable table) (insideInit starter : Bool) (k : Skeleton)
    (entry other : Typing) :
    faults ctx table insideInit starter k entry = faults ctx table insideInit starter k other := by
  have hjoin : ∀ join, join? starter k = some join →
      faults ctx table insideInit starter k entry =
        faults ctx table insideInit starter k other := by
    intro join hk
    rw [faults_join ctx table hk, faults_join ctx table hk]
    refine (join_congr hk ?_).2
    rw [List.map_map, List.map_map]
    exact List.map_congr_left fun c _ => steady_typing htable c.1 c.2 entry other
  cases k with
  | assign span target value =>
    rw [faults, faults]
    split
    · exact (initialTyping_congr span _ value entry other).2
    · rfl
  | sequence parts =>
    exact (sequel_congr htable (fun x _ => steady_typing htable x.1 x.2) (.start entry)
      (.start other) rfl rfl).2
  | parallel | choice | conditional => exact hjoin _ rfl
  | repeated span body =>
    have hprovided : (typing ctx table starter body entry).providedCorrelation =
        (typing ctx table starter body other).providedCorrelation :=
      congrArg Prod.fst (steady_typing htable starter body entry other)
    rw [faults, faults, Typing.repeated, Typing.repeated, hprovided]
  | idle | request | input | invalidate | call => rw [faults, faults]

end Entry

end Skeleton

end Correlation
