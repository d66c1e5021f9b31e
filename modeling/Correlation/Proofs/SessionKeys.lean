import Correlation.Proofs.DoubleDefinition
import Correlation.Proofs.Initialisation

/-!
# The keys of a session

What a session of a valid program does with its keys.

* When an input of a running session comes, the variables of the set that routes it have a value,
  and one of them a fresh value (`defined_of_input`).
* A session gives a value exactly to the variables that its typing provides, to each of them once,
  and as fresh as the typing says (`defines_once_of_valid`).

Both hold as far as the branches of a choice that may start the session agree on the variables.
Such a choice may define other keys in every branch, and the typing of the session takes them
together.  So after it an input may find a key without a value, or one without a fresh value
(`not_defined_of_input`).
-/

namespace Correlation

open Skeleton

/-! ## Valid programs -/

namespace Program

variable {program : Program} {mode : Option ExecutionMode}

section Valid

variable (hvalid : (program.check mode).isValid = true)

include hvalid

theorem violations_of_valid : (program.check mode).violations = [] := List.isEmpty_iff.mp hvalid

/-- Nothing is reported of a valid program. -/
theorem not_mem_causes_of_valid (cause : Violation.Cause) :
    cause ∉ (program.check mode).causes := by
  rw [Verdict.causes, violations_of_valid hvalid]
  exact List.not_mem_nil

/-- The typings of a valid program are settled. -/
theorem settled_of_valid : (program.context mode).Settled (program.check mode).typings :=
  settled_check fun _ => not_mem_causes_of_valid hvalid _

/-- A valid program has a main definition. -/
theorem exists_main_of_valid : ∃ d, (program.context mode).definitions.find? mainName = some d := by
  refine Context.find?_of_mem_keys ?_
  by_contra hmain
  have hnone := (settled_of_valid hvalid).undeclared mainName hmain
  refine not_mem_causes_of_valid hvalid .mainNotFound
    (List.mem_map.mpr ⟨⟨Span.atLine program.file 1, .mainNotFound⟩, ?_, rfl⟩)
  refine (mem_violations_check fun _ => not_mem_causes_of_valid hvalid _).mpr (Or.inr (Or.inr ?_))
  rw [Verdict.ofTypings, hnone]
  exact List.mem_singleton_self _

/-- The session and its violations are those of the typings. -/
theorem ofTypings_of_valid :
    (program.check mode).session = some (sessionOf (program.check mode).typings) ∧
      Verdict.freshnessViolations (program.context mode).routing.sets.toList
        (sessionOf (program.check mode).typings) = [] := by
  obtain ⟨d, hd⟩ := exists_main_of_valid hvalid
  have hmain := (settled_of_valid hvalid).get?_of_find? hd
  have hfound := Verdict.ofTypings_of_main program.file (program.context mode).routing hmain
  refine ⟨congrArg Prod.fst hfound, ?_⟩
  have hnone := List.append_eq_nil_iff.mp (violations_of_valid hvalid)
  have hempty := (congrArg Prod.snd hfound).symm.trans hnone.2
  exact (List.append_eq_nil_iff.mp hempty).2

/-- In a valid program all declared sets take part in the routing. -/
theorem sets_of_valid :
    (program.context mode).routing.sets.toList = program.correlationSets := by
  refine Routing.sets_ofSets (List.eq_nil_iff_forall_not_mem.mpr fun v hv => ?_)
  have hmem : v ∈ (program.check mode).violations :=
    (mem_violations_check fun _ => not_mem_causes_of_valid hvalid _).mpr (Or.inl hv)
  exact not_mem_causes_of_valid hvalid v.cause (List.mem_map_of_mem hmem)

/-- A set of which a variable is provided has a variable that is provided fresh. -/
theorem exists_fresh_of_valid {set : CorrelationSet}
    (hset : set ∈ (program.context mode).routing.sets.toList) {v : CorrelationVariable}
    (hv : v ∈ set.members) (hprovided : v.path.location.underRoot ∈
      (sessionOf (program.check mode).typings).providedCorrelation.keys) :
    ∃ w ∈ set.members, (sessionOf (program.check mode).typings).providedCorrelation.freshness
      w.path.location.underRoot = some true := by
  have hfresh : Verdict.hasFreshValue set (sessionOf (program.check mode).typings) = true := by
    by_contra hmissing
    have hmem : set ∈ (program.context mode).routing.sets.toList.filter fun set =>
        !Verdict.hasFreshValue set (sessionOf (program.check mode).typings) :=
      List.mem_filter.mpr ⟨hset, by rw [eq_false_of_ne_true hmissing]; rfl⟩
    have hnone := List.map_eq_nil_iff.mp (ofTypings_of_valid hvalid).2
    rw [hnone] at hmem
    cases hmem
  rw [Verdict.hasFreshValue, Bool.or_eq_true, List.any_eq_true] at hfresh
  rcases hfresh with ⟨p, hp, hfresh⟩ | hempty
  · obtain ⟨w, hw, hfind⟩ := List.mem_filterMap.mp hp
    exact ⟨w, hw, by rw [ProvidedSet.freshness, hfind, Option.map_some, hfresh]⟩
  · obtain ⟨fresh, hsome⟩ := ProvidedSet.exists_freshness hprovided
    obtain ⟨p, hfind, _⟩ := Option.map_eq_some_iff.mp hsome
    have hp : p ∈ set.members.filterMap fun v =>
        (sessionOf (program.check mode).typings).providedCorrelation.find?
          v.path.location.underRoot := List.mem_filterMap.mpr ⟨v, hv, hfind⟩
    rw [List.isEmpty_iff.mp hempty] at hp
    cases hp

end Valid

end Program

/-! ## What sessions define -/

namespace Context.Settled

variable {ctx : Context} {table : NameTable Typing} {l : Location} {t : List Event} {e : Event}
  (h : ctx.Settled table)

include h

/-- A session provides what `init` or `main` grants. -/
theorem mem_keys_sessionOf : l ∈ (sessionOf table).providedCorrelation.keys ↔
    grants ctx table l initCall = true ∨ grants ctx table l mainCall = true := by
  rw [h.provided_sessionOf, OrderedSet.mem_keys_union, grants, grants,
    OrderedSet.contains_iff_mem_keys, OrderedSet.contains_iff_mem_keys]

/-- What an event of a session needs has a value before, if the typing of the session needs it not.
-/
theorem exists_before_of_needs {d : Definition} (hd : ctx.definitions.find? mainName = some d)
    (hQ : ctx.Throughout fun x => Agreed ctx (grants ctx table l) x ∧ Loopless ctx table l x)
    (hopen : l ∉ (sessionOf table).neededKeys) {before after : List Event}
    (hsession : ctx.Session (before ++ e :: after)) (hneeds : e.needs ctx l = true) :
    ∃ b ∈ before, b.defines ctx l = true := by
  by_contra hnone
  refine hopen (h.mem_neededKeys_of_session hd hQ hsession ?_)
  refine meetsBefore_iff_exists.mpr ⟨before, e, after, rfl, hneeds, fun b hb hdefines => ?_⟩
  exact hnone ⟨b, hb, hdefines⟩

variable (hboth : ¬ (grants ctx table l initCall = true ∧ grants ctx table l mainCall = true))

include hboth

/-- A value in a session is as fresh as the typing says. -/
theorem freshness_of_session
    (hQ : ctx.Throughout fun x => Lone ctx table l x ∧
      Agreed ctx (fun x => (provided ctx table x).freshness l) x)
    (hsession : ctx.Session t) {fresh : Bool} (he : e ∈ t)
    (hfresh : e.freshness ctx l = some fresh) :
    (sessionOf table).providedCorrelation.freshness l = some fresh := by
  obtain ⟨init, main, hinit, hmain, rfl⟩ := hsession
  rw [h.freshness_sessionOf]
  rcases List.mem_append.mp he with he | he
  · rw [h.freshness_of_run (x := initCall) hQ hinit (forall_visited_call ⟨by nofun, by nofun⟩) he
      hfresh]
    rfl
  · have hvalue := h.freshness_of_run (x := mainCall) hQ hmain
      (forall_visited_call ⟨by nofun, by nofun⟩) he hfresh
    have hgrants : grants ctx table l mainCall = true := by rw [grants_eq_isSome, hvalue]; rfl
    have hnone : (provided ctx table initCall).freshness l = none := by
      rw [← Option.isNone_iff_eq_none, ← Option.not_isSome, ← grants_eq_isSome,
        eq_false_of_ne_true fun hinit => hboth ⟨hinit, hgrants⟩]
      rfl
    rw [hnone, hvalue]
    rfl

/-- A session gives a value to what its typing provides, and to nothing else, exactly once. -/
theorem countP_session_eq
    (hlone : ctx.Throughout fun x => Lone ctx table l x ∧ Loopless ctx table l x)
    (hagreed : ctx.Throughout fun x => Agreed ctx (grants ctx table l) x ∧ Loopless ctx table l x)
    (hsession : ctx.Session t) : t.countP (Event.defines ctx l) =
      if l ∈ (sessionOf table).providedCorrelation.keys then 1 else 0 := by
  have hle := h.countP_session_le hlone hsession
  obtain ⟨init, main, hinit, hmain, rfl⟩ := hsession
  have hpos : grants ctx table l initCall = true ∨ grants ctx table l mainCall = true →
      0 < (init ++ main).countP (Event.defines ctx l) := by
    rw [List.countP_pos_iff]
    rintro (hgrants | hgrants)
    · obtain ⟨e, he, hdefines⟩ := h.exists_of_run (x := initCall) hagreed hinit
        (forall_visited_call ⟨by nofun, by nofun⟩) hgrants
      exact ⟨e, List.mem_append_left _ he, hdefines⟩
    · obtain ⟨e, he, hdefines⟩ := h.exists_of_run (x := mainCall) hagreed hmain
        (forall_visited_call ⟨by nofun, by nofun⟩) hgrants
      exact ⟨e, List.mem_append_right _ he, hdefines⟩
  by_cases hl : l ∈ (sessionOf table).providedCorrelation.keys
  · rw [if_pos hl]
    exact Nat.le_antisymm (Nat.le_trans hle (toNat_add_le hboth))
      (hpos (h.mem_keys_sessionOf.mp hl))
  · rw [if_neg hl]
    have hnone := not_or.mp (mt h.mem_keys_sessionOf.mpr hl)
    rw [eq_false_of_ne_true hnone.1, eq_false_of_ne_true hnone.2] at hle
    exact Nat.le_zero.mp hle

end Context.Settled

/-! ## Sessions of valid programs -/

/-- What looks the same in all branches does so in any respect. -/
theorem Context.StartsAgree.map {β γ : Type} {ctx : Context} {view : Bool × Skeleton → β}
    (h : ctx.StartsAgree view) (f : β → γ) : ctx.StartsAgree fun x => f (view x) :=
  fun d hd x hx a ha b hb => congrArg f (h d hd x hx a ha b hb)

/-- Where the branches agree on what they make fresh, they agree on what they provide. -/
theorem Context.StartsAgree.grants {ctx : Context} {table : NameTable Typing} {l : Location}
    (h : ctx.StartsAgree fun x => (provided ctx table x).freshness l) :
    ctx.StartsAgree (Skeleton.grants ctx table l) := by
  rw [funext (grants_eq_isSome l)]
  exact h.map Option.isSome

section Valid

variable {program : Program} {mode : Option ExecutionMode}
  (hvalid : (program.check mode).isValid = true) (l : Location)

include hvalid

/-- In a valid program no two parts of a run provide the same variable. -/
theorem Program.clash_free_of_valid :
    (program.context mode).Throughout (fun x =>
      Lone (program.context mode) (program.check mode).typings l x ∧
        Loopless (program.context mode) (program.check mode).typings l x) ∧
      ¬ (grants (program.context mode) (program.check mode).typings l initCall = true ∧
        grants (program.context mode) (program.check mode).typings l mainCall = true) := by
  have hacyclic := fun names => Program.not_mem_causes_of_valid hvalid (.definitionCycle names)
  have hclash : ¬ ∃ path : Path, path.location = l ∧
      .definedMoreThanOnce path ∈ (program.check mode).causes := by
    rintro ⟨path, _, hcause⟩
    exact Program.not_mem_causes_of_valid hvalid _ hcause
  rw [Program.exists_clash_check hacyclic, not_or] at hclash
  refine ⟨fun d hd x hx => ⟨?_, ?_⟩, hclash.2⟩
  · by_contra hlone
    exact hclash.1 ⟨d, hd, x, hx, hlone⟩
  · exact Program.loopless_of_check hacyclic
      (fun _ => Program.not_mem_causes_of_valid hvalid _) l d hd x hx

theorem Program.agreed_of_valid
    (hstarts : (program.context mode).StartsAgree
      (grants (program.context mode) (program.check mode).typings l)) :
    (program.context mode).Throughout fun x =>
      Agreed (program.context mode)
        (grants (program.context mode) (program.check mode).typings l) x ∧
          Loopless (program.context mode) (program.check mode).typings l x := by
  intro d hd x hx
  refine ⟨?_, ((Program.clash_free_of_valid hvalid l).1 d hd x hx).2⟩
  exact Program.agreed_of_check (fun _ => Program.not_mem_causes_of_valid hvalid _)
    (fun _ _ => Program.not_mem_causes_of_valid hvalid _) hstarts d hd x hx

theorem Program.fresh_of_valid
    (hstarts : (program.context mode).StartsAgree fun x =>
      (provided (program.context mode) (program.check mode).typings x).freshness l) :
    (program.context mode).Throughout fun x =>
      Lone (program.context mode) (program.check mode).typings l x ∧
        Agreed (program.context mode) (fun x =>
          (provided (program.context mode) (program.check mode).typings x).freshness l) x := by
  intro d hd x hx
  refine ⟨((Program.clash_free_of_valid hvalid l).1 d hd x hx).1, ?_⟩
  exact Program.agreed_freshness_of_check (fun _ => Program.not_mem_causes_of_valid hvalid _)
    (fun _ _ => Program.not_mem_causes_of_valid hvalid _)
    (fun _ => Program.not_mem_causes_of_valid hvalid _) hstarts d hd x hx

/-- What an event of a session needs has a value before. -/
theorem Program.exists_before_of_valid
    (hstarts : (program.context mode).StartsAgree
      (grants (program.context mode) (program.check mode).typings l))
    {before after : List Event} {e : Event}
    (hsession : (program.context mode).Session (before ++ e :: after))
    (hneeds : e.needs (program.context mode) l = true) :
    ∃ b ∈ before, b.defines (program.context mode) l = true := by
  obtain ⟨d, hd⟩ := Program.exists_main_of_valid hvalid
  refine (Program.settled_of_valid hvalid).exists_before_of_needs hd
    (Program.agreed_of_valid hvalid l hstarts) (fun hneed => ?_) hsession hneeds
  obtain ⟨path, _, hcause⟩ := (Program.exists_need_check
    (fun _ => Program.not_mem_causes_of_valid hvalid _) hd l).mpr hneed
  exact Program.not_mem_causes_of_valid hvalid _ hcause

variable (hstarts : (program.context mode).StartsAgree fun x =>
  (provided (program.context mode) (program.check mode).typings x).freshness l)
  {t : List Event} (hsession : (program.context mode).Session t)

include hstarts hsession

/-- A session gives a value exactly to the variables that its typing provides, to each once. -/
theorem Program.countP_session_of_valid : t.countP (Event.defines (program.context mode) l) =
    if l ∈ (sessionOf (program.check mode).typings).providedCorrelation.keys then 1 else 0 := by
  obtain ⟨hlone, hboth⟩ := Program.clash_free_of_valid hvalid l
  exact (Program.settled_of_valid hvalid).countP_session_eq hboth hlone
    (Program.agreed_of_valid hvalid l hstarts.grants) hsession

/-- The value is as fresh as the typing of the session says. -/
theorem Program.freshness_session_of_valid {e : Event} (he : e ∈ t)
    (hdefines : e.defines (program.context mode) l = true) :
    e.freshness (program.context mode) l =
      (sessionOf (program.check mode).typings).providedCorrelation.freshness l := by
  obtain ⟨fresh, hvalue⟩ := Option.isSome_iff_exists.mp hdefines
  rw [hvalue, (Program.settled_of_valid hvalid).freshness_of_session
    (Program.clash_free_of_valid hvalid l).2 (Program.fresh_of_valid hvalid l hstarts) hsession he
    hvalue]

end Valid

/-- When an input of a running session comes, the variables of the set that routes it have a value,
as far as the branches of choices that may start the session agree on them.  One of the values is
fresh if the branches agree on that, too. -/
theorem defined_of_input (program : Program) (mode : Option ExecutionMode)
    (hvalid : (program.check mode).isValid = true)
    (hmode : (program.context mode).execution ≠ .single) {before after : List Event}
    {operation : String}
    (hsession : (program.context mode).Session (before ++ .input operation false :: after))
    {set : CorrelationSet} (hset : (program.context mode).routing.setFor operation = some set) :
    (∀ v ∈ set.members,
      (program.context mode).StartsAgree (grants (program.context mode)
        (program.check mode).typings v.path.location.underRoot) →
      ∃ e ∈ before, e.defines (program.context mode) v.path.location.underRoot = true) ∧
    ((∀ v ∈ set.members, (program.context mode).StartsAgree fun x =>
        (provided (program.context mode) (program.check mode).typings x).freshness
          v.path.location.underRoot) →
      ∃ v ∈ set.members, ∃ e ∈ before,
        e.freshness (program.context mode) v.path.location.underRoot = some true) := by
  have hdefined : ∀ v ∈ set.members,
      (program.context mode).StartsAgree (grants (program.context mode)
        (program.check mode).typings v.path.location.underRoot) →
      ∃ e ∈ before, e.defines (program.context mode) v.path.location.underRoot = true := by
    intro v hv hstarts
    refine Program.exists_before_of_valid hvalid _ hstarts hsession ?_
    rw [Event.needs, decide_eq_false hmode, Context.routes, hset]
    exact List.any_eq_true.mpr ⟨v, hv, decide_eq_true rfl⟩
  refine ⟨hdefined, fun hstarts => ?_⟩
  have hfresh : ∀ v ∈ set.members, ∀ e ∈ before,
      e.defines (program.context mode) v.path.location.underRoot = true →
        e.freshness (program.context mode) v.path.location.underRoot =
          (sessionOf (program.check mode).typings).providedCorrelation.freshness
            v.path.location.underRoot := by
    intro v hv e he hdefines
    exact Program.freshness_session_of_valid hvalid _ (hstarts v hv) hsession
      (List.mem_append_left _ he) hdefines
  obtain ⟨hsets, hmembers⟩ := Routing.members_of_setFor hset
  obtain ⟨v, hv⟩ := List.exists_mem_of_ne_nil _ hmembers
  obtain ⟨e, he, hdefines⟩ := hdefined v hv (hstarts v hv).grants
  obtain ⟨fresh, hvalue⟩ := Option.isSome_iff_exists.mp hdefines
  obtain ⟨w, hw, hwfresh⟩ := Program.exists_fresh_of_valid hvalid hsets hv
    (ProvidedSet.mem_keys_of_freshness ((hfresh v hv e he hdefines).symm.trans hvalue))
  obtain ⟨e', he', hdefines'⟩ := hdefined w hw (hstarts w hw).grants
  exact ⟨w, hw, e', he', (hfresh w hw e' he' hdefines').trans hwfresh⟩

/-- A session that starts with a login gets a fresh key.  One that starts with a registration does
something else instead. -/
def twoStarters (other : Statement) : Program :=
  sampleProgram [("main", .sequence .unknown
    [.choice .unknown
      [⟨.oneWay .unknown "login" none, .assign .unknown sampleKey .fresh⟩,
        ⟨.oneWay .unknown "register" none, other⟩],
      .oneWay .unknown "checkout" none])]

/-- A session that starts with a registration. -/
theorem session_twoStarters (other : Statement) {e : Event}
    (he : other.skeleton.event false = some e) :
    ((twoStarters other).context none).Session
      ([.input "register" true, e] ++ .input "checkout" false :: []) := by
  have hsecond : Run ((twoStarters other).context none) true
      (.sequence [.input .unknown "register" none, other.skeleton]) [.input "register" true, e] :=
    @Run.sequence _ _ _ [[.input "register" true], [e]]
      (.cons (.leaf rfl) (.cons (.leaf he) .nil))
  have hbody : Run ((twoStarters other).context none) true
      (.sequence [.choice .unknown
        [.sequence [.input .unknown "login" none, .assign .unknown sampleKey .fresh],
          .sequence [.input .unknown "register" none, other.skeleton]],
        .input .unknown "checkout" none])
      ([.input "register" true, e] ++ .input "checkout" false :: []) :=
    @Run.sequence _ _ _ [[.input "register" true, e], [.input "checkout" false]]
      (.cons (.choice (by simp) hsecond) (.cons (.leaf rfl) .nil))
  exact ⟨[], _, .undeclared rfl, .call rfl hbody, rfl⟩

/-- The only variable of the correlation set in `twoStarters`. -/
def sessionVariable : CorrelationVariable :=
  let sid : Path := ⟨⟨false, [.named "sid"]⟩, .unknown⟩
  ⟨sid, [⟨"checkout", sid⟩]⟩

theorem setFor_twoStarters (other : Statement) :
    ((twoStarters other).context none).routing.setFor "checkout" =
      some ⟨.unknown, "session", [sessionVariable]⟩ := rfl

/-- Without agreement an input may come before the key that routes it has a value.  If the branches
agree on the keys alone, the key may have a value that is not fresh. -/
theorem not_defined_of_input :
    (¬ ∀ (program : Program) (mode : Option ExecutionMode), (program.check mode).isValid = true →
      (program.context mode).execution ≠ .single →
      ∀ (before after : List Event) (operation : String) (set : CorrelationSet),
        (program.context mode).Session (before ++ .input operation false :: after) →
        (program.context mode).routing.setFor operation = some set →
        ∀ v ∈ set.members, ∃ e ∈ before,
          e.defines (program.context mode) v.path.location.underRoot = true) ∧
    ¬ ∀ (program : Program) (mode : Option ExecutionMode), (program.check mode).isValid = true →
      (program.context mode).execution ≠ .single →
      ∀ (before after : List Event) (operation : String) (set : CorrelationSet),
        (program.context mode).Session (before ++ .input operation false :: after) →
        (program.context mode).routing.setFor operation = some set →
        (∀ v ∈ set.members, (program.context mode).StartsAgree (grants (program.context mode)
          (program.check mode).typings v.path.location.underRoot)) →
        ∃ v ∈ set.members, ∃ e ∈ before,
          e.freshness (program.context mode) v.path.location.underRoot = some true := by
  constructor
  · intro h
    have hdefined := h (twoStarters (.nothing .unknown)) none (by decide +kernel)
      (by decide +kernel) [.input "register" true, .silent] [] "checkout" _
      (session_twoStarters _ rfl) (setFor_twoStarters _) sessionVariable (List.mem_singleton_self _)
    revert hdefined
    decide +kernel
  · intro h
    have hfresh := h (twoStarters (.assign .unknown sampleKey (.int 1))) none (by decide +kernel)
      (by decide +kernel) [.input "register" true, .assign sampleKey .constant] [] "checkout" _
      (session_twoStarters _ rfl) (setFor_twoStarters _) (by decide +kernel)
    revert hfresh
    decide +kernel

/-- If all sessions of `twoStarters` start with a fresh key, a checkout finds it. -/
theorem defined_twoStarters :
    (∃ e ∈ [Event.input "register" true, .assign sampleKey .fresh],
      e.defines ((twoStarters (.assign .unknown sampleKey .fresh)).context none)
        sampleKey.location = true) ∧
    ∃ e ∈ [Event.input "register" true, .assign sampleKey .fresh],
      e.freshness ((twoStarters (.assign .unknown sampleKey .fresh)).context none)
        sampleKey.location = some true := by
  obtain ⟨hdefined, hfresh⟩ := defined_of_input (twoStarters (.assign .unknown sampleKey .fresh))
    none (by decide +kernel) (by decide +kernel) (session_twoStarters _ rfl) (setFor_twoStarters _)
  refine ⟨hdefined sessionVariable (List.mem_singleton_self _) (by decide +kernel), ?_⟩
  obtain ⟨v, hv, hvalue⟩ := hfresh (by decide +kernel)
  rwa [List.mem_singleton.mp hv] at hvalue

/-- A session of a valid program gives a value exactly to the variables that its typing provides, to
each once and as fresh as the typing says.  So a correlation set of which a variable gets a value in
some session has a variable that gets a fresh value in every session. -/
theorem defines_once_of_valid (program : Program) (mode : Option ExecutionMode)
    (hvalid : (program.check mode).isValid = true)
    (hstarts : ∀ l, (program.context mode).StartsAgree fun x =>
      (provided (program.context mode) (program.check mode).typings x).freshness l) :
    ∃ session, (program.check mode).session = some session ∧
      (∀ t, (program.context mode).Session t →
        (∀ l, t.countP (Event.defines (program.context mode) l) =
          if l ∈ session.providedCorrelation.keys then 1 else 0) ∧
        ∀ p ∈ session.providedCorrelation.toList, ∀ e ∈ t,
          e.defines (program.context mode) p.location = true →
            e.freshness (program.context mode) p.location = some p.fresh) ∧
      ∀ set ∈ program.correlationSets, ∀ v ∈ set.members,
        (∃ t, (program.context mode).Session t ∧
          ∃ e ∈ t, e.defines (program.context mode) v.path.location.underRoot = true) →
        ∃ w ∈ set.members, ∀ t, (program.context mode).Session t →
          ∃ e ∈ t, e.freshness (program.context mode) w.path.location.underRoot = some true := by
  have hcount {t : List Event} (hsession : (program.context mode).Session t) (l : Location) :=
    Program.countP_session_of_valid hvalid l (hstarts l) hsession
  refine ⟨_, (Program.ofTypings_of_valid hvalid).1, fun t hsession => ⟨hcount hsession, ?_⟩, ?_⟩
  · intro p hp e he hdefines
    have hfind := OrderedSet.find?_eq_some_iff.mpr ⟨hp, rfl⟩
    rw [Program.freshness_session_of_valid hvalid _ (hstarts _) hsession he hdefines,
      ProvidedSet.freshness, hfind]
    rfl
  · rintro set hset v hv ⟨t, hsession, e, he, hdefines⟩
    have hprovided : v.path.location.underRoot ∈
        (sessionOf (program.check mode).typings).providedCorrelation.keys := by
      by_contra hmissing
      have hzero := hcount hsession v.path.location.underRoot
      rw [if_neg hmissing] at hzero
      exact List.countP_eq_zero.mp hzero e he hdefines
    have hsets : set ∈ (program.context mode).routing.sets.toList :=
      (Program.sets_of_valid hvalid).symm ▸ hset
    obtain ⟨w, hw, hwfresh⟩ := Program.exists_fresh_of_valid hvalid hsets hv hprovided
    refine ⟨w, hw, fun u hu => ?_⟩
    have hone := hcount hu w.path.location.underRoot
    rw [if_pos (ProvidedSet.mem_keys_of_freshness hwfresh)] at hone
    obtain ⟨e, he, hdefines⟩ :=
      List.countP_pos_iff.mp (Nat.lt_of_lt_of_eq Nat.zero_lt_one hone.symm)
    refine ⟨e, he, ?_⟩
    rw [Program.freshness_session_of_valid hvalid _ (hstarts _) hu he hdefines, hwfresh]

/-- The session of `twoStarters` that starts with a registration defines its key once, with a fresh
value. -/
theorem defines_once_twoStarters :
    [Event.input "register" true, .assign sampleKey .fresh, .input "checkout" false].countP
        (Event.defines ((twoStarters (.assign .unknown sampleKey .fresh)).context none)
          sampleKey.location) = 1 ∧
      ∃ e ∈ [Event.input "register" true, .assign sampleKey .fresh, .input "checkout" false],
        e.freshness ((twoStarters (.assign .unknown sampleKey .fresh)).context none)
          sampleKey.location = some true := by
  have hagree : ((twoStarters (.assign .unknown sampleKey .fresh)).context none).StartsAgree
      (provided ((twoStarters (.assign .unknown sampleKey .fresh)).context none)
        ((twoStarters (.assign .unknown sampleKey .fresh)).check none).typings) := by
    decide +kernel
  have hkeys : ((twoStarters (.assign .unknown sampleKey .fresh)).check none).session.map
      (fun s => s.providedCorrelation.keys) = some [sampleKey.location] := by decide +kernel
  have hrun := session_twoStarters (.assign .unknown sampleKey .fresh) rfl
  obtain ⟨session, hsession, honce, hsets⟩ := defines_once_of_valid
    (twoStarters (.assign .unknown sampleKey .fresh)) none (by decide +kernel)
    fun l => hagree.map fun s => s.freshness l
  rw [hsession, Option.map_some, Option.some.injEq] at hkeys
  have hone := (honce _ hrun).1 sampleKey.location
  rw [hkeys, if_pos (List.mem_singleton_self _)] at hone
  obtain ⟨e, he, hdefines⟩ := List.countP_pos_iff.mp (Nat.lt_of_lt_of_eq Nat.zero_lt_one hone.symm)
  obtain ⟨w, hw, hfresh⟩ := hsets _ (List.mem_singleton_self _) sessionVariable
    (List.mem_singleton_self _) ⟨_, hrun, e, he, hdefines⟩
  refine ⟨hone, ?_⟩
  obtain rfl := List.mem_singleton.mp hw
  exact hfresh _ hrun

end Correlation
