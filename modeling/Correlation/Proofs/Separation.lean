import Correlation.Proofs.Entries
import Correlation.Proofs.Running
import Correlation.Proofs.Verdicts

/-!
# Correlation variables are kept

Correlation variables and data are kept apart in all typings that a check comes to, also in that of
a session (`sorted_sessionTyping`).  Nothing that is done to data reaches a correlation variable
then, and what a sequence has provided of correlation variables stays as it is: a later statement
neither takes a variable away nor changes its freshness, and a second definition is left out.

`Sequel.Keeps` says this of two points of a sequence.  One more check keeps what the sequence has
provided at the front of what it provides (`Check.prefix_foldl`), and the running typing follows
since it tallies with the result (`Check.tallies_foldl`).
-/

namespace Correlation

/-! ## Two points of a sequence -/

namespace Sequel

/-- The correlation variables that a sequence has provided are later as they were. -/
structure Keeps (s r : Sequel) : Prop where
  /-- They come first, in their order, with their spans and their freshness. -/
  result : s.result.providedCorrelation.toList <+: r.result.providedCorrelation.toList
  /-- They are running as they were. -/
  running : ∀ l ∈ s.result.providedCorrelation.keys,
    r.running.providedCorrelation.find? l = s.running.providedCorrelation.find? l

variable {entry : Typing} {s r : Sequel}

/-- If the typings of a sequence tally, what holds of the result holds of what is running. -/
theorem Tallies.keeps (hs : s.Tallies entry) (hr : r.Tallies entry)
    (h : s.result.providedCorrelation.toList <+: r.result.providedCorrelation.toList) :
    s.Keeps r := by
  refine ⟨h, fun l hl => ?_⟩
  obtain ⟨p, hp, rfl⟩ := List.mem_map.mp hl
  have hfind : s.result.providedCorrelation.find? p.location = some p :=
    OrderedSet.find?_eq_some_iff.mpr ⟨hp, rfl⟩
  have hfind' : r.result.providedCorrelation.find? p.location = some p :=
    OrderedSet.find?_eq_some_iff.mpr ⟨h.subset hp, rfl⟩
  rw [hr.keys, hs.keys, hfind, hfind']

end Sequel

/-! ## Checks in sequence -/

namespace Check

variable {checks : List Check} {entry : Typing}

/-- The two typings of a sequence tally at every point of its check. -/
theorem tallies_foldl {acc : Sequel × Bool × Progress} (h : acc.1.Tallies entry) :
    (checks.foldl followedBy acc).1.Tallies entry :=
  foldl_induction (P := fun acc : Sequel × Bool × Progress => acc.1.Tallies entry) h
    fun acc c _ hacc => hacc.append (c acc.1.running acc.2.1 acc.2.2).typing

/-- What comes later is provided behind what has been provided. -/
theorem prefix_foldl (h : ∀ c ∈ checks, Lawful c) (acc : Sequel × Bool × Progress)
    (hg : SortedTable acc.2.2.typings) :
    acc.1.result.providedCorrelation.toList <+:
      (checks.foldl followedBy acc).1.result.providedCorrelation.toList := by
  induction checks generalizing acc with
  | nil => exact List.prefix_rfl
  | cons c rest ih =>
    obtain ⟨htyping, htypings⟩ :=
      (h c List.mem_cons_self).sorted acc.1.running acc.2.1 acc.2.2 hg
    refine List.IsPrefix.trans ?_
      (ih (fun d hd => h d (List.mem_cons_of_mem c hd)) (followedBy acc c) htypings)
    rw [followedBy, Sequel.providedKeys_append acc.1 htyping, OrderedSet.toList_union]
    exact List.prefix_append _ _

/-- The rest of a sequence keeps what the sequence has provided. -/
theorem keeps_foldl (h : ∀ c ∈ checks, Lawful c) {acc : Sequel × Bool × Progress}
    (htallies : acc.1.Tallies entry) (hg : SortedTable acc.2.2.typings) :
    acc.1.Keeps (checks.foldl followedBy acc).1 :=
  htallies.keeps (tallies_foldl htallies) (prefix_foldl h acc hg)

end Check

namespace Skeleton

/-- The check of a sequence of parts, as far as these parts. -/
def upTo (ctx : Context) (visit : Visit) (entry : Typing) (starter : Bool) (g : Progress)
    (parts : List Skeleton) : Sequel × Bool × Progress :=
  (parts.map (check ctx visit)).foldl Check.followedBy (.start entry, starter, g)

variable {ctx : Context} {visit : Visit}

/-- With all parts the check has come to the typing of the sequence. -/
theorem result_upTo (ctx : Context) (visit : Visit) (entry : Typing) (starter : Bool)
    (g : Progress) (parts : List Skeleton) :
    (upTo ctx visit entry starter g parts).1.result =
      ((Skeleton.sequence parts).check ctx visit entry starter g).typing := by
  rw [upTo, check, checkAll_eq_map, Check.sequence]

/-- More parts are checked from where the check has come to. -/
theorem upTo_append (entry : Typing) (starter : Bool) (g : Progress) (parts more : List Skeleton) :
    upTo ctx visit entry starter g (parts ++ more) =
      (more.map (check ctx visit)).foldl Check.followedBy (upTo ctx visit entry starter g parts) := by
  rw [upTo, List.map_append, List.foldl_append, upTo]

theorem lawful_of_mem_map (hvisit : visit.Lawful) (parts : List Skeleton) :
    ∀ c ∈ parts.map (check ctx visit), c.Lawful :=
  List.forall_mem_map.mpr fun x _ => lawful_check hvisit x

/-- A part adds the correlation variables that it is the first to provide, and the parts after it
keep what has been provided. -/
theorem keeps_upTo (hvisit : visit.Lawful) (entry : Typing) (starter : Bool) {g : Progress}
    (hg : SortedTable g.typings) (before : List Skeleton) (part : Skeleton)
    (after : List Skeleton) :
    let acc := upTo ctx visit entry starter g before
    let o := part.check ctx visit acc.1.running acc.2.1 acc.2.2
    let s := (upTo ctx visit entry starter g (before ++ [part])).1
    s.result.providedCorrelation =
        acc.1.result.providedCorrelation.union o.typing.providedCorrelation ∧
      s.Keeps (upTo ctx visit entry starter g (before ++ part :: after)).1 := by
  intro acc o s
  have hacc : SortedTable acc.2.2.typings :=
    (Check.foldl_sorted (lawful_of_mem_map hvisit before) _ Typing.sorted_empty hg).2
  obtain ⟨htyping, htypings⟩ := (lawful_check hvisit part).sorted acc.1.running acc.2.1 acc.2.2 hacc
  have hpart : upTo ctx visit entry starter g (before ++ [part]) =
      (acc.1.append o.typing, o.starter, o.progress) :=
    upTo_append entry starter g before [part]
  have hs : s = acc.1.append o.typing := congrArg Prod.fst hpart
  have htallies : s.Tallies entry := Check.tallies_foldl (Sequel.tallies_start entry)
  constructor
  · rw [hs]
    exact Sequel.providedKeys_append acc.1 htyping
  · rw [← List.singleton_append, ← List.append_assoc, upTo_append]
    refine Check.keeps_foldl (lawful_of_mem_map hvisit after) htallies ?_
    rw [hpart]
    exact htypings

end Skeleton

/-! ## The typings of a program -/

/-- Every typing that is listed in a table is found there. -/
theorem sorted_of_mem {table : NameTable Typing} (h : SortedTable table) {e : String × Typing}
    (he : e ∈ table.toList) : e.2.Sorted := by
  have hfind : table.find? e.1 = some e := OrderedSet.find?_eq_some_iff.mpr ⟨he, rfl⟩
  have hget : table.get? e.1 = some e.2 := by
    rw [NameTable.get?, hfind, Option.map_some]
  exact Context.sorted_of_get? h hget

namespace Verdict

variable {init? : Option Typing} {main : Typing}

theorem sorted_sessionTyping (hinit : ∀ init ∈ init?, init.Sorted) (hmain : main.Sorted) :
    (sessionTyping init? main).1.Sorted := by
  cases init? with
  | none => exact hmain
  | some init => exact Sequel.sorted_result_append (hinit init rfl) hmain

end Verdict

namespace Program

/-- All typings of a verdict keep to the kinds. -/
theorem sortedTable_check (program : Program) (mode : Option ExecutionMode) :
    SortedTable (program.check mode).typings :=
  (Progress.reachable_typeDefinitions (Context.ofProgram program mode).2).sorted

/-- A session is typed if there is a main definition, as `init` and then `main`. -/
theorem session_check_eq_some {program : Program} {mode : Option ExecutionMode} {session : Typing}
    (h : (program.check mode).session = some session) :
    ∃ main, (program.check mode).typings.get? mainName = some main ∧
      session = (Verdict.sessionTyping ((program.check mode).typings.get? initName) main).1 := by
  have hsession : (Verdict.ofTypings program.file (program.context mode).routing
      (program.check mode).typings).1 = some session := h
  rw [Verdict.ofTypings] at hsession
  split at hsession
  · cases hsession
  · next main hmain => exact ⟨main, hmain, (Option.some.inj hsession).symm⟩

/-- In the check of a program, correlation variables and data do not mix.

* In the typing of every definition and in that of the session the correlation variables that are
  needed and provided are such, and the data that is needed, provided and invalidated is data.
* Wherever a sequence is checked, each part adds the correlation variables that it is the first to
  provide, and all parts after it keep them, with their spans and their freshness, whatever they
  invalidate, define again or call.  The session keeps those of `init` in the same way. -/
theorem kinds_stay_apart (program : Program) (mode : Option ExecutionMode) :
    let v := program.check mode
    let ctx := program.context mode
    (∀ e ∈ v.typings.toList, e.2.Sorted) ∧
      (∀ session, v.session = some session → session.Sorted ∧
        ∀ init, v.typings.get? initName = some init →
          init.providedCorrelation.toList <+: session.providedCorrelation.toList) ∧
      ∀ g, g.Reachable ctx → ∀ (bound : Nat) (entry : Typing) (starter : Bool)
        (before : List Skeleton) (part : Skeleton) (after : List Skeleton),
        let upTo := Skeleton.upTo ctx (ctx.visitWithin bound) entry starter g
        let acc := upTo before
        let o := part.check ctx (ctx.visitWithin bound) acc.1.running acc.2.1 acc.2.2
        let s := (upTo (before ++ [part])).1
        s.result.providedCorrelation =
            acc.1.result.providedCorrelation.union o.typing.providedCorrelation ∧
          s.Keeps (upTo (before ++ part :: after)).1 := by
  intro v ctx
  have htable : SortedTable v.typings := sortedTable_check program mode
  refine ⟨fun e he => sorted_of_mem htable he, fun session hsession => ?_, ?_⟩
  · obtain ⟨main, hmain, rfl⟩ := session_check_eq_some hsession
    have hsorted := Context.sorted_of_get? htable hmain
    refine ⟨Verdict.sorted_sessionTyping (fun init hinit => ?_) hsorted, fun init hinit => ?_⟩
    · exact Context.sorted_of_get? htable hinit
    · rw [Verdict.provided_sessionTyping hsorted, OrderedSet.toList_union, hinit]
      exact List.prefix_append _ _
  · intro g hg bound entry starter before part after
    exact Skeleton.keeps_upTo (ctx.lawful_visitWithin bound) entry starter hg.sorted before part
      after

/-- A definition makes a key with a fresh value.  What comes after it invalidates the key, sets it to
a constant and calls the definition again. -/
def remadeKey : Program := sampleProgram [("setup", .assign .unknown sampleKey .fresh),
  ("main", .sequence .unknown [.oneWay .unknown "login" none, .call .unknown "setup",
    .undefine .unknown sampleKey, .assign .unknown sampleKey (.int 1), .call .unknown "setup"])]

/-- The second and the third value are reported, and the key keeps its first one. -/
theorem kinds_stay_apart_remadeKey :
    let ctx := remadeKey.context none
    let upTo := Skeleton.upTo ctx (ctx.visitWithin 2) .empty true (Progress.start.report [])
    let before : List Skeleton := [.input .unknown "login" none]
    let after : List Skeleton := [.invalidate .unknown [sampleKey],
      .assign .unknown sampleKey .constant, .call .unknown "setup"]
    (Progress.start.report []).Reachable ctx ∧
      (∀ e ∈ (remadeKey.check none).typings.toList, e.2.Sorted) ∧
      (upTo (before ++ [.call .unknown "setup"])).1.Keeps
        (upTo (before ++ .call .unknown "setup" :: after)).1 ∧
      (upTo (before ++ .call .unknown "setup" :: after)).1.running.providedCorrelation.toList =
        [⟨sampleKey, true⟩] ∧
      (remadeKey.check none).causes =
        [.definedMoreThanOnce sampleKey, .definedMoreThanOnce sampleKey] := by
  intro ctx upTo before after
  have hreachable : (Progress.start.report []).Reachable ctx := .start []
  obtain ⟨htypings, _, hkeeps⟩ := kinds_stay_apart remadeKey none
  exact ⟨hreachable, htypings,
    (hkeeps _ hreachable 2 .empty true before (.call .unknown "setup") after).2,
    by decide +kernel, by decide +kernel⟩

end Program

end Correlation
