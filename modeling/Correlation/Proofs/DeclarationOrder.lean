import Correlation.Proofs.Accounting
import Correlation.Proofs.SessionKeys

/-!
# The order of declarations

Definitions are typed on demand, so the order of the declarations decides who asks first.  It does
not decide anything else: a table that is settled for a program is settled for every order of its
definitions (`Context.Settled.rearrange`), and checking finds the settled table and the faults of
every definition once.  Hence the verdict on a program whose definitions have different names does
not depend on their order (`check_of_perm`).

If there is a circle of definitions, the order decides where it is entered, and so which typings are
there in the end.  But a circle is found from every order, since a check without a circle would be
one for all orders.
-/

namespace Correlation

open Skeleton

/-! ## Other declarations -/

section Rearrange

variable {ctx : Context} {table : NameTable Typing} {definitions : OrderedSet Definition.name}

theorem sequel_rearrange {starter : Bool} {parts : List Skeleton}
    (h : ∀ x ∈ flagged ctx.execution starter parts, ∀ entry,
      typing { ctx with definitions } table x.1 x.2 entry = typing ctx table x.1 x.2 entry)
    (s : Sequel) :
    sequel { ctx with definitions } table starter parts s = sequel ctx table starter parts s := by
  induction parts generalizing starter s with
  | nil => rfl
  | cons x rest ih =>
    rw [sequel, sequel, h (starter, x) List.mem_cons_self]
    exact ih (fun y hy => h y (List.mem_cons_of_mem _ hy)) _

/-- A typing looks definitions up in the table alone. -/
theorem typing_rearrange (starter : Bool) (k : Skeleton) (entry : Typing) :
    typing { ctx with definitions } table starter k entry = typing ctx table starter k entry := by
  induction starter, k using induction_children ctx.execution generalizing entry with
  | step starter k ih =>
    have hjoin : ∀ join, join? starter k = some join →
        typing { ctx with definitions } table starter k entry =
          typing ctx table starter k entry := by
      intro join hk
      rw [typing_join _ table hk, typing_join ctx table hk]
      exact congrArg (fun ts => (join ts).1) (List.map_congr_left fun c hc => ih c hc entry)
    cases k with
    | idle | request | assign | invalidate | call => rw [typing, typing]
    | input => rw [typing, typing]; rfl
    | sequence parts =>
      rw [typing, typing]
      exact congrArg Sequel.result (sequel_rearrange ih _)
    | parallel | choice | conditional => exact hjoin _ rfl
    | repeated span body =>
      rw [typing, typing, ih (starter, body) (List.mem_singleton_self _)]

/-- What is wrong with a skeleton depends on which names are declared. -/
theorem faults_rearrange
    (hcontains : ∀ name, definitions.contains name = ctx.definitions.contains name)
    (insideInit starter : Bool) (k : Skeleton) (entry : Typing) :
    faults { ctx with definitions } table insideInit starter k entry =
      faults ctx table insideInit starter k entry := by
  have hjoin : ∀ join, join? starter k = some join →
      faults { ctx with definitions } table insideInit starter k entry =
        faults ctx table insideInit starter k entry := by
    intro join hk
    rw [faults_join _ table hk, faults_join ctx table hk]
    exact congrArg (fun ts => (join ts).2)
      (List.map_congr_left fun c _ => typing_rearrange c.1 c.2 entry)
  cases k with
  | idle | request | assign | invalidate => rw [faults, faults]
  | input => rw [faults, faults]; rfl
  | call span name => rw [faults, faults, hcontains]
  | sequence parts =>
    rw [faults, faults, sequel_rearrange fun x _ => typing_rearrange x.1 x.2]
  | parallel | choice | conditional => exact hjoin _ rfl
  | repeated span body => rw [faults, faults, typing_rearrange]

variable (hfind : ∀ name, definitions.find? name = ctx.definitions.find? name)

include hfind

theorem contains_rearrange (name : String) :
    definitions.contains name = ctx.definitions.contains name := by
  rw [← OrderedSet.isSome_find?, hfind, OrderedSet.isSome_find?]

namespace Context

theorem typingOf_rearrange (d : Definition) :
    Context.typingOf { ctx with definitions } table d = ctx.typingOf table d := by
  rw [typingOf, typing_rearrange, entryOf, contains_rearrange hfind]
  rfl

theorem faultsOf_rearrange (d : Definition) :
    Context.faultsOf { ctx with definitions } table d = ctx.faultsOf table d := by
  rw [faultsOf, faultsOf, typingOf_rearrange hfind]
  refine congrArg (· ++ _) (List.flatMap_congr fun x _ => ?_)
  exact faults_rearrange (contains_rearrange hfind) _ x.1 x.2 .empty

/-- A settled table stays settled when the definitions are declared in another order. -/
theorem Settled.rearrange (h : ctx.Settled table) :
    Context.Settled { ctx with definitions } table where
  typed d hd := by
    rw [typingOf_rearrange hfind]
    exact h.typed d ((hfind d.name).symm.trans hd)
  undeclared name hname := by
    rw [← OrderedSet.find?_eq_none_iff, hfind, OrderedSet.find?_eq_none_iff] at hname
    exact h.undeclared name hname
  ranked d hd name hname := by
    rw [← OrderedSet.contains_iff_mem_keys, contains_rearrange hfind,
      OrderedSet.contains_iff_mem_keys] at hname
    exact h.ranked d ((hfind d.name).symm.trans hd) name hname
  sorted := h.sorted

end Context

end Rearrange

/-! ## The verdict -/

/-- Definitions with different names are found in whatever order they are declared. -/
theorem find?_firsts_of_perm {ds es : List Definition} (hnames : (es.map Definition.name).Nodup)
    (hperm : ds.Perm es) (name : String) :
    (OrderedSet.firsts ds : OrderedSet Definition.name).find? name =
      (OrderedSet.firsts es : OrderedSet Definition.name).find? name := by
  have hds : (ds.map Definition.name).Nodup := (hperm.map Definition.name).nodup_iff.mpr hnames
  apply Option.ext
  intro d
  rw [OrderedSet.find?_eq_some_iff, OrderedSet.find?_eq_some_iff, OrderedSet.toList_firsts hds,
    OrderedSet.toList_firsts hnames, hperm.mem_iff]

namespace Program

variable {program : Program} {definitions : List Definition} {mode : Option ExecutionMode}

/-- A check without a circle finds the same in every order of the definitions. -/
theorem check_of_perm_of_acyclic (hnames : (program.definitions.map Definition.name).Nodup)
    (hperm : definitions.Perm program.definitions)
    (hacyclic : ∀ names, .definitionCycle names ∉ (program.check mode).causes) :
    let other := Program.check { program with definitions } mode
    (∀ name, other.typings.get? name = (program.check mode).typings.get? name) ∧
      other.session = (program.check mode).session ∧
      other.violations.Perm (program.check mode).violations := by
  intro other
  have hfind := find?_firsts_of_perm hnames hperm
  have hsettled := settled_check hacyclic
  obtain ⟨_, hviolations⟩ := Context.typeDefinitions_of_settled hsettled
    (Routing.ofSets program.correlationSets).2
  have hrearranged : Context.Settled
      { program.context mode with definitions := .firsts definitions }
      (program.check mode).typings := hsettled.rearrange hfind
  obtain ⟨htypings, hviolations'⟩ := Context.typeDefinitions_of_settled hrearranged
    (Routing.ofSets program.correlationSets).2
  have htypings : ∀ name, other.typings.get? name = (program.check mode).typings.get? name :=
    htypings
  have hsession : Verdict.ofTypings program.file (program.context mode).routing other.typings =
      Verdict.ofTypings program.file (program.context mode).routing
        (program.check mode).typings := by
    rw [Verdict.ofTypings, Verdict.ofTypings, htypings, htypings]
  refine ⟨htypings, congrArg Prod.fst hsession, ?_⟩
  have hfaults : ((OrderedSet.firsts definitions : OrderedSet Definition.name).toList.flatMap
      (Context.faultsOf { program.context mode with definitions := .firsts definitions }
        (program.check mode).typings)).Perm
      ((program.context mode).definitions.toList.flatMap
        ((program.context mode).faultsOf (program.check mode).typings)) := by
    rw [funext (Context.faultsOf_rearrange hfind)]
    refine List.Perm.flatMap_right _ ?_
    have hfirsts : (program.context mode).definitions.toList = program.definitions :=
      OrderedSet.toList_firsts hnames
    rw [hfirsts, OrderedSet.toList_firsts ((hperm.map Definition.name).nodup_iff.mpr hnames)]
    exact hperm
  exact ((hviolations'.trans (hfaults.append_left _)).trans hviolations.symm).append
    (List.Perm.of_eq (congrArg Prod.snd hsession))

/-- A program stays valid when its definitions are declared in another order. -/
theorem isValid_of_perm (hnames : (program.definitions.map Definition.name).Nodup)
    (hperm : definitions.Perm program.definitions)
    (hvalid : (program.check mode).isValid = true) :
    (Program.check { program with definitions } mode).isValid = true := by
  have hviolations := (check_of_perm_of_acyclic hnames hperm fun names =>
    not_mem_causes_of_valid hvalid _).2.2
  rw [Verdict.isValid, List.isEmpty_iff] at hvalid ⊢
  rw [hvalid] at hviolations
  exact hviolations.eq_nil

end Program

/-- Whether a program is valid does not depend on the order of its definitions, if their names are
different.  If there is no circle of definitions, their typings and that of the session do not
depend on it either, and neither does what is wrong with the program, apart from its order. -/
theorem check_of_perm (program : Program) (definitions : List Definition)
    (hnames : (program.definitions.map Definition.name).Nodup)
    (hperm : definitions.Perm program.definitions) (mode : Option ExecutionMode) :
    (Program.check { program with definitions } mode).isValid = (program.check mode).isValid ∧
      ((∀ names, .definitionCycle names ∉ (program.check mode).causes) →
        (∀ name, (Program.check { program with definitions } mode).typings.get? name =
          (program.check mode).typings.get? name) ∧
        (Program.check { program with definitions } mode).session =
          (program.check mode).session ∧
        (Program.check { program with definitions } mode).violations.Perm
          (program.check mode).violations) := by
  refine ⟨?_, Program.check_of_perm_of_acyclic hnames hperm⟩
  have hnames' : (definitions.map Definition.name).Nodup :=
    (hperm.map Definition.name).nodup_iff.mpr hnames
  rw [Bool.eq_iff_iff]
  refine ⟨fun hvalid => ?_, Program.isValid_of_perm hnames hperm⟩
  let other : Program := { program with definitions }
  have hback : (Program.check { other with definitions := program.definitions } mode).isValid =
      true := Program.isValid_of_perm hnames' hperm.symm hvalid
  exact hback

/-- A program that gets its key from a definition, which is declared before `main`. -/
def delegatedKey : Program := sampleProgram
  [("register", .assign .unknown sampleKey .fresh),
    ("main", .sequence .unknown [.oneWay .unknown "login" none, .call .unknown "register",
      .oneWay .unknown "checkout" none])]

/-- It is still valid if `main` is declared first, and `main` has the same typing. -/
theorem check_delegatedKey :
    (Program.check { delegatedKey with definitions := delegatedKey.definitions.reverse }
        none).isValid = true ∧
      (Program.check { delegatedKey with definitions := delegatedKey.definitions.reverse }
        none).typings.get? mainName = (delegatedKey.check none).typings.get? mainName ∧
      ((delegatedKey.check none).typings.get? mainName).isSome = true := by
  obtain ⟨hvalid, hsame⟩ := check_of_perm delegatedKey delegatedKey.definitions.reverse
    (by decide +kernel) (List.reverse_perm _) none
  obtain ⟨htypings, _, _⟩ := hsame fun names h => by
    have hcauses : (delegatedKey.check none).causes = [] := by decide +kernel
    rw [hcauses] at h
    cases h
  exact ⟨hvalid.trans (by decide +kernel), htypings mainName, by decide +kernel⟩

end Correlation
