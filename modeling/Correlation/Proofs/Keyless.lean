import Correlation.Proofs.Inputs
import Correlation.Proofs.SessionKeys
import Mathlib.Data.List.Flatten

/-!
# Inputs without a key

An input of a running session is routed by the variables of a correlation set.  Only the first input
of a session is supposed to do without.  The check decides what comes first by the order of the
text, and it does not look at inputs of `init`, so it does not keep every run to that.

* What happens in a run of `main` happens while some definition runs, in the text of that definition
  (`exists_happensIn`).  In a valid program an input without a key is one that is marked to start
  the session, or it happens while `init` runs (`keyless_input_cases`).
* An input that is marked to start the session comes after another input in some run exactly if it
  stands in a loop, beside a part that comes to an input, or in a sequence after such a part
  (`Settled.neverLate_iff_ordered`).  Since the mark is lost after an input in the text, the part
  before it comes to its input by a call.

So in a valid program these are the only inputs that may come late without a key
(`keyless_inputs_of_valid`), and each of the ways occurs (`not_keyed_after_first`).
-/

namespace Correlation

open Skeleton

namespace Event

/-- Whether a message is taken in. -/
def isInput : Event → Bool
  | .input _ _ => true
  | .assign _ _ | .invalidate _ | .silent => false

/-- A message is taken in that is marked to start the session. -/
def IsStarter (e : Event) : Prop := ∃ operation, e = .input operation true

end Event

/-- No event with a property comes after an input. -/
def NeverLate (P : Event → Prop) (t : List Event) : Prop :=
  t.Pairwise fun before e => before.isInput = true → ¬ P e

namespace Context

/-- An operation is routed by a set with variables. -/
def Keyed (ctx : Context) (operation : String) : Prop :=
  ∃ set, ctx.routing.setFor operation = some set ∧ set.members ≠ []

/-- A part comes to something that happens as an event with a property. -/
def Takes (ctx : Context) (P : Event → Prop) (x : Bool × Skeleton) : Prop :=
  ∃ y e, ctx.Reaches x y ∧ y.2.event y.1 = some e ∧ P e

/-- A part comes to an input. -/
def TakesInput (ctx : Context) (x : Bool × Skeleton) : Prop :=
  ctx.Takes (fun e => e.isInput = true) x

/-- Between the parts just below, no event with a property may come after an input. -/
def Ordered (ctx : Context) (P : Event → Prop) : Bool × Skeleton → Prop
  | (starter, .sequence parts) => (flagged ctx.execution starter parts).Pairwise fun a b =>
    ctx.TakesInput a → ¬ ctx.Takes P b
  | (starter, .parallel parts) => (flagged ctx.execution starter parts).Pairwise fun a b =>
    (ctx.TakesInput a → ¬ ctx.Takes P b) ∧ (ctx.TakesInput b → ¬ ctx.Takes P a)
  | (starter, .repeated _ body) => ctx.TakesInput (starter, body) → ¬ ctx.Takes P (starter, body)
  | _ => True

/-- An event happens while a definition runs: a run of its body is part of the run, the event is in
it, and some part of that body happens as the event. -/
structure HappensIn (ctx : Context) (x : Bool × Skeleton) (t : List Event) (e : Event)
    (d : Definition) : Prop where
  declared : ctx.definitions.find? d.name = some d
  /-- The part that runs comes to the body. -/
  reached : ctx.Reaches x (ctx.startsSession d, d.body.skeleton)
  run : ∃ u, Run ctx (ctx.startsSession d) d.body.skeleton u ∧ e ∈ u ∧ u.Sublist t
  stands : ∃ y ∈ ctx.partsOf d, y.2.event y.1 = some e

end Context

/-- Every input of a trace that comes after another one has a key. -/
def KeyedAfterFirst (ctx : Context) (t : List Event) : Prop :=
  ∀ before operation starter, before.isInput = true →
    [before, .input operation starter].Sublist t → ctx.Keyed operation

/-! ## Where an event of a run stands -/

namespace Context

variable {ctx : Context} {x y z c : Bool × Skeleton} {t u : List Event} {e : Event}
  {d : Definition} {P Q : Event → Prop}

theorem Reaches.trans (hxy : ctx.Reaches x y) (hyz : ctx.Reaches y z) : ctx.Reaches x z := by
  induction hxy with
  | refl => exact hyz
  | child hc _ ih => exact .child hc (ih hyz)
  | call hcall hd _ ih => exact .call hcall hd (ih hyz)

/-- What holds of a part and passes on to the parts below and to the bodies of what is called holds
of all that the part comes to. -/
theorem Reaches.closed {motive : Bool × Skeleton → Prop} (hxy : ctx.Reaches x y) (hx : motive x)
    (child : ∀ z, motive z → ∀ c ∈ children ctx.execution z.1 z.2, motive c)
    (call : ∀ z, motive z → ∀ span name d, z.2 = .call span name →
      ctx.definitions.find? name = some d → motive (ctx.startsSession d, d.body.skeleton)) :
    motive y := by
  induction hxy with
  | refl => exact hx
  | child hc _ ih => exact ih (child _ hx _ hc)
  | call hcall hd _ ih => exact ih (call _ hx _ _ _ hcall hd)

/-- A part comes to all its parts. -/
theorem reaches_of_mem_visited (hy : y ∈ visited ctx.execution x.1 x.2) : ctx.Reaches x y := by
  obtain ⟨starter, k⟩ := x
  induction starter, k using induction_children ctx.execution with
  | step starter k ih =>
    rcases mem_visited_iff.mp hy with rfl | ⟨c, hc, hy⟩
    · exact .refl _
    · exact .child hc (ih c hc hy)

/-- What a part of a definition reaches is a part of a definition. -/
theorem Reaches.exists_definition (hxy : ctx.Reaches x y)
    (hx : ∃ d, ctx.definitions.find? d.name = some d ∧ x ∈ ctx.partsOf d) :
    ∃ d, ctx.definitions.find? d.name = some d ∧ y ∈ ctx.partsOf d := by
  induction hxy with
  | refl => exact hx
  | child hc _ ih =>
    obtain ⟨d, hd, hx⟩ := hx
    exact ih ⟨d, hd, visited_subset hx (mem_visited_of_child hc (mem_visited_self _ _ _))⟩
  | @call x y span name d hcall hd _ ih =>
    exact ih ⟨d, (Context.name_of_find? hd).symm ▸ hd, mem_visited_self _ _ _⟩

/-- What happens while a definition runs happens so in every run of which that one is a part. -/
theorem HappensIn.extend (h : ctx.HappensIn y u e d) (hxy : ctx.Reaches x y) (hut : u.Sublist t) :
    ctx.HappensIn x t e d := by
  obtain ⟨v, hv, he, hvu⟩ := h.run
  exact ⟨h.declared, hxy.trans h.reached, ⟨v, hv, he, hvu.trans hut⟩, h.stands⟩

/-- An event happens in the text of the part that runs, or while a definition runs that the part
calls. -/
def Happens (ctx : Context) (x : Bool × Skeleton) (t : List Event) (e : Event) : Prop :=
  (∃ y ∈ visited ctx.execution x.1 x.2, y.2.event y.1 = some e) ∨ ∃ d, ctx.HappensIn x t e d

/-- What happens in a part happens in the whole. -/
theorem Happens.of_child (hc : c ∈ children ctx.execution x.1 x.2) (hut : u.Sublist t)
    (h : ctx.Happens c u e) : ctx.Happens x t e := by
  refine h.imp (fun ⟨y, hy, he⟩ => ⟨y, mem_visited_of_child hc hy, he⟩) fun ⟨d, hd⟩ => ?_
  exact ⟨d, hd.extend (.child hc (.refl c)) hut⟩

/-- What the body of a definition does happens while that definition runs, or one that it calls. -/
theorem Happens.of_body {span : Span} {name : String} (hcall : x.2 = .call span name)
    (hd : ctx.definitions.find? name = some d)
    (hrun : Run ctx (ctx.startsSession d) d.body.skeleton t) (he : e ∈ t)
    (h : ctx.Happens (ctx.startsSession d, d.body.skeleton) t e) : ctx.Happens x t e := by
  have hreach : ctx.Reaches x (ctx.startsSession d, d.body.skeleton) := .call hcall hd (.refl _)
  refine Or.inr (h.elim (fun hstands => ?_) fun ⟨f, hf⟩ => ⟨f, hf.extend hreach (.refl t)⟩)
  exact ⟨d, (name_of_find? hd).symm ▸ hd, hreach, ⟨t, hrun, he, .refl t⟩, hstands⟩

/-- Whatever happens in a run happens somewhere in the text. -/
theorem happens_of_run (hrun : Run ctx x.1 x.2 t) (he : e ∈ t) : ctx.Happens x t e := by
  have hparts : ∀ {starter : Bool} {k : Skeleton} {ts : List (List Event)} {t : List Event},
      List.Forall₂ (fun c u => Run ctx c.1 c.2 u ∧ (e ∈ u → ctx.Happens c u e))
        (children ctx.execution starter k) ts → Interleaving ts t → e ∈ t →
          ctx.Happens (starter, k) t e := by
    intro starter k ts t hparts ht he
    obtain ⟨u, hu, he⟩ := List.mem_flatten.mp (ht.perm.mem_iff.mp he)
    obtain ⟨c, hc, _, hchild⟩ := exists_of_forall₂ hparts hu
    exact (hchild he).of_child hc (ht.sublist hu)
  refine Run.induction (motive := fun starter k t => e ∈ t → ctx.Happens (starter, k) t e)
    ?leaf ?sequence ?parallel ?choice ?choiceNone ?conditional ?conditionalNone ?repeated ?call
    ?undeclared hrun he
  case leaf =>
    intro starter k _ hevent he
    obtain rfl := List.mem_singleton.mp he
    exact Or.inl ⟨(starter, k), mem_visited_self _ _ _, hevent⟩
  case sequence =>
    exact fun {starter parts ts} h => hparts (k := .sequence parts) h (Interleaving.flatten ts)
  case parallel => exact fun {starter parts ts t} h => hparts (k := .parallel parts) h
  case choice =>
    intro starter span branches x t hx _ ih he
    exact (ih he).of_child (x := (starter, .choice span branches)) (List.mem_map_of_mem hx) (.refl t)
  case choiceNone => exact fun he => absurd he List.not_mem_nil
  case conditional =>
    intro starter span branches c t hc _ ih he
    exact (ih he).of_child (x := (starter, .conditional span branches)) hc (.refl t)
  case conditionalNone => exact fun he => absurd he List.not_mem_nil
  case repeated =>
    intro starter span body ts hts he
    obtain ⟨u, hu, he⟩ := List.mem_flatten.mp he
    exact ((hts u hu).2 he).of_child (x := (starter, .repeated span body))
      (List.mem_singleton_self _) (List.sublist_flatten_of_mem hu)
  case call => exact fun {starter span name d t} hd hrun ih he => .of_body rfl hd hrun he (ih he)
  case undeclared => exact fun _ he => absurd he List.not_mem_nil

/-- Whatever happens in a run of a call happens while a definition runs. -/
theorem exists_happensIn {span : Span} {name : String} (hcall : x.2 = .call span name)
    (hrun : Run ctx x.1 x.2 t) (he : e ∈ t) : ∃ d, ctx.HappensIn x t e d := by
  refine (happens_of_run hrun he).resolve_left fun ⟨y, hy, hevent⟩ => ?_
  rw [hcall, visited, List.mem_singleton] at hy
  subst hy
  cases hevent

/-- What happens in a run is something that the part comes to. -/
theorem takes_of_run (hrun : Run ctx x.1 x.2 t) (he : e ∈ t) (hP : P e) : ctx.Takes P x := by
  rcases happens_of_run hrun he with ⟨y, hy, hevent⟩ | ⟨d, hd⟩
  · exact ⟨y, e, reaches_of_mem_visited hy, hevent, hP⟩
  · obtain ⟨y, hy, hevent⟩ := hd.stands
    exact ⟨y, e, hd.reached.trans (reaches_of_mem_visited hy), hevent, hP⟩

theorem Takes.imp (hPQ : ∀ e, P e → Q e) (h : ctx.Takes P x) : ctx.Takes Q x := by
  obtain ⟨y, e, hreach, hevent, he⟩ := h
  exact ⟨y, e, hreach, hevent, hPQ e he⟩

/-- The fewer events have the property, the less is asked. -/
theorem Ordered.imp (hPQ : ∀ e, P e → Q e) (h : ctx.Ordered Q x) : ctx.Ordered P x := by
  have hnot : ∀ {b}, ¬ ctx.Takes Q b → ¬ ctx.Takes P b := mt (Takes.imp hPQ)
  obtain ⟨starter, k⟩ := x
  cases k with
  | sequence parts => exact List.Pairwise.imp (fun hab ha => hnot (hab ha)) h
  | parallel parts =>
    exact List.Pairwise.imp (fun hab => ⟨fun ha => hnot (hab.1 ha), fun hb => hnot (hab.2 hb)⟩) h
  | repeated span body => exact fun hinput => hnot (h hinput)
  | idle | request | input | assign | invalidate | call | choice | conditional => trivial

/-- A run keeps to the order if the text does. -/
theorem neverLate_of_ordered (hrun : Run ctx x.1 x.2 t)
    (hx : ∀ y, ctx.Reaches x y → ctx.Ordered P y) : NeverLate P t := by
  have hpart : ∀ {starter k} {c : Bool × Skeleton}, c ∈ children ctx.execution starter k →
      (∀ y, ctx.Reaches (starter, k) y → ctx.Ordered P y) → ∀ y, ctx.Reaches c y → ctx.Ordered P y :=
    fun hc hk y hy => hk y (.child hc hy)
  have hafter : ∀ {a b : Bool × Skeleton} {t u : List Event}, Run ctx a.1 a.2 t →
      Run ctx b.1 b.2 u → (ctx.TakesInput a → ¬ ctx.Takes P b) →
        ∀ before ∈ t, ∀ e ∈ u, before.isInput = true → ¬ P e :=
    fun ht hu hab before hbefore e he hinput hP =>
      hab (takes_of_run ht hbefore hinput) (takes_of_run hu he hP)
  refine Run.induction
    (motive := fun starter k t => (∀ y, ctx.Reaches (starter, k) y → ctx.Ordered P y) →
      NeverLate P t)
    ?leaf ?sequence ?parallel ?choice ?choiceNone ?conditional ?conditionalNone ?repeated ?call
    ?undeclared hrun hx
  case leaf => exact fun _ _ => List.pairwise_singleton _ _
  case sequence =>
    intro starter parts ts hparts hk
    refine List.pairwise_flatten.mpr ⟨fun t ht => ?_, ?_⟩
    · obtain ⟨c, hc, _, hchild⟩ := exists_of_forall₂ hparts ht
      exact hchild (hpart (k := .sequence parts) hc hk)
    · exact pairwise_of_forall₂ (fun a b t u ha hb hab => hafter ha.1 hb.1 hab) hparts
        (hk _ (.refl _))
  case parallel =>
    intro starter parts ts t hparts ht hk
    refine ht.pairwise (fun t ht => ?_) ?_
    · obtain ⟨c, hc, _, hchild⟩ := exists_of_forall₂ hparts ht
      exact hchild (hpart (k := .parallel parts) hc hk)
    · refine pairwise_of_forall₂ (fun a b t u ha hb hab before hbefore e he => ?_) hparts
        (hk _ (.refl _))
      exact ⟨hafter ha.1 hb.1 hab.1 before hbefore e he, hafter hb.1 ha.1 hab.2 e he before hbefore⟩
  case choice =>
    intro starter span branches x t hx _ ih hk
    exact ih (hpart (k := .choice span branches) (List.mem_map_of_mem hx) hk)
  case choiceNone => exact fun _ => .nil
  case conditional => exact fun hc _ ih hk => ih (hpart (k := .conditional _ _) hc hk)
  case conditionalNone => exact fun _ => .nil
  case repeated =>
    intro starter span body ts hts hk
    refine List.pairwise_of_forall_mem_list fun before hbefore e he => ?_
    obtain ⟨t, ht, hbefore⟩ := List.mem_flatten.mp hbefore
    obtain ⟨u, hu, he⟩ := List.mem_flatten.mp he
    exact hafter (a := (starter, body)) (b := (starter, body)) (hts t ht).1 (hts u hu).1
      (hk _ (.refl _)) before hbefore e he
  case call => exact fun hd _ ih hk => ih fun y hy => hk y (.call rfl hd hy)
  case undeclared => exact fun _ _ => .nil

end Context

namespace Context.Settled

variable {ctx : Context} {table : NameTable Typing} (h : ctx.Settled table) {x y : Bool × Skeleton}
  {t : List Event} {P : Event → Prop}

include h

/-- A run of a part that is reached is met in some run of the whole. -/
theorem exists_run_of_reaches (hy : ctx.Reaches x y) (hrun : Run ctx y.1 y.2 t) :
    ∃ u, Run ctx x.1 x.2 u ∧ t.Sublist u := by
  induction hy with
  | refl => exact ⟨t, hrun, .refl t⟩
  | child hc _ ih =>
    obtain ⟨u, hu, htu⟩ := ih hrun
    obtain ⟨v, hv, huv⟩ := h.exists_run_of_part hu
      (mem_visited_of_child hc (mem_visited_self _ _ _))
    exact ⟨v, hv, htu.trans huv⟩
  | @call x y span name d hcall hd _ ih =>
    obtain ⟨u, hu, htu⟩ := ih hrun
    refine ⟨u, ?_, htu⟩
    rw [hcall]
    exact .call hd hu

/-- What a part comes to in the text happens in some run of it. -/
theorem exists_run_of_takes (hx : ctx.Takes P x) : ∃ t, Run ctx x.1 x.2 t ∧ ∃ e ∈ t, P e := by
  obtain ⟨y, e, hreach, hevent, hP⟩ := hx
  obtain ⟨t, ht, hsub⟩ := h.exists_run_of_reaches hreach (.leaf hevent)
  exact ⟨t, ht, e, List.singleton_sublist.mp hsub, hP⟩

/-- Two parts one of which comes to an input and the other one to an event with a property have runs
that must not follow each other. -/
theorem exists_runs_of_takes (hx : ctx.TakesInput x) (hy : ctx.Takes P y) :
    ∃ t u, Run ctx x.1 x.2 t ∧ Run ctx y.1 y.2 u ∧ ¬ NeverLate P (t ++ u) := by
  obtain ⟨t, ht, before, hbefore, hinput⟩ := h.exists_run_of_takes hx
  obtain ⟨u, hu, e, he, hP⟩ := h.exists_run_of_takes hy
  exact ⟨t, u, ht, hu, fun hlate =>
    (List.pairwise_append.mp hlate).2.2 before hbefore e he hinput hP⟩

/-- The text keeps to the order if all runs do. -/
theorem ordered_of_neverLate (hx : ∀ t, Run ctx x.1 x.2 t → NeverLate P t) : ctx.Ordered P x := by
  have hsub : ∀ {parts : List (Bool × Skeleton)} {a b : Bool × Skeleton} {t u : List Event},
      [a, b].Sublist parts → Run ctx a.1 a.2 t → Run ctx b.1 b.2 u →
        ∃ ts, List.Forall₂ (fun x t => Run ctx x.1 x.2 t) parts ts ∧ [t, u].Sublist ts :=
    fun hab ht hu => exists_forall₂_of_sublist hab (.cons ht (.cons hu .nil))
      fun c _ => h.exists_some_run c
  obtain ⟨starter, k⟩ := x
  cases k with
  | sequence parts =>
    refine List.pairwise_iff_forall_sublist.mpr fun hab ha hb => ?_
    obtain ⟨t, u, ht, hu, hlate⟩ := h.exists_runs_of_takes ha hb
    obtain ⟨ts, hts, htu⟩ := hsub hab ht hu
    refine hlate ((hx _ (.sequence hts)).sublist ?_)
    simpa using htu.flatten
  | parallel parts =>
    refine List.pairwise_iff_forall_sublist.mpr fun hab => ⟨fun ha hb => ?_, fun hb ha => ?_⟩
    · obtain ⟨t, u, ht, hu, hlate⟩ := h.exists_runs_of_takes ha hb
      obtain ⟨ts, hts, htu⟩ := hsub hab ht hu
      refine hlate ((hx _ (.parallel hts (Interleaving.flatten ts))).sublist ?_)
      simpa using htu.flatten
    · obtain ⟨u, t, hu, ht, hlate⟩ := h.exists_runs_of_takes hb ha
      obtain ⟨ts, hts, htu⟩ := hsub hab ht hu
      obtain ⟨w, hw, hsub⟩ := Interleaving.exists_swapped htu
      exact hlate ((hx _ (.parallel hts hw)).sublist hsub)
  | repeated span body =>
    intro hinput htakes
    obtain ⟨t, u, ht, hu, hlate⟩ := h.exists_runs_of_takes hinput htakes
    refine hlate ?_
    have hrun : Run ctx starter (.repeated span body) [t, u].flatten :=
      .repeated (List.forall_mem_cons.mpr ⟨ht, List.forall_mem_singleton.mpr hu⟩)
    simpa using hx _ hrun
  | idle | request | input | assign | invalidate | call | choice | conditional => trivial

/-- The runs of a part keep to the order exactly if the text does, wherever the part comes to. -/
theorem neverLate_iff_ordered : (∀ t, Run ctx x.1 x.2 t → NeverLate P t) ↔
    ∀ y, ctx.Reaches x y → ctx.Ordered P y := by
  refine ⟨fun hx y hy => h.ordered_of_neverLate fun t ht => ?_,
    fun hx t ht => neverLate_of_ordered ht hx⟩
  obtain ⟨u, hu, htu⟩ := h.exists_run_of_reaches hy ht
  exact (hx u hu).sublist htu

/-- Where the text breaks the order, some run does. -/
theorem exists_late_run (hy : ctx.Reaches x y) (hbroken : ¬ ctx.Ordered P y) :
    ∃ t, Run ctx x.1 x.2 t ∧ ¬ NeverLate P t := by
  by_contra hnever
  push Not at hnever
  exact hbroken (h.neverLate_iff_ordered.mp hnever y hy)

end Context.Settled

/-! ## Inputs of sessions -/

namespace Context

/-- The two parts of a session. -/
def SessionParts (ctx : Context) (init main : List Event) : Prop :=
  Run ctx false (.call .unknown initName) init ∧ Run ctx false (.call .unknown mainName) main

/-- An event of `main` happens while `init` runs, which `main` comes to by a call, and while no
other definition runs in whose text it stands. -/
def InInit (ctx : Context) (main : List Event) (e : Event) : Prop :=
  (∃ d, ctx.HappensIn mainCall main e d) ∧
    ∀ d, ctx.HappensIn mainCall main e d → d.name = initName

/-- By calls `main` comes to no input in the body of `init`. -/
def AvoidsInit (ctx : Context) : Prop :=
  ∀ d, ctx.definitions.find? initName = some d →
    ctx.Reaches mainCall (ctx.startsSession d, d.body.skeleton) →
      ∀ y ∈ ctx.partsOf d, ∀ e, y.2.event y.1 = some e → e.isInput = false

/-- If `main` comes to no input in `init`, no input happens while `init` runs. -/
theorem AvoidsInit.not_inInit {ctx : Context} (h : ctx.AvoidsInit) {main : List Event}
    {operation : String} {starter : Bool} : ¬ ctx.InInit main (.input operation starter) := by
  rintro ⟨⟨d, hd⟩, hinit⟩
  obtain ⟨y, hy, hevent⟩ := hd.stands
  exact Bool.noConfusion (h d (hinit d hd ▸ hd.declared) hd.reached y hy _ hevent)

end Context

section Valid

variable {program : Program} {mode : Option ExecutionMode}
  (hvalid : (program.check mode).isValid = true)
  (hmode : (program.context mode).execution ≠ .single)

include hvalid hmode

/-- In a valid program an input without a key that is not the first in the text stands in `init`. -/
theorem keyed_of_mem_partsOf {d : Definition}
    (hd : (program.context mode).definitions.find? d.name = some d) {span : Span}
    {operation : String} {receive : Option Path}
    (hx : (false, .input span operation receive) ∈ (program.context mode).partsOf d)
    (hinit : d.name ≠ initName) : (program.context mode).Keyed operation := by
  by_contra hkeyless
  have hnone : (program.context mode).keysFor operation span = [] := by
    rw [Context.keysFor]
    cases hset : (program.context mode).routing.setFor operation with
    | none => rfl
    | some set =>
      have hmembers : set.members = [] := by
        by_contra hne
        exact hkeyless ⟨set, hset, hne⟩
      show set.members.map _ = []
      rw [hmembers, List.map_nil]
  refine Program.not_mem_causes_of_valid hvalid (.noCorrelationSet operation) ?_
  refine Program.cause_of_part (v := ⟨span, .noCorrelationSet operation⟩)
    (fun _ => Program.not_mem_causes_of_valid hvalid _) hd hx ?_
  rw [faults, if_neg hmode, hnone, decide_eq_false hinit]
  exact List.mem_append_right _ (List.mem_singleton_self _)

/-- In a valid program an input of `main` without a key is marked to start the session, or it
happens while `init` runs. -/
theorem keyless_input_cases {main : List Event}
    (hrun : Run (program.context mode) false (.call .unknown mainName) main) {operation : String}
    {starter : Bool} (he : .input operation starter ∈ main)
    (hkeyless : ¬ (program.context mode).Keyed operation) :
    starter = true ∨ (program.context mode).InInit main (.input operation starter) := by
  cases starter with
  | true => exact Or.inl rfl
  | false =>
    refine Or.inr ⟨Context.exists_happensIn (x := mainCall) rfl hrun he, fun d hd => ?_⟩
    by_contra hinit
    obtain ⟨⟨flag, k⟩, hy, hevent⟩ := hd.stands
    cases k with
    | input =>
      cases hevent
      exact hkeyless (keyed_of_mem_partsOf hvalid hmode hd.declared hy hinit)
    | _ => cases hevent

/-- In a valid program an input of `main` that comes after another one has a key, but for two kinds.
One is marked to start the session, and such an input of its operation stands where an input may
come before it.  The other one happens while `init` runs. -/
theorem late_input_cases {main : List Event}
    (hrun : Run (program.context mode) false (.call .unknown mainName) main) {before : Event}
    {operation : String} {starter : Bool} (hinput : before.isInput = true)
    (hlate : [before, .input operation starter].Sublist main) :
    (program.context mode).Keyed operation ∨
      (starter = true ∧ ∃ y, (program.context mode).Reaches mainCall y ∧
        ¬ (program.context mode).Ordered (· = .input operation true) y) ∨
      (program.context mode).InInit main (.input operation starter) := by
  have he : .input operation starter ∈ main :=
    hlate.subset (List.mem_cons_of_mem _ (List.mem_singleton_self _))
  by_cases hkeyed : (program.context mode).Keyed operation
  · exact Or.inl hkeyed
  · refine Or.inr ((keyless_input_cases hvalid hmode hrun he hkeyed).imp_left ?_)
    rintro rfl
    refine ⟨rfl, ?_⟩
    by_contra hordered
    push Not at hordered
    have hnever : NeverLate (· = .input operation true) main :=
      Context.neverLate_of_ordered (x := mainCall) hrun hordered
    exact List.pairwise_iff_forall_sublist.mp hnever hlate hinput rfl

/-- The inputs without a key in the sessions of a valid program.

* An input of `main` without a key is marked to start the session, or it happens while `init` runs.
* An input of `main` that comes after another one has a key, unless it is marked to start the
  session and such an input of its operation stands in a loop, beside a part that comes to an input,
  or in a sequence after such a part, or unless it happens while `init` runs.
* So if no input that is marked to start the session stands like that, and `main` comes to no input
  of `init`, all inputs of `main` that come after another one have keys.
* Where an input that is marked to start the session stands like that, it comes after another one in
  some session. -/
theorem keyless_inputs_of_valid :
    (∀ init main, (program.context mode).SessionParts init main → ∀ operation starter,
        .input operation starter ∈ main → ¬ (program.context mode).Keyed operation →
          starter = true ∨ (program.context mode).InInit main (.input operation starter)) ∧
      (∀ init main, (program.context mode).SessionParts init main → ∀ before operation starter,
        before.isInput = true → [before, .input operation starter].Sublist main →
          (program.context mode).Keyed operation ∨
            (starter = true ∧ ∃ y, (program.context mode).Reaches mainCall y ∧
              ¬ (program.context mode).Ordered (· = .input operation true) y) ∨
            (program.context mode).InInit main (.input operation starter)) ∧
      ((∀ y, (program.context mode).Reaches mainCall y →
          (program.context mode).Ordered Event.IsStarter y) →
        (program.context mode).AvoidsInit →
          ∀ init main, (program.context mode).SessionParts init main →
            KeyedAfterFirst (program.context mode) main) ∧
      ∀ operation,
        (∃ y, (program.context mode).Reaches mainCall y ∧
          ¬ (program.context mode).Ordered (· = .input operation true) y) →
        ∃ init main, (program.context mode).SessionParts init main ∧
          ¬ NeverLate (· = .input operation true) main := by
  refine ⟨fun init main hparts operation starter => keyless_input_cases hvalid hmode hparts.2,
    fun init main hparts before operation starter => late_input_cases hvalid hmode hparts.2,
    fun hordered havoids init main hparts before operation starter hinput hlate => ?_,
    fun operation ⟨y, hy, hbroken⟩ => ?_⟩
  · rcases late_input_cases hvalid hmode hparts.2 hinput hlate with
      hkeyed | ⟨_, y, hy, hbroken⟩ | hinit
    · exact hkeyed
    · exact absurd ((hordered y hy).imp fun e he => ⟨operation, he⟩) hbroken
    · exact absurd hinit havoids.not_inInit
  · have hsettled := Program.settled_of_valid hvalid
    obtain ⟨init, hinit⟩ := hsettled.exists_some_run initCall
    obtain ⟨main, hmain, hlate⟩ := hsettled.exists_late_run hy hbroken
    exact ⟨init, main, ⟨hinit, hmain⟩, hlate⟩

end Valid

/-- `login` starts the session, and `checkout` comes by a call. -/
def payAfterLogin : List (String × Statement) :=
  [("pay", .oneWay .unknown "checkout" none),
    ("main", .sequence .unknown [.oneWay .unknown "login" none, .assign .unknown sampleKey .fresh,
      .call .unknown "pay"])]

/-- The parts of `main` after `login`. -/
def partsAfterLogin : List (Bool × Skeleton) :=
  [(false, .assign .unknown (sampleKey.locatedIn .unknown) .fresh), (false, .call .unknown "pay")]

/-- The body of `main` in that program. -/
def loginThenPay : Skeleton :=
  .sequence (.input .unknown "login" none :: partsAfterLogin.map Prod.snd)

/-- What the parts of `main` after `login` come to. -/
def reachedAfterLogin : List (Bool × Skeleton) :=
  partsAfterLogin ++ [(false, .input .unknown "checkout" none)]

theorem reachedAfterLogin_cases {x : Bool × Skeleton} (hx : x ∈ reachedAfterLogin) :
    x = (false, .assign .unknown (sampleKey.locatedIn .unknown) .fresh) ∨
      x = (false, .call .unknown "pay") ∨ x = (false, .input .unknown "checkout" none) := by
  simpa [reachedAfterLogin, partsAfterLogin] using hx

/-- The parts after `login` come to nothing else. -/
theorem mem_reachedAfterLogin {x y : Bool × Skeleton} (hx : x ∈ reachedAfterLogin)
    (hxy : ((sampleProgram payAfterLogin).context none).Reaches x y) : y ∈ reachedAfterLogin := by
  refine hxy.closed (motive := (· ∈ reachedAfterLogin)) hx (fun z hz c hc => ?_)
    fun z hz span name d hcall hd => ?_
  · rcases reachedAfterLogin_cases hz with rfl | rfl | rfl <;> cases hc
  · rcases reachedAfterLogin_cases hz with rfl | rfl | rfl <;> cases hcall
    cases hd
    exact List.mem_of_getLast? rfl

/-- What `main` comes to. -/
theorem reaches_payAfterLogin {y : Bool × Skeleton}
    (hy : ((sampleProgram payAfterLogin).context none).Reaches mainCall y) :
    y = mainCall ∨ y = (true, loginThenPay) ∨ y = (true, .input .unknown "login" none) ∨
      y ∈ reachedAfterLogin := by
  cases hy with
  | refl => exact Or.inl rfl
  | child hc _ => cases hc
  | call hcall hd hy =>
    cases hcall
    cases hd
    cases hy with
    | refl => exact Or.inr (Or.inl rfl)
    | call hcall _ _ => cases hcall
    | child hc hy =>
      rcases List.mem_cons.mp hc with rfl | hc
      · cases hy with
        | refl => exact Or.inr (Or.inr (Or.inl rfl))
        | child hc _ => cases hc
        | call hcall _ _ => cases hcall
      · exact Or.inr (Or.inr (Or.inr (mem_reachedAfterLogin (List.mem_append_left _ hc) hy)))

/-- After `login`, nothing comes to an input that is marked to start the session. -/
theorem not_takes_isStarter_partsAfterLogin {x : Bool × Skeleton} (hx : x ∈ partsAfterLogin) :
    ¬ ((sampleProgram payAfterLogin).context none).Takes Event.IsStarter x := by
  rintro ⟨y, e, hreach, hevent, operation, rfl⟩
  have hy := mem_reachedAfterLogin (List.mem_append_left _ hx) hreach
  rcases reachedAfterLogin_cases hy with rfl | rfl | rfl <;> cases hevent

/-- The text keeps to the order wherever `main` comes to: only `login` is marked to start the
session, and nothing comes before it. -/
theorem ordered_payAfterLogin {y : Bool × Skeleton}
    (hy : ((sampleProgram payAfterLogin).context none).Reaches mainCall y) :
    ((sampleProgram payAfterLogin).context none).Ordered Event.IsStarter y := by
  rcases reaches_payAfterLogin hy with rfl | rfl | rfl | hy
  · trivial
  · refine List.pairwise_cons.mpr ⟨fun b hb _ => not_takes_isStarter_partsAfterLogin hb, ?_⟩
    exact List.pairwise_of_forall_mem_list fun a _ b hb _ => not_takes_isStarter_partsAfterLogin hb
  · trivial
  · rcases reachedAfterLogin_cases hy with rfl | rfl | rfl <;> trivial

/-- The session takes in two messages, by `login` and by `checkout`, and the second one has a key. -/
theorem keyless_inputs_payAfterLogin :
    let ctx := (sampleProgram payAfterLogin).context none
    ((sampleProgram payAfterLogin).check none).isValid = true ∧ ctx.execution ≠ .single ∧
      (∀ y, ctx.Reaches mainCall y → ctx.Ordered Event.IsStarter y) ∧ ctx.AvoidsInit ∧
        (∃ init main, ctx.SessionParts init main ∧
          [.input "login" true, .input "checkout" false].Sublist main) ∧ ctx.Keyed "checkout" := by
  intro ctx
  have hvalid : ((sampleProgram payAfterLogin).check none).isValid = true := by decide +kernel
  have hmode : ctx.execution ≠ .single := by decide +kernel
  have hordered : ∀ y, ctx.Reaches mainCall y → ctx.Ordered Event.IsStarter y :=
    fun y => ordered_payAfterLogin
  have havoids : ctx.AvoidsInit := by
    intro d hd
    have hnone : ctx.definitions.find? initName = none := rfl
    rw [hnone] at hd
    cases hd
  obtain ⟨main, hrun, hlate⟩ : ∃ main, ctx.SessionParts [] main ∧
      [.input "login" true, .input "checkout" false].Sublist main := by
    refine ⟨_, ⟨.undeclared rfl, .call rfl (.sequence (.cons (.leaf rfl) (.cons (.leaf rfl) (.cons
      (.call rfl (.leaf rfl)) .nil))))⟩, ?_⟩
    exact .cons_cons _ (.cons _ (.refl _))
  have hkeyed := (keyless_inputs_of_valid hvalid hmode).2.2.1 hordered havoids _ _ hrun
  exact ⟨hvalid, hmode, hordered, havoids, ⟨[], main, hrun, hlate⟩, hkeyed _ _ _ rfl hlate⟩

/-! ## Late inputs without a key -/

/-- The operation `login` has no key in the sample programs. -/
theorem not_keyed_login (definitions : List (String × Statement)) :
    ¬ ((sampleProgram definitions).context none).Keyed "login" := by
  rintro ⟨set, hset, _⟩
  have hnone : ((sampleProgram definitions).context none).routing.setFor "login" = none := rfl
  rw [hnone] at hset
  cases hset

/-- `login` comes after another input. -/
theorem not_keyedAfterFirst_of_sublist {definitions : List (String × Statement)} {t : List Event}
    {operation : String} {starter flag : Bool}
    (h : [.input operation starter, .input "login" flag].Sublist t) :
    ¬ KeyedAfterFirst ((sampleProgram definitions).context none) t := fun hkeyed =>
  not_keyed_login definitions (hkeyed (.input operation starter) "login" flag rfl h)

/-- `login` may come after `checkout`, at the same time. -/
def earlyCheckout : List (String × Statement) :=
  [("main", .sequence .unknown [.assign .unknown sampleKey .fresh, .parallel .unknown
    [.oneWay .unknown "login" none, .oneWay .unknown "checkout" none]])]

/-- `login` may come again, in the next round. -/
def repeatedLogin : List (String × Statement) :=
  [("main", .whileLoop .unknown (.bool true) (.oneWay .unknown "login" none))]

/-- `login` comes after a call. -/
def loginAfterCall : List (String × Statement) :=
  [("pay", .oneWay .unknown "checkout" none),
    ("main", .sequence .unknown [.assign .unknown sampleKey .fresh, .call .unknown "pay",
      .oneWay .unknown "login" none])]

/-- `login` is taken in after `checkout` there. -/
theorem exists_late_loginAfterCall : ∃ init main,
    ((sampleProgram loginAfterCall).context none).SessionParts init main ∧
      ¬ KeyedAfterFirst ((sampleProgram loginAfterCall).context none) main := by
  refine ⟨[], _, ⟨.undeclared rfl, .call rfl (.sequence (.cons (.leaf rfl) (.cons
    (.call rfl (.leaf rfl)) (.cons (.leaf rfl) .nil))))⟩, ?_⟩
  exact not_keyedAfterFirst_of_sublist (List.sublist_append_right _ _)

/-- `login` comes again, from `init`. -/
def loginFromInit : List (String × Statement) :=
  [("init", .oneWay .unknown "login" none),
    ("main", .sequence .unknown [.oneWay .unknown "login" none, .call .unknown "init"])]

/-- The program is valid outside Single mode, and `main` has an input without a key after another
input in some session. -/
def KeylessLate (definitions : List (String × Statement)) : Prop :=
  ((sampleProgram definitions).check none).isValid = true ∧
    ((sampleProgram definitions).context none).execution ≠ .single ∧
      ∃ init main, ((sampleProgram definitions).context none).SessionParts init main ∧
        ¬ KeyedAfterFirst ((sampleProgram definitions).context none) main

/-- The flag follows the text: not the interleavings, the rounds or the calls. -/
theorem not_keyed_after_first : KeylessLate earlyCheckout ∧ KeylessLate repeatedLogin ∧
    KeylessLate loginAfterCall ∧ KeylessLate loginFromInit := by
  refine ⟨⟨by decide +kernel, by decide +kernel, ?parallel⟩,
    ⟨by decide +kernel, by decide +kernel, ?loop⟩,
    ⟨by decide +kernel, by decide +kernel, exists_late_loginAfterCall⟩,
    ⟨by decide +kernel, by decide +kernel, ?init⟩⟩
  case parallel =>
    have hswapped : Interleaving [[Event.input "login" true], [.input "checkout" false]]
        [.input "checkout" false, .input "login" true] :=
      .cons (.cons .nil (.left _ .nil)) (.right _ (.left _ .nil))
    refine ⟨[], _, ⟨.undeclared rfl, .call rfl (.sequence (.cons (.leaf rfl) (.cons (.parallel
      (.cons (.leaf rfl) (.cons (.leaf rfl) .nil)) hswapped) .nil)))⟩, ?_⟩
    exact not_keyedAfterFirst_of_sublist (List.sublist_append_right _ _)
  case loop =>
    have hrounds : Run ((sampleProgram repeatedLogin).context none) true
        (.repeated .unknown (.input .unknown "login" none))
        (List.replicate 2 [Event.input "login" true]).flatten :=
      .repeated fun t ht => List.eq_of_mem_replicate ht ▸ .leaf rfl
    exact ⟨[], _, ⟨.undeclared rfl, .call rfl hrounds⟩, not_keyedAfterFirst_of_sublist (.refl _)⟩
  case init =>
    refine ⟨_, _, ⟨.call rfl (.leaf rfl), .call rfl (.sequence (.cons (.leaf rfl) (.cons
      (.call rfl (.leaf rfl)) .nil)))⟩, ?_⟩
    exact not_keyedAfterFirst_of_sublist (.refl _)

end Correlation
