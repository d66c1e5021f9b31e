import Correlation.Proofs.Progress
import Correlation.Proofs.Events
import Correlation.Proofs.Traces

/-!
# Runs

What can happen when a skeleton runs, as a relation to traces of events (`Run`).

* The parts of a sequence run one after the other, parallel parts in any interleaving.
* Of alternatives one branch runs, and nothing happens if there is no branch.
* A repeated body runs any number of times.
* A call runs the body of the definition, and nothing happens if there is none.
* Every other skeleton is a single event.

An input is marked by the starter flag with which it is checked.  A session is a run of `init` and
then one of `main` (`Context.Session`).

`Run.induction` is the induction on runs, and `Run.induction_inherited` is its form for what does
not depend on the order of events: the parts that all run are treated alike.  It may use a property
that passes to whatever the run comes to, which in `Run.induction_shape` holds of all definitions.
In the other direction `Run.of_all` and its companions put runs of parts together.
-/

namespace Correlation

namespace Skeleton

/-- The event of a skeleton without parts. -/
def event (starter : Bool) : Skeleton → Option Event
  | .input _ operation _ => some (.input operation starter)
  | .assign _ target value => some (.assign target value)
  | .invalidate _ paths => some (.invalidate paths)
  | .idle | .request _ _ => some .silent
  | _ => none

/-- A skeleton without parts that is not a call is a single event. -/
theorem exists_event (starter : Bool) {k : Skeleton} (hk : k.shape = .leaf)
    (hcall : ∀ span name, k ≠ .call span name) : ∃ e, k.event starter = some e := by
  cases k with
  | idle | request | input | assign | invalidate => exact ⟨_, rfl⟩
  | call span name => exact absurd rfl (hcall span name)
  | _ => cases hk

end Skeleton

open Skeleton

/-- What can happen when a skeleton runs that was checked with a starter flag. -/
inductive Run (ctx : Context) : Bool → Skeleton → List Event → Prop where
  /-- A single event. -/
  | leaf {starter : Bool} {k : Skeleton} {e : Event} (he : k.event starter = some e) :
    Run ctx starter k [e]
  /-- One part after the other. -/
  | sequence {starter : Bool} {parts : List Skeleton} {ts : List (List Event)}
    (hparts : List.Forall₂ (fun x t => Run ctx x.1 x.2 t)
      (flagged ctx.execution starter parts) ts) : Run ctx starter (.sequence parts) ts.flatten
  /-- Parts in any interleaving. -/
  | parallel {starter : Bool} {parts : List Skeleton} {ts : List (List Event)} {t : List Event}
    (hparts : List.Forall₂ (fun x t => Run ctx x.1 x.2 t)
      (flagged ctx.execution starter parts) ts)
    (ht : Interleaving ts t) : Run ctx starter (.parallel parts) t
  /-- One of the branches. -/
  | choice {starter : Bool} {span : Span} {branches : List Skeleton} {x : Skeleton} {t : List Event}
    (hx : x ∈ branches) (hrun : Run ctx starter x t) : Run ctx starter (.choice span branches) t
  /-- No branch. -/
  | choiceNone {starter : Bool} {span : Span} : Run ctx starter (.choice span []) []
  /-- One of the branches. -/
  | conditional {starter : Bool} {span : Span} {branches : List Skeleton} {c : Bool × Skeleton}
    {t : List Event} (hc : c ∈ flagged ctx.execution starter branches) (hrun : Run ctx c.1 c.2 t) :
    Run ctx starter (.conditional span branches) t
  /-- No branch. -/
  | conditionalNone {starter : Bool} {span : Span} : Run ctx starter (.conditional span []) []
  /-- Any number of times. -/
  | repeated {starter : Bool} {span : Span} {body : Skeleton} {ts : List (List Event)}
    (hts : ∀ t ∈ ts, Run ctx starter body t) : Run ctx starter (.repeated span body) ts.flatten
  /-- The body of a definition. -/
  | call {starter : Bool} {span : Span} {name : String} {d : Definition} {t : List Event}
    (hd : ctx.definitions.find? name = some d)
    (hrun : Run ctx (ctx.startsSession d) d.body.skeleton t) : Run ctx starter (.call span name) t
  /-- No definition. -/
  | undeclared {starter : Bool} {span : Span} {name : String}
    (hname : ctx.definitions.find? name = none) : Run ctx starter (.call span name) []

/-- A property that passes from a part to its own parts and, through calls, to the bodies of
definitions. -/
structure Context.Inherits (ctx : Context) (Q : Bool × Skeleton → Prop) : Prop where
  child : ∀ {x c : Bool × Skeleton}, Q x → c ∈ children ctx.execution x.1 x.2 → Q c
  call : ∀ {x : Bool × Skeleton} {span : Span} {name : String} {d : Definition}, Q x →
    x.2 = .call span name → ctx.definitions.find? name = some d →
      Q (ctx.startsSession d, d.body.skeleton)

/-- What holds of all parts of all definitions passes to whatever a part comes to. -/
theorem Context.inherits_visited {ctx : Context} {Q : Bool × Skeleton → Prop}
    (hQ : ∀ d, ctx.definitions.find? d.name = some d →
      ∀ x ∈ visited ctx.execution (ctx.startsSession d) d.body.skeleton, Q x) :
    ctx.Inherits fun x => ∀ y ∈ visited ctx.execution x.1 x.2, Q y where
  child hx hc y hy := hx y (mem_visited_of_child hc hy)
  call _ _ hd := hQ _ (name_of_find? hd ▸ hd)

namespace Run

variable {ctx : Context}

/-- Induction on runs, with a hypothesis for every part. -/
theorem induction {motive : Bool → Skeleton → List Event → Prop}
    (leaf : ∀ {starter k e}, k.event starter = some e → motive starter k [e])
    (sequence : ∀ {starter parts} {ts : List (List Event)},
      List.Forall₂ (fun x t => Run ctx x.1 x.2 t ∧ motive x.1 x.2 t)
        (flagged ctx.execution starter parts) ts → motive starter (.sequence parts) ts.flatten)
    (parallel : ∀ {starter parts} {ts : List (List Event)} {t},
      List.Forall₂ (fun x t => Run ctx x.1 x.2 t ∧ motive x.1 x.2 t)
        (flagged ctx.execution starter parts) ts → Interleaving ts t →
          motive starter (.parallel parts) t)
    (choice : ∀ {starter span branches x t}, x ∈ branches → Run ctx starter x t →
      motive starter x t → motive starter (.choice span branches) t)
    (choiceNone : ∀ {starter span}, motive starter (.choice span []) [])
    (conditional : ∀ {starter span branches c t}, c ∈ flagged ctx.execution starter branches →
      Run ctx c.1 c.2 t → motive c.1 c.2 t → motive starter (.conditional span branches) t)
    (conditionalNone : ∀ {starter span}, motive starter (.conditional span []) [])
    (repeated : ∀ {starter span body} {ts : List (List Event)},
      (∀ t ∈ ts, Run ctx starter body t ∧ motive starter body t) →
        motive starter (.repeated span body) ts.flatten)
    (call : ∀ {starter span name d t}, ctx.definitions.find? name = some d →
      Run ctx (ctx.startsSession d) d.body.skeleton t →
        motive (ctx.startsSession d) d.body.skeleton t → motive starter (.call span name) t)
    (undeclared : ∀ {starter span name}, ctx.definitions.find? name = none →
      motive starter (.call span name) [])
    {starter : Bool} {k : Skeleton} {t : List Event} (h : Run ctx starter k t) :
    motive starter k t := by
  let both (x : Bool × Skeleton) (t : List Event) : Prop := Run ctx x.1 x.2 t ∧ motive x.1 x.2 t
  have hnil : List.Forall₂ both [] [] := .nil
  have hcons : ∀ {x t xs ts}, both x t → List.Forall₂ both xs ts →
      List.Forall₂ both (x :: xs) (t :: ts) := fun hx hxs => .cons hx hxs
  exact @Run.rec ctx (fun starter k t _ => motive starter k t)
    (fun xs ts _ => List.Forall₂ both xs ts) leaf (fun _ ih => sequence ih)
    (fun _ ht ih => parallel ih ht) choice choiceNone conditional conditionalNone
    (fun hts ih => repeated fun t ht => ⟨hts t ht, ih t ht⟩) call undeclared hnil
    (fun hrun _ ih ihs => hcons ⟨hrun, ih⟩ ihs) starter k t h

/-- Induction on runs for what does not depend on the order of events.  A property of the parts that
the run comes to may be used. -/
theorem induction_inherited {Q : Bool × Skeleton → Prop} (hQ : ctx.Inherits Q)
    {motive : Bool × Skeleton → List Event → Prop}
    (leaf : ∀ x e, x.2.event x.1 = some e → motive x [e])
    (all : ∀ x (ts : List (List Event)) t, x.2.shape = .all → Q x →
      List.Forall₂ motive (children ctx.execution x.1 x.2) ts → t.Perm ts.flatten → motive x t)
    (one : ∀ x c t, x.2.shape = .one → Q x → c ∈ children ctx.execution x.1 x.2 → motive c t →
      motive x t)
    (none : ∀ x, x.2.shape = .one → children ctx.execution x.1 x.2 = [] → motive x [])
    (loop : ∀ x c (ts : List (List Event)), x.2.shape = .loop → Q x →
      c ∈ children ctx.execution x.1 x.2 → (∀ t ∈ ts, motive c t) → motive x ts.flatten)
    (call : ∀ x span name d t, x.2 = .call span name → ctx.definitions.find? name = some d →
      motive (ctx.startsSession d, d.body.skeleton) t → motive x t)
    (undeclared : ∀ x span name, x.2 = .call span name → ctx.definitions.find? name = Option.none →
      motive x [])
    {x : Bool × Skeleton} {t : List Event} (h : Run ctx x.1 x.2 t) (hx : Q x) : motive x t := by
  have hall : ∀ {starter k} {parts : List Skeleton} {ts : List (List Event)} {t : List Event},
      k.shape = .all → children ctx.execution starter k = flagged ctx.execution starter parts →
        List.Forall₂ (fun x t => Run ctx x.1 x.2 t ∧ (Q x → motive x t))
          (flagged ctx.execution starter parts) ts → t.Perm ts.flatten → Q (starter, k) →
            motive (starter, k) t := by
    intro starter k parts ts t hk hchildren hparts ht hx
    refine all (starter, k) ts t hk hx ?_ ht
    rw [← hchildren] at hparts
    exact forall₂_imp_of_mem (fun c hc t h => h.2 (hQ.child hx hc)) hparts
  refine Run.induction (motive := fun starter k t => Q (starter, k) → motive (starter, k) t)
    ?leaf ?sequence ?parallel ?choice ?choiceNone ?conditional ?conditionalNone ?repeated ?call
    ?undeclared h hx
  case leaf => exact fun he _ => leaf _ _ he
  case sequence => exact fun hparts => hall rfl rfl hparts (.refl _)
  case parallel => exact fun hparts ht => hall rfl rfl hparts ht.perm
  case choice =>
    intro starter span branches x t hmem _ ih hx
    have hc : (starter, x) ∈ children ctx.execution starter (.choice span branches) :=
      List.mem_map_of_mem hmem
    exact one (starter, .choice span branches) (starter, x) t rfl hx hc (ih (hQ.child hx hc))
  case choiceNone => exact fun _ => none _ rfl rfl
  case conditional =>
    intro starter span branches c t hc _ ih hx
    exact one (starter, .conditional span branches) c t rfl hx hc (ih (hQ.child hx hc))
  case conditionalNone => exact fun _ => none _ rfl rfl
  case repeated =>
    intro starter span body ts hts hx
    have hc : (starter, body) ∈ children ctx.execution starter (.repeated span body) :=
      List.mem_singleton_self _
    exact loop (starter, .repeated span body) (starter, body) ts rfl hx hc fun t ht =>
      (hts t ht).2 (hQ.child hx hc)
  case call =>
    intro starter span name d t hd _ ih hx
    exact call _ span name d t rfl hd (ih (hQ.call hx rfl hd))
  case undeclared => exact fun hname _ => undeclared _ _ _ rfl hname

/-- Induction on runs for what does not depend on the order of events.  A property of the parts of
all definitions may be used. -/
theorem induction_shape {Q : Bool × Skeleton → Prop}
    (hQ : ∀ d, ctx.definitions.find? d.name = some d →
      ∀ x ∈ visited ctx.execution (ctx.startsSession d) d.body.skeleton, Q x)
    {motive : Bool × Skeleton → List Event → Prop}
    (leaf : ∀ x e, x.2.event x.1 = some e → motive x [e])
    (all : ∀ x (ts : List (List Event)) t, x.2.shape = .all → Q x →
      List.Forall₂ motive (children ctx.execution x.1 x.2) ts → t.Perm ts.flatten → motive x t)
    (one : ∀ x c t, x.2.shape = .one → Q x → c ∈ children ctx.execution x.1 x.2 → motive c t →
      motive x t)
    (none : ∀ x, x.2.shape = .one → children ctx.execution x.1 x.2 = [] → motive x [])
    (loop : ∀ x c (ts : List (List Event)), x.2.shape = .loop → Q x →
      c ∈ children ctx.execution x.1 x.2 → (∀ t ∈ ts, motive c t) → motive x ts.flatten)
    (call : ∀ x span name d t, x.2 = .call span name → ctx.definitions.find? name = some d →
      motive (ctx.startsSession d, d.body.skeleton) t → motive x t)
    (undeclared : ∀ x span name, x.2 = .call span name → ctx.definitions.find? name = Option.none →
      motive x [])
    {x : Bool × Skeleton} {t : List Event} (h : Run ctx x.1 x.2 t)
    (hx : ∀ y ∈ visited ctx.execution x.1 x.2, Q y) : motive x t := by
  have hself : ∀ x : Bool × Skeleton, (∀ y ∈ visited ctx.execution x.1 x.2, Q y) → Q x :=
    fun x hx => hx x (mem_visited_self _ _ _)
  exact induction_inherited (Context.inherits_visited hQ) leaf
    (fun x ts t hk hx => all x ts t hk (hself x hx)) (fun x c t hk hx => one x c t hk (hself x hx))
    none (fun x c ts hk hx => loop x c ts hk (hself x hx)) call undeclared h hx

/-! ## Runs of the parts put together -/

variable {starter : Bool} {k : Skeleton} {c : Bool × Skeleton} {t : List Event}

/-- Parts that all run may run one after the other. -/
theorem of_all {ts : List (List Event)} (hk : k.shape = .all)
    (hparts : List.Forall₂ (fun x t => Run ctx x.1 x.2 t) (children ctx.execution starter k) ts) :
    Run ctx starter k ts.flatten := by
  cases k with
  | sequence parts => exact .sequence hparts
  | parallel parts => exact .parallel hparts (Interleaving.flatten ts)
  | _ => cases hk

/-- One of the alternatives runs. -/
theorem of_one (hk : k.shape = .one) (hc : c ∈ children ctx.execution starter k)
    (hrun : Run ctx c.1 c.2 t) : Run ctx starter k t := by
  cases k with
  | choice span branches =>
    obtain ⟨x, hx, rfl⟩ := List.mem_map.mp hc
    exact .choice hx hrun
  | conditional span branches => exact .conditional hc hrun
  | _ => cases hk

/-- Without alternatives nothing happens. -/
theorem of_none (hk : k.shape = .one) (hchildren : children ctx.execution starter k = []) :
    Run ctx starter k [] := by
  cases k with
  | choice span branches =>
    obtain rfl := List.map_eq_nil_iff.mp hchildren
    exact .choiceNone
  | conditional span branches =>
    cases branches with
    | nil => exact .conditionalNone
    | cons x rest => cases hchildren
  | _ => cases hk

/-- A repeated part may run once. -/
theorem of_loop (hk : k.shape = .loop) (hc : c ∈ children ctx.execution starter k)
    (hrun : Run ctx c.1 c.2 t) : Run ctx starter k t := by
  cases k with
  | repeated span body =>
    obtain rfl := List.mem_singleton.mp hc
    have honce : Run ctx starter (.repeated span body) [t].flatten :=
      .repeated fun u hu => List.mem_singleton.mp hu ▸ hrun
    rwa [List.flatten_cons, List.flatten_nil, List.append_nil] at honce
  | _ => cases hk

end Run

/-- A session runs `init` and then `main`. -/
def Context.Session (ctx : Context) (t : List Event) : Prop :=
  ∃ init main, Run ctx false (.call .unknown initName) init ∧
    Run ctx false (.call .unknown mainName) main ∧ t = init ++ main

end Correlation
