import Correlation.Proofs.Definedness

/-!
# What runs need

A run needs a correlation variable if an event needs it before any event gives it a value.  The
typing tells which variables some run needs, once the table of typings is settled.

* If alternatives agree on whether they provide a variable, and no loop does, only what the typing
  needs is needed in a run (`mem_needed_of_run`).
* Whatever the typing needs is needed in some run (`exists_run_of_needed`).

The typing of `main` starts from what `init` provides, so the typing of a call of `main` leaves
needs out.  Neither `init` nor `main` comes to such a call: what they call is typed before `main`
(`Context.BeforeMain`).
-/

namespace Correlation

open Skeleton

/-- All definitions that a skeleton calls are typed before `main`. -/
def Context.BeforeMain (ctx : Context) (table : NameTable Typing) (x : Bool × Skeleton) : Prop :=
  ∀ y ∈ visited ctx.execution x.1 x.2, ∀ span name, y.2 = .call span name →
    name ∈ ctx.definitions.keys → table.keys.idxOf name < table.keys.idxOf mainName

/-- A variable is needed in a trace before it gets a value. -/
def NeedsFirst (ctx : Context) (l : Location) (t : List Event) : Prop :=
  MeetsBefore (fun e => e.needs ctx l = true) (fun e => e.defines ctx l = true) t

/-- If alternatives agree and no loop provides the variable, the typing needs what the trace needs.
-/
def NeedsCovered (ctx : Context) (table : NameTable Typing) (l : Location) (x : Bool × Skeleton)
    (t : List Event) : Prop :=
  (∀ y ∈ visited ctx.execution x.1 x.2,
    Agreed ctx (grants ctx table l) y ∧ Loopless ctx table l y) →
    ctx.BeforeMain table x → NeedsFirst ctx l t → l ∈ needed ctx table x

variable {ctx : Context} {table : NameTable Typing} {l : Location} {x : Bool × Skeleton}
  {t : List Event}

theorem Context.BeforeMain.child {c : Bool × Skeleton} (hx : ctx.BeforeMain table x)
    (hc : c ∈ children ctx.execution x.1 x.2) : ctx.BeforeMain table c :=
  fun y hy => hx y (mem_visited_of_child hc hy)

namespace Context.Settled

variable (h : ctx.Settled table)

include h

/-! ## Calls -/

/-- What a definition calls is typed before `main`, if the definition is not typed after `main`. -/
theorem beforeMain_body {d : Definition} (hd : ctx.definitions.find? d.name = some d)
    (hle : table.keys.idxOf d.name ≤ table.keys.idxOf mainName) :
    ctx.BeforeMain table (ctx.startsSession d, d.body.skeleton) := by
  intro y hy span name hcall hname
  exact Nat.lt_of_lt_of_le (h.ranked d hd name hname (Or.inl ⟨y, hy, span, hcall⟩)) hle

/-- A call needs what the body of the definition needs, apart from calls of `main`. -/
theorem needed_call {span : Span} {name : String} {d : Definition} (hx : x.2 = .call span name)
    (hd : ctx.definitions.find? name = some d) (hmain : d.name ≠ mainName) :
    needed ctx table x = needed ctx table (ctx.startsSession d, d.body.skeleton) := by
  obtain ⟨starter, k⟩ := x
  obtain rfl := hx
  obtain rfl := name_of_find? hd
  rw [needed, typing, h.called_eq hd, typingOf, entryOf, decide_eq_false hmain, Bool.false_and]
  rfl

/-- A call without definition needs nothing. -/
theorem needed_undeclared {span : Span} {name : String} (hx : x.2 = .call span name)
    (hname : ctx.definitions.find? name = none) : needed ctx table x = [] := by
  obtain ⟨starter, k⟩ := x
  obtain rfl := hx
  rw [needed, typing, h.called_undeclared hname]
  rfl

/-- A definition that is called before `main` is another one, and calls others before `main`. -/
theorem beforeMain_call {span : Span} {name : String} {d : Definition}
    (hx : ctx.BeforeMain table x) (hcall : x.2 = .call span name)
    (hd : ctx.definitions.find? name = some d) :
    d.name ≠ mainName ∧ ctx.BeforeMain table (ctx.startsSession d, d.body.skeleton) := by
  obtain rfl := name_of_find? hd
  have hrank := hx x (mem_visited_self _ _ _) span d.name hcall
    (List.mem_map_of_mem (OrderedSet.find?_eq_some_iff.mp hd).1)
  refine ⟨fun hmain => ?_, h.beforeMain_body hd (Nat.le_of_lt hrank)⟩
  rw [hmain] at hrank
  exact Nat.lt_irrefl _ hrank

/-! ## Needs of runs are needs of typings -/

/-- A need of a part is one of the whole, if no part before can settle it. -/
theorem needsCovered_of_child {c : Bool × Skeleton} {u : List Event} (hk : x.2.shape ≠ .leaf)
    (hsequence : ∀ parts, x.2 ≠ .sequence parts) (hc : c ∈ children ctx.execution x.1 x.2)
    (hmeets : NeedsFirst ctx l t → NeedsFirst ctx l u) (hu : NeedsCovered ctx table l c u) :
    NeedsCovered ctx table l x t := by
  intro hx hbefore hneeds
  have hneed : l ∈ needed ctx table c :=
    hu (fun y hy => hx y (mem_visited_of_child hc hy)) (hbefore.child hc) (hmeets hneeds)
  exact (mem_needed_iff h.sorted hk hsequence).mpr ⟨c, hc, hneed⟩

/-- What a sequence of runs needs the typing needs, if that holds of each of them and each gives a
value to what is provided. -/
theorem mem_needed_of_parts {starter : Bool} {parts : List Skeleton} {ts : List (List Event)}
    (hparts : List.Forall₂ (fun c t => (NeedsFirst ctx l t → l ∈ needed ctx table c) ∧
      (grants ctx table l c = true → ∃ e ∈ t, e.defines ctx l = true))
        (flagged ctx.execution starter parts) ts)
    (hneeds : NeedsFirst ctx l ts.flatten) : l ∈ needed ctx table (starter, .sequence parts) := by
  refine (mem_needed_sequence h.sorted).mpr (meetsBefore_flatten hparts ?_ ?_ hneeds)
  · exact fun c t hc => hc.1
  · intro c t hc hnone hgrants
    obtain ⟨e, he, hdefines⟩ := hc.2 hgrants
    exact hnone e he hdefines

/-- What a run needs before it gets a value the typing needs. -/
theorem mem_needed_of_run
    (hQ : ctx.Throughout fun x => Agreed ctx (grants ctx table l) x ∧ Loopless ctx table l x)
    (hrun : Run ctx x.1 x.2 t) (hx : ∀ y ∈ visited ctx.execution x.1 x.2,
      Agreed ctx (grants ctx table l) y ∧ Loopless ctx table l y)
    (hbefore : ctx.BeforeMain table x) (hneeds : NeedsFirst ctx l t) : l ∈ needed ctx table x := by
  refine Run.induction (motive := fun starter k t => NeedsCovered ctx table l (starter, k) t)
    ?leaf ?sequence ?parallel ?choice ?choiceNone ?conditional ?conditionalNone ?repeated ?call
    ?undeclared hrun hx hbefore hneeds
  case leaf =>
    intro starter k e he _ _ hneeds
    refine (mem_needed_event he).mpr ?_
    rcases hneeds with hneeds | ⟨_, hneeds⟩
    · exact hneeds
    · cases hneeds
  case sequence =>
    intro starter parts ts hparts hx hbefore hneeds
    refine h.mem_needed_of_parts (forall₂_imp_of_mem ?_ hparts) hneeds
    intro c hc t hrun
    have hc : c ∈ children ctx.execution starter (.sequence parts) := hc
    have hparts := fun y hy => hx y (mem_visited_of_child hc hy)
    exact ⟨hrun.2 hparts (hbefore.child hc), h.exists_of_run hQ hrun.1 hparts⟩
  case parallel =>
    intro starter parts ts t hparts ht hx hbefore hneeds
    obtain ⟨u, hu, hmeets⟩ := ht.exists_meetsBefore hneeds
    obtain ⟨c, hc, _, ih⟩ := exists_of_forall₂ hparts hu
    exact h.needsCovered_of_child (by nofun) (by nofun) hc (fun _ => hmeets) ih hx hbefore hneeds
  case choice =>
    intro starter span branches k t hk _ ih
    exact h.needsCovered_of_child (by nofun) (by nofun) (List.mem_map_of_mem hk) id ih
  case choiceNone => exact fun _ _ hneeds => hneeds.elim
  case conditional =>
    intro starter span branches c t hc _ ih
    exact h.needsCovered_of_child (by nofun) (by nofun) hc id ih
  case conditionalNone => exact fun _ _ hneeds => hneeds.elim
  case repeated =>
    intro starter span body ts hts hx hbefore hneeds
    obtain ⟨u, hu, hmeets⟩ := (Interleaving.flatten ts).exists_meetsBefore hneeds
    exact h.needsCovered_of_child (by nofun) (by nofun) (List.mem_singleton_self _)
      (fun _ => hmeets) (hts u hu).2 hx hbefore hneeds
  case call =>
    intro starter span name d t hd _ ih _ hbefore hneeds
    obtain ⟨hmain, hbody⟩ := h.beforeMain_call hbefore rfl hd
    rw [h.needed_call (x := (starter, .call span name)) rfl hd hmain]
    exact ih (hQ d (name_of_find? hd ▸ hd)) hbody hneeds
  case undeclared => exact fun _ _ _ hneeds => hneeds.elim

/-! ## Needs of typings are needs of runs -/

/-- What the typing needs some run needs before it gets a value.  Only in a sequence may the parts
before settle the need. -/
theorem exists_run_of_needed {starter : Bool} {k : Skeleton}
    (hbefore : ctx.BeforeMain table (starter, k)) (hneed : l ∈ needed ctx table (starter, k)) :
    ∃ t, Run ctx starter k t ∧ NeedsFirst ctx l t := by
  induction starter, k using h.induction with
  | step starter k ih hcalls =>
    have hevent : k.shape = .leaf → (∀ span name, k ≠ .call span name) →
        ∃ t, Run ctx starter k t ∧ NeedsFirst ctx l t := by
      intro hk hcall
      obtain ⟨e, he⟩ := exists_event starter hk hcall
      exact ⟨[e], .leaf he, Or.inl ((mem_needed_event (x := (starter, k)) he).mp hneed)⟩
    have hother : k.shape ≠ .leaf → (∀ parts, k ≠ .sequence parts) →
        ∃ c ∈ children ctx.execution starter k, ∃ t, Run ctx c.1 c.2 t ∧ NeedsFirst ctx l t := by
      intro hk hsequence
      obtain ⟨c, hc, hneed⟩ := (mem_needed_iff h.sorted hk hsequence).mp hneed
      exact ⟨c, hc, ih c hc (hbefore.child hc) hneed⟩
    cases k with
    | idle | request | input | assign | invalidate => exact hevent rfl (by nofun)
    | call span name =>
      cases hd : ctx.definitions.find? name with
      | none =>
        rw [h.needed_undeclared rfl hd] at hneed
        cases hneed
      | some d =>
        obtain ⟨hmain, hbody⟩ := h.beforeMain_call hbefore rfl hd
        rw [h.needed_call rfl hd hmain] at hneed
        obtain ⟨t, hrun, hneeds⟩ := hcalls span name d rfl hd hbody hneed
        exact ⟨t, .call hd hrun, hneeds⟩
    | sequence parts =>
      rw [mem_needed_sequence h.sorted] at hneed
      obtain ⟨ts, hts, hneeds⟩ := exists_meetsBefore_flatten (R := fun c t => Run ctx c.1 c.2 t)
        (fun c _ => h.exists_some_run c) (fun c hc hneed => ih c hc (hbefore.child hc) hneed)
        (fun c t hrun hgrants e he hdefines => hgrants (h.grants_of_run hrun he hdefines)) hneed
      exact ⟨ts.flatten, .sequence hts, hneeds⟩
    | parallel parts =>
      obtain ⟨c, hc, t, hrun, hneeds⟩ := hother (by nofun) (by nofun)
      obtain ⟨ts, hts, hmem⟩ := exists_forall₂_of_mem (R := fun c t => Run ctx c.1 c.2 t) hc hrun
        fun c _ => h.exists_some_run c
      obtain ⟨u, hu⟩ := Interleaving.exists_first hmem
      exact ⟨t ++ u, .parallel hts hu, meetsBefore_append.mpr (Or.inl hneeds)⟩
    | choice | conditional =>
      obtain ⟨c, hc, t, hrun, hneeds⟩ := hother (by nofun) (by nofun)
      exact ⟨t, .of_one rfl hc hrun, hneeds⟩
    | repeated span body =>
      obtain ⟨c, hc, t, hrun, hneeds⟩ := hother (by nofun) (by nofun)
      exact ⟨t, .of_loop rfl hc hrun, hneeds⟩

end Context.Settled

end Correlation
