import Correlation.Proofs.Leaves
import Correlation.Proofs.Settled

/-!
# What runs define

The correlation variables that get a value in a run, compared with those that the typing provides,
once the table of typings is settled.

* *At most*: whatever gets a value is provided (`grants_of_run`).  If no two parts that both run
  provide a variable, and no loop does, the variable gets a value at most once (`countP_run_le`).
* *At least*: if alternatives agree on whether they provide a variable, and no loop does, every run
  gives a value to the variable that is provided (`exists_of_run`).
* The value is fresh as the typing says, if alternatives agree on that (`freshness_of_run`).

Conversely what is provided gets a value in some run (`exists_run`), and a run of a part is met in
some run of the whole (`exists_run_of_part`).
-/

namespace Correlation

open Skeleton

section Parts

variable (ctx : Context) (table : NameTable Typing) (l : Location)

/-- At most one of the parts that all run provides the variable. -/
def Lone (x : Bool × Skeleton) : Prop :=
  x.2.shape = .all → (children ctx.execution x.1 x.2).countP (grants ctx table l) ≤ 1

/-- A part that runs any number of times does not provide the variable. -/
def Loopless (x : Bool × Skeleton) : Prop :=
  x.2.shape = .loop → ∀ c ∈ children ctx.execution x.1 x.2, grants ctx table l c = false

/-- The parts of which one runs look the same in some respect. -/
def Agreed {β : Type} (view : Bool × Skeleton → β) (x : Bool × Skeleton) : Prop :=
  x.2.shape = .one → ∀ c ∈ children ctx.execution x.1 x.2,
    ∀ c' ∈ children ctx.execution x.1 x.2, view c = view c'

/-- All parts of the bodies of definitions have a property. -/
def Context.Throughout (Q : Bool × Skeleton → Prop) : Prop :=
  ∀ d, ctx.definitions.find? d.name = some d → ∀ x ∈ ctx.partsOf d, Q x

end Parts

variable {ctx : Context} {table : NameTable Typing} {l : Location} {x : Bool × Skeleton}
  {t : List Event} {e : Event}

namespace Context.Settled

variable (h : ctx.Settled table)

include h

/-! ## Calls -/

/-- A call provides what the body of the definition provides. -/
theorem provided_call {span : Span} {name : String} {d : Definition} (hx : x.2 = .call span name)
    (hd : ctx.definitions.find? name = some d) :
    provided ctx table x = provided ctx table (ctx.startsSession d, d.body.skeleton) := by
  obtain ⟨starter, k⟩ := x
  obtain rfl := hx
  obtain rfl := name_of_find? hd
  rw [provided, typing, h.called_eq hd, typingOf, providedCorrelation_typing h.sorted]

theorem grants_call {span : Span} {name : String} {d : Definition} (hx : x.2 = .call span name)
    (hd : ctx.definitions.find? name = some d) :
    grants ctx table l x = grants ctx table l (ctx.startsSession d, d.body.skeleton) := by
  rw [grants, h.provided_call hx hd, grants]

/-- A call without definition provides nothing. -/
theorem grants_undeclared {span : Span} {name : String} (hx : x.2 = .call span name)
    (hname : ctx.definitions.find? name = none) : grants ctx table l x = false := by
  obtain ⟨starter, k⟩ := x
  obtain rfl := hx
  rw [grants, provided, typing, h.called_undeclared hname]
  rfl

/-! ## Parts -/

/-- A part of a skeleton provides no more than the skeleton. -/
theorem grants_of_child {c : Bool × Skeleton} (hc : c ∈ children ctx.execution x.1 x.2)
    (hgrants : grants ctx table l c = true) : grants ctx table l x = true := by
  refine (grants_iff h.sorted fun hk => ?_).mpr ⟨c, hc, hgrants⟩
  rw [children_of_leaf hk] at hc
  cases hc

/-- If a skeleton with parts provides the variable, so does a part. -/
theorem exists_child_of_grants {shape : Shape} (hk : x.2.shape = shape) (hshape : shape ≠ .leaf)
    (hgrants : grants ctx table l x = true) :
    ∃ c ∈ children ctx.execution x.1 x.2, grants ctx table l c = true :=
  (grants_iff h.sorted (hk ▸ hshape)).mp hgrants

/-- One of the parts provides the variable if the skeleton does. -/
theorem exists_child_granting {shape : Shape} (hk : x.2.shape = shape) (hshape : shape ≠ .leaf)
    (hsome : ∃ c, c ∈ children ctx.execution x.1 x.2) :
    ∃ c ∈ children ctx.execution x.1 x.2,
      grants ctx table l x = true → grants ctx table l c = true := by
  by_cases hgrants : grants ctx table l x = true
  · obtain ⟨c, hc, hgrant⟩ := h.exists_child_of_grants hk hshape hgrants
    exact ⟨c, hc, fun _ => hgrant⟩
  · obtain ⟨c, hc⟩ := hsome
    exact ⟨c, hc, fun h => absurd h hgrants⟩

/-- If the parts that provide the variable give it a value, so do all parts together. -/
theorem exists_of_parts (hk : x.2.shape = .all) {ts : List (List Event)}
    (hparts : List.Forall₂ (fun c t => grants ctx table l c = true →
      ∃ e ∈ t, e.defines ctx l = true) (children ctx.execution x.1 x.2) ts)
    (hgrants : grants ctx table l x = true) : ∃ e ∈ ts.flatten, e.defines ctx l = true := by
  obtain ⟨c, hc, hgrants⟩ := h.exists_child_of_grants hk (by decide) hgrants
  have hcount := countP_le_flatten (P := grants ctx table l) hparts fun _ _ h => h
  have hpos := Nat.lt_of_lt_of_le (List.countP_pos_iff.mpr ⟨c, hc, hgrants⟩) hcount
  exact List.countP_pos_iff.mp hpos

/-! ## At most -/

/-- Whatever gets a value in a run is provided. -/
theorem grants_of_run (hrun : Run ctx x.1 x.2 t) (he : e ∈ t) (hdefines : e.defines ctx l = true) :
    grants ctx table l x = true := by
  refine Run.induction_shape (Q := fun _ => True) (fun _ _ _ _ => trivial)
    (motive := fun x t => ∀ e ∈ t, e.defines ctx l = true → grants ctx table l x = true)
    ?leaf ?all ?one ?none ?loop ?call ?undeclared hrun (fun _ _ => trivial) e he hdefines
  case leaf =>
    intro x e he e' he' hdefines
    rw [List.mem_singleton.mp he'] at hdefines
    rw [grants_event table he, hdefines]
  case all =>
    intro x ts t hk _ hparts hperm e he hdefines
    obtain ⟨u, hu, he⟩ := List.mem_flatten.mp (hperm.mem_iff.mp he)
    obtain ⟨c, hc, hgrants⟩ := exists_of_forall₂ hparts hu
    exact h.grants_of_child hc (hgrants e he hdefines)
  case one =>
    intro x c t hk _ hc hgrants e he hdefines
    exact h.grants_of_child hc (hgrants e he hdefines)
  case none => exact fun _ _ _ e he => absurd he List.not_mem_nil
  case loop =>
    intro x c ts hk _ hc hgrants e he hdefines
    obtain ⟨u, hu, he⟩ := List.mem_flatten.mp he
    exact h.grants_of_child hc (hgrants u hu e he hdefines)
  case call =>
    intro x span name d t hx hd hgrants e he hdefines
    rw [h.grants_call hx hd]
    exact hgrants e he hdefines
  case undeclared => exact fun _ _ _ _ _ e he => absurd he List.not_mem_nil

/-- A variable that no two parts define, and no loop, gets a value at most once, and only if it is
provided. -/
theorem countP_run_le
    (hQ : ctx.Throughout fun x => Lone ctx table l x ∧ Loopless ctx table l x)
    (hrun : Run ctx x.1 x.2 t)
    (hx : ∀ y ∈ visited ctx.execution x.1 x.2, Lone ctx table l y ∧ Loopless ctx table l y) :
    t.countP (Event.defines ctx l) ≤ (grants ctx table l x).toNat := by
  have hle : ∀ {a b : Bool}, (a = true → b = true) → a.toNat ≤ b.toNat := by decide
  refine Run.induction_shape hQ
    (motive := fun x t => t.countP (Event.defines ctx l) ≤ (grants ctx table l x).toNat)
    ?leaf ?all ?one ?none ?loop ?call ?undeclared hrun hx
  case leaf =>
    intro x e he
    rw [grants_event table he, List.countP_singleton]
    cases e.defines ctx l <;> decide
  case all =>
    intro x ts t hk hpart hparts hperm
    have hsum := countP_flatten_le (P := grants ctx table l) hparts fun _ _ h => h
    rw [hperm.countP_eq]
    cases hgrants : grants ctx table l x with
    | true => exact Nat.le_trans hsum (hpart.1 hk)
    | false =>
      have hnone : (children ctx.execution x.1 x.2).countP (grants ctx table l) = 0 := by
        refine List.countP_eq_zero.mpr fun c hc hgrant => ?_
        exact Bool.false_ne_true
          (hgrants.symm.trans (h.grants_of_child hc hgrant))
      exact Nat.le_trans hsum (Nat.le_of_eq hnone)
  case one =>
    intro x c t hk _ hc hcount
    exact Nat.le_trans hcount (hle (h.grants_of_child hc))
  case none => exact fun _ _ _ => Nat.zero_le _
  case loop =>
    intro x c ts hk hpart hc hcount
    rw [hpart.2 hk c hc] at hcount
    rw [List.countP_eq_zero.mpr]
    · exact Nat.zero_le _
    · intro e he
      obtain ⟨u, hu, he⟩ := List.mem_flatten.mp he
      exact List.countP_eq_zero.mp (Nat.le_zero.mp (hcount u hu)) e he
  case call =>
    intro x span name d t hx hd hcount
    rwa [h.grants_call hx hd]
  case undeclared => exact fun _ _ _ _ _ => Nat.zero_le _

/-! ## At least -/

/-- A variable that is provided gets a value in every run, if in the parts that the run comes to
alternatives agree and no loop defines it. -/
theorem exists_of_inherited {Q : Bool × Skeleton → Prop} (hQ : ctx.Inherits Q)
    (hpart : ∀ x, Q x → Agreed ctx (grants ctx table l) x ∧ Loopless ctx table l x)
    (hrun : Run ctx x.1 x.2 t) (hx : Q x) (hgrants : grants ctx table l x = true) :
    ∃ e ∈ t, e.defines ctx l = true := by
  refine Run.induction_inherited hQ
    (motive := fun x t => grants ctx table l x = true → ∃ e ∈ t, e.defines ctx l = true)
    ?leaf ?all ?one ?none ?loop ?call ?undeclared hrun hx hgrants
  case leaf =>
    intro x e he hgrants
    rw [grants_event table he] at hgrants
    exact ⟨e, List.mem_singleton_self e, hgrants⟩
  case all =>
    intro x ts t hk _ hparts hperm hgrants
    obtain ⟨e, he, hdefines⟩ := h.exists_of_parts hk hparts hgrants
    exact ⟨e, hperm.mem_iff.mpr he, hdefines⟩
  case one =>
    intro x c t hk hx hc hdefines hgrants
    obtain ⟨c', hc', hgrants⟩ := h.exists_child_of_grants hk (by decide) hgrants
    exact hdefines (by rw [(hpart x hx).1 hk c hc c' hc', hgrants])
  case none =>
    intro x hk hchildren hgrants
    obtain ⟨c, hc, _⟩ := h.exists_child_of_grants hk (by decide) hgrants
    rw [hchildren] at hc
    cases hc
  case loop =>
    intro x c ts hk hx _ _ hgrants
    obtain ⟨c', hc', hgrants⟩ := h.exists_child_of_grants hk (by decide) hgrants
    rw [(hpart x hx).2 hk c' hc'] at hgrants
    cases hgrants
  case call =>
    intro x span name d t hx hd hdefines hgrants
    exact hdefines (by rw [← h.grants_call hx hd, hgrants])
  case undeclared =>
    intro x span name hx hname hgrants
    rw [h.grants_undeclared hx hname] at hgrants
    cases hgrants

/-- A variable that is provided gets a value in every run, if alternatives agree and no loop defines
it. -/
theorem exists_of_run
    (hQ : ctx.Throughout fun x => Agreed ctx (grants ctx table l) x ∧ Loopless ctx table l x)
    (hrun : Run ctx x.1 x.2 t) (hx : ∀ y ∈ visited ctx.execution x.1 x.2,
      Agreed ctx (grants ctx table l) y ∧ Loopless ctx table l y)
    (hgrants : grants ctx table l x = true) : ∃ e ∈ t, e.defines ctx l = true :=
  h.exists_of_inherited (inherits_visited hQ) (fun x hx => hx x (mem_visited_self _ _ _)) hrun hx
    hgrants

/-! ## Freshness -/

/-- The value that a variable gets in a run is fresh as the typing says, if no two parts define the
variable and alternatives agree on its freshness. -/
theorem freshness_of_run
    (hQ : ctx.Throughout fun x => Lone ctx table l x ∧
      Agreed ctx (fun x => (provided ctx table x).freshness l) x)
    (hrun : Run ctx x.1 x.2 t) (hx : ∀ y ∈ visited ctx.execution x.1 x.2, Lone ctx table l y ∧
      Agreed ctx (fun x => (provided ctx table x).freshness l) y)
    {fresh : Bool} (he : e ∈ t) (hfresh : e.freshness ctx l = some fresh) :
    (provided ctx table x).freshness l = some fresh := by
  refine Run.induction_shape hQ
    (motive := fun x t => ∀ e ∈ t, e.freshness ctx l = some fresh →
      (provided ctx table x).freshness l = some fresh)
    ?leaf ?all ?one ?none ?loop ?call ?undeclared hrun hx e he hfresh
  case leaf =>
    intro x e he e' he' hfresh
    rw [List.mem_singleton.mp he'] at hfresh
    rw [freshness_event he, hfresh]
  case all =>
    intro x ts t hk hpart hparts hperm e he hfresh
    obtain ⟨u, hu, he⟩ := List.mem_flatten.mp (hperm.mem_iff.mp he)
    obtain ⟨c, hc, hchild⟩ := exists_of_forall₂ hparts hu
    refine (freshness_all h.sorted hk).trans ?_
    refine findSome?_of_countP_le_one ?_ hc (hchild e he hfresh)
    simpa only [← grants_eq_isSome] using hpart.1 hk
  case one =>
    intro x c t hk hpart hc hchild e he hfresh
    refine freshness_one hk (List.ne_nil_of_mem hc) fun c' hc' => ?_
    rw [← hchild e he hfresh]
    exact hpart.2 hk c' hc' c hc
  case none => exact fun _ _ _ e he => absurd he List.not_mem_nil
  case loop =>
    intro x c ts hk _ hc hchild e he hfresh
    obtain ⟨u, hu, he⟩ := List.mem_flatten.mp he
    rw [provided_loop hk hc]
    exact hchild u hu e he hfresh
  case call =>
    intro x span name d t hx hd hbody e he hfresh
    rw [h.provided_call hx hd]
    exact hbody e he hfresh
  case undeclared => exact fun _ _ _ _ _ e he => absurd he List.not_mem_nil

/-! ## Some run -/

/-- Every skeleton has a run, and some run gives a value to a variable that is provided. -/
theorem exists_run (l : Location) (starter : Bool) (k : Skeleton) :
    ∃ t, Run ctx starter k t ∧
      (grants ctx table l (starter, k) = true → ∃ e ∈ t, e.defines ctx l = true) := by
  induction starter, k using h.induction with
  | step starter k ih hcalls =>
    by_cases hcall : ∃ span name, k = .call span name
    · obtain ⟨span, name, rfl⟩ := hcall
      cases hd : ctx.definitions.find? name with
      | none =>
        refine ⟨[], .undeclared hd, fun hgrants => ?_⟩
        rw [h.grants_undeclared rfl hd] at hgrants
        cases hgrants
      | some d =>
        obtain ⟨t, hrun, hdefines⟩ := hcalls span name d rfl hd
        refine ⟨t, .call hd hrun, fun hgrants => hdefines ?_⟩
        rwa [← h.grants_call (x := (starter, .call span name)) rfl hd]
    · cases hk : k.shape with
      | leaf =>
        obtain ⟨e, he⟩ := exists_event starter hk fun span name hk => hcall ⟨span, name, hk⟩
        refine ⟨[e], .leaf he, fun hgrants => ⟨e, List.mem_singleton_self e, ?_⟩⟩
        rw [← grants_event table (x := (starter, k)) he, hgrants]
      | all =>
        obtain ⟨ts, hts⟩ := exists_forall₂ ih
        exact ⟨ts.flatten, .of_all hk (hts.imp fun _ _ h => h.1),
          h.exists_of_parts (x := (starter, k)) hk (hts.imp fun _ _ h => h.2)⟩
      | one =>
        cases hchildren : children ctx.execution starter k with
        | nil =>
          refine ⟨[], .of_none hk hchildren, fun hgrants => ?_⟩
          obtain ⟨c, hc, _⟩ := h.exists_child_of_grants hk (by decide) hgrants
          rw [hchildren] at hc
          cases hc
        | cons c rest =>
          obtain ⟨c, hc, hgrant⟩ := h.exists_child_granting (x := (starter, k)) (l := l) hk
            (by decide) ⟨c, hchildren ▸ List.mem_cons_self⟩
          obtain ⟨t, hrun, hdefines⟩ := ih c hc
          exact ⟨t, .of_one hk hc hrun, fun hgrants => hdefines (hgrant hgrants)⟩
      | loop =>
        obtain ⟨c, hc, hgrant⟩ := h.exists_child_granting (x := (starter, k)) (l := l) hk
          (by decide) (exists_child_of_loop ctx.execution starter hk)
        obtain ⟨t, hrun, hdefines⟩ := ih c hc
        exact ⟨t, .of_loop hk hc hrun, fun hgrants => hdefines (hgrant hgrants)⟩

theorem exists_some_run (x : Bool × Skeleton) : ∃ t, Run ctx x.1 x.2 t := by
  obtain ⟨t, hrun, _⟩ := h.exists_run ⟨false, []⟩ x.1 x.2
  exact ⟨t, hrun⟩

/-- A run of a part is met in some run of the whole. -/
theorem exists_run_of_part {starter : Bool} {k : Skeleton} (ht : Run ctx x.1 x.2 t)
    (hx : x ∈ visited ctx.execution starter k) : ∃ u, Run ctx starter k u ∧ t.Sublist u := by
  induction starter, k using induction_children ctx.execution with
  | step starter k ih =>
    rcases mem_visited_iff.mp hx with rfl | ⟨c, hc, hx⟩
    · exact ⟨t, ht, .refl t⟩
    · obtain ⟨u, hu, htu⟩ := ih c hc hx
      cases hk : k.shape with
      | leaf =>
        rw [children_of_leaf hk] at hc
        cases hc
      | all =>
        obtain ⟨ts, hts, hmem⟩ := exists_forall₂_of_mem hc hu fun c _ => h.exists_some_run c
        exact ⟨ts.flatten, .of_all hk hts, htu.trans (List.sublist_flatten_of_mem hmem)⟩
      | one => exact ⟨u, .of_one hk hc hu, htu⟩
      | loop => exact ⟨u, .of_loop hk hc hu, htu⟩

end Context.Settled

end Correlation
