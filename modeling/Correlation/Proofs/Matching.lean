import Correlation.Proofs.Refinement
import Correlation.Proofs.Resemblance

/-!
# Skeletons that match

Two tables of typings are compared once more, a new one and an old one, now by resemblance.  A
skeleton *matches* another one if its typing by the new table resembles that of the other by the old
table, whenever the same is defined before them.

If the parts of a skeleton match those of another one that is put together in the same way, the
skeletons match (`matches_of_alike`), and if nothing is wrong with the old one nothing is wrong with
the new one (`faults_eq_nil_of_alike`).  There the branches that start sessions have to be looked at
apart, since resemblance leaves the starting operations out.  A skeleton matches itself if its calls
do (`matches_self`).
-/

namespace Correlation

namespace Skeleton

/-- A skeleton has by the new table a typing that resembles the one that another skeleton has by the
old table, if the same is defined before them. -/
def Matches (ctx : Context) (new old : NameTable Typing) (lax : Prop) (x y : Bool × Skeleton) :
    Prop :=
  ∀ entry other : Typing, entry.defined = other.defined →
    (typing ctx new x.1 x.2 entry).Resembles lax (typing ctx old y.1 y.2 other)

/-- What a skeleton calls has typings in both tables that resemble each other. -/
def CallsMatch (ctx : Context) (new old : NameTable Typing) (lax : Prop) (x : Bool × Skeleton) :
    Prop :=
  ∀ y ∈ visited ctx.execution x.1 x.2, ∀ span name, y.2 = .call span name →
    (called new name).Resembles lax (called old name)

/-- Two parts start the session with the same operation, if they have to start it. -/
def StartsAlike (ctx : Context) (new old : NameTable Typing) (x y : Bool × Skeleton) : Prop :=
  x.1 = true → (inputsOf ctx new x).2 = (inputsOf ctx old y).2

variable {ctx : Context} {new old : NameTable Typing} {lax : Prop} {starter : Bool}
  {k k' : Skeleton} {x : Bool × Skeleton}

theorem CallsMatch.refl (ctx : Context) (table : NameTable Typing) (lax : Prop)
    (x : Bool × Skeleton) : CallsMatch ctx table table lax x :=
  fun _ _ _ name _ => .refl lax (called table name)

theorem CallsMatch.child {c : Bool × Skeleton} (h : CallsMatch ctx new old lax x)
    (hc : c ∈ children ctx.execution x.1 x.2) : CallsMatch ctx new old lax c :=
  fun y hy => h y (mem_visited_of_child hc hy)

section Matches

variable (hnew : SortedTable new) (hold : SortedTable old)

include hnew hold

/-- Joins resemble each other if their parts match. -/
theorem resembles_join {join : List Typing → Typing × List Violation}
    (hk : join? starter k = some join) {xs ys : List (Bool × Skeleton)} {entry other : Typing}
    (h : List.Forall₂ (Matches ctx new old lax) xs ys) (hentry : entry.defined = other.defined) :
    (join (xs.map fun x => typing ctx new x.1 x.2 entry)).1.Resembles lax
      (join (ys.map fun y => typing ctx old y.1 y.2 other)).1 := by
  have hts : ∀ t ∈ xs.map fun x => typing ctx new x.1 x.2 entry, t.Sorted :=
    List.forall_mem_map.mpr fun x _ => sorted_typing ctx hnew x.1 x.2 entry
  have hus : ∀ u ∈ ys.map fun y => typing ctx old y.1 y.2 other, u.Sorted :=
    List.forall_mem_map.mpr fun y _ => sorted_typing ctx hold y.1 y.2 other
  have htus : List.Forall₂ (Typing.Resembles lax) (xs.map fun x => typing ctx new x.1 x.2 entry)
      (ys.map fun y => typing ctx old y.1 y.2 other) := by
    rw [List.forall₂_map_left_iff, List.forall₂_map_right_iff]
    exact h.imp fun x y hxy => hxy entry other hentry
  cases k with
  | parallel => cases hk; exact .parallel hts hus htus
  | choice | conditional => cases hk; exact .alternatives hts hus htus _
  | _ => cases hk

/-- Sequences resemble each other if their parts match. -/
theorem resembles_sequel {parts others : List Skeleton} {starter other : Bool}
    (h : List.Forall₂ (Matches ctx new old lax) (flagged ctx.execution starter parts)
      (flagged ctx.execution other others)) {s r : Sequel} (hs : s.Resembles r) :
    (sequel ctx new starter parts s).Resembles (sequel ctx old other others r) := by
  induction parts generalizing starter other others s r with
  | nil =>
    cases others with
    | nil => exact hs
    | cons y others => cases h
  | cons x rest ih =>
    cases others with
    | nil => cases h
    | cons y others =>
      obtain ⟨hhead, htail⟩ := List.forall₂_cons.mp h
      refine ih htail (hs.append ?_ ?_ (hhead s.running r.running hs.running))
      · exact sorted_typing ctx hnew starter x s.running
      · exact sorted_typing ctx hold other y r.running

/-- A skeleton matches one that is put together in the same way if its parts do. -/
theorem matches_of_alike (hk : Alike k k')
    (hcall : ∀ span name, k = .call span name →
      (called new name).Resembles lax (called old name))
    (hparts : List.Forall₂ (Matches ctx new old lax) (children ctx.execution starter k)
      (children ctx.execution starter k')) :
    Matches ctx new old lax (starter, k) (starter, k') := by
  intro entry other hentry
  have hjoin : ∀ join, join? starter k = some join → join? starter k' = some join →
      (typing ctx new starter k entry).Resembles lax (typing ctx old starter k' other) := by
    intro join hjoin hjoin'
    rw [typing_join ctx new hjoin, typing_join ctx old hjoin']
    exact resembles_join hnew hold hjoin hparts hentry
  cases hk with
  | leaf hk =>
    cases k with
    | idle | request | input | invalidate => rw [typing, typing]; exact .refl lax _
    | assign span target value =>
      rw [typing, typing, initialTyping_of_defined hentry]
      exact .refl lax _
    | call span name =>
      rw [typing, typing]
      exact hcall span name rfl
    | _ => cases hk
  | sequence parts others =>
    rw [typing, typing]
    exact (resembles_sequel hnew hold hparts (Sequel.resembles_start hentry)).result.weaken
  | parallel | choice | conditional => exact hjoin _ rfl rfl
  | repeated span body other =>
    rw [typing, typing]
    exact ((List.forall₂_cons.mp hparts).1 _ _ hentry).repeated span

/-- A skeleton matches itself if its calls do. -/
theorem matches_self (x : Bool × Skeleton) (hcalls : CallsMatch ctx new old lax x) :
    Matches ctx new old lax x x := by
  obtain ⟨starter, k⟩ := x
  induction starter, k using induction_children ctx.execution with
  | step starter k ih =>
    refine matches_of_alike hnew hold (.refl k) (hcalls _ (mem_visited_self _ _ _)) ?_
    exact List.forall₂_same.mpr fun c hc => ih c hc (hcalls.child hc)

/-! ## Faults -/

variable {xs ys : List (Bool × Skeleton)} {insideInit : Bool}

omit hold in
/-- Nothing is wrong with parts that all run if no two of them provide the same variable. -/
theorem faults_eq_nil_iff_of_all (hk : k.shape = .all) :
    faults ctx new insideInit starter k .empty = [] ↔
      ∀ l, (children ctx.execution starter k).countP (grants ctx new l) ≤ 1 := by
  rw [faults_all hnew hk, ProvidedSet.gather_eq_nil_iff]
  simp only [List.countP_map]
  rfl

/-- Nothing is wrong with parts that all run if nothing is wrong with others that they match. -/
theorem faults_eq_nil_of_all (hk : k.shape = .all) (hk' : k'.shape = .all)
    (hparts : List.Forall₂ (Matches ctx new old lax) (children ctx.execution starter k)
      (children ctx.execution starter k'))
    (hnone : faults ctx old insideInit starter k' .empty = []) :
    faults ctx new insideInit starter k .empty = [] := by
  rw [faults_eq_nil_iff_of_all hold hk'] at hnone
  rw [faults_eq_nil_iff_of_all hnew hk]
  intro l
  have hgrants : (children ctx.execution starter k).map (grants ctx new l) =
      (children ctx.execution starter k').map (grants ctx old l) := by
    refine map_eq_of_forall₂ (hparts.imp fun c c' hc => ?_)
    rw [grants_eq_isSome, grants_eq_isSome]
    exact congrArg Option.isSome ((hc .empty .empty rfl).freshness l)
  have hcount := congrArg (List.countP id) hgrants
  rw [List.countP_map, List.countP_map] at hcount
  exact Nat.le_trans (Nat.le_of_eq hcount) (hnone l)

omit hnew hold in
/-- Nothing is wrong with branches of which one is chosen if nothing is wrong with others that they
match. -/
theorem choice_eq_nil_of_matches {span : Span} {kind : BranchKind}
    (h : List.Forall₂ (Matches ctx new old lax) xs ys)
    (hnone : (Typing.choice span kind false (ys.map fun y => typing ctx old y.1 y.2 .empty)).2 =
      []) :
    (Typing.choice span kind false (xs.map fun x => typing ctx new x.1 x.2 .empty)).2 = [] := by
  rw [Typing.choice_eq_nil_iff, List.forall_mem_map] at hnone ⊢
  intro c hc
  refine List.forall_mem_map.mpr fun d hd l => ?_
  obtain ⟨c', hc', hcc'⟩ := exists_of_forall₂ h.flip hc
  obtain ⟨d', hd', hdd'⟩ := exists_of_forall₂ h.flip hd
  rw [(hcc' .empty .empty rfl).freshness, (hdd' .empty .empty rfl).freshness]
  exact List.forall_mem_map.mp (hnone c' hc') d' hd' l

omit hnew hold in
/-- Nothing is wrong with branches that start the session if nothing is wrong with others that they
match, and that start it with the same operations. -/
theorem starts_eq_nil_of_matches {span : Span} {kind : BranchKind}
    (h : List.Forall₂ (fun x y => Matches ctx new old lax x y ∧
      (inputsOf ctx new x).2 = (inputsOf ctx old y).2) xs ys)
    (hnone : (Typing.choice span kind true (ys.map fun y => typing ctx old y.1 y.2 .empty)).2 =
      []) :
    (Typing.choice span kind true (xs.map fun x => typing ctx new x.1 x.2 .empty)).2 = [] := by
  rw [Typing.starts_eq_nil_iff, List.pairwise_map] at hnone ⊢
  refine pairwise_of_forall₂ (fun c' d' c d hc hd hcd => ?_) h.flip hnone
  exact hcd.of_resembles (hc.1 .empty .empty rfl) (hd.1 .empty .empty rfl) hc.2 hd.2

/-- Nothing is wrong with a skeleton if nothing is wrong with one that is put together in the same
way from parts that it matches. -/
theorem faults_eq_nil_of_alike (hk : Alike k k')
    (hparts : List.Forall₂ (fun c c' => Matches ctx new old lax c c' ∧ StartsAlike ctx new old c c')
      (children ctx.execution starter k) (children ctx.execution starter k'))
    (hnone : faults ctx old insideInit starter k' .empty = []) :
    faults ctx new insideInit starter k .empty = [] := by
  have hmatches := hparts.imp fun _ _ hc => hc.1
  cases hk with
  | leaf hk =>
    cases k with
    | idle | request | input | assign | invalidate | call => exact hnone
    | _ => cases hk
  | sequence | parallel => exact faults_eq_nil_of_all hnew hold rfl rfl hmatches hnone
  | conditional span branches others =>
    rw [faults_join ctx old rfl] at hnone
    rw [faults_join ctx new rfl]
    exact choice_eq_nil_of_matches hmatches hnone
  | choice span branches others =>
    rw [faults_join ctx old rfl] at hnone
    rw [faults_join ctx new rfl]
    cases starter with
    | false => exact choice_eq_nil_of_matches hmatches hnone
    | true =>
      have hstarts : ∀ c ∈ children ctx.execution true (.choice span branches), ∀ c',
          Matches ctx new old lax c c' ∧ StartsAlike ctx new old c c' →
            Matches ctx new old lax c c' ∧ (inputsOf ctx new c).2 = (inputsOf ctx old c').2 := by
        intro c hc c' hcc'
        obtain ⟨x, _, rfl⟩ := List.mem_map.mp hc
        exact ⟨hcc'.1, hcc'.2 rfl⟩
      exact starts_eq_nil_of_matches (forall₂_imp_of_mem hstarts hparts) hnone
  | repeated span body other =>
    rw [faults] at hnone ⊢
    rw [Typing.repeated_eq_nil_iff] at hnone ⊢
    obtain ⟨⟨hbody, _⟩, _⟩ := List.forall₂_cons.mp hparts
    exact fun l => ((hbody .empty .empty rfl).freshness l).trans (hnone l)

end Matches

end Skeleton

end Correlation
