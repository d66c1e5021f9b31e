import Correlation.Proofs.Judgement
import Correlation.Proofs.Progress

/-!
# Checks agree with typings

Suppose that checking ends without a circle of definitions, and take the table of typings at the
end.  Then every check on the way gives the typing that `typing` computes from that table, and
reports the faults that `faults` computes from it.

`Progress.Settles` is the supposition, seen from somewhere on the way.  It is inherited by whatever
came before.  A call agrees with the table since its result is put there or was found there, so this
part needs no induction (`visitWithin_faithful`).  The checks follow by induction on skeletons
(`typing_check`), and what they leave behind in the progress satisfies whatever faults and calls
keep (`check_keeps`).
-/

namespace Correlation

/-- Checking goes on from here to a table of typings, and finds no circle. -/
structure Progress.Settles (table : NameTable Typing) (g : Progress) : Prop where
  acyclic : ∀ v ∈ g.violations, ∀ names, v.cause ≠ .definitionCycle names
  typings : g.typings.toList <+: table.toList

/-- A table settles what came before if it settles what comes after. -/
theorem Progress.Settles.before {ctx : Context} {table : NameTable Typing} {g h : Progress}
    (hh : h.Settles table) (hgh : g.Before ctx h) : g.Settles table := by
  obtain ⟨new, hnew, _⟩ := hgh.typings
  refine ⟨fun v hv => hh.acyclic v (hgh.violations.subset hv), ?_⟩
  exact List.IsPrefix.trans ⟨new, hnew.symm⟩ hh.typings

theorem Progress.Settles.of_report {table : NameTable Typing} {g : Progress} {vs : List Violation}
    (h : (g.report vs).Settles table) : g.Settles table :=
  ⟨fun v hv => h.acyclic v (List.mem_append_left _ hv), h.typings⟩

/-- What is typed here has the same typing in the table. -/
theorem Progress.Settles.get?_eq {table : NameTable Typing} {g : Progress} (hg : g.Settles table)
    {name : String} {t : Typing} (h : g.typings.get? name = some t) : table.get? name = some t := by
  obtain ⟨e, he, rfl⟩ := Option.map_eq_some_iff.mp h
  obtain ⟨hmem, hkey⟩ := OrderedSet.find?_eq_some_iff.mp he
  have htable : table.find? name = some e :=
    OrderedSet.find?_eq_some_iff.mpr ⟨hg.typings.subset hmem, hkey⟩
  rw [NameTable.get?, htable]
  rfl

theorem Progress.Settles.keys_subset {table : NameTable Typing} {g : Progress}
    (hg : g.Settles table) : g.typings.keys ⊆ table.keys :=
  List.map_subset _ hg.typings.subset

/-- Calls that agree with a table, as long as these definitions are in progress. -/
structure Visit.Faithful (ctx : Context) (table : NameTable Typing) (names : List String)
    (visit : Visit) : Prop where
  advances : visit.Advances ctx
  /-- A declared definition is typed by the call as in the table. -/
  declared : ∀ span name g, g.inProgress = names → (visit span name g).2.Settles table →
    name ∈ ctx.definitions.keys →
      table.get? name = some (visit span name g).1 ∧ name ∈ (visit span name g).2.typings.keys
  /-- A name without a definition is reported. -/
  undeclared : ∀ span name g, g.inProgress = names → (visit span name g).2.Settles table →
    name ∉ ctx.definitions.keys →
      table.get? name = none ∧
        visit span name g = (.empty, g.report [⟨span, .definitionNotFound name⟩])

theorem Visit.Faithful.typing {ctx : Context} {table : NameTable Typing} {names : List String}
    {visit : Visit} (hvisit : visit.Faithful ctx table names) {span : Span} {name : String}
    {g : Progress} (hg : g.inProgress = names) (h : (visit span name g).2.Settles table) :
    (visit span name g).1 = called table name := by
  by_cases hname : name ∈ ctx.definitions.keys
  · rw [called, (hvisit.declared span name g hg h hname).1]
    rfl
  · obtain ⟨htable, hresult⟩ := hvisit.undeclared span name g hg h hname
    rw [called, htable, hresult]
    rfl

namespace Skeleton

section Agreement

variable {ctx : Context} {table : NameTable Typing} {names : List String} {visit : Visit}

/-! ## Typings -/

/-- Parts one after the other have the typing that is computed from a table that settles them. -/
theorem foldl_typing (hvisit : visit.Faithful ctx table names) {starter : Bool}
    {parts : List Skeleton}
    (h : ∀ x ∈ flagged ctx.execution starter parts, ∀ entry g, g.inProgress = names →
      (x.2.check ctx visit entry x.1 g).progress.Settles table →
        (x.2.check ctx visit entry x.1 g).typing = typing ctx table x.1 x.2 entry)
    (acc : Sequel × Bool × Progress) (hacc : acc.2.2.inProgress = names)
    (hsettles : (((flagged ctx.execution starter parts).map (checkWith ctx visit)).foldl
      Check.followedBy acc).2.2.Settles table) :
    (((flagged ctx.execution starter parts).map (checkWith ctx visit)).foldl
      Check.followedBy acc).1 = sequel ctx table starter parts acc.1 := by
  induction parts generalizing starter acc with
  | nil => rfl
  | cons x rest ih =>
    have hafter := foldl_before (checkWith_before hvisit.advances
      (flagged ctx.execution (starterAfter ctx.execution starter x) rest))
      (Check.followedBy acc (checkWith ctx visit (starter, x)))
    have hx := h (starter, x) List.mem_cons_self acc.1.running acc.2.2 hacc (hsettles.before hafter)
    have hbefore := check_before hvisit.advances x acc.1.running starter acc.2.2
    have hrest := ih (fun y hy => h y (List.mem_cons_of_mem _ hy))
      (Check.followedBy acc (checkWith ctx visit (starter, x))) (hbefore.inProgress.trans hacc)
      hsettles
    rw [flagged, List.map_cons, List.foldl_cons, hrest, sequel, ← hx]
    rfl

theorem collect_typing (hvisit : visit.Faithful ctx table names) {xs : List (Bool × Skeleton)}
    (h : ∀ x ∈ xs, ∀ entry g, g.inProgress = names →
      (x.2.check ctx visit entry x.1 g).progress.Settles table →
        (x.2.check ctx visit entry x.1 g).typing = typing ctx table x.1 x.2 entry)
    (entry : Typing) (starter : Bool) (g : Progress) (hg : g.inProgress = names)
    (hsettles : (Check.collect entry (xs.map (checkWith ctx visit)) starter g).2.2.Settles table) :
    (Check.collect entry (xs.map (checkWith ctx visit)) starter g).1 =
      xs.map fun x => typing ctx table x.1 x.2 entry := by
  induction xs generalizing starter g with
  | nil => rfl
  | cons x rest ih =>
    have hafter := collect_before (checkWith_before hvisit.advances rest) entry
      (x.2.check ctx visit entry x.1 g).starter (x.2.check ctx visit entry x.1 g).progress
    have hx := h x List.mem_cons_self entry g hg (hsettles.before hafter)
    have hbefore := check_before hvisit.advances x.2 entry x.1 g
    have hrest := ih (fun y hy => h y (List.mem_cons_of_mem x hy)) _ _
      (hbefore.inProgress.trans hg) hsettles
    rw [List.map_cons, List.map_cons, ← hx, ← hrest]
    rfl

/-- A check gives the typing that is computed from the table. -/
theorem typing_check (hvisit : visit.Faithful ctx table names) (k : Skeleton) (entry : Typing)
    (starter : Bool) (g : Progress) (hg : g.inProgress = names)
    (hsettles : (k.check ctx visit entry starter g).progress.Settles table) :
    (k.check ctx visit entry starter g).typing = typing ctx table starter k entry := by
  induction starter, k using induction_children ctx.execution generalizing entry g with
  | step starter k ih =>
    have hjoin : ∀ join, join? starter k = some join →
        (k.check ctx visit entry starter g).typing = typing ctx table starter k entry := by
      intro join hk
      obtain ⟨htyping, hprogress⟩ := check_join ctx visit hk entry g
      rw [hprogress] at hsettles
      rw [htyping, typing_join ctx table hk, collect_typing hvisit ih entry starter g hg
        hsettles.of_report]
    cases k with
    | idle | request | invalidate => rw [check, typing]; rfl
    | input span operation receive =>
      rw [check, Check.input, typing]
      split <;> rfl
    | assign span target value =>
      rw [check, typing]
      split <;> rfl
    | call span name => exact hvisit.typing hg hsettles
    | sequence parts =>
      obtain ⟨htyping, hprogress⟩ := check_sequence ctx visit parts entry starter g
      rw [hprogress] at hsettles
      rw [htyping, typing]
      exact congrArg Sequel.result (foldl_typing hvisit ih (.start entry, starter, g) hg
        hsettles.of_report)
    | parallel | choice | conditional => exact hjoin _ rfl
    | repeated span body =>
      rw [check] at hsettles ⊢
      rw [typing]
      exact congrArg (fun t : Typing => (t.repeated span).1)
        (ih (starter, body) (List.mem_singleton_self _) entry g hg hsettles.of_report)

/-! ## The progress -/

theorem foldl_keeps_progress (hvisit : visit.Advances ctx) {P : Progress → Prop}
    {xs : List (Bool × Skeleton)}
    (h : ∀ x ∈ xs, ∀ entry g, (x.2.check ctx visit entry x.1 g).progress.Settles table → P g →
      P (x.2.check ctx visit entry x.1 g).progress)
    (acc : Sequel × Bool × Progress)
    (hsettles : ((xs.map (checkWith ctx visit)).foldl Check.followedBy acc).2.2.Settles table)
    (hacc : P acc.2.2) : P ((xs.map (checkWith ctx visit)).foldl Check.followedBy acc).2.2 := by
  induction xs generalizing acc with
  | nil => exact hacc
  | cons x rest ih =>
    have hafter := foldl_before (checkWith_before hvisit rest)
      (Check.followedBy acc (checkWith ctx visit x))
    exact ih (fun y hy => h y (List.mem_cons_of_mem x hy)) _ hsettles
      (h x List.mem_cons_self acc.1.running acc.2.2 (hsettles.before hafter) hacc)

theorem collect_keeps_progress (hvisit : visit.Advances ctx) {P : Progress → Prop}
    {xs : List (Bool × Skeleton)}
    (h : ∀ x ∈ xs, ∀ entry g, (x.2.check ctx visit entry x.1 g).progress.Settles table → P g →
      P (x.2.check ctx visit entry x.1 g).progress)
    (entry : Typing) (starter : Bool) (g : Progress)
    (hsettles : (Check.collect entry (xs.map (checkWith ctx visit)) starter g).2.2.Settles table)
    (hg : P g) : P (Check.collect entry (xs.map (checkWith ctx visit)) starter g).2.2 := by
  induction xs generalizing starter g with
  | nil => exact hg
  | cons x rest ih =>
    have hafter := collect_before (checkWith_before hvisit rest) entry
      (x.2.check ctx visit entry x.1 g).starter (x.2.check ctx visit entry x.1 g).progress
    exact ih (fun y hy => h y (List.mem_cons_of_mem x hy)) _ _ hsettles
      (h x List.mem_cons_self entry g (hsettles.before hafter) hg)

/-- A check without parts that is not a call reports the faults at once. -/
theorem check_leaf {starter : Bool} {k : Skeleton} (hk : k.shape = .leaf)
    (hcall : ∀ span name, k ≠ .call span name) (entry : Typing) (g : Progress) :
    (k.check ctx visit entry starter g).progress =
      g.report (faults ctx table g.insideInit starter k entry) := by
  cases k with
  | idle | request | invalidate => rfl
  | input span operation receive =>
    rw [check, Check.input, faults]
    split
    · exact (Progress.report_nil g).symm
    · rfl
  | assign span target value =>
    rw [check, faults]
    split
    · rfl
    · exact (Progress.report_nil g).symm
  | call span name => exact absurd rfl (hcall span name)
  | _ => cases hk

/-- A check that is not a call checks the parts just below and then reports the faults. -/
theorem exists_report (hvisit : visit.Faithful ctx table names) {starter : Bool} {k : Skeleton}
    (hk : ∀ span name, k ≠ .call span name) (entry : Typing) (g : Progress)
    (hg : g.inProgress = names)
    (hsettles : (k.check ctx visit entry starter g).progress.Settles table) :
    ∃ h, (k.check ctx visit entry starter g).progress =
        h.report (faults ctx table g.insideInit starter k entry) ∧
      ∀ P : Progress → Prop, (∀ c ∈ children ctx.execution starter k, ∀ entry g,
        (c.2.check ctx visit entry c.1 g).progress.Settles table → P g →
          P (c.2.check ctx visit entry c.1 g).progress) → P g → P h := by
  have htypings : ∀ c ∈ children ctx.execution starter k, ∀ entry g, g.inProgress = names →
      (c.2.check ctx visit entry c.1 g).progress.Settles table →
        (c.2.check ctx visit entry c.1 g).typing = typing ctx table c.1 c.2 entry :=
    fun c _ entry g => typing_check hvisit c.2 entry c.1 g
  cases hjoin : join? starter k with
  | some join =>
    have hprogress := (check_join ctx visit hjoin entry g).2
    rw [hprogress] at hsettles
    refine ⟨_, ?_, fun P hP => collect_keeps_progress hvisit.advances hP entry starter g
      hsettles.of_report⟩
    rw [hprogress, collect_typing hvisit htypings entry starter g hg hsettles.of_report,
      faults_join ctx table hjoin]
  | none =>
    cases k with
    | idle | request | input | assign | invalidate =>
      exact ⟨g, check_leaf rfl hk entry g, fun _ _ h => h⟩
    | call span name => exact absurd rfl (hk span name)
    | sequence parts =>
      have hprogress := (check_sequence ctx visit parts entry starter g).2
      rw [hprogress] at hsettles
      refine ⟨_, ?_, fun P hP => foldl_keeps_progress hvisit.advances hP (.start entry, starter, g)
        hsettles.of_report⟩
      rw [hprogress, foldl_typing hvisit htypings (.start entry, starter, g) hg hsettles.of_report]
      rfl
    | parallel | choice | conditional => cases hjoin
    | repeated span body =>
      rw [check] at hsettles ⊢
      refine ⟨(body.check ctx visit entry starter g).progress, ?_, fun P hP =>
        hP (starter, body) (List.mem_singleton_self _) entry g hsettles.of_report⟩
      rw [faults, ← typing_check hvisit body entry starter g hg hsettles.of_report]
      rfl

/-- A check that is not a call reports the faults. -/
theorem faults_subset_check (hvisit : visit.Faithful ctx table names) {starter : Bool}
    {k : Skeleton} (hk : ∀ span name, k ≠ .call span name) (entry : Typing) (g : Progress)
    (hg : g.inProgress = names)
    (hsettles : (k.check ctx visit entry starter g).progress.Settles table) :
    faults ctx table g.insideInit starter k entry ⊆
      (k.check ctx visit entry starter g).progress.violations := by
  obtain ⟨h, hreport, _⟩ := exists_report hvisit hk entry g hg hsettles
  rw [hreport]
  exact List.subset_append_right _ _

/-- What the faults of the parts and the calls in them keep, a check keeps. -/
theorem check_keeps (hvisit : visit.Faithful ctx table names) {P : Progress → Prop}
    {insideInit : Bool} (hnames : ∀ g, P g → g.inProgress = names)
    (hinside : ∀ g, P g → g.insideInit = insideInit) {starter : Bool} {k : Skeleton}
    (hfaults : ∀ x ∈ visited ctx.execution starter k, (∀ span name, x.2 ≠ .call span name) →
      ∀ entry g, P g → P (g.report (faults ctx table insideInit x.1 x.2 entry)))
    (hcall : ∀ x ∈ visited ctx.execution starter k, ∀ span name, x.2 = .call span name →
      ∀ g, (visit span name g).2.Settles table → P g → P (visit span name g).2)
    (entry : Typing) (g : Progress)
    (hsettles : (k.check ctx visit entry starter g).progress.Settles table) (hg : P g) :
    P (k.check ctx visit entry starter g).progress := by
  induction starter, k using induction_children ctx.execution generalizing entry g with
  | step starter k ih =>
    by_cases hk : ∃ span name, k = .call span name
    · obtain ⟨span, name, rfl⟩ := hk
      exact hcall _ (mem_visited_self _ _ _) span name rfl g hsettles hg
    · have hk : ∀ span name, k ≠ .call span name := fun span name h => hk ⟨span, name, h⟩
      obtain ⟨h, hreport, hkeeps⟩ := exists_report hvisit hk entry g (hnames g hg) hsettles
      rw [hreport, hinside g hg]
      refine hfaults (starter, k) (mem_visited_self _ _ _) hk entry h (hkeeps P ?_ hg)
      exact fun c hc entry g => ih c hc (fun x hx => hfaults x (mem_visited_of_child hc hx))
        (fun x hx => hcall x (mem_visited_of_child hc hx)) entry g

end Agreement

end Skeleton

/-! ## Calls of definitions -/

namespace Context

variable {ctx : Context} {table : NameTable Typing} {names : List String} {bound : Nat}

theorem find?_of_mem_keys {name : String} (h : name ∈ ctx.definitions.keys) :
    ∃ d, ctx.definitions.find? name = some d := by
  rw [← OrderedSet.contains_iff_mem_keys, ← OrderedSet.isSome_find?, Option.isSome_iff_exists] at h
  exact h

/-- The definitions in progress are declared and different from each other, so that the bound is not
reached. -/
structure InProgress (ctx : Context) (names : List String) (bound : Nat) : Prop where
  nodup : names.Nodup
  declared : names ⊆ ctx.definitions.keys
  bounded : ctx.definitions.size ≤ bound + names.length

/-- With nothing in progress there is room for all definitions. -/
theorem inProgress_nil (ctx : Context) : ctx.InProgress [] ctx.definitions.size :=
  ⟨List.nodup_nil, List.nil_subset _, Nat.le_add_right _ _⟩

/-- One more definition may be entered. -/
theorem InProgress.bound_pos (h : ctx.InProgress names bound) {name : String}
    (hname : name ∈ ctx.definitions.keys) (hnew : name ∉ names) : 0 < bound := by
  have hsubset : name :: names ⊆ ctx.definitions.keys := List.cons_subset.mpr ⟨hname, h.declared⟩
  have hlength := (List.subperm_of_subset (List.nodup_cons.mpr ⟨hnew, h.nodup⟩) hsubset).length_le
  rw [List.length_cons, OrderedSet.keys, List.length_map] at hlength
  have hbounded := h.bounded
  rw [OrderedSet.size] at hbounded
  omega

/-- A definition is entered. -/
theorem InProgress.enter (h : ctx.InProgress names (bound + 1)) {name : String}
    (hname : name ∈ ctx.definitions.keys) (hnew : name ∉ names) :
    ctx.InProgress (names ++ [name]) bound where
  nodup := (List.perm_append_singleton name names).nodup_iff.mpr
    (List.nodup_cons.mpr ⟨hnew, h.nodup⟩)
  declared := List.append_subset.mpr
    ⟨h.declared, List.cons_subset.mpr ⟨hname, List.nil_subset _⟩⟩
  bounded := by
    have hbounded := h.bounded
    rw [List.length_append, List.length_singleton]
    omega

/-- A call agrees with the table: its result was found there or is put there. -/
theorem visitWithin_faithful (bound : Nat) (htable : table.keys ⊆ ctx.definitions.keys)
    (hnames : ctx.InProgress names bound) :
    Visit.Faithful ctx table names (ctx.visitWithin bound) where
  advances := visitWithin_before ctx bound
  declared span name g hg hsettles hname := by
    cases htyping : g.typings.get? name with
    | some t =>
      rw [visitWithin_typed htyping] at hsettles ⊢
      refine ⟨hsettles.get?_eq htyping, ?_⟩
      by_contra hnot
      rw [get?_eq_none_iff.mpr hnot] at htyping
      cases htyping
    | none =>
      obtain ⟨d, hd⟩ := find?_of_mem_keys hname
      by_cases hprogress : name ∈ g.inProgress
      · rw [visitWithin_inProgress htyping hd hprogress] at hsettles
        exact absurd rfl
          (hsettles.acyclic _ (List.mem_append_right _ (List.mem_singleton_self _)) _)
      · have hpos := hnames.bound_pos hname (hg ▸ hprogress)
        obtain ⟨bound, rfl⟩ := Nat.exists_eq_add_of_lt hpos
        obtain rfl := name_of_find? hd
        rw [Nat.zero_add, visitWithin_succ htyping hd hprogress] at hsettles ⊢
        refine ⟨hsettles.get?_eq ?_, ?_⟩
        · rw [finish, NameTable.get?_insert, if_pos rfl]
        · exact OrderedSet.mem_keys_insert.mpr (Or.inl rfl)
  undeclared span name g _ hsettles hname := by
    have hg := hsettles.before (visitWithin_before ctx bound span name g)
    have htyping : g.typings.get? name = none :=
      get?_eq_none_iff.mpr fun h => hname (htable (hg.keys_subset h))
    exact ⟨get?_eq_none_iff.mpr fun h => hname (htable h),
      visitWithin_undeclared htyping (OrderedSet.find?_eq_none_iff.mpr hname)⟩

end Context

end Correlation
