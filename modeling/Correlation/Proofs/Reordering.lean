import Correlation.Proofs.Matching
import Correlation.Proofs.Settled

/-!
# Parts in another order

The children of a parallel, or the branches of a conditional, are written in another order.  All of
them have the same entry, so their typings are the same but for the starter flag.  The flag goes
through the parts in the order of the text, up to the first one that takes an input in.

* A part that takes none in is *quiet*: it leaves the flag as it is, and does not look at it
  (`typing_of_quiet`, `faults_of_quiet`).
* The part that opens the session has to be the same one in both orders (`Permutes`).  Then every
  other part is quiet or has its flag cleared, and the parts and flags differ by their order alone
  (`Permutes.map_flagged`).

`Reorders` is such a change somewhere in a skeleton, and `Reorders.frame_induction` the shape of
inductions on it.  If nothing is wrong with the old skeleton, the new one matches it
(`Reorders.matched`) and nothing is wrong with that one either (`Reorders.faults_part_eq_nil`).  The
new skeleton calls nothing new (`Reorders.exists_call`), and it starts the session with the same
inputs (`Reorders.starters_eq`).
-/

namespace Correlation

namespace Skeleton

/-! ## Quiet parts -/

section Quiet

variable {mode : ExecutionMode} {starter : Bool} {k x : Skeleton} {parts : List Skeleton}

/-- A skeleton takes no input in, so it leaves the starter flag as it is. -/
def Quiet (mode : ExecutionMode) (k : Skeleton) : Prop := starterAfter mode true k = true

instance (mode : ExecutionMode) (k : Skeleton) : Decidable (Quiet mode k) :=
  inferInstanceAs (Decidable (starterAfter mode true k = true))

theorem starterAfter_of_quiet (hk : Quiet mode k) (starter : Bool) :
    starterAfter mode starter k = starter := by
  cases starter with
  | true => exact hk
  | false => exact starterAfter_false k

theorem starterAfter_of_not_quiet (hk : ¬ Quiet mode k) (starter : Bool) :
    starterAfter mode starter k = false := by
  cases starter with
  | true => exact eq_false_of_ne_true hk
  | false => exact starterAfter_false k

/-- Quiet parts have the flag of the whole. -/
theorem flagged_of_quiet (h : ∀ x ∈ parts, Quiet mode x) (starter : Bool) :
    flagged mode starter parts = parts.map fun x => (starter, x) := by
  induction parts with
  | nil => rfl
  | cons x rest ih =>
    obtain ⟨hx, hrest⟩ := List.forall_mem_cons.mp h
    rw [flagged, starterAfter_of_quiet hx, ih hrest, List.map_cons]

/-- A cleared flag is handed on as it is. -/
theorem flagged_false (mode : ExecutionMode) (parts : List Skeleton) :
    flagged mode false parts = parts.map fun x => (false, x) := by
  induction parts with
  | nil => rfl
  | cons x rest ih => rw [flagged, starterAfter_false, ih, List.map_cons]

/-- Parts keep the flag if all of them are quiet. -/
theorem starterAfterAll_eq_all (mode : ExecutionMode) (parts : List Skeleton) :
    starterAfterAll mode true parts = parts.all fun x => decide (Quiet mode x) := by
  induction parts with
  | nil => rfl
  | cons x rest ih =>
    rw [starterAfterAll, List.all_cons]
    by_cases hx : Quiet mode x
    · rw [decide_eq_true hx, Bool.true_and, ← ih, starterAfter_of_quiet hx]
    · rw [decide_eq_false hx, Bool.false_and, starterAfter_of_not_quiet hx]
      exact starterAfterAll_false fun y _ => starterAfter_false y

theorem quiet_of_all (h : starterAfterAll mode true parts = true) : ∀ x ∈ parts, Quiet mode x := by
  rw [starterAfterAll_eq_all, List.all_eq_true] at h
  exact fun x hx => of_decide_eq_true (h x hx)

/-- The parts just below a quiet skeleton are quiet, and have its flag. -/
theorem Quiet.exists_children (hk : Quiet mode k) :
    ∃ parts : List Skeleton, (∀ x ∈ parts, Quiet mode x) ∧
      ∀ starter, children mode starter k = parts.map fun x => (starter, x) := by
  cases k with
  | sequence parts | parallel parts | conditional span parts =>
    exact ⟨parts, quiet_of_all hk, flagged_of_quiet (quiet_of_all hk)⟩
  | choice span branches => cases hk
  | repeated span body => exact ⟨[body], List.forall_mem_singleton.mpr hk, fun _ => rfl⟩
  | idle | request | input | assign | invalidate | call =>
    exact ⟨[], (fun _ h => nomatch h), fun _ => rfl⟩

/-- Only in single mode is an input quiet. -/
theorem mode_of_quiet_input {span : Span} {operation : String} {receive : Option Path}
    (h : Quiet mode (.input span operation receive)) : mode = .single :=
  of_decide_eq_true h

/-- The flag of a quiet skeleton is that of all its parts, which are quiet. -/
theorem Quiet.visited (hk : Quiet mode k) {z : Bool × Skeleton}
    (hz : z ∈ Skeleton.visited mode starter k) (other : Bool) :
    Quiet mode z.2 ∧ (other, z.2) ∈ Skeleton.visited mode other k := by
  induction starter, k using induction_children mode with
  | step starter k ih =>
    obtain ⟨parts, hparts, hchildren⟩ := hk.exists_children
    rcases mem_visited_iff.mp hz with rfl | ⟨c, hc, hz⟩
    · exact ⟨hk, mem_visited_self _ _ _⟩
    · obtain ⟨x, hx, rfl⟩ := List.mem_map.mp (hchildren starter ▸ hc)
      obtain ⟨hquiet, hmem⟩ := ih _ hc (hparts x hx) hz
      refine ⟨hquiet, mem_visited_of_child (c := (other, x)) ?_ hmem⟩
      rw [hchildren]
      exact List.mem_map_of_mem hx

/-- Where sessions are started, a quiet skeleton starts none. -/
theorem starters_of_quiet (hmode : mode ≠ .single) (hk : Quiet mode k) (starter : Bool) :
    starters mode (starter, k) = [] := by
  refine List.filterMap_eq_nil_iff.mpr fun z hz => ?_
  obtain ⟨flag, part⟩ := z
  have hpart := (hk.visited hz starter).1
  cases part with
  | input => exact absurd (mode_of_quiet_input hpart) hmode
  | _ => cases flag <;> rfl

section Tables

variable {ctx : Context} {table : NameTable Typing}

/-- Quiet parts are typed alike with either flag. -/
theorem sequel_of_quiet
    (h : ∀ x ∈ parts, Quiet ctx.execution x ∧ ∀ starter entry,
      typing ctx table starter x entry = typing ctx table false x entry)
    (starter : Bool) (s : Sequel) :
    sequel ctx table starter parts s = sequel ctx table false parts s := by
  induction parts generalizing s with
  | nil => rfl
  | cons x rest ih =>
    obtain ⟨⟨hquiet, hx⟩, hrest⟩ := List.forall_mem_cons.mp h
    rw [sequel, sequel, starterAfter_of_quiet hquiet, starterAfter_of_quiet hquiet, hx, ih hrest]

theorem typings_of_quiet {entry : Typing}
    (h : ∀ x ∈ parts, Quiet ctx.execution x ∧ ∀ starter,
      typing ctx table starter x entry = typing ctx table false x entry) (starter : Bool) :
    typings ctx table starter parts entry = typings ctx table false parts entry := by
  have hquiet : ∀ x ∈ parts, Quiet ctx.execution x := fun x hx => (h x hx).1
  rw [typings_eq_map, typings_eq_map, flagged_of_quiet hquiet, flagged_of_quiet hquiet,
    List.map_map, List.map_map]
  exact List.map_congr_left fun x hx => (h x hx).2 starter

/-- The typing of a quiet skeleton does not depend on the flag. -/
theorem typing_of_quiet (hk : Quiet ctx.execution k) (starter : Bool) (entry : Typing) :
    typing ctx table starter k entry = typing ctx table false k entry := by
  induction k generalizing starter entry with
  | input =>
    rw [typing, typing, if_pos (mode_of_quiet_input hk), if_pos (mode_of_quiet_input hk)]
  | sequence parts ih =>
    rw [typing, typing, sequel_of_quiet fun x hx => ⟨quiet_of_all hk x hx,
      ih x hx (quiet_of_all hk x hx)⟩]
  | parallel parts ih | conditional span parts ih =>
    rw [typing, typing, typings_of_quiet fun x hx => ⟨quiet_of_all hk x hx,
      fun starter => ih x hx (quiet_of_all hk x hx) starter entry⟩]
  | choice => cases hk
  | repeated span body ih => rw [typing, typing, ih hk]
  | idle | request | assign | invalidate | call => rw [typing, typing]

/-- What is wrong with a quiet skeleton does not depend on the flag. -/
theorem faults_of_quiet (hk : Quiet ctx.execution k) (insideInit starter : Bool) (entry : Typing) :
    faults ctx table insideInit starter k entry = faults ctx table insideInit false k entry := by
  cases k with
  | input =>
    rw [faults, faults, if_pos (mode_of_quiet_input hk), if_pos (mode_of_quiet_input hk)]
  | sequence parts =>
    rw [faults, faults, sequel_of_quiet fun x hx => ⟨quiet_of_all hk x hx,
      typing_of_quiet (quiet_of_all hk x hx)⟩]
  | parallel parts | conditional span parts =>
    rw [faults, faults, typings_of_quiet fun x hx => ⟨quiet_of_all hk x hx,
      fun starter => typing_of_quiet (quiet_of_all hk x hx) starter entry⟩]
  | choice => cases hk
  | repeated span body =>
    have hbody : Quiet ctx.execution body := hk
    rw [faults, faults, typing_of_quiet hbody]
  | idle | request | assign | invalidate | call => rw [faults, faults]

end Tables

end Quiet

/-! ## The order of parts -/

section Permutes

/-- The first of some parts that takes an input in. -/
def opening? (mode : ExecutionMode) (parts : List Skeleton) : Option Skeleton :=
  parts.find? fun x => !decide (Quiet mode x)

/-- Parts in another order.  If the session still waits for its first input, the same part opens
it. -/
structure Permutes (mode : ExecutionMode) (starter : Bool) (parts others : List Skeleton) :
    Prop where
  perm : others.Perm parts
  opening : starter = true → opening? mode others = opening? mode parts

variable {mode : ExecutionMode} {starter : Bool} {parts others : List Skeleton}

/-- The flag after the parts does not depend on their order. -/
theorem Permutes.starterAfterAll_eq (h : Permutes mode starter parts others) :
    starterAfterAll mode starter others = starterAfterAll mode starter parts := by
  cases starter with
  | true => rw [starterAfterAll_eq_all, starterAfterAll_eq_all, h.perm.all_eq]
  | false =>
    rw [starterAfterAll_false fun x _ => starterAfter_false x,
      starterAfterAll_false fun x _ => starterAfter_false x]

/-- Up to the part that opens the session the parts are quiet, after it their flags are cleared. -/
theorem flagged_of_opening {before after : List Skeleton} {x : Skeleton}
    (hbefore : ∀ y ∈ before, Quiet mode y) (hx : ¬ Quiet mode x) :
    flagged mode true (before ++ x :: after) =
      before.map (fun y => (true, y)) ++ (true, x) :: after.map fun y => (false, y) := by
  have hall : starterAfterAll mode true before = true := by
    rw [starterAfterAll_eq_all, List.all_eq_true]
    exact fun y hy => decide_eq_true (hbefore y hy)
  rw [flagged_append, flagged_of_quiet hbefore, hall, flagged, starterAfter_of_not_quiet hx,
    flagged_false]

/-- What can be seen of parts and flags differs by its order alone, unless it shows the flag of a
quiet part. -/
theorem Permutes.map_flagged {γ : Type} {view : Bool × Skeleton → γ}
    (hview : ∀ x, Quiet mode x → ∀ starter, view (starter, x) = view (false, x))
    (h : Permutes mode starter parts others) :
    ((flagged mode starter others).map view).Perm ((flagged mode starter parts).map view) := by
  have hquiet : ∀ {xs : List Skeleton}, (∀ x ∈ xs, Quiet mode x) →
      xs.map (view ∘ fun x => (true, x)) = xs.map (view ∘ fun x => (false, x)) :=
    fun hxs => List.map_congr_left fun x hx => hview x (hxs x hx) true
  cases starter with
  | false =>
    rw [flagged_false, flagged_false, List.map_map, List.map_map]
    exact h.perm.map _
  | true =>
    have hopening := h.opening rfl
    cases hfirst : opening? mode parts with
    | none =>
      have hall : ∀ x ∈ parts, Quiet mode x := fun x hx => by
        simpa using List.find?_eq_none.mp hfirst x hx
      have hall' : ∀ x ∈ others, Quiet mode x := fun x hx => hall x (h.perm.mem_iff.mp hx)
      rw [flagged_of_quiet hall, flagged_of_quiet hall', List.map_map, List.map_map]
      exact h.perm.map _
    | some x =>
      have hsplit : ∀ {xs : List Skeleton}, opening? mode xs = some x → ∃ rest,
          xs.Perm (x :: rest) ∧ ((flagged mode true xs).map view).Perm
            (view (true, x) :: rest.map (view ∘ fun y => (false, y))) := by
        intro xs hxs
        obtain ⟨hx, before, after, rfl, hbefore⟩ := List.find?_eq_some_iff_append.mp hxs
        have hx : ¬ Quiet mode x := by simpa using hx
        have hbefore : ∀ y ∈ before, Quiet mode y := fun y hy => by simpa using hbefore y hy
        refine ⟨before ++ after, List.perm_middle, ?_⟩
        rw [flagged_of_opening hbefore hx, List.map_append, List.map_cons, List.map_map,
          List.map_map, hquiet hbefore, List.map_append]
        exact List.perm_middle
      obtain ⟨rest, hrest, hview⟩ := hsplit hfirst
      obtain ⟨rest', hrest', hview'⟩ := hsplit (hopening.trans hfirst)
      have hperm : rest'.Perm rest := (hrest'.symm.trans (h.perm.trans hrest)).cons_inv
      exact hview'.trans (((hperm.map _).cons _).trans hview.symm)

/-- A session is started in the part that opens it. -/
theorem starters_flagged (hmode : mode ≠ .single) (parts : List Skeleton) :
    (flagged mode true parts).flatMap (starters mode) =
      (opening? mode parts).elim [] fun x => starters mode (true, x) := by
  induction parts with
  | nil => rfl
  | cons x rest ih =>
    rw [flagged, List.flatMap_cons, opening?, List.find?_cons]
    by_cases hx : Quiet mode x
    · rw [decide_eq_true hx, starters_of_quiet hmode hx, List.nil_append,
        starterAfter_of_quiet hx, ih]
      rfl
    · have hrest : (flagged mode false rest).flatMap (starters mode) = [] := by
        rw [flagged_false, List.flatMap_eq_nil_iff]
        exact List.forall_mem_map.mpr fun y _ => starters_of_clear y
      rw [decide_eq_false hx, starterAfter_of_not_quiet hx, hrest, List.append_nil]
      rfl

/-- The session is started by the same inputs in both orders. -/
theorem Permutes.starters_eq (hmode : mode ≠ .single) (h : Permutes mode starter parts others) :
    (flagged mode starter others).flatMap (starters mode) =
      (flagged mode starter parts).flatMap (starters mode) := by
  cases starter with
  | true => rw [starters_flagged hmode, starters_flagged hmode, h.opening rfl]
  | false =>
    have hnone : ∀ xs, (flagged mode false xs).flatMap (starters mode) = [] := fun xs => by
      rw [flagged_false, List.flatMap_eq_nil_iff]
      exact List.forall_mem_map.mpr fun y _ => starters_of_clear y
    rw [hnone, hnone]

/-- A part in the one order is there in the other order, with the same flag unless it is quiet. -/
theorem Permutes.exists_flagged (h : Permutes mode starter parts others) {c : Bool × Skeleton}
    (hc : c ∈ flagged mode starter others) :
    ∃ c' ∈ flagged mode starter parts, c'.2 = c.2 ∧ (c'.1 = c.1 ∨ Quiet mode c.2) := by
  let view (c : Bool × Skeleton) : Bool × Skeleton := (c.1 && !decide (Quiet mode c.2), c.2)
  have hview : ∀ x, Quiet mode x → ∀ starter, view (starter, x) = view (false, x) := by
    intro x hx starter
    simp only [view, decide_eq_true hx, Bool.not_true, Bool.and_false]
  obtain ⟨c', hc', hsame⟩ :=
    List.mem_map.mp ((h.map_flagged hview).mem_iff.mp (List.mem_map_of_mem hc))
  simp only [view, Prod.mk.injEq] at hsame
  refine ⟨c', hc', hsame.2, ?_⟩
  by_cases hquiet : Quiet mode c.2
  · exact Or.inr hquiet
  · rw [hsame.2, decide_eq_false hquiet, Bool.not_false, Bool.and_true, Bool.and_true] at hsame
    exact Or.inl hsame.1

/-- A part of a skeleton whose children are permuted is the whole, or it was there before with the
same flag unless it is quiet. -/
theorem Permutes.exists_part {k k' : Skeleton} (h : Permutes mode starter parts others)
    (hk : children mode starter k = flagged mode starter parts)
    (hk' : children mode starter k' = flagged mode starter others) {z : Bool × Skeleton}
    (hz : z ∈ visited mode starter k') :
    z = (starter, k') ∨
      ∃ z' ∈ visited mode starter k, z'.2 = z.2 ∧ (z'.1 = z.1 ∨ Quiet mode z.2) := by
  refine (mem_visited_iff.mp hz).imp_right fun ⟨c, hc, hz⟩ => ?_
  obtain ⟨⟨flag, x⟩, hc', rfl, hflag⟩ := h.exists_flagged (hk' ▸ hc)
  have hchild : (flag, c.2) ∈ children mode starter k := hk ▸ hc'
  rcases hflag with rfl | hquiet
  · exact ⟨z, mem_visited_of_child hchild hz, rfl, Or.inl rfl⟩
  · obtain ⟨hz', hmem⟩ := hquiet.visited hz flag
    exact ⟨(flag, z.2), mem_visited_of_child hchild hmem, rfl, Or.inr hz'⟩

end Permutes

/-! ## Reordering somewhere in a skeleton -/

/-- The children of a parallel or the branches of a conditional in another order.  Children are
permuted in a lax change only. -/
inductive Swaps (mode : ExecutionMode) (lax : Prop) : Bool → Skeleton → Skeleton → Prop where
  /-- The change is in a part that does not show. -/
  | same (starter : Bool) (k : Skeleton) : Swaps mode lax starter k k
  | children {starter : Bool} {parts others : List Skeleton} (hlax : lax)
      (h : Permutes mode starter parts others) :
      Swaps mode lax starter (.parallel parts) (.parallel others)
  | branches {starter : Bool} (span : Span) {parts others : List Skeleton}
      (h : Permutes mode starter parts others) :
      Swaps mode lax starter (.conditional span parts) (.conditional span others)

/-- The children of one parallel or the branches of one conditional are written in another order. -/
def Reorders (mode : ExecutionMode) (lax : Prop) : Bool → Skeleton → Skeleton → Prop :=
  Within mode (Swaps mode lax)

variable {mode : ExecutionMode} {lax : Prop} {starter : Bool} {k k' : Skeleton}

/-- The flag after the parts does not depend on their order. -/
theorem Swaps.starterAfter_eq (h : Swaps mode lax starter k k') :
    starterAfter mode starter k' = starterAfter mode starter k := by
  cases h with
  | same => rfl
  | children _ h | branches _ h => exact h.starterAfterAll_eq

namespace Reorders

/-- A skeleton may be left as it is. -/
theorem refl (mode : ExecutionMode) (lax : Prop) (starter : Bool) (k : Skeleton) :
    Reorders mode lax starter k k := .here (.same starter k)

/-- Induction on a reordering.  Either the parts themselves are permuted or nothing is, or the
skeleton stays as it is put together and there is a reordering in one of its parts. -/
theorem frame_induction {motive : Bool → Skeleton → Skeleton → Prop}
    (same : ∀ starter k, motive starter k k)
    (children : ∀ starter parts others, lax → Permutes mode starter parts others →
      motive starter (.parallel parts) (.parallel others))
    (branches : ∀ starter span parts others, Permutes mode starter parts others →
      motive starter (.conditional span parts) (.conditional span others))
    (frame : ∀ starter k k' before flag x y after, Alike k' k →
      Skeleton.children mode starter k = before ++ (flag, x) :: after →
      Skeleton.children mode starter k' = before ++ (flag, y) :: after →
      Reorders mode lax starter k k' → Reorders mode lax flag x y → motive flag x y →
        motive starter k k')
    (h : Reorders mode lax starter k k') : motive starter k k' := by
  refine Within.frame_induction Swaps.starterAfter_eq (fun starter k k' h => ?_) frame h
  cases h with
  | same => exact same starter k
  | children hlax h => exact children starter _ _ hlax h
  | branches span h => exact branches starter span _ _ h

/-! ### Parts -/

/-- A part of the new skeleton was there before, with the same flag unless it is quiet, or the
reordering is in it. -/
theorem exists_part (h : Reorders mode lax starter k k') {z : Bool × Skeleton}
    (hz : z ∈ visited mode starter k') : ∃ z' ∈ visited mode starter k,
      (z'.2 = z.2 ∧ (z'.1 = z.1 ∨ Quiet mode z.2)) ∨
        z'.1 = z.1 ∧ Reorders mode lax z.1 z'.2 z.2 := by
  revert hz
  refine frame_induction (motive := fun starter k k' => z ∈ visited mode starter k' →
    ∃ z' ∈ visited mode starter k, (z'.2 = z.2 ∧ (z'.1 = z.1 ∨ Quiet mode z.2)) ∨
      z'.1 = z.1 ∧ Reorders mode lax z.1 z'.2 z.2) ?same ?children ?branches ?frame h
  case same => exact fun _ _ hz => ⟨z, hz, Or.inl ⟨rfl, Or.inl rfl⟩⟩
  case children =>
    intro starter parts others hlax h hz
    rcases h.exists_part (k := .parallel parts) rfl rfl hz with rfl | ⟨z', hz', hsame⟩
    · exact ⟨_, mem_visited_self _ _ _, Or.inr ⟨rfl, .here (.children hlax h)⟩⟩
    · exact ⟨z', hz', Or.inl hsame⟩
  case branches =>
    intro starter span parts others h hz
    rcases h.exists_part (k := .conditional span parts) rfl rfl hz with rfl | ⟨z', hz', hsame⟩
    · exact ⟨_, mem_visited_self _ _ _, Or.inr ⟨rfl, .here (.branches span h)⟩⟩
    · exact ⟨z', hz', Or.inl hsame⟩
  case frame =>
    intro starter k k' before flag x y after _ hold hnew h _ ih hz
    rcases mem_visited_frame hold hnew hz with rfl | hz | hz
    · exact ⟨(starter, k), mem_visited_self _ _ _, Or.inr ⟨rfl, h⟩⟩
    · exact ⟨z, hz, Or.inl ⟨rfl, Or.inl rfl⟩⟩
    · obtain ⟨z', hz', hcases⟩ := ih hz
      exact ⟨z', mem_visited_of_child (mem_children_of_frame hold) hz', hcases⟩

/-- The new skeleton calls nothing that the old one does not call. -/
theorem exists_call (h : Reorders mode lax starter k k') {z : Bool × Skeleton}
    (hz : z ∈ visited mode starter k') {span : Span} {name : String}
    (hcall : z.2 = .call span name) :
    ∃ z' ∈ visited mode starter k, z'.2 = .call span name := by
  obtain ⟨z', hz', ⟨hsame, _⟩ | ⟨_, hreorders⟩⟩ := h.exists_part hz
  · exact ⟨z', hz', hsame.trans hcall⟩
  · rw [hcall] at hreorders
    generalize hold : z'.2 = old at hreorders
    cases hreorders with
    | here h =>
      cases h
      exact ⟨z', hz', hold⟩

/-- The new skeleton starts the session with the same inputs, in the same order. -/
theorem starters_eq (hmode : mode ≠ .single) (h : Reorders mode lax starter k k') :
    starters mode (starter, k') = starters mode (starter, k) := by
  refine frame_induction (motive := fun starter k k' =>
    starters mode (starter, k') = starters mode (starter, k)) ?same ?children ?branches ?frame h
  case same => exact fun _ _ => rfl
  case children =>
    intro starter parts others _ h
    rw [Skeleton.starters_eq (by simp [shape]), Skeleton.starters_eq (by simp [shape])]
    exact h.starters_eq hmode
  case branches =>
    intro starter span parts others h
    rw [Skeleton.starters_eq (by simp [shape]), Skeleton.starters_eq (by simp [shape])]
    exact h.starters_eq hmode
  case frame =>
    intro starter k k' before flag x y after _ hold hnew _ _ ih
    rw [Skeleton.starters_eq (shape_ne_leaf_of_frame hnew),
      Skeleton.starters_eq (shape_ne_leaf_of_frame hold), hnew, hold, List.flatMap_append,
      List.flatMap_append, List.flatMap_cons, List.flatMap_cons, ih]

/-! ### Typings and faults -/

section Tables

variable {ctx : Context} {table : NameTable Typing} {insideInit : Bool}

/-- What the new skeleton calls is typed before `main` if that is so of the old one. -/
theorem beforeMain (h : Reorders ctx.execution lax starter k k')
    (hk : ctx.BeforeMain table (starter, k)) : ctx.BeforeMain table (starter, k') := by
  intro z hz span name hcall
  obtain ⟨z', hz', hcall'⟩ := h.exists_call hz hcall
  exact hk z' hz' span name hcall'

/-- As many parts provide a variable as before. -/
theorem countP_of_permutes {parts others : List Skeleton}
    (h : Permutes ctx.execution starter parts others) (l : Location) :
    (flagged ctx.execution starter others).countP (grants ctx table l) =
      (flagged ctx.execution starter parts).countP (grants ctx table l) := by
  have hview : ∀ x, Quiet ctx.execution x → ∀ starter,
      grants ctx table l (starter, x) = grants ctx table l (false, x) := by
    intro x hx starter
    rw [grants, grants, provided, provided, typing_of_quiet hx]
  have hcount := (h.map_flagged hview).countP_eq id
  rwa [List.countP_map, List.countP_map] at hcount

variable (htable : SortedTable table)

include htable

/-- The children of a parallel may be permuted if nothing is wrong with it. -/
theorem resembles_parallel {parts others : List Skeleton}
    (h : Permutes ctx.execution starter parts others)
    (hnone : faults ctx table insideInit starter (.parallel parts) .empty = []) (entry : Typing) :
    (typing ctx table starter (.parallel others) entry).Resembles True
      (typing ctx table starter (.parallel parts) entry) := by
  rw [typing, typing, typings_eq_map, typings_eq_map]
  refine Typing.resembles_parallel_of_perm
    (h.map_flagged fun x hx starter => typing_of_quiet hx starter entry)
    (List.forall_mem_map.mpr fun x _ => sorted_typing ctx htable x.1 x.2 entry) fun l => ?_
  have hgrants : ∀ x : Bool × Skeleton,
      (typing ctx table x.1 x.2 entry).providedCorrelation.contains l = grants ctx table l x :=
    fun x => congrArg (OrderedSet.contains · l) (providedCorrelation_typing htable entry)
  simp only [List.countP_map, Function.comp_def, hgrants]
  exact (faults_eq_nil_iff_of_all htable rfl).mp hnone l

/-- The branches of a conditional may be permuted. -/
theorem resembles_conditional {span : Span} {parts others : List Skeleton}
    (h : Permutes ctx.execution starter parts others) (entry : Typing) :
    (typing ctx table starter (.conditional span others) entry).Resembles False
      (typing ctx table starter (.conditional span parts) entry) := by
  rw [typing, typing, typings_eq_map, typings_eq_map]
  exact Typing.resembles_alternatives_of_perm
    (h.map_flagged fun x hx starter => typing_of_quiet hx starter entry)
    (List.forall_mem_map.mpr fun x _ => sorted_typing ctx htable x.1 x.2 entry) false

/-- The new skeleton matches the old one, if nothing is wrong with that. -/
theorem matched (h : Reorders ctx.execution lax starter k k')
    (hnone : ∀ z ∈ visited ctx.execution starter k,
      faults ctx table insideInit z.1 z.2 .empty = []) :
    Matches ctx table table lax (starter, k') (starter, k) := by
  revert hnone
  refine frame_induction (motive := fun starter k k' =>
    (∀ z ∈ visited ctx.execution starter k, faults ctx table insideInit z.1 z.2 .empty = []) →
      Matches ctx table table lax (starter, k') (starter, k)) ?same ?children ?branches ?frame h
  case same => exact fun starter k _ => matches_self htable htable _ (.refl ctx table lax _)
  case children =>
    intro starter parts others hlax h hnone entry other hentry
    refine (matches_self htable htable _ (.refl ctx table lax _) entry other hentry).trans ?_
    exact (resembles_parallel htable h (hnone _ (mem_visited_self _ _ _)) other).relax hlax
  case branches =>
    intro starter span parts others h _ entry other hentry
    refine (matches_self htable htable _ (.refl ctx table lax _) entry other hentry).trans ?_
    exact (resembles_conditional htable h other).weaken
  case frame =>
    intro starter k k' before flag x y after halike hold hnew _ _ ih hnone
    have hx : (flag, x) ∈ Skeleton.children ctx.execution starter k := mem_children_of_frame hold
    refine matches_of_alike htable htable halike (fun _ _ _ => .refl lax _) ?_
    rw [hold, hnew]
    exact forall₂_replace (fun c _ => matches_self htable htable c (.refl ctx table lax c))
      (ih fun z hz => hnone z (mem_visited_of_child hx hz))

end Tables

section Settled

variable {ctx : Context} {table : NameTable Typing} {insideInit : Bool}
  (hsettled : ctx.Settled table)

include hsettled

/-- Nothing is wrong with the new skeleton itself, if nothing is wrong with the old one. -/
theorem faults_eq_nil (h : Reorders ctx.execution lax starter k k')
    (hmain : starter = true → ctx.execution ≠ .single ∧ ctx.BeforeMain table (starter, k))
    (hnone : ∀ z ∈ visited ctx.execution starter k,
      faults ctx table insideInit z.1 z.2 .empty = []) :
    faults ctx table insideInit starter k' .empty = [] := by
  have htable := hsettled.sorted
  revert hmain hnone
  refine frame_induction (motive := fun starter k k' =>
    (starter = true → ctx.execution ≠ .single ∧ ctx.BeforeMain table (starter, k)) →
    (∀ z ∈ visited ctx.execution starter k, faults ctx table insideInit z.1 z.2 .empty = []) →
      faults ctx table insideInit starter k' .empty = []) ?same ?children ?branches ?frame h
  case same => exact fun starter k _ hnone => hnone _ (mem_visited_self _ _ _)
  case children =>
    intro starter parts others _ h _ hnone
    have hparts := hnone _ (mem_visited_self _ _ _)
    rw [faults_eq_nil_iff_of_all htable rfl] at hparts ⊢
    exact fun l => Nat.le_trans (Nat.le_of_eq (countP_of_permutes h l)) (hparts l)
  case branches =>
    intro starter span parts others h _ hnone
    have hbranches := hnone _ (mem_visited_self _ _ _)
    have hperm : ((flagged ctx.execution starter others).map fun x =>
        typing ctx table x.1 x.2 .empty).Perm ((flagged ctx.execution starter parts).map fun x =>
          typing ctx table x.1 x.2 .empty) :=
      h.map_flagged fun x hx starter => typing_of_quiet hx starter .empty
    rw [faults_join ctx table rfl, Typing.choice_eq_nil_iff] at hbranches ⊢
    exact fun t ht u hu => hbranches t (hperm.mem_iff.mp ht) u (hperm.mem_iff.mp hu)
  case frame =>
    intro starter k k' before flag x y after halike hold hnew _ hxy _ hmain hnone
    have hx : (flag, x) ∈ Skeleton.children ctx.execution starter k := mem_children_of_frame hold
    have hmatches := hxy.matched htable fun z hz => hnone z (mem_visited_of_child hx hz)
    have hstarts : StartsAlike ctx table table (flag, y) (flag, x) := by
      rintro rfl
      obtain rfl : starter = true := by
        by_contra hclear
        obtain rfl := eq_false_of_ne_true hclear
        cases eq_false_of_mem_children hx
      obtain ⟨hmode, hbefore⟩ := hmain rfl
      rw [hsettled.startingOperation_eq hmode (hbefore.child hx),
        hsettled.startingOperation_eq hmode (hxy.beforeMain (hbefore.child hx)),
        hxy.starters_eq hmode]
    have hparts : List.Forall₂ (fun c c' => Matches ctx table table lax c c' ∧
        StartsAlike ctx table table c c') (Skeleton.children ctx.execution starter k')
          (Skeleton.children ctx.execution starter k) := by
      rw [hold, hnew]
      refine forall₂_replace (fun c _ => ⟨?_, fun _ => rfl⟩) ⟨hmatches, hstarts⟩
      exact matches_self htable htable c (.refl ctx table lax c)
    exact faults_eq_nil_of_alike htable htable halike hparts (hnone _ (mem_visited_self _ _ _))

/-- Nothing is wrong with any part of the new skeleton, if nothing is wrong with those of the old
one. -/
theorem faults_part_eq_nil (h : Reorders ctx.execution lax starter k k')
    (hmain : starter = true → ctx.execution ≠ .single ∧ ctx.BeforeMain table (starter, k))
    (hnone : ∀ z ∈ visited ctx.execution starter k,
      faults ctx table insideInit z.1 z.2 .empty = []) {z : Bool × Skeleton}
    (hz : z ∈ visited ctx.execution starter k') :
    faults ctx table insideInit z.1 z.2 .empty = [] := by
  obtain ⟨⟨flag, part⟩, hz', ⟨rfl, rfl | hquiet⟩ | ⟨rfl, hreorders⟩⟩ := h.exists_part hz
  · exact hnone _ hz'
  · rw [faults_of_quiet hquiet, ← faults_of_quiet hquiet insideInit flag]
    exact hnone _ hz'
  · refine hreorders.faults_eq_nil hsettled (fun hflag => ?_) fun w hw =>
      hnone w (visited_subset hz' hw)
    obtain rfl : starter = true := by
      by_contra hclear
      obtain rfl := eq_false_of_ne_true hclear
      exact Bool.noConfusion ((eq_false_of_mem_visited hz').symm.trans hflag)
    exact ⟨(hmain rfl).1, (hmain rfl).2.part hz'⟩

end Settled

end Reorders

end Skeleton

end Correlation
