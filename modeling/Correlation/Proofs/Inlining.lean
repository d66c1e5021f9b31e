import Correlation.Proofs.Refinement
import Correlation.Proofs.Settled

/-!
# Calls that are replaced by bodies

A call that comes after the first input of the session, or in a definition that starts none, may be
replaced by the body of the definition that it calls.  `Statement.Inlines` is the replacement of one
such call somewhere in a statement, and `Skeleton.Inlines` what it is on skeletons.  A call in a
handler may be replaced too.  That does not show, since handlers are not checked.

The flag is cleared at the call and in the body (`ReplacesCall.starterAfter_eq`).  So the
replacement is a change at one place, and three facts are shown by induction on it
(`Inlines.frame_induction`):

* the new skeleton improves on the old one, if the calls in it do (`Inlines.improves`);
* the faults of its parts are faults of parts of the old skeleton or of the body
  (`Inlines.exists_faults_eq`);
* it calls what the old skeleton or the body does (`Inlines.mem_visited_call`).
-/

namespace Correlation

/-- A call of a definition, with the flag cleared, and the body of the definition. -/
inductive Statement.ReplacesCall (d : Definition) : Bool → Statement → Statement → Prop where
  | call (span : Span) : ReplacesCall d false (.call span d.name) d.body

/-- One call of a definition is replaced by the body of the definition, where the call is checked
with the flag cleared. -/
def Statement.Inlines (mode : ExecutionMode) (d : Definition) :
    Bool → Statement → Statement → Prop :=
  Statement.Within mode (Statement.ReplacesCall d)

namespace Skeleton

/-- A call of a definition, with the flag cleared, and the body of the definition. -/
inductive ReplacesCall (d : Definition) : Bool → Skeleton → Skeleton → Prop where
  | call (span : Span) : ReplacesCall d false (.call span d.name) d.body.skeleton
  /-- The call is in a part that does not show. -/
  | same (starter : Bool) (k : Skeleton) : ReplacesCall d starter k k

/-- One call of a definition, with the flag cleared, is replaced by the body of the definition. -/
def Inlines (mode : ExecutionMode) (d : Definition) : Bool → Skeleton → Skeleton → Prop :=
  Within mode (ReplacesCall d)

end Skeleton

/-- A replacement in a statement is one in its skeleton. -/
theorem Statement.Inlines.skeleton {mode : ExecutionMode} {d : Definition} {starter : Bool}
    {s t : Statement} (h : s.Inlines mode d starter t) :
    Skeleton.Inlines mode d starter s.skeleton t.skeleton := by
  refine Statement.Within.skeleton (fun h => ?_) .same h
  cases h with
  | call span =>
    rw [Statement.skeleton]
    exact .call span

namespace Skeleton

variable {mode : ExecutionMode} {d : Definition} {starter : Bool} {k k' : Skeleton}

/-- The flag is cleared at the call and after the body. -/
theorem ReplacesCall.starterAfter_eq (mode : ExecutionMode) (h : ReplacesCall d starter k k') :
    starterAfter mode starter k' = starterAfter mode starter k := by
  cases h with
  | call span => exact starterAfter_false d.body.skeleton
  | same => rfl

namespace Inlines

/-- Induction on a replacement.  Either the call itself is replaced or nothing is, or the skeleton
stays as it is put together and there is a replacement in one of its parts. -/
theorem frame_induction {motive : Bool → Skeleton → Skeleton → Prop}
    (call : ∀ span, motive false (.call span d.name) d.body.skeleton)
    (same : ∀ starter k, motive starter k k)
    (frame : ∀ starter k k' before flag x y after, Alike k' k →
      children mode starter k = before ++ (flag, x) :: after →
      children mode starter k' = before ++ (flag, y) :: after →
      Inlines mode d flag x y → motive flag x y → motive starter k k')
    (h : Inlines mode d starter k k') : motive starter k k' := by
  refine Within.frame_induction (fun h => h.starterAfter_eq mode) (fun starter k k' h => ?_) ?_ h
  · cases h with
    | call span => exact call span
    | same => exact same starter k
  · exact fun starter k k' before flag x y after halike hold hnew _ =>
      frame starter k k' before flag x y after halike hold hnew

/-! ## What is called -/

/-- A call in the new skeleton is in the old one, or it is in the body and the old skeleton calls
the definition with the flag cleared. -/
theorem mem_visited_call (h : Inlines mode d starter k k') {z : Bool × Skeleton} {span : Span}
    {name : String} (hz : z ∈ visited mode starter k') (hcall : z.2 = .call span name) :
    z ∈ visited mode starter k ∨ z ∈ visited mode false d.body.skeleton ∧
      ∃ span, (false, Skeleton.call span d.name) ∈ visited mode starter k := by
  revert hz
  refine frame_induction (motive := fun starter k k' => z ∈ visited mode starter k' →
    z ∈ visited mode starter k ∨ z ∈ visited mode false d.body.skeleton ∧
      ∃ span, (false, Skeleton.call span d.name) ∈ visited mode starter k) ?call ?same ?frame h
  case call => exact fun span hz => Or.inr ⟨hz, span, mem_visited_self _ _ _⟩
  case same => exact fun _ _ hz => Or.inl hz
  case frame =>
    intro starter k k' before flag x y after _ hold hnew _ ih hz
    have hx : (flag, x) ∈ children mode starter k := mem_children_of_frame hold
    rcases mem_visited_frame hold hnew hz with rfl | hz | hz
    · obtain rfl : k' = .call span name := hcall
      exact absurd rfl (shape_ne_leaf_of_frame hnew)
    · exact Or.inl hz
    · exact (ih hz).imp (mem_visited_of_child hx) fun ⟨hbody, span, hcall⟩ =>
        ⟨hbody, span, mem_visited_of_child hx hcall⟩

/-! ## Typings and faults -/

section Tables

variable {ctx : Context} {new old : NameTable Typing} (hnew : SortedTable new)
  (hold : SortedTable old)
  (hbody : called old d.name = typing ctx old false d.body.skeleton .empty)

include hnew hold

theorem improves_of_parts {before after : List (Bool × Skeleton)} {flag : Bool} {x y : Skeleton}
    (hk : children ctx.execution starter k = before ++ (flag, x) :: after)
    (hk' : children ctx.execution starter k' = before ++ (flag, y) :: after)
    (hcalls : CallsRefine ctx new old (starter, k'))
    (hxy : Improves ctx new old (flag, y) (flag, x)) :
    List.Forall₂ (Improves ctx new old) (children ctx.execution starter k')
      (children ctx.execution starter k) := by
  have hself : ∀ c ∈ before ++ after, Improves ctx new old c c := by
    intro c hc
    refine improves_self hnew hold c (hcalls.child ?_)
    rw [hk']
    exact (List.mem_append.mp hc).elim (List.mem_append_left _)
      fun hc => List.mem_append_right _ (List.mem_cons_of_mem _ hc)
  rw [hk, hk']
  exact forall₂_replace hself hxy

include hbody

/-- The new skeleton improves on the old one, if the calls in it do.  The typing of the call is that
of the body from the entry in which nothing is defined, which every other entry covers. -/
theorem improves (h : Inlines ctx.execution d starter k k')
    (hcalls : CallsRefine ctx new old (starter, k')) :
    Improves ctx new old (starter, k') (starter, k) := by
  revert hcalls
  refine frame_induction (motive := fun starter k k' => CallsRefine ctx new old (starter, k') →
    Improves ctx new old (starter, k') (starter, k)) ?call ?same ?frame h
  case call =>
    intro span hcalls entry other _
    rw [show typing ctx old false (.call span d.name) other = called old d.name by rw [typing],
      hbody]
    exact improves_self hnew hold _ hcalls entry .empty (Typing.covers_empty entry)
  case same => exact fun starter k hcalls => improves_self hnew hold _ hcalls
  case frame =>
    intro starter k k' before flag x y after halike hk hk' _ ih hcalls
    have hxy := ih (hcalls.child (mem_children_of_frame hk'))
    exact improves_of_alike hnew hold halike (hcalls _ (mem_visited_self _ _ _))
      (improves_of_parts hnew hold hk hk' hcalls hxy)

/-- The faults of a part of the new skeleton are those of a part of the old one or of the body. -/
theorem exists_faults_eq (h : Inlines ctx.execution d starter k k')
    (hcalls : CallsRefine ctx new old (starter, k')) {z : Bool × Skeleton}
    (hz : z ∈ visited ctx.execution starter k') (insideInit : Bool) :
    ∃ x, (x ∈ visited ctx.execution starter k ∨ x ∈ visited ctx.execution false d.body.skeleton) ∧
      faults ctx new insideInit z.1 z.2 .empty = faults ctx old insideInit x.1 x.2 .empty := by
  revert hcalls hz
  refine frame_induction (motive := fun starter k k' => CallsRefine ctx new old (starter, k') →
    z ∈ visited ctx.execution starter k' → ∃ x, (x ∈ visited ctx.execution starter k ∨
      x ∈ visited ctx.execution false d.body.skeleton) ∧
        faults ctx new insideInit z.1 z.2 .empty = faults ctx old insideInit x.1 x.2 .empty)
    ?call ?same ?frame h
  case call =>
    intro _ hcalls hz
    exact ⟨z, Or.inr hz, faults_self hnew hold z (hcalls.part hz) insideInit⟩
  case same =>
    intro _ _ hcalls hz
    exact ⟨z, Or.inl hz, faults_self hnew hold z (hcalls.part hz) insideInit⟩
  case frame =>
    intro starter k k' before flag x y after halike hk hk' hxy ih hcalls hz
    have hy : CallsRefine ctx new old (flag, y) :=
      hcalls.child (mem_children_of_frame hk')
    rcases mem_visited_frame hk hk' hz with rfl | hkept | hz
    · refine ⟨(starter, k), Or.inl (mem_visited_self _ _ _), ?_⟩
      exact faults_of_alike hnew hold halike
        (improves_of_parts hnew hold hk hk' hcalls (hxy.improves hnew hold hbody hy)) insideInit
    · exact ⟨z, Or.inl hkept, faults_self hnew hold z (hcalls.part hz) insideInit⟩
    · obtain ⟨w, hw, hfaults⟩ := ih hy hz
      refine ⟨w, hw.imp_left fun hw => ?_, hfaults⟩
      exact mem_visited_of_child (mem_children_of_frame hk) hw

end Tables

end Inlines

end Skeleton

end Correlation
