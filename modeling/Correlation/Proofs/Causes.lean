import Correlation.Check.Verdict
import Correlation.Proofs.Summary

/-!
# Where causes come from

Most causes are found at a skeleton, and the cause tells its shape (`shape_of_fault`).  The faults
say in turn what the parts of a skeleton provide:

* Parts that all run define a variable twice exactly if there is a fault that says so
  (`exists_clash_all`).
* A loop without fault provides nothing (`grants_of_loop`).
* Alternatives without fault agree on what they provide, unless they start a session
  (`grants_of_alternatives`, `freshness_of_alternatives`).
-/

namespace Correlation

open Skeleton

/-- The shape of the skeletons at which a cause is found. -/
def Violation.Cause.shape? : Violation.Cause → Option Shape
  | .definitionNotFound _ | .noCorrelationSet _ | .receiveOnCorrelation _ _ | .invalidInitializer _
  | .mayBeUndefined _ _ => some .leaf
  | .definedMoreThanOnce _ => some .all
  | .notInitializedInEveryBranch _ _ | .freshnessDiffers _ | .starterUsedInSession _ => some .one
  | .initializedInLoop _ => some .loop
  | .mainNotFound | .definitionCycle _ | .initializedInInit _ | .notInitialized _
  | .variableNotInitialized _ | .noFreshValue _ | .operationInManySets _ _ _
  | .setAlreadyDeclared _ _ => none

variable {ctx : Context} {table : NameTable Typing} {insideInit starter : Bool} {k : Skeleton}
  {l : Location} {v : Violation}

/-! ## Shapes of causes -/

theorem shape_of_clashes {before next : ProvidedSet} (hv : v ∈ before.clashes next) :
    v.cause.shape? = some .all := by
  obtain ⟨p, _, rfl⟩ := List.mem_map.mp hv
  rfl

/-- Clashes are reported of skeletons all of whose parts run. -/
theorem shape_of_gather {sets : List ProvidedSet}
    (hv : v ∈ (sets.foldl ProvidedSet.gather (.empty, [])).2) : v.cause.shape? = some .all := by
  refine foldl_induction (P := fun acc : ProvidedSet × List Violation =>
    ∀ w ∈ acc.2, w.cause.shape? = some .all) (s := (.empty, [])) (fun _ h => nomatch h) ?_ v hv
  intro acc next _ hacc w hw
  rcases List.mem_append.mp hw with hw | hw
  · exact hacc w hw
  · exact shape_of_clashes hw

theorem shape_of_receiveViolations {span : Span} {kind : ReceiveKind} {receive : Option Path}
    (hv : v ∈ Check.receiveViolations span kind receive) : v.cause.shape? = some .leaf := by
  cases receive with
  | none => cases hv
  | some p =>
    rw [Check.receiveViolations] at hv
    split at hv
    · rw [List.mem_singleton.mp hv]
      rfl
    · cases hv

theorem shape_of_initialTyping {span : Span} {target : Path} {value : Initializer} {entry : Typing}
    (hv : v ∈ (Check.initialTyping span target value entry).2) : v.cause.shape? = some .leaf := by
  have hrefused : ∀ {cause : Violation.Cause}, cause.shape? = some .leaf →
      (v ∈ if target.isCorrelation then [⟨span, cause⟩] else []) → v.cause.shape? = some .leaf := by
    intro cause hcause hv
    split at hv
    · rw [List.mem_singleton.mp hv]
      exact hcause
    · cases hv
  unfold Check.initialTyping at hv
  cases value with
  | constant | fresh => cases hv
  | update path =>
    dsimp only at hv
    split at hv
    · exact hrefused rfl hv
    · cases hv
  | copy source =>
    dsimp only at hv
    split at hv
    · split at hv
      · cases hv
      · split at hv <;> cases hv
    · exact hrefused rfl hv
  | other => exact hrefused rfl hv

/-- What is reported of branches is reported of skeletons one of whose parts runs. -/
theorem shape_of_choice {span : Span} {kind : BranchKind} {sessionStart : Bool} {ts : List Typing}
    (hv : v ∈ (Typing.choice span kind sessionStart ts).2) : v.cause.shape? = some .one := by
  rw [Typing.choice] at hv
  dsimp only at hv
  split at hv
  · obtain ⟨operation, _, rfl⟩ := List.mem_map.mp hv
    rfl
  · obtain ⟨p, _, hv⟩ := List.mem_flatMap.mp hv
    rcases List.mem_append.mp hv with hv | hv
    · obtain ⟨t, _, rfl⟩ := List.mem_map.mp hv
      rfl
    · split at hv
      · rw [List.mem_singleton.mp hv]
        rfl
      · cases hv

/-- A cause that is found at a skeleton tells its shape. -/
theorem shape_of_fault (htable : SortedTable table)
    (hv : v ∈ faults ctx table insideInit starter k .empty) : v.cause.shape? = some k.shape := by
  cases k with
  | idle | invalidate =>
    rw [faults] at hv
    cases hv
  | request span receive => exact shape_of_receiveViolations hv
  | input span operation receive =>
    rw [faults] at hv
    split at hv
    · cases hv
    · rcases List.mem_append.mp hv with hv | hv
      · exact shape_of_receiveViolations hv
      · split at hv
        · rw [List.mem_singleton.mp hv]
          rfl
        · cases hv
  | assign span target value =>
    rw [faults] at hv
    split at hv
    · exact shape_of_initialTyping hv
    · cases hv
  | call span name =>
    rw [faults] at hv
    split at hv
    · cases hv
    · rw [List.mem_singleton.mp hv]
      rfl
  | sequence | parallel =>
    rw [faults_all htable rfl] at hv
    exact shape_of_gather hv
  | choice | conditional =>
    rw [faults] at hv
    exact shape_of_choice hv
  | repeated span body =>
    rw [faults, Typing.repeated] at hv
    dsimp only at hv
    split at hv
    · cases hv
    · rw [List.mem_singleton.mp hv]
      rfl

/-! ## Loops and alternatives without faults -/

/-- A loop that defines nothing. -/
theorem grants_of_loop (insideInit : Bool) {c : Bool × Skeleton} (hk : k.shape = .loop)
    (hc : c ∈ children ctx.execution starter k)
    (hfaults : ∀ v ∈ faults ctx table insideInit starter k .empty, ∀ path,
      v.cause ≠ .initializedInLoop path) : grants ctx table l c = false := by
  cases k with
  | repeated span body =>
    obtain rfl := List.mem_singleton.mp hc
    rw [faults, Typing.repeated] at hfaults
    refine OrderedSet.contains_eq_false_iff.mpr fun hl => ?_
    obtain ⟨p, hp, _⟩ := List.mem_map.mp hl
    cases hprovided : (provided ctx table (starter, body)).toList with
    | nil =>
      rw [hprovided] at hp
      cases hp
    | cons q rest =>
      rw [provided] at hprovided
      dsimp only at hfaults
      rw [hprovided] at hfaults
      exact hfaults _ (List.mem_singleton_self _) q.path rfl
  | _ => cases hk

/-- The branches of a choice that may start the session, with their flags. -/
def Skeleton.starts : Bool × Skeleton → List (Bool × Skeleton)
  | (true, .choice _ branches) => branches.map fun x => (true, x)
  | _ => []

/-- Alternatives either start sessions, or are told by a choice that does not. -/
theorem starts_or_choice (ctx : Context) (table : NameTable Typing) (starter : Bool)
    (hk : k.shape = .one) : starts (starter, k) = children ctx.execution starter k ∨
      ∃ span kind, ∀ insideInit, faults ctx table insideInit starter k .empty =
        (Typing.choice span kind false ((children ctx.execution starter k).map fun x =>
          typing ctx table x.1 x.2 .empty)).2 := by
  cases k with
  | choice span branches =>
    cases starter with
    | true => exact Or.inl rfl
    | false => exact Or.inr ⟨span, .choice, fun b => faults_join ctx table rfl b .empty⟩
  | conditional span branches =>
    exact Or.inr ⟨span, .conditional, fun b => faults_join ctx table rfl b .empty⟩
  | _ => cases hk

section Alternatives

variable {a b : Bool × Skeleton}

/-- Alternatives without faults provide the same variables, unless they start sessions. -/
theorem grants_of_alternatives (insideInit : Bool) (hk : k.shape = .one)
    (hfaults : ∀ v ∈ faults ctx table insideInit starter k .empty, ∀ path kind,
      v.cause ≠ .notInitializedInEveryBranch path kind)
    (hstarts : ∀ a ∈ starts (starter, k), ∀ b ∈ starts (starter, k),
      grants ctx table l a = grants ctx table l b)
    (ha : a ∈ children ctx.execution starter k) (hb : b ∈ children ctx.execution starter k) :
    grants ctx table l a = grants ctx table l b := by
  rcases starts_or_choice ctx table starter hk with h | ⟨span, kind, h⟩
  · exact hstarts a (h ▸ ha) b (h ▸ hb)
  · rw [h] at hfaults
    have hmono : ∀ {a b}, a ∈ children ctx.execution starter k →
        b ∈ children ctx.execution starter k → grants ctx table l a = true →
          grants ctx table l b = true := by
      intro a b ha hb hl
      refine OrderedSet.contains_iff_mem_keys.mpr ?_
      exact Typing.mem_keys_of_choice (fun v hv path => hfaults v hv path kind)
        (List.mem_map_of_mem ha) (List.mem_map_of_mem hb) (OrderedSet.contains_iff_mem_keys.mp hl)
    rw [Bool.eq_iff_iff]
    exact ⟨hmono ha hb, hmono hb ha⟩

/-- Alternatives without faults agree on what they make fresh, unless they start sessions. -/
theorem freshness_of_alternatives (insideInit : Bool) (hk : k.shape = .one)
    (hkeys : ∀ v ∈ faults ctx table insideInit starter k .empty, ∀ path kind,
      v.cause ≠ .notInitializedInEveryBranch path kind)
    (hfresh : ∀ v ∈ faults ctx table insideInit starter k .empty, ∀ path,
      v.cause ≠ .freshnessDiffers path)
    (hstarts : ∀ a ∈ starts (starter, k), ∀ b ∈ starts (starter, k),
      (provided ctx table a).freshness l = (provided ctx table b).freshness l)
    (ha : a ∈ children ctx.execution starter k) (hb : b ∈ children ctx.execution starter k) :
    (provided ctx table a).freshness l = (provided ctx table b).freshness l := by
  rcases starts_or_choice ctx table starter hk with h | ⟨span, kind, h⟩
  · exact hstarts a (h ▸ ha) b (h ▸ hb)
  · rw [h] at hkeys hfresh
    exact Typing.freshness_eq_of_choice (fun v hv path => hkeys v hv path kind) hfresh
      (List.mem_map_of_mem ha) (List.mem_map_of_mem hb) l

end Alternatives

end Correlation
