import Correlation.Proofs.DataFlow
import Correlation.Proofs.Definedness

/-!
# What has a value in the course of a run

A store tells which variables have a value.

* A correlation variable gets a value when an event defines it, and keeps it.
* Data gets a value by an assignment to it, if it is known before the program runs.  A copy of
  something without a value changes nothing.
* Data loses its value when it is made undefined.

A store *meets* an entry if what the entry provides has a value.  Of correlation variables that is
asked only as far as the typing can be relied on.  A typing is *followed* from one store to another
if what it provides has a value in the end, and what it does not invalidate has kept its value.  The
typing of a single event is followed (`follows_event`), and an assignment of data to a correlation
variable finds a value, if what the typing needs has one (`finds_event`).
-/

namespace Correlation

open Skeleton

/-- Which variables have a value. -/
abbrev Store := Location → Bool

/-- Whether there is a value to initialise a variable with. -/
def Initializer.hasValue (σ : Store) : Initializer → Bool
  | .constant | .fresh | .update _ => true
  | .copy source => source.isStatic && σ source.location
  | .other => false

/-- The store after an event. -/
def Event.store (ctx : Context) (σ : Store) (e : Event) : Store := fun l =>
  if l.isCorrelation then σ l || e.defines ctx l
  else
    match e with
    | .assign target value =>
      σ l || target.isStatic && decide (target.location = l) && value.hasValue σ
    | .invalidate paths => σ l && !paths.any fun p => decide (p.location = l)
    | .input _ _ | .silent => σ l

theorem Event.store_of_isCorrelation {ctx : Context} {σ : Store} {e : Event} {l : Location}
    (hl : l.isCorrelation = true) : e.store ctx σ l = (σ l || e.defines ctx l) := if_pos hl

theorem Event.store_of_data {ctx : Context} {σ : Store} {e : Event} {l : Location}
    (hl : l.isCorrelation = false) : e.store ctx σ l = match e with
      | .assign target value =>
        σ l || target.isStatic && decide (target.location = l) && value.hasValue σ
      | .invalidate paths => σ l && !paths.any fun p => decide (p.location = l)
      | .input _ _ | .silent => σ l := by
  rw [Event.store.eq_def, hl]
  rfl

/-- The store after a trace. -/
def Store.after (ctx : Context) (σ : Store) (t : List Event) : Store := t.foldl (Event.store ctx) σ

/-- If the event initialises a correlation variable with data, the data has a value. -/
def Event.Finds (σ : Store) : Event → Prop
  | .assign target (.copy source) =>
    target.isStatic = true → target.isCorrelation = true → source.isStatic = true →
      source.isCorrelation = false → σ source.location = true
  | _ => True

/-- Whenever a correlation variable is initialised with data, the data has a value. -/
def FindsAll (ctx : Context) : Store → List Event → Prop
  | _, [] => True
  | σ, e :: t => e.Finds σ ∧ FindsAll ctx (e.store ctx σ) t

section Traces

variable {ctx : Context} {σ : Store} {t u : List Event} {e : Event} {l : Location}

/-- The store after two traces is that after the second one from the store after the first. -/
theorem Store.after_append (σ : Store) (t u : List Event) :
    σ.after ctx (t ++ u) = (σ.after ctx t).after ctx u := List.foldl_append

/-- Two traces find all that they copy if each of them does. -/
theorem findsAll_append :
    FindsAll ctx σ (t ++ u) ↔ FindsAll ctx σ t ∧ FindsAll ctx (σ.after ctx t) u := by
  induction t generalizing σ with
  | nil => exact (and_iff_right trivial).symm
  | cons e t ih => exact (and_congr_right' ih).trans and_assoc.symm

theorem findsAll_of_forall (h : ∀ e ∈ t, ∀ σ, e.Finds σ) : FindsAll ctx σ t := by
  induction t generalizing σ with
  | nil => exact trivial
  | cons e t ih =>
    exact ⟨h e List.mem_cons_self σ, ih fun e' he' => h e' (List.mem_cons_of_mem e he')⟩

variable (ctx) in
/-- An event that defines no correlation variable finds whatever it looks for. -/
theorem Event.finds_of_not_defines (h : ∀ l, ¬ e.defines ctx l = true) (σ : Store) :
    e.Finds σ := by
  cases e with
  | assign target value =>
    cases value with
    | copy source =>
      intro htarget hkey hsource _
      refine absurd ?_ (h target.location)
      simp only [Event.defines, Event.freshness, htarget, hkey, Initializer.freshFor, hsource,
        decide_true, Bool.and_self, if_true, Option.isSome_some]
    | _ => exact trivial
  | _ => exact trivial

/-- Only correlation variables are defined. -/
theorem Event.isCorrelation_of_defines (h : e.defines ctx l = true) : l.isCorrelation = true := by
  obtain ⟨fresh, hfresh⟩ := Option.isSome_iff_exists.mp h
  cases e with
  | input operation starter =>
    rw [Event.freshness] at hfresh
    split at hfresh
    · next hroutes =>
      rw [Bool.and_eq_true] at hroutes
      have hkey : l.isCorrelation = true ∧ ∃ p ∈ ctx.keysFor operation .unknown, p.location = l :=
        ctx.mem_keysFor_iff.mpr hroutes.2
      exact hkey.1
    · cases hfresh
  | assign target value =>
    rw [Event.freshness] at hfresh
    split at hfresh
    · next htarget =>
      simp only [Bool.and_eq_true, decide_eq_true_eq] at htarget
      exact htarget.2 ▸ htarget.1.2
    · cases hfresh
  | invalidate | silent => cases hfresh

/-- Correlation variables keep their values. -/
theorem Store.after_of_isCorrelation (hl : l.isCorrelation = true) (hσ : σ l = true) :
    σ.after ctx t l = true := by
  refine foldl_induction (P := fun σ : Store => σ l = true) hσ fun σ e _ hσ => ?_
  rw [Event.store_of_isCorrelation hl, hσ, Bool.true_or]

/-- A variable that was defined has a value afterwards. -/
theorem Store.after_of_defines (he : e ∈ t) (hdefines : e.defines ctx l = true) :
    σ.after ctx t l = true := by
  have hl := Event.isCorrelation_of_defines hdefines
  obtain ⟨before, after, rfl⟩ := List.append_of_mem he
  rw [Store.after_append]
  refine Store.after_of_isCorrelation (t := after) hl ?_
  rw [Event.store_of_isCorrelation hl, hdefines, Bool.or_true]

end Traces

/-- What the entry provides has a value, as far as it can be relied on. -/
structure Store.Meets (keys : Location → Prop) (σ : Store) (entry : Typing) : Prop where
  sorted : entry.Sorted
  data : ∀ l ∈ entry.providedData.keys, σ l = true
  correlation : ∀ l ∈ entry.providedCorrelation.keys, keys l → σ l = true

/-- The second store may come from the first one by what the typing says of data. -/
structure Typing.Follows (t : Typing) (σ σ' : Store) : Prop where
  provided : ∀ l ∈ t.providedData.keys, σ' l = true
  kept : ∀ l, σ l = true → l ∉ t.invalidatedData.keys → σ' l = true

/-- Whether the parts of a skeleton run at the same time. -/
def Skeleton.isParallel : Skeleton → Bool
  | .parallel _ => true
  | _ => false

/-- The correlation variable that is copied into data. -/
def Skeleton.copiedKey? : Skeleton → Option Location
  | .assign _ target (.copy source) =>
    if target.isStatic && !target.isCorrelation && source.isStatic && source.isCorrelation then
      some source.location
    else none
  | _ => none

/-! ## Single events -/

section Event

variable {ctx : Context} {table : NameTable Typing} {keys : Location → Prop} {σ : Store}
  {entry : Typing} {l : Location}

/-- What an assignment says of data. -/
theorem data_initialTyping (span : Span) (target : Path) (value : Initializer) (entry : Typing) :
    (∀ l ∈ (Check.initialTyping span target value entry).1.providedData.keys,
        target.isCorrelation = false ∧ target.location = l ∧
          value.hasValue entry.provides = true) ∧
      (Check.initialTyping span target value entry).1.invalidatedData = .empty := by
  have hprovided : ∀ (t : Typing) (fresh : Bool), t.providedData = .empty →
      value.hasValue entry.provides = true → ∀ l ∈ (t.provide target fresh).providedData.keys,
        target.isCorrelation = false ∧ target.location = l ∧
          value.hasValue entry.provides = true := by
    intro t fresh ht hvalue l hl
    by_cases htarget : target.isCorrelation = true
    · rw [Typing.provide, if_pos htarget] at hl
      rw [ht] at hl
      cases hl
    · have htarget := eq_false_of_ne_true htarget
      rw [Typing.providedData_provide _ htarget, ht] at hl
      rcases OrderedSet.mem_keys_insertNew.mp hl with rfl | hl
      · exact ⟨htarget, rfl, hvalue⟩
      · cases hl
  have hempty : ∀ l ∈ Typing.empty.providedData.keys, target.isCorrelation = false ∧
      target.location = l ∧ value.hasValue entry.provides = true := List.forall_mem_nil _
  have hinvalid : ∀ (t : Typing) (fresh : Bool), t.invalidatedData = .empty →
      (t.provide target fresh).invalidatedData = .empty := by
    intro t fresh ht
    rw [Typing.provide]
    split <;> exact ht
  unfold Check.initialTyping
  cases value with
  | constant | fresh => exact ⟨hprovided _ _ rfl rfl, hinvalid _ _ rfl⟩
  | update path =>
    dsimp only
    split
    · exact ⟨hempty, rfl⟩
    · exact ⟨hprovided _ _ rfl rfl, hinvalid _ _ rfl⟩
  | copy source =>
    dsimp only
    split
    · next hsource =>
      split
      · next hprovides =>
        refine ⟨hprovided _ _ rfl ?_, hinvalid _ _ rfl⟩
        rw [Initializer.hasValue, hsource, hprovides, Bool.and_self]
      · split
        · next htarget =>
          have hneed : (Typing.empty.need (source.locatedIn span)).dataEffect =
              Typing.empty.dataEffect := Typing.dataEffect_need _ _
          refine ⟨fun l hl => ?_, hinvalid _ _ (congrArg Prod.snd hneed)⟩
          rw [Typing.provide, if_pos htarget] at hl
          rw [show (Typing.empty.need (source.locatedIn span)).providedData = .empty from
            congrArg Prod.fst hneed] at hl
          cases hl
        · exact ⟨hempty, rfl⟩
    · exact ⟨hempty, rfl⟩
  | other => exact ⟨hempty, rfl⟩

/-- A value that the entry promises is there. -/
theorem Store.Meets.hasValue (hσ : σ.Meets keys entry) {value : Initializer}
    (hkeys : ∀ source, value = .copy source → source.isStatic = true →
      source.isCorrelation = true → keys source.location)
    (hvalue : value.hasValue entry.provides = true) : value.hasValue σ = true := by
  cases value with
  | constant | fresh | update => rfl
  | copy source =>
    rw [Initializer.hasValue, Bool.and_eq_true, Typing.provides, Bool.or_eq_true,
      OrderedSet.contains_iff_mem_keys, OrderedSet.contains_iff_mem_keys] at hvalue
    rw [Initializer.hasValue, hvalue.1, Bool.true_and]
    rcases hvalue.2 with hdata | hkey
    · exact hσ.data _ hdata
    · exact hσ.correlation _ hkey
        (hkeys source rfl hvalue.1 (hσ.sorted.providedCorrelation _ hkey))
  | other => cases hvalue

theorem dataEffect_inputTyping {ps : List Path} (hps : ∀ p ∈ ps, p.isCorrelation = true)
    (starter : Bool) : (Check.inputTyping ps starter).dataEffect = Typing.empty.dataEffect := by
  refine foldl_keeps Typing.dataEffect (fun t p hp => ?_) .empty
  cases starter with
  | true =>
    rw [if_pos rfl, Typing.provide, if_pos (hps p hp)]
    rfl
  | false => exact Typing.dataEffect_need t p

/-- Making data undefined provides nothing, and invalidates the data that is meant. -/
theorem data_foldl_invalidate (span : Span) (ps : List Path) :
    let t := ps.foldl (fun t p => t.invalidate (p.locatedIn span)) Typing.empty
    (∀ l, l ∉ t.providedData.keys) ∧
      ∀ p ∈ ps, p.isCorrelation = false → p.location ∈ t.invalidatedData.keys := by
  have hkept : ∀ (ps : List Path) (t : Typing), t.invalidatedData.keys ⊆
      (ps.foldl (fun t p => t.invalidate (p.locatedIn span)) t).invalidatedData.keys := by
    intro ps t
    refine foldl_induction (P := fun u : Typing => t.invalidatedData.keys ⊆ u.invalidatedData.keys)
      (List.Subset.refl _) fun u p _ h l hl => ?_
    rw [Typing.invalidate]
    split
    · exact h hl
    · exact OrderedSet.mem_keys_insertNew.mpr (Or.inr (h hl))
  constructor
  · refine foldl_induction (P := fun t : Typing => ∀ l, l ∉ t.providedData.keys)
      (fun _ => List.not_mem_nil) fun t p _ h l hl => ?_
    rw [Typing.invalidate] at hl
    split at hl
    · exact h l hl
    · exact h l (OrderedSet.mem_keys_erase.mp hl).1
  · intro p hp hdata
    obtain ⟨before, after, rfl⟩ := List.append_of_mem hp
    rw [List.foldl_append, List.foldl_cons]
    refine hkept after _ ?_
    rw [Typing.invalidatedData_invalidate _ (p := p.locatedIn span) hdata]
    exact OrderedSet.mem_keys_insertNew.mpr (Or.inl rfl)

/-- What an event does to data. -/
theorem data_event {x : Bool × Skeleton} {e : Event} (he : x.2.event x.1 = some e)
    (hσ : σ.Meets keys entry) (hkeys : ∀ l, x.2.copiedKey? = some l → keys l)
    (hl : l.isCorrelation = false) :
    (l ∈ (typing ctx table x.1 x.2 entry).providedData.keys → e.store ctx σ l = true) ∧
      (σ l = true → l ∉ (typing ctx table x.1 x.2 entry).invalidatedData.keys →
        e.store ctx σ l = true) := by
  obtain ⟨starter, k⟩ := x
  rw [Event.store_of_data hl]
  cases k with
  | idle | request => cases he; exact ⟨fun h => (nomatch h), fun h _ => h⟩
  | input span operation receive =>
    cases he
    have heffect : (typing ctx table starter (.input span operation receive) entry).dataEffect =
        Typing.empty.dataEffect := by
      have hkeys : ∀ p ∈ ctx.keysFor operation span, p.isCorrelation = true := by
        intro p hp
        rw [Context.keysFor] at hp
        split at hp
        · obtain ⟨v, _, rfl⟩ := List.mem_map.mp hp
          rfl
        · cases hp
      rw [typing]
      split
      · rfl
      · rw [← dataEffect_inputTyping hkeys starter, Typing.noteInput]
        split <;> rfl
    refine ⟨fun h => ?_, fun h _ => h⟩
    rw [show (typing ctx table starter (.input span operation receive) entry).providedData = _ from
      congrArg Prod.fst heffect] at h
    cases h
  | assign span target value =>
    cases he
    refine ⟨fun h => ?_, fun h _ => ?_⟩
    · rw [typing] at h
      split at h
      · next htarget =>
        obtain ⟨hdata, rfl, hvalue⟩ := (data_initialTyping span _ value entry).1 l h
        have hfound : value.hasValue σ = true := by
          refine hσ.hasValue ?_ hvalue
          rintro source rfl hstatic hsource
          have hdata : target.isCorrelation = false := hdata
          exact hkeys _ (by simp [Skeleton.copiedKey?, htarget, hdata, hstatic, hsource])
        simp only [htarget, hfound, Path.location_locatedIn, decide_true, Bool.and_self,
          Bool.or_true]
      · cases h
    · simp only [h, Bool.true_or]
  | invalidate span paths =>
    cases he
    obtain ⟨hnone, hinvalid⟩ := data_foldl_invalidate span paths
    rw [typing]
    refine ⟨fun h => absurd h (hnone l), fun h hkept => ?_⟩
    have hany : (paths.any fun p => decide (p.location = l)) = false := by
      refine List.any_eq_false.mpr fun p hp hpl => hkept ?_
      obtain rfl := of_decide_eq_true hpl
      exact hinvalid p hp hl
    simp only [h, hany, Bool.not_false, Bool.and_self]
  | _ => cases he

/-- The typing of a single event is followed. -/
theorem follows_event (htable : SortedTable table) {x : Bool × Skeleton} {e : Event}
    (he : x.2.event x.1 = some e) (hσ : σ.Meets keys entry)
    (hkeys : ∀ l, x.2.copiedKey? = some l → keys l) :
    (typing ctx table x.1 x.2 entry).Follows σ (e.store ctx σ) where
  provided l hl := by
    have hdata := (sorted_typing ctx htable x.1 x.2 entry).providedData l hl
    exact (data_event he hσ hkeys hdata).1 hl
  kept l hl hkept := by
    by_cases hkey : l.isCorrelation = true
    · rw [Event.store_of_isCorrelation hkey, hl, Bool.true_or]
    · exact (data_event he hσ hkeys (eq_false_of_ne_true hkey)).2 hl hkept

/-- A correlation variable that is initialised with data finds a value, if what the typing needs has
one. -/
theorem finds_event {x : Bool × Skeleton} {e : Event} (he : x.2.event x.1 = some e)
    (hσ : σ.Meets keys entry)
    (hneeds : ∀ l ∈ (typing ctx table x.1 x.2 entry).neededData.keys, σ l = true) :
    e.Finds σ := by
  obtain ⟨starter, k⟩ := x
  cases k with
  | assign span target value =>
    cases he
    cases value with
    | copy source =>
      intro htarget hkey hsource hdata
      have hkey' : (target.locatedIn span).isCorrelation = true := hkey
      rw [typing, if_pos htarget, Check.initialTyping, if_pos hsource, if_pos hkey'] at hneeds
      by_cases hprovides : entry.provides source.location = true
      · rw [Typing.provides, Bool.or_eq_true, OrderedSet.contains_iff_mem_keys,
          OrderedSet.contains_iff_mem_keys] at hprovides
        rcases hprovides with hprovides | hprovides
        · exact hσ.data _ hprovides
        · have hcorrelation := hσ.sorted.providedCorrelation _ hprovides
          exact absurd (hdata.symm.trans hcorrelation) Bool.false_ne_true
      · rw [if_neg hprovides, Typing.neededData_provide] at hneeds
        exact hneeds _ (Typing.mem_neededData_need.mpr (Or.inr ⟨rfl, hdata⟩))
    | _ => exact trivial
  | idle | request | input | invalidate => cases he; exact trivial
  | _ => cases he

end Event

end Correlation
