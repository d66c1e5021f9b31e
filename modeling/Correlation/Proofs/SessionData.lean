import Correlation.Proofs.SessionKeys
import Correlation.Proofs.Stores

/-!
# The data that keys are made of

A correlation variable may be initialised with data.  In the sessions of a valid program the data
has a value at that point (`copies_have_values_of_valid`), if nothing runs at the same time and
three more conditions hold.

* The branches that may start a session agree on the correlation variables that are copied into
  data.  Otherwise data may be a copy of a correlation variable that this session does not have.
* Needs come in time: no sequence takes over a need for data that it has made undefined itself.
  What is around such a sequence may still provide the data, and would settle the need.
* Rounds agree: a loop body invalidates no more data when it is entered without what it invalidates.
  The body is typed for the first round only.

None of the three follows from validity (`not_copies_have_values`).

The last two conditions are about the *sites* of a definition, which are its parts with the entries
from which they are judged.  The proof is one induction on runs (`Context.Settled.sound_of_run`):
what a typing says of data holds of every run that starts from a store which meets the entry.
-/

namespace Correlation

open Skeleton

/-! ## Where parts are judged -/

/-- A part of a skeleton with its starter flag, and the entry from which it is judged. -/
structure Site where
  starter : Bool
  part : Skeleton
  entry : Typing

/-- A typing that does not provide this data. -/
def Typing.without (t : Typing) (lost : PathSet) : Typing :=
  { t with providedData := t.providedData.retain fun p => !lost.contains p.location }

section Sites

variable (ctx : Context) (table : NameTable Typing)

namespace Skeleton

mutual

/-- The parts of a skeleton that have parts themselves, with the entries from which they are judged.
The body of a loop is judged as in a later round, without the data that the first one invalidates.
-/
def sites : Bool → Skeleton → Typing → List Site
  | starter, .sequence parts, entry =>
    ⟨starter, .sequence parts, entry⟩ :: sitesAlong starter parts (.start entry)
  | starter, .parallel parts, entry =>
    ⟨starter, .parallel parts, entry⟩ :: sitesBeside starter parts entry
  | starter, .choice span branches, entry =>
    ⟨starter, .choice span branches, entry⟩ :: sitesEach starter branches entry
  | starter, .conditional span branches, entry =>
    ⟨starter, .conditional span branches, entry⟩ :: sitesBeside starter branches entry
  | starter, .repeated span body, entry =>
    ⟨starter, .repeated span body, entry⟩ ::
      sites starter body (entry.without (typing ctx table starter body entry).invalidatedData)
  | _, .idle, _ | _, .request _ _, _ | _, .input _ _ _, _ | _, .assign _ _ _, _
  | _, .invalidate _ _, _ | _, .call _ _, _ => []

/-- The parts of a sequence, each with what is defined when it runs. -/
def sitesAlong : Bool → List Skeleton → Sequel → List Site
  | _, [], _ => []
  | starter, x :: rest, s =>
    sites starter x s.running ++
      sitesAlong (starterAfter ctx.execution starter x) rest
        (s.append (typing ctx table starter x s.running))

/-- The parts of skeletons that hand the starter flag on and share the entry. -/
def sitesBeside : Bool → List Skeleton → Typing → List Site
  | _, [], _ => []
  | starter, x :: rest, entry =>
    sites starter x entry ++ sitesBeside (starterAfter ctx.execution starter x) rest entry

/-- The parts of skeletons that share the starter flag and the entry. -/
def sitesEach : Bool → List Skeleton → Typing → List Site
  | _, [], _ => []
  | starter, x :: rest, entry => sites starter x entry ++ sitesEach starter rest entry

end

/-- The needs for data that a sequence takes over although it has made that data undefined. -/
def lateNeeds : Bool → List Skeleton → Sequel → List Path
  | _, [], _ => []
  | starter, x :: rest, s =>
    let t := typing ctx table starter x s.running
    (t.neededData.toList.filter fun p => s.result.invalidatedData.contains p.location) ++
      lateNeeds (starterAfter ctx.execution starter x) rest (s.append t)

end Skeleton

namespace Site

/-- A sequence takes over no need for data that it has made undefined. -/
def needsInTime (x : Site) : Bool :=
  match x.part with
  | .sequence parts => (lateNeeds ctx table x.starter parts (.start x.entry)).isEmpty
  | _ => true

/-- The body of a loop invalidates nothing in a later round that it does not invalidate in the first
one. -/
def roundsAgree (x : Site) : Bool :=
  match x.part with
  | .repeated _ body =>
    let first := typing ctx table x.starter body x.entry
    let later := typing ctx table x.starter body (x.entry.without first.invalidatedData)
    later.invalidatedData.toList.all fun p => first.invalidatedData.contains p.location
  | _ => true

end Site

/-- All sites in the bodies of definitions pass a test. -/
def Context.AtSites (test : Site → Bool) : Prop :=
  ∀ d ∈ ctx.definitions.toList,
    ∀ x ∈ sites ctx table (ctx.startsSession d) d.body.skeleton (ctx.entryOf table d),
      test x = true

instance (test : Site → Bool) : Decidable (ctx.AtSites table test) :=
  inferInstanceAs (Decidable (∀ d ∈ ctx.definitions.toList,
    ∀ x ∈ sites ctx table (ctx.startsSession d) d.body.skeleton (ctx.entryOf table d),
      test x = true))

/-- What is asked of the parts, besides the sites: they run one after the other, loops define no
correlation variables, and the alternatives agree on those that are copied into data. -/
structure Flows (keys : Location → Prop) (x : Bool × Skeleton) : Prop where
  sequential : x.2.isParallel = false
  copied : ∀ l, x.2.copiedKey? = some l → keys l
  loopless : ∀ l, Loopless ctx table l x
  agreed : ∀ l, keys l → Agreed ctx (grants ctx table l) x

/-- A trace does to data what the typing says, and it finds the data that it copies into correlation
variables, if what the typing needs has a value. -/
def Sound (keys : Location → Prop) (x : Bool × Skeleton) (t : List Event) : Prop :=
  ∀ entry (σ : Store), σ.Meets keys entry →
    (∀ y ∈ sites ctx table x.1 x.2 entry,
      y.needsInTime ctx table = true ∧ y.roundsAgree ctx table = true) →
    (typing ctx table x.1 x.2 entry).Follows σ (σ.after ctx t) ∧
      ((∀ l ∈ (typing ctx table x.1 x.2 entry).neededData.keys, σ l = true) → FindsAll ctx σ t)

end Sites

section Parts

variable {ctx : Context} {table : NameTable Typing} {keys : Location → Prop} {σ σ' : Store}
  {entry : Typing} {x : Bool × Skeleton} {t : List Event} {l : Location}

theorem Typing.mem_keys_without {t : Typing} {lost : PathSet} :
    l ∈ (t.without lost).providedData.keys ↔ l ∈ t.providedData.keys ∧ l ∉ lost.keys := by
  constructor
  · intro hl
    obtain ⟨p, hp, rfl⟩ := List.mem_map.mp hl
    obtain ⟨hp, hkept⟩ := List.mem_filter.mp hp
    exact ⟨List.mem_map_of_mem hp, OrderedSet.contains_eq_false_iff.mp (by simpa using hkept)⟩
  · rintro ⟨hl, hkept⟩
    obtain ⟨p, hp, rfl⟩ := List.mem_map.mp hl
    refine List.mem_map_of_mem (List.mem_filter.mpr ⟨hp, ?_⟩)
    rw [OrderedSet.contains_eq_false_iff.mpr hkept]
    rfl

theorem Typing.Follows.refl_empty (σ : Store) : Typing.empty.Follows σ σ :=
  ⟨fun _ h => (nomatch h), fun _ h _ => h⟩

theorem Store.meets_empty (keys : Location → Prop) (σ : Store) : σ.Meets keys .empty :=
  ⟨Typing.sorted_empty, fun _ h => (nomatch h), fun _ h => (nomatch h)⟩

/-- One more statement of a sequence. -/
theorem Typing.Follows.append {s : Sequel} {t : Typing} {σ₀ : Store} (ht : t.Sorted)
    (hresult : s.result.Follows σ₀ σ) (hnext : t.Follows σ σ') :
    (s.append t).result.Follows σ₀ σ' where
  provided l hl := by
    obtain ⟨hl | hl, hkept⟩ := (Sequel.mem_resultData_append ht).mp hl
    · exact hnext.kept l (hresult.provided l hl) hkept
    · exact hnext.provided l hl
  kept l hl hkept := by
    rw [Sequel.mem_invalidatedData_append ht, not_or, not_and_not_right] at hkept
    by_cases hprovided : l ∈ t.providedData.keys
    · exact hnext.provided l hprovided
    · exact hnext.kept l (hresult.kept l hl fun h => hprovided (hkept.1 h)) hkept.2

theorem Store.Meets.append {s : Sequel} {t : Typing} (ht : t.Sorted)
    (hσ : σ.Meets keys s.running) (hnext : t.Follows σ σ')
    (hkept : ∀ l, l.isCorrelation = true → σ l = true → σ' l = true)
    (hdefined : ∀ l ∈ t.providedCorrelation.keys, keys l → σ' l = true) :
    σ'.Meets keys (s.append t).running where
  sorted := Sequel.sorted_running_append hσ.sorted ht
  data l hl := by
    obtain ⟨hl | hl, hvalid⟩ := (Sequel.mem_runningData_append ht).mp hl
    · exact hnext.kept l (hσ.data l hl) hvalid
    · exact hnext.provided l hl
  correlation l hl hkey := by
    rcases (Sequel.mem_running_append ht).mp hl with hl | ⟨hl, _⟩
    · exact hkept l (hσ.sorted.providedCorrelation l hl) (hσ.correlation l hl hkey)
    · exact hdefined l hl hkey

/-- The sites of one of several alternatives are sites of the whole. -/
theorem sites_subset_of_one {starter : Bool} {k : Skeleton} {c : Bool × Skeleton}
    (hk : k.shape = .one) (hc : c ∈ children ctx.execution starter k) :
    sites ctx table c.1 c.2 entry ⊆ sites ctx table starter k entry := by
  have hbeside : ∀ (starter : Bool) (parts : List Skeleton),
      c ∈ flagged ctx.execution starter parts →
        sites ctx table c.1 c.2 entry ⊆ sitesBeside ctx table starter parts entry := by
    intro starter parts hc
    induction parts generalizing starter with
    | nil => cases hc
    | cons x rest ih =>
      rw [sitesBeside]
      rcases List.mem_cons.mp hc with rfl | hc
      · exact List.subset_append_left _ _
      · exact List.subset_append_of_subset_right _ (ih _ hc)
  have heach : ∀ (parts : List Skeleton), c ∈ parts.map (fun x => (starter, x)) →
      sites ctx table c.1 c.2 entry ⊆ sitesEach ctx table starter parts entry := by
    intro parts hc
    induction parts with
    | nil => cases hc
    | cons x rest ih =>
      rw [sitesEach]
      rcases List.mem_cons.mp hc with rfl | hc
      · exact List.subset_append_left _ _
      · exact List.subset_append_of_subset_right _ (ih hc)
  cases k with
  | choice span branches =>
    rw [sites]
    exact List.subset_cons_of_subset _ (heach branches hc)
  | conditional span branches =>
    rw [sites]
    exact List.subset_cons_of_subset _ (hbeside starter branches hc)
  | _ => cases hk

/-- A sequence has at least the needs that it had before. -/
theorem neededData_subset_sequel {starter : Bool} (parts : List Skeleton) (s : Sequel) :
    s.result.neededData.keys ⊆ (sequel ctx table starter parts s).result.neededData.keys := by
  induction parts generalizing starter s with
  | nil => exact List.Subset.refl _
  | cons x rest ih =>
    rw [sequel]
    exact List.Subset.trans (Sequel.neededData_subset_append s _) (ih _)

/-- Without alternatives nothing happens. -/
theorem follows_none (hk : x.2.shape = .one) (hchildren : children ctx.execution x.1 x.2 = [])
    (entry : Typing) (σ : Store) : (typing ctx table x.1 x.2 entry).Follows σ σ := by
  obtain ⟨sessionStart, htyping⟩ := exists_alternatives ctx table x.1 hk entry
  rw [htyping, hchildren]
  exact ⟨fun _ hl => (nomatch hl), fun _ hl _ => hl⟩

theorem sound_none (hk : x.2.shape = .one) (hchildren : children ctx.execution x.1 x.2 = []) :
    Sound ctx table keys x [] :=
  fun entry σ _ _ => ⟨follows_none hk hchildren entry σ, fun _ => trivial⟩

namespace Context.Settled

variable (h : ctx.Settled table)

include h

/-- What is provided can be relied on after a run, as far as alternatives agree. -/
theorem after_of_run (hQ : ctx.Throughout (Flows ctx table keys))
    (hx : ∀ y ∈ visited ctx.execution x.1 x.2, Flows ctx table keys y) (hrun : Run ctx x.1 x.2 t)
    (entry : Typing) (σ : Store)
    (hl : l ∈ (typing ctx table x.1 x.2 entry).providedCorrelation.keys)
    (hkey : keys l) : σ.after ctx t l = true := by
  have hgrants : grants ctx table l x = true := by
    rw [providedCorrelation_typing h.sorted] at hl
    exact OrderedSet.contains_iff_mem_keys.mpr hl
  obtain ⟨e, he, hdefines⟩ := h.exists_of_run
    (fun d hd y hy => ⟨(hQ d hd y hy).agreed l hkey, (hQ d hd y hy).loopless l⟩) hrun
    (fun y hy => ⟨(hx y hy).agreed l hkey, (hx y hy).loopless l⟩) hgrants
  exact Store.after_of_defines he hdefines

/-- Parts that run one after the other.  A need of a part is settled by what is running, or it was
there before the sequence and is not late. -/
theorem sound_parts (hQ : ctx.Throughout (Flows ctx table keys)) {starter : Bool}
    {parts : List Skeleton} {ts : List (List Event)}
    (hparts : List.Forall₂ (fun x t => Run ctx x.1 x.2 t ∧
      (∀ y ∈ visited ctx.execution x.1 x.2, Flows ctx table keys y) ∧ Sound ctx table keys x t)
        (flagged ctx.execution starter parts) ts)
    (s : Sequel) {σ₀ : Store} (hσ : σ.Meets keys s.running) (hresult : s.result.Follows σ₀ σ)
    (hsites : ∀ y ∈ sitesAlong ctx table starter parts s,
      y.needsInTime ctx table = true ∧ y.roundsAgree ctx table = true)
    (hneeds : lateNeeds ctx table starter parts s = []) :
    (sequel ctx table starter parts s).result.Follows σ₀ (σ.after ctx ts.flatten) ∧
      ((∀ l ∈ (sequel ctx table starter parts s).result.neededData.keys, σ₀ l = true) →
        FindsAll ctx σ ts.flatten) := by
  induction parts generalizing starter s ts σ with
  | nil =>
    cases hparts
    exact ⟨hresult, fun _ => trivial⟩
  | cons k rest ih =>
    obtain ⟨⟩ | ⟨⟨hrun, hflows, hsound⟩, hrest⟩ := hparts
    next t ts =>
    have ht := sorted_typing ctx h.sorted starter k s.running
    rw [sitesAlong] at hsites
    rw [lateNeeds, List.append_eq_nil_iff] at hneeds
    obtain ⟨hfollows, hfinds⟩ := hsound s.running σ hσ fun y hy =>
      hsites y (List.mem_append_left _ hy)
    obtain ⟨hend, hfindsRest⟩ := ih hrest (s.append (typing ctx table starter k s.running))
      (hσ.append ht hfollows (fun l => Store.after_of_isCorrelation)
        fun l => h.after_of_run hQ hflows hrun s.running σ)
      (hresult.append ht hfollows) (fun y hy => hsites y (List.mem_append_right _ hy)) hneeds.2
    rw [sequel, List.flatten_cons, Store.after_append, findsAll_append]
    refine ⟨hend, fun hdata => ⟨hfinds fun l hl => ?_, hfindsRest hdata⟩⟩
    rcases Sequel.mem_neededData_append (s := s) ht hl with hrunning | hopen
    · exact hσ.data l hrunning
    · refine hresult.kept l (hdata l (neededData_subset_sequel rest _ hopen)) fun hlost => ?_
      obtain ⟨p, hp, rfl⟩ := List.mem_map.mp hl
      have hlate : p ∈ (typing ctx table starter k s.running).neededData.toList.filter fun p =>
          s.result.invalidatedData.contains p.location :=
        List.mem_filter.mpr ⟨hp, OrderedSet.contains_iff_mem_keys.mpr hlost⟩
      rw [hneeds.1] at hlate
      cases hlate

/-- The typing of an alternative says no less of data than that of all of them. -/
theorem follows_one {c : Bool × Skeleton} (hk : x.2.shape = .one)
    (hc : c ∈ children ctx.execution x.1 x.2)
    (hfollows : (typing ctx table c.1 c.2 entry).Follows σ σ') :
    (typing ctx table x.1 x.2 entry).Follows σ σ' := by
  obtain ⟨sessionStart, htyping⟩ := exists_alternatives ctx table x.1 hk entry
  obtain ⟨_, hprovided, hinvalid⟩ := Typing.alternatives_data
    (List.forall_mem_map.mpr fun c _ => sorted_typing ctx h.sorted c.1 c.2 entry) sessionStart
    (List.mem_map_of_mem (f := fun x : Bool × Skeleton => typing ctx table x.1 x.2 entry) hc)
  rw [htyping]
  exact ⟨fun l hl => hfollows.provided l (hprovided hl),
    fun l hl hkept => hfollows.kept l hl fun hlost => hkept (hinvalid hlost)⟩

/-- One of the alternatives runs. -/
theorem sound_one {c : Bool × Skeleton} (hk : x.2.shape = .one)
    (hc : c ∈ children ctx.execution x.1 x.2) (hsound : Sound ctx table keys c t) :
    Sound ctx table keys x t := by
  intro entry σ hσ hsites
  obtain ⟨hfollows, hfinds⟩ := hsound entry σ hσ fun y hy =>
    hsites y (sites_subset_of_one hk hc hy)
  refine ⟨h.follows_one hk hc hfollows, fun hneeds => hfinds fun l hl => hneeds l ?_⟩
  obtain ⟨sessionStart, htyping⟩ := exists_alternatives ctx table x.1 hk entry
  obtain ⟨hneeded, _, _⟩ := Typing.alternatives_data
    (List.forall_mem_map.mpr fun c _ => sorted_typing ctx h.sorted c.1 c.2 entry) sessionStart
    (List.mem_map_of_mem (f := fun x : Bool × Skeleton => typing ctx table x.1 x.2 entry) hc)
  rw [htyping]
  exact hneeded hl

/-- A body that runs any number of times keeps the data that it does not invalidate in the first
round, if its rounds agree.  Before every round there is what the first one leaves. -/
theorem follows_loop {starter : Bool} {span : Span} {body : Skeleton} {ts : List (List Event)}
    (hσ : σ.Meets keys entry)
    (hround : Site.roundsAgree ctx table ⟨starter, .repeated span body, entry⟩ = true)
    (hts : ∀ t ∈ ts, ∀ σ' : Store,
      let later := entry.without (typing ctx table starter body entry).invalidatedData
      σ'.Meets keys later →
        (typing ctx table starter body later).Follows σ' (σ'.after ctx t)) :
    (typing ctx table starter (.repeated span body) entry).Follows σ
      (σ.after ctx ts.flatten) := by
  let first := typing ctx table starter body entry
  let later := entry.without first.invalidatedData
  have hfirst : first.Sorted := sorted_typing ctx h.sorted starter body entry
  have hrounds : ∀ l ∈ (typing ctx table starter body later).invalidatedData.keys,
      l ∈ first.invalidatedData.keys := by
    intro l hl
    obtain ⟨p, hp, rfl⟩ := List.mem_map.mp hl
    exact OrderedSet.contains_iff_mem_keys.mp (List.all_eq_true.mp hround p hp)
  have hkept : ∀ σ' : Store, (∀ l, σ l = true → l ∉ first.invalidatedData.keys → σ' l = true) →
      ∀ l, σ l = true → l ∉ first.invalidatedData.keys → σ'.after ctx ts.flatten l = true := by
    induction ts with
    | nil => exact fun σ' hσ' => hσ'
    | cons t ts ih =>
      intro σ' hσ'
      rw [List.flatten_cons, Store.after_append]
      refine ih (fun u hu => hts u (List.mem_cons_of_mem t hu)) _ fun l hl hvalid => ?_
      have hlater : σ'.Meets keys later :=
        { sorted :=
            { hσ.sorted with
              providedData := fun l hl =>
                hσ.sorted.providedData l (Typing.mem_keys_without.mp hl).1 }
          data := fun l hl => by
            obtain ⟨hl, hvalid⟩ := Typing.mem_keys_without.mp hl
            exact hσ' l (hσ.data l hl) hvalid
          correlation := fun l hl hkey => by
            refine hσ' l (hσ.correlation l hl hkey) fun hlost => ?_
            exact Bool.false_ne_true ((hfirst.invalidatedData l hlost).symm.trans
              (hσ.sorted.providedCorrelation l hl)) }
      exact (hts t List.mem_cons_self σ' hlater).kept l (hσ' l hl hvalid) fun hlost =>
        hvalid (hrounds l hlost)
  rw [typing]
  exact ⟨List.forall_mem_nil _, hkept σ fun _ hl _ => hl⟩

/-- A body that runs any number of times.  No correlation variable is defined in it, so nothing is
looked for there. -/
theorem sound_loop {starter : Bool} {span : Span} {body : Skeleton} {ts : List (List Event)}
    (hflows : Flows ctx table keys (starter, .repeated span body))
    (hts : ∀ t ∈ ts, Run ctx starter body t ∧ Sound ctx table keys (starter, body) t) :
    Sound ctx table keys (starter, .repeated span body) ts.flatten := by
  intro entry σ hσ hsites
  rw [sites] at hsites
  refine ⟨h.follows_loop hσ (hsites _ List.mem_cons_self).2 fun t ht σ' hσ' => ?_, fun _ => ?_⟩
  · exact ((hts t ht).2 _ σ' hσ' fun y hy => hsites y (List.mem_cons_of_mem _ hy)).1
  refine findsAll_of_forall fun e he => Event.finds_of_not_defines ctx fun l hdefines => ?_
  obtain ⟨u, hu, he⟩ := List.mem_flatten.mp he
  have hgrants := h.grants_of_run (x := (starter, body)) (hts u hu).1 he hdefines
  rw [hflows.loopless l rfl (starter, body) (List.mem_singleton_self _)] at hgrants
  cases hgrants

/-- A call runs the body of the definition, which is not `main`. -/
theorem sound_call {starter : Bool} {span : Span} {name : String} {d : Definition}
    (hd : ctx.definitions.find? name = some d) (hmain : d.name ≠ mainName)
    (hsites : ∀ y ∈ sites ctx table (ctx.startsSession d) d.body.skeleton (ctx.entryOf table d),
      y.needsInTime ctx table = true ∧ y.roundsAgree ctx table = true)
    (hsound : Sound ctx table keys (ctx.startsSession d, d.body.skeleton) t) :
    Sound ctx table keys (starter, .call span name) t := by
  intro entry σ _ _
  obtain rfl := name_of_find? hd
  have hentry : ctx.entryOf table d = .empty := by
    rw [entryOf, decide_eq_false hmain, Bool.false_and]
    rfl
  have hbody := hsound (ctx.entryOf table d) σ (hentry ▸ σ.meets_empty keys) hsites
  rw [typing, h.called_eq hd]
  exact hbody

/-- A run does to data what the typing says, and it finds the data that it copies into correlation
variables. -/
theorem sound_of_run (hQ : ctx.Throughout (Flows ctx table keys))
    (hsites : ∀ d, ctx.definitions.find? d.name = some d →
      ∀ y ∈ sites ctx table (ctx.startsSession d) d.body.skeleton (ctx.entryOf table d),
        y.needsInTime ctx table = true ∧ y.roundsAgree ctx table = true)
    (hrun : Run ctx x.1 x.2 t) (hx : ∀ y ∈ visited ctx.execution x.1 x.2, Flows ctx table keys y)
    (hbefore : ctx.BeforeMain table x) : Sound ctx table keys x t := by
  refine Run.induction (motive := fun starter k t =>
    (∀ y ∈ visited ctx.execution starter k, Flows ctx table keys y) →
      ctx.BeforeMain table (starter, k) → Sound ctx table keys (starter, k) t)
    ?leaf ?sequence ?parallel ?choice ?choiceNone ?conditional ?conditionalNone ?repeated ?call
    ?undeclared hrun hx hbefore
  case leaf =>
    intro starter k e he hx _ entry σ hσ _
    have hkeys := (hx _ (mem_visited_self _ _ _)).copied
    exact ⟨follows_event h.sorted (x := (starter, k)) he hσ hkeys,
      fun hneeds => ⟨finds_event (x := (starter, k)) he hσ hneeds, trivial⟩⟩
  case sequence =>
    intro starter parts ts hparts hx hbefore entry σ hσ hsites
    rw [sites] at hsites
    have hstart : σ.Meets keys (Sequel.start entry).running :=
      ⟨hσ.sorted.provisions, hσ.data, hσ.correlation⟩
    refine h.sound_parts hQ (forall₂_imp_of_mem ?_ hparts) (.start entry) hstart
      (Typing.Follows.refl_empty σ) (fun y hy => hsites y (List.mem_cons_of_mem _ hy))
      (List.isEmpty_iff.mp (hsites _ List.mem_cons_self).1)
    intro c hc t hrun
    have hc : c ∈ children ctx.execution starter (.sequence parts) := hc
    have hflows := fun y hy => hx y (mem_visited_of_child hc hy)
    exact ⟨hrun.1, hflows, hrun.2 hflows (hbefore.child hc)⟩
  case parallel =>
    intro starter parts ts t _ _ hx _
    cases (hx _ (mem_visited_self _ _ _)).sequential
  case choice =>
    intro starter span branches k t hk _ ih hx hbefore
    have hc : (starter, k) ∈ children ctx.execution starter (.choice span branches) :=
      List.mem_map_of_mem hk
    exact h.sound_one rfl hc (ih (fun y hy => hx y (mem_visited_of_child hc hy))
      (hbefore.child hc))
  case choiceNone => exact fun _ _ => sound_none rfl rfl
  case conditional =>
    intro starter span branches c t hc _ ih hx hbefore
    exact h.sound_one (x := (starter, .conditional span branches)) rfl hc
      (ih (fun y hy => hx y (mem_visited_of_child hc hy)) (hbefore.child hc))
  case conditionalNone => exact fun _ _ => sound_none rfl rfl
  case repeated =>
    intro starter span body ts hts hx hbefore
    have hc : (starter, body) ∈ children ctx.execution starter (.repeated span body) :=
      List.mem_singleton_self _
    refine h.sound_loop (hx _ (mem_visited_self _ _ _)) fun t ht => ⟨(hts t ht).1, ?_⟩
    exact (hts t ht).2 (fun y hy => hx y (mem_visited_of_child hc hy)) (hbefore.child hc)
  case call =>
    intro starter span name d t hd _ ih _ hbefore
    obtain ⟨hmain, hbody⟩ := h.beforeMain_call hbefore rfl hd
    have hd' : ctx.definitions.find? d.name = some d := name_of_find? hd ▸ hd
    exact h.sound_call hd hmain (hsites d hd') (ih (hQ d hd') hbody)
  case undeclared =>
    intro starter span name hname _ _ entry σ _ _
    rw [typing, h.called_undeclared hname]
    exact ⟨.refl_empty σ, fun _ => trivial⟩

/-- What `init` and `main` need of data is settled, if a session needs none. -/
theorem neededData_of_session
    (hnone : ∀ l, l ∉ (sessionOf table).neededData.keys) :
    (∀ l, l ∉ (called table initName).neededData.keys) ∧
      ∀ l ∈ (called table mainName).neededData.keys,
        l ∈ (called table initName).providedData.keys := by
  rw [sessionOf] at hnone
  have hmain : (called table mainName).Sorted := h.sorted mainName
  cases hinit : table.get? initName with
  | none =>
    have hcalled : called table initName = .empty := by rw [called, hinit]; rfl
    rw [hinit, Verdict.sessionTyping] at hnone
    rw [hcalled]
    exact ⟨fun _ => List.not_mem_nil, fun l hl => absurd hl (hnone l)⟩
  | some init =>
    have hcalled : called table initName = init := by rw [called, hinit]; rfl
    rw [hinit, Verdict.sessionTyping] at hnone
    rw [hcalled]
    refine ⟨fun l hl => hnone l (Sequel.neededData_subset_append _ _ hl), fun l hl => ?_⟩
    exact (Sequel.mem_neededData_append hmain hl).resolve_right (hnone l)

/-- A session finds the data that it copies into correlation variables. -/
theorem findsAll_session (hQ : ctx.Throughout (Flows ctx table keys))
    (hsites : ∀ d, ctx.definitions.find? d.name = some d →
      ∀ y ∈ sites ctx table (ctx.startsSession d) d.body.skeleton (ctx.entryOf table d),
        y.needsInTime ctx table = true ∧ y.roundsAgree ctx table = true)
    (hmain : ∃ d, ctx.definitions.find? mainName = some d)
    (hnone : ∀ l, l ∉ (sessionOf table).neededData.keys) (hsession : ctx.Session t) :
    FindsAll ctx (fun _ => false) t := by
  obtain ⟨d, hd⟩ := hmain
  have hname := name_of_find? hd
  have hd' : ctx.definitions.find? d.name = some d := hname.symm ▸ hd
  obtain ⟨hneedsInit, hneedsMain⟩ := h.neededData_of_session hnone
  obtain ⟨init, main, hinit, hmainRun, rfl⟩ := hsession
  have hcall : ∀ y ∈ visited ctx.execution initCall.1 initCall.2, Flows ctx table keys y :=
    forall_visited_call ⟨rfl, by nofun, fun _ => by nofun, fun _ _ => by nofun⟩
  obtain ⟨hfollows, hfinds⟩ := h.sound_of_run hQ hsites hinit hcall (h.beforeMain_initCall hd)
    .empty (fun _ => false) (Store.meets_empty _ _) (fun _ hy => nomatch hy)
  rw [findsAll_append]
  refine ⟨hfinds fun l hl => absurd hl (hneedsInit l), ?_⟩
  have hentry : Store.Meets keys (Store.after ctx (fun _ => false) init)
      (ctx.entryOf table d) := by
    rw [entryOf]
    split
    · exact ⟨(h.sorted initName).provisions, hfollows.provided,
        fun l hl => h.after_of_run hQ hcall hinit .empty _ hl⟩
    · exact Store.meets_empty _ _
  cases hmainRun with
  | leaf he => cases he
  | undeclared hname => exact trivial
  | call hfind hrun =>
    obtain rfl := Option.some.inj (hd.symm.trans hfind)
    refine (h.sound_of_run (x := (ctx.startsSession d, d.body.skeleton)) hQ hsites hrun (hQ d hd')
      (h.beforeMain_main hd) (ctx.entryOf table d) _ hentry (hsites d hd')).2 fun l hl => ?_
    have hmainTyping : called table mainName = ctx.typingOf table d := hname ▸ h.called_eq hd'
    exact hfollows.provided l (hneedsMain l (hmainTyping ▸ hl))

end Context.Settled

end Parts

/-! ## Valid programs -/

/-- A session of a valid program needs no data. -/
theorem Program.neededData_of_valid {program : Program} {mode : Option ExecutionMode}
    (hvalid : (program.check mode).isValid = true) (l : Location) :
    l ∉ (sessionOf (program.check mode).typings).neededData.keys := by
  intro hl
  obtain ⟨p, hp, rfl⟩ := List.mem_map.mp hl
  obtain ⟨d, hd⟩ := exists_main_of_valid hvalid
  have hmain := (settled_of_valid hvalid).get?_of_find? hd
  refine not_mem_causes_of_valid hvalid (.variableNotInitialized p)
    (List.mem_map.mpr ⟨⟨p.span, .variableNotInitialized p⟩, ?_, rfl⟩)
  refine (mem_violations_check fun _ => not_mem_causes_of_valid hvalid _).mpr (Or.inr (Or.inr ?_))
  rw [Verdict.ofTypings_of_main program.file (program.context mode).routing hmain]
  exact List.mem_append_left _ (List.mem_append_right _
    (List.mem_append_right _ (List.mem_map_of_mem hp)))

namespace Program

section Conditions

variable (program : Program) (mode : Option ExecutionMode)

/-- Nothing runs at the same time. -/
def Sequential : Prop :=
  ∀ d ∈ (program.context mode).definitions.toList, ∀ x ∈ (program.context mode).partsOf d,
    x.2.isParallel = false

/-- The branches that may start a session agree on which correlation variables they provide, as far
as these are copied into data. -/
def CopiesAgree : Prop :=
  ∀ d ∈ (program.context mode).definitions.toList, ∀ x ∈ (program.context mode).partsOf d,
    ∀ l ∈ x.2.copiedKey?, (program.context mode).StartsAgree
      (grants (program.context mode) (program.check mode).typings l)

/-- No sequence takes over a need for data that it has made undefined. -/
def NeedsInTime : Prop :=
  (program.context mode).AtSites (program.check mode).typings
    (Site.needsInTime (program.context mode) (program.check mode).typings)

/-- No loop invalidates more data in a later round than in the first one. -/
def RoundsAgree : Prop :=
  (program.context mode).AtSites (program.check mode).typings
    (Site.roundsAgree (program.context mode) (program.check mode).typings)

/-- Whenever a session copies data into a correlation variable, the data has a value. -/
def CopiesHaveValues : Prop :=
  ∀ (before after : List Event) (target source : Path),
    (program.context mode).Session (before ++ .assign target (.copy source) :: after) →
      target.isStatic = true → target.isCorrelation = true → source.isStatic = true →
        source.isCorrelation = false →
          Store.after (program.context mode) (fun _ => false) before source.location = true

instance : Decidable (program.Sequential mode) :=
  inferInstanceAs (Decidable (∀ d ∈ (program.context mode).definitions.toList,
    ∀ x ∈ (program.context mode).partsOf d, x.2.isParallel = false))

instance : Decidable (program.CopiesAgree mode) :=
  inferInstanceAs (Decidable (∀ d ∈ (program.context mode).definitions.toList,
    ∀ x ∈ (program.context mode).partsOf d, ∀ l ∈ x.2.copiedKey?,
      (program.context mode).StartsAgree
        (grants (program.context mode) (program.check mode).typings l)))

instance : Decidable (program.NeedsInTime mode) :=
  inferInstanceAs (Decidable ((program.context mode).AtSites (program.check mode).typings
    (Site.needsInTime (program.context mode) (program.check mode).typings)))

instance : Decidable (program.RoundsAgree mode) :=
  inferInstanceAs (Decidable ((program.context mode).AtSites (program.check mode).typings
    (Site.roundsAgree (program.context mode) (program.check mode).typings)))

end Conditions

end Program

/-- No session of a valid program initialises a correlation variable with data that has no value, if
nothing runs at the same time, the branches that may start a session agree on the correlation
variables that are copied into data, needs come in time and the rounds of loops agree. -/
theorem copies_have_values_of_valid (program : Program) (mode : Option ExecutionMode)
    (hvalid : (program.check mode).isValid = true) (hsequential : program.Sequential mode)
    (hcopies : program.CopiesAgree mode) (hneeds : program.NeedsInTime mode)
    (hrounds : program.RoundsAgree mode) : program.CopiesHaveValues mode := by
  have hmem : ∀ {d}, (program.context mode).definitions.find? d.name = some d →
      d ∈ (program.context mode).definitions.toList :=
    fun hd => (OrderedSet.find?_eq_some_iff.mp hd).1
  have hacyclic := fun names => Program.not_mem_causes_of_valid hvalid (.definitionCycle names)
  have hloopless := Program.loopless_of_check hacyclic
    fun path => Program.not_mem_causes_of_valid hvalid (.initializedInLoop path)
  have hflows : (program.context mode).Throughout (Flows (program.context mode)
      (program.check mode).typings fun l => (program.context mode).StartsAgree
        (grants (program.context mode) (program.check mode).typings l)) := by
    intro d hd x hx
    refine ⟨hsequential d (hmem hd) x hx, fun l hl => hcopies d (hmem hd) x hx l hl,
      fun l => hloopless l d hd x hx, fun l hagree => ?_⟩
    exact Program.agreed_of_check hacyclic (fun path kind =>
      Program.not_mem_causes_of_valid hvalid (.notInitializedInEveryBranch path kind)) hagree d hd
        x hx
  intro before after target source hsession htarget hkey hsource hdata
  have hfinds := (Program.settled_of_valid hvalid).findsAll_session hflows
    (fun d hd y hy => ⟨hneeds d (hmem hd) y hy, hrounds d (hmem hd) y hy⟩)
    (Program.exists_main_of_valid hvalid) (Program.neededData_of_valid hvalid) hsession
  exact (findsAll_append.mp hfinds).2.1 htarget hkey hsource hdata

/-- Data that stands in a local variable. -/
def sampleData (name : String) : Path := ⟨⟨false, [.named name]⟩, .unknown⟩

/-- A correlation variable beside that of the correlation set. -/
def orderKey : Path := ⟨⟨false, [.named "csets", .named "order"]⟩, .unknown⟩

/-- A session gets `sid` however it starts.  It copies `sid`, and the copy is untouched by the
loop. -/
def copiedSafely : Program := sampleProgram [("main", .sequence .unknown
  [.choice .unknown
    [⟨.oneWay .unknown "login" none, .assign .unknown sampleKey .fresh⟩,
      ⟨.oneWay .unknown "register" none, .assign .unknown sampleKey .fresh⟩],
    .assign .unknown (sampleData "x") (.variable sampleKey),
    .whileLoop .unknown (.bool true) (.undefine .unknown (sampleData "y")),
    .assign .unknown orderKey (.variable (sampleData "x"))])]

/-- When `copiedSafely` initialises the correlation variable, `x` has a value. -/
theorem copies_have_values_copiedSafely :
    Store.after (copiedSafely.context none) (fun _ => false)
      [.input "login" true, .assign sampleKey .fresh, .assign (sampleData "x") (.copy sampleKey),
        .invalidate [sampleData "y"]] (sampleData "x").location = true := by
  have hlogin : Run (copiedSafely.context none) true
      (.sequence [.input .unknown "login" none, .assign .unknown sampleKey .fresh])
      [.input "login" true, .assign sampleKey .fresh] :=
    @Run.sequence _ _ _ [[.input "login" true], [.assign sampleKey .fresh]]
      (.cons (.leaf rfl) (.cons (.leaf rfl) .nil))
  have hloop := @Run.repeated (copiedSafely.context none) false .unknown
    (.invalidate .unknown [sampleData "y"]) [[.invalidate [sampleData "y"]]]
    fun t ht => List.mem_singleton.mp ht ▸ .leaf rfl
  have hbody : Run (copiedSafely.context none) true
      (.sequence [.choice .unknown
        [.sequence [.input .unknown "login" none, .assign .unknown sampleKey .fresh],
          .sequence [.input .unknown "register" none, .assign .unknown sampleKey .fresh]],
        .assign .unknown (sampleData "x") (.copy sampleKey),
        .repeated .unknown (.invalidate .unknown [sampleData "y"]),
        .assign .unknown orderKey (.copy (sampleData "x"))])
      ([.input "login" true, .assign sampleKey .fresh,
        .assign (sampleData "x") (.copy sampleKey), .invalidate [sampleData "y"]] ++
          .assign orderKey (.copy (sampleData "x")) :: []) :=
    @Run.sequence _ _ _ [[.input "login" true, .assign sampleKey .fresh],
        [.assign (sampleData "x") (.copy sampleKey)], [.invalidate [sampleData "y"]],
        [.assign orderKey (.copy (sampleData "x"))]]
      (.cons (.choice List.mem_cons_self hlogin)
        (.cons (.leaf rfl) (.cons hloop (.cons (.leaf rfl) .nil))))
  exact copies_have_values_of_valid copiedSafely none (by decide +kernel) (by decide +kernel)
    (by decide +kernel) (by decide +kernel) (by decide +kernel) _ _ _ _
    ⟨[], _, .undeclared rfl, .call rfl hbody, rfl⟩ rfl rfl rfl rfl

/-! ## Each condition is needed -/

/-- A session that starts with a registration has no `sid`, and `main` copies it. -/
def copiedStarter : Program := sampleProgram [("main", .sequence .unknown
  [.choice .unknown
    [⟨.oneWay .unknown "login" none, .assign .unknown sampleKey .fresh⟩,
      ⟨.oneWay .unknown "register" none, .nothing .unknown⟩],
    .assign .unknown (sampleData "x") (.variable sampleKey),
    .assign .unknown orderKey (.variable (sampleData "x"))])]

/-- A block makes `x` undefined and then copies it. -/
def copiedLate : Program := sampleProgram [("main", .sequence .unknown
  [.assign .unknown (sampleData "x") (.int 1),
    .sequence .unknown [.undefine .unknown (sampleData "x"),
      .assign .unknown orderKey (.variable (sampleData "x"))]])]

/-- In the second round of the loop there is no `x` to copy. -/
def copiedRounds : Program := sampleProgram [("main", .sequence .unknown
  [.assign .unknown (sampleData "x") (.int 1),
    .assign .unknown (sampleData "y") (.int 1),
    .whileLoop .unknown (.bool true) (.sequence .unknown
      [.undefine .unknown (sampleData "y"),
        .assign .unknown (sampleData "y") (.variable (sampleData "x")),
        .undefine .unknown (sampleData "x")]),
    .assign .unknown orderKey (.variable (sampleData "y"))])]

/-- `main` of `copiedStarter`, started with a registration. -/
theorem run_copiedStarter : Run (copiedStarter.context none) true
    (.sequence [.choice .unknown
      [.sequence [.input .unknown "login" none, .assign .unknown sampleKey .fresh],
        .sequence [.input .unknown "register" none, .idle]],
      .assign .unknown (sampleData "x") (.copy sampleKey),
      .assign .unknown orderKey (.copy (sampleData "x"))])
    [.input "register" true, .silent, .assign (sampleData "x") (.copy sampleKey),
      .assign orderKey (.copy (sampleData "x"))] := by
  have hsecond : Run (copiedStarter.context none) true
      (.sequence [.input .unknown "register" none, .idle]) [.input "register" true, .silent] :=
    @Run.sequence _ _ _ [[.input "register" true], [.silent]]
      (.cons (.leaf rfl) (.cons (.leaf rfl) .nil))
  exact @Run.sequence _ _ _ [[.input "register" true, .silent],
      [.assign (sampleData "x") (.copy sampleKey)], [.assign orderKey (.copy (sampleData "x"))]]
    (.cons (.choice (by simp) hsecond) (.cons (.leaf rfl) (.cons (.leaf rfl) .nil)))

/-- A session of `copiedStarter` that starts with a registration. -/
theorem session_copiedStarter : (copiedStarter.context none).Session
    ([.input "register" true, .silent, .assign (sampleData "x") (.copy sampleKey)] ++
      .assign orderKey (.copy (sampleData "x")) :: []) :=
  ⟨[], _, .undeclared rfl, .call rfl run_copiedStarter, rfl⟩

/-- The session of `copiedLate`. -/
theorem session_copiedLate : (copiedLate.context none).Session
    ([.assign (sampleData "x") .constant, .invalidate [sampleData "x"]] ++
      .assign orderKey (.copy (sampleData "x")) :: []) := by
  have hblock : Run (copiedLate.context none) true
      (.sequence [.invalidate .unknown [sampleData "x"],
        .assign .unknown orderKey (.copy (sampleData "x"))]) _ :=
    @Run.sequence _ _ _ [[.invalidate [sampleData "x"]],
      [.assign orderKey (.copy (sampleData "x"))]] (.cons (.leaf rfl) (.cons (.leaf rfl) .nil))
  have hbody : Run (copiedLate.context none) true
      (.sequence [.assign .unknown (sampleData "x") .constant,
        .sequence [.invalidate .unknown [sampleData "x"],
          .assign .unknown orderKey (.copy (sampleData "x"))]]) _ :=
    @Run.sequence _ _ _ [[.assign (sampleData "x") .constant], _]
      (.cons (.leaf rfl) (.cons hblock .nil))
  exact ⟨[], _, .undeclared rfl, .call rfl hbody, rfl⟩

/-- A round of the loop. -/
def copiedRound : List Event :=
  [.invalidate [sampleData "y"], .assign (sampleData "y") (.copy (sampleData "x")),
    .invalidate [sampleData "x"]]

/-- `main` of `copiedRounds` with two rounds. -/
theorem run_copiedRounds : Run (copiedRounds.context none) true
    (.sequence [.assign .unknown (sampleData "x") .constant,
      .assign .unknown (sampleData "y") .constant,
      .repeated .unknown (.sequence [.invalidate .unknown [sampleData "y"],
        .assign .unknown (sampleData "y") (.copy (sampleData "x")),
        .invalidate .unknown [sampleData "x"]]),
      .assign .unknown orderKey (.copy (sampleData "y"))])
    ([.assign (sampleData "x") .constant, .assign (sampleData "y") .constant] ++ copiedRound ++
      copiedRound ++ .assign orderKey (.copy (sampleData "y")) :: []) := by
  have hround : Run (copiedRounds.context none) true
      (.sequence [.invalidate .unknown [sampleData "y"],
        .assign .unknown (sampleData "y") (.copy (sampleData "x")),
        .invalidate .unknown [sampleData "x"]]) copiedRound :=
    @Run.sequence _ _ _ [[.invalidate [sampleData "y"]],
        [.assign (sampleData "y") (.copy (sampleData "x"))], [.invalidate [sampleData "x"]]]
      (.cons (.leaf rfl) (.cons (.leaf rfl) (.cons (.leaf rfl) .nil)))
  have hloop := @Run.repeated (copiedRounds.context none) true .unknown _
    [copiedRound, copiedRound] (by simpa using hround)
  exact @Run.sequence (copiedRounds.context none) true _ [[.assign (sampleData "x") .constant],
      [.assign (sampleData "y") .constant], [copiedRound, copiedRound].flatten,
      [.assign orderKey (.copy (sampleData "y"))]]
    (.cons (.leaf rfl) (.cons (.leaf rfl) (.cons hloop (.cons (.leaf rfl) .nil))))

/-- A session of `copiedRounds` with two rounds. -/
theorem session_copiedRounds : (copiedRounds.context none).Session
    ([.assign (sampleData "x") .constant, .assign (sampleData "y") .constant] ++ copiedRound ++
      copiedRound ++ .assign orderKey (.copy (sampleData "y")) :: []) :=
  ⟨[], _, .undeclared rfl, .call rfl run_copiedRounds, rfl⟩

/-- Without one of the last three conditions a session of a valid program may initialise a
correlation variable with data that has no value. -/
theorem not_copies_have_values :
    (¬ ∀ (program : Program) (mode : Option ExecutionMode), (program.check mode).isValid = true →
      program.Sequential mode → program.NeedsInTime mode → program.RoundsAgree mode →
        program.CopiesHaveValues mode) ∧
    (¬ ∀ (program : Program) (mode : Option ExecutionMode), (program.check mode).isValid = true →
      program.Sequential mode → program.CopiesAgree mode → program.RoundsAgree mode →
        program.CopiesHaveValues mode) ∧
    ¬ ∀ (program : Program) (mode : Option ExecutionMode), (program.check mode).isValid = true →
      program.Sequential mode → program.CopiesAgree mode → program.NeedsInTime mode →
        program.CopiesHaveValues mode := by
  refine ⟨fun h => ?_, fun h => ?_, fun h => ?_⟩
  · have hvalue := h copiedStarter none (by decide +kernel) (by decide +kernel) (by decide +kernel)
      (by decide +kernel) _ _ _ _ session_copiedStarter rfl rfl rfl rfl
    revert hvalue
    decide +kernel
  · have hvalue := h copiedLate none (by decide +kernel) (by decide +kernel) (by decide +kernel)
      (by decide +kernel) _ _ _ _ session_copiedLate rfl rfl rfl rfl
    revert hvalue
    decide +kernel
  · have hvalue := h copiedRounds none (by decide +kernel) (by decide +kernel) (by decide +kernel)
      (by decide +kernel) _ _ _ _ session_copiedRounds rfl rfl rfl rfl
    revert hvalue
    decide +kernel

end Correlation
