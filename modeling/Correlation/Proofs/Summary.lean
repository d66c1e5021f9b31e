import Correlation.Proofs.Events
import Correlation.Proofs.Judgement
import Correlation.Proofs.Traces

/-!
# What a skeleton provides and needs on its own

The variables that a skeleton provides do not depend on what is defined before it, and of its needs
those that are left open do not.  So both are known from the entry that defines nothing: `provided`
and `needed`.  They are told by the parts just below.

* A skeleton provides what one of its parts does (`grants_iff`).  If all parts run the first one
  that provides a variable decides on its freshness (`freshness_all`), and there is a fault exactly
  if two parts provide it (`exists_clash_all`).  If one part runs the alternatives may agree
  (`freshness_one`).
* A sequence needs what a part needs and no part before provides (`mem_needed_sequence`).  All other
  skeletons need what one of their parts does (`mem_needed_iff`).
-/

namespace Correlation

namespace Skeleton

/-! ## What is provided -/

section Provided

variable (ctx : Context) (table : NameTable Typing)

/-- The correlation variables that a skeleton with a starter flag provides. -/
def provided (x : Bool × Skeleton) : ProvidedSet :=
  (typing ctx table x.1 x.2 .empty).providedCorrelation

/-- Whether a skeleton with a starter flag provides a correlation variable. -/
def grants (l : Location) (x : Bool × Skeleton) : Bool := (provided ctx table x).contains l

variable {ctx table}

variable {starter : Bool} {k : Skeleton} {parts : List Skeleton} {entry : Typing} {l : Location}

theorem providedCorrelation_typing (htable : SortedTable table)
    (entry : Typing) :
    (typing ctx table starter k entry).providedCorrelation = provided ctx table (starter, k) :=
  congrArg Prod.fst (steady_typing htable starter k entry .empty)

theorem sequel_eq_gather (htable : SortedTable table) (s : Sequel) :
    ((sequel ctx table starter parts s).result.providedCorrelation,
        (sequel ctx table starter parts s).violations) =
      ((flagged ctx.execution starter parts).map (provided ctx table)).foldl ProvidedSet.gather
        (s.result.providedCorrelation, s.violations) := by
  induction parts generalizing starter s with
  | nil => rfl
  | cons x rest ih =>
    have ht := sorted_typing ctx htable starter x s.running
    obtain ⟨hresult, hviolations⟩ := Sequel.append_steady s ht
    rw [sequel, ih, flagged, List.map_cons, List.foldl_cons, ProvidedSet.gather,
      hviolations, ← providedCorrelation_typing htable s.running]
    exact congrArg (fun s : ProvidedSet => List.foldl _ (s, _) _) (congrArg Prod.fst hresult)

/-- Parts that all run gather their variables. -/
theorem provided_all (htable : SortedTable table) (hk : k.shape = .all) :
    provided ctx table (starter, k) = (((children ctx.execution starter k).map
      (provided ctx table)).foldl ProvidedSet.gather (.empty, [])).1 := by
  cases k with
  | sequence parts =>
    rw [provided, typing]
    exact congrArg Prod.fst (sequel_eq_gather htable (.start .empty))
  | parallel parts =>
    rw [provided, typing, typings_eq_map]
    refine (congrArg Prod.fst (Typing.parallel_eq_gather _)).trans ?_
    rw [List.map_map]
    rfl
  | _ => cases hk

/-- What is wrong with parts that all run comes from gathering their variables. -/
theorem faults_all (htable : SortedTable table) (hk : k.shape = .all)
    (insideInit : Bool) :
    faults ctx table insideInit starter k .empty = (((children ctx.execution starter k).map
      (provided ctx table)).foldl ProvidedSet.gather (.empty, [])).2 := by
  cases k with
  | sequence parts =>
    rw [faults]
    exact congrArg Prod.snd (sequel_eq_gather htable (.start .empty))
  | parallel parts =>
    rw [faults, typings_eq_map]
    refine (congrArg Prod.snd (Typing.parallel_eq_gather _)).trans ?_
    rw [List.map_map]
    rfl
  | _ => cases hk

/-- The first part that provides a variable decides on its freshness, if all parts run. -/
theorem freshness_all (htable : SortedTable table) (hk : k.shape = .all) :
    (provided ctx table (starter, k)).freshness l =
      (children ctx.execution starter k).findSome? fun x => (provided ctx table x).freshness l := by
  rw [provided_all htable hk, ProvidedSet.freshness_gather, List.findSome?_map]
  rfl

/-- A variable gets a value twice exactly if two parts that both run provide it. -/
theorem exists_clash_all (htable : SortedTable table) (hk : k.shape = .all)
    (insideInit : Bool) :
    (∃ v ∈ faults ctx table insideInit starter k .empty, v.ClashesAt l) ↔
      2 ≤ (children ctx.execution starter k).countP (grants ctx table l) := by
  rw [faults_all htable hk, ProvidedSet.exists_clash_gather, List.countP_map]
  refine (or_iff_right ?_).trans (Iff.of_eq (congrArg (2 ≤ ·) (Nat.zero_add _)))
  rintro ⟨v, hv, _⟩
  cases hv

variable (ctx table) in
/-- The typing of a skeleton one of whose parts runs. -/
theorem exists_alternatives (starter : Bool) (hk : k.shape = .one) (entry : Typing) :
    ∃ sessionStart, typing ctx table starter k entry =
      Typing.alternatives ((children ctx.execution starter k).map fun x =>
        typing ctx table x.1 x.2 entry) sessionStart := by
  cases k with
  | choice span branches =>
    refine ⟨starter, ?_⟩
    rw [typing, branchTypings_eq_map, children, List.map_map]
    rfl
  | conditional span branches =>
    refine ⟨false, ?_⟩
    rw [typing, typings_eq_map]
    rfl
  | _ => cases hk

/-- A skeleton keeps a freshness on which its alternatives agree. -/
theorem freshness_one (hk : k.shape = .one) (hne : children ctx.execution starter k ≠ [])
    {fresh : Option Bool} (h : ∀ c ∈ children ctx.execution starter k,
      (provided ctx table c).freshness l = fresh) :
    (provided ctx table (starter, k)).freshness l = fresh := by
  obtain ⟨sessionStart, htyping⟩ := exists_alternatives ctx table starter hk Typing.empty
  rw [provided, htyping]
  refine Typing.freshness_joinedProvisions ?_ (List.forall_mem_map.mpr h)
  exact fun hnil => hne (List.map_eq_nil_iff.mp hnil)

/-- A skeleton that repeats its part provides what the part does. -/
theorem provided_loop {c : Bool × Skeleton} (hk : k.shape = .loop)
    (hc : c ∈ children ctx.execution starter k) :
    provided ctx table (starter, k) = provided ctx table c := by
  cases k with
  | repeated span body =>
    obtain rfl := List.mem_singleton.mp hc
    rw [provided, typing]
    rfl
  | _ => cases hk

theorem grants_eq_isSome (l : Location) (x : Bool × Skeleton) :
    grants ctx table l x = ((provided ctx table x).freshness l).isSome :=
  (ProvidedSet.isSome_freshness _ l).symm

/-- A skeleton with parts provides what one of them does. -/
theorem grants_iff (htable : SortedTable table) (hk : k.shape ≠ .leaf) :
    grants ctx table l (starter, k) = true ↔
      ∃ c ∈ children ctx.execution starter k, grants ctx table l c = true := by
  cases hshape : k.shape with
  | leaf => exact absurd hshape hk
  | all =>
    rw [grants_eq_isSome, freshness_all htable hshape, List.findSome?_isSome_iff]
    simp only [grants_eq_isSome]
  | one =>
    obtain ⟨sessionStart, htyping⟩ := exists_alternatives ctx table starter hshape Typing.empty
    rw [grants, OrderedSet.contains_iff_mem_keys, provided, htyping]
    refine Typing.mem_keys_joinedProvisions.trans ?_
    simp only [List.mem_map, exists_exists_and_eq_and, grants, OrderedSet.contains_iff_mem_keys,
      provided]
  | loop =>
    cases k with
    | repeated span body =>
      rw [grants, provided, typing, children]
      simp only [List.mem_singleton, exists_eq_left]
      rfl
    | _ => cases hshape

end Provided

/-! ## What is needed -/

section Needed

variable (ctx : Context) (table : NameTable Typing)

/-- The correlation variables that a skeleton with a starter flag needs on its own. -/
def needed (x : Bool × Skeleton) : List Location :=
  (typing ctx table x.1 x.2 .empty).neededKeys

variable {ctx table}

variable {starter : Bool} {k : Skeleton} {parts : List Skeleton} {entry : Typing} {l : Location}

/-- A key that is provided is one of the correlation variables that are. -/
theorem provides_iff_of_isCorrelation (hentry : entry.Sorted) (hl : l.isCorrelation = true) :
    entry.provides l = true ↔ l ∈ entry.providedCorrelation.keys := by
  rw [Typing.provides, Bool.or_eq_true, OrderedSet.contains_iff_mem_keys,
    OrderedSet.contains_iff_mem_keys]
  refine or_iff_right fun hdata => ?_
  exact Bool.false_ne_true ((hentry.providedData _ hdata).symm.trans hl)

/-- Only an assignment to a key needs a key, the one that it copies, unless that is provided. -/
theorem mem_neededKeys_initialTyping {span : Span} {target : Path} {value : Initializer}
    (hentry : entry.Sorted) :
    l ∈ (Check.initialTyping span target value entry).1.neededKeys ↔
      target.isCorrelation = true ∧ value.copies l = true ∧ l.isCorrelation = true ∧
        l ∉ entry.providedCorrelation.keys := by
  have hempty := Typing.not_mem_neededKeys_empty l
  unfold Check.initialTyping
  cases value with
  | copy source =>
    have hcopies : (Initializer.copy source).copies l = true ↔
        source.isStatic = true ∧ source.location = l := by
      rw [Initializer.copies, Bool.and_eq_true, decide_eq_true_eq]
    rw [hcopies]
    by_cases hsource : source.isStatic = true
    · simp only [hsource, if_true, true_and]
      by_cases hprovides : entry.provides source.location = true
      · rw [if_pos hprovides, Typing.neededKeys_provide]
        refine iff_of_false hempty ?_
        rintro ⟨_, rfl, hl, hopen⟩
        exact hopen ((provides_iff_of_isCorrelation hentry hl).mp hprovides)
      · rw [if_neg hprovides]
        by_cases htarget : target.isCorrelation = true
        · rw [if_pos htarget, Typing.neededKeys_provide, Typing.mem_neededKeys_need]
          constructor
          · rintro (h | ⟨rfl, hl⟩)
            · cases h
            · exact ⟨htarget, rfl, hl, mt (provides_iff_of_isCorrelation hentry hl).mpr hprovides⟩
          · rintro ⟨_, rfl, hl, _⟩
            exact Or.inr ⟨rfl, hl⟩
        · rw [if_neg htarget]
          exact iff_of_false hempty fun h => absurd h.1 htarget
    · simp only [hsource]
      exact iff_of_false hempty fun h => absurd h.2.1.1 Bool.false_ne_true
  | constant | fresh =>
    rw [Typing.neededKeys_provide]
    exact iff_of_false hempty fun h => absurd h.2.1 Bool.false_ne_true
  | update path =>
    dsimp only
    split
    · exact iff_of_false hempty fun h => absurd h.2.1 Bool.false_ne_true
    · rw [Typing.neededKeys_provide]
      exact iff_of_false hempty fun h => absurd h.2.1 Bool.false_ne_true
  | other => exact iff_of_false hempty fun h => absurd h.2.1 Bool.false_ne_true

/-- A sequence needs what a part needs, unless a part before provides it. -/
theorem mem_neededKeys_sequel (htable : SortedTable table)
    (h : ∀ x ∈ flagged ctx.execution starter parts, ∀ entry : Typing, entry.Sorted →
      l ∉ entry.providedCorrelation.keys →
        (l ∈ (typing ctx table x.1 x.2 entry).neededKeys ↔ l ∈ needed ctx table x))
    {s : Sequel} (hs : s.running.Sorted)
    (hrunning : l ∈ s.running.providedCorrelation.keys ↔ l ∈ s.result.providedCorrelation.keys) :
    l ∈ (sequel ctx table starter parts s).result.neededKeys ↔
      l ∈ s.result.neededKeys ∨ l ∉ s.running.providedCorrelation.keys ∧
        MeetsBefore (fun x => l ∈ needed ctx table x) (fun x => grants ctx table l x = true)
          (flagged ctx.execution starter parts) := by
  induction parts generalizing starter s with
  | nil => exact ⟨Or.inl, fun h => h.elim id fun h => h.2.elim⟩
  | cons x rest ih =>
    have ht := sorted_typing ctx htable starter x s.running
    have hprovided : (typing ctx table starter x s.running).providedCorrelation =
        provided ctx table (starter, x) := providedCorrelation_typing htable s.running
    have hgrants : grants ctx table l (starter, x) = true ↔
        l ∈ (provided ctx table (starter, x)).keys := OrderedSet.contains_iff_mem_keys
    have hopen := Sequel.mem_running_append (s := s) (l := l) ht
    rw [hprovided, ← hgrants, ← hrunning] at hopen
    have hx := h (starter, x) List.mem_cons_self s.running hs
    rw [sequel, ih (fun y hy => h y (List.mem_cons_of_mem _ hy))
      (Sequel.sorted_running_append hs ht) (Sequel.running_iff_result_append ht hrunning),
      Sequel.mem_needed_append ht, flagged, MeetsBefore, hopen]
    by_cases hl : l ∈ s.running.providedCorrelation.keys
    · simp only [hl, not_true_eq_false, and_false, or_false, false_and]
    · simp only [hl, hx hl, not_false_eq_true, and_true, false_or, true_and, or_assoc]

/-- Other skeletons with parts need what one of them needs. -/
theorem mem_neededKeys_children (htable : SortedTable table) (hk : k.shape ≠ .leaf)
    (hsequence : ∀ parts, k ≠ .sequence parts) (entry : Typing) :
    l ∈ (typing ctx table starter k entry).neededKeys ↔
      ∃ c ∈ children ctx.execution starter k,
        l ∈ (typing ctx table c.1 c.2 entry).neededKeys := by
  have hsorted : ∀ t ∈ (children ctx.execution starter k).map fun x =>
      typing ctx table x.1 x.2 entry, t.Sorted :=
    List.forall_mem_map.mpr fun x _ => sorted_typing ctx htable x.1 x.2 entry
  have hmap : (∃ t ∈ (children ctx.execution starter k).map fun x =>
      typing ctx table x.1 x.2 entry, l ∈ t.neededKeys) ↔
        ∃ c ∈ children ctx.execution starter k,
          l ∈ (typing ctx table c.1 c.2 entry).neededKeys := by
    simp only [List.mem_map, exists_exists_and_eq_and]
  cases hshape : k.shape with
  | leaf => exact absurd hshape hk
  | all =>
    cases k with
    | sequence parts => exact absurd rfl (hsequence parts)
    | parallel parts =>
      rw [typing, typings_eq_map]
      exact (Typing.mem_neededKeys_parallel hsorted).trans hmap
    | _ => cases hshape
  | one =>
    obtain ⟨sessionStart, htyping⟩ := exists_alternatives ctx table starter hshape entry
    rw [htyping]
    exact (Typing.mem_neededKeys_alternatives hsorted).trans hmap
  | loop =>
    cases k with
    | repeated span body =>
      rw [typing, children]
      simp only [List.mem_singleton, exists_eq_left]
      rfl
    | _ => cases hshape

/-- Whatever is defined before, the needs that it leaves open are the same. -/
theorem mem_neededKeys_typing (htable : SortedTable table) (starter : Bool)
    (k : Skeleton) (hentry : entry.Sorted) (hl : l ∉ entry.providedCorrelation.keys) :
    l ∈ (typing ctx table starter k entry).neededKeys ↔ l ∈ needed ctx table (starter, k) := by
  induction starter, k using induction_children ctx.execution generalizing entry with
  | step starter k ih =>
    rw [needed]
    cases k with
    | idle | request | input | invalidate | call => rw [typing, typing]
    | assign span target value =>
      rw [typing, typing]
      split
      · rw [mem_neededKeys_initialTyping hentry, mem_neededKeys_initialTyping Typing.sorted_empty]
        simp only [hl, not_false_eq_true, Typing.empty, OrderedSet.keys_empty, List.not_mem_nil]
      · rfl
    | sequence parts =>
      have hempty : l ∉ Typing.empty.providedCorrelation.keys := List.not_mem_nil
      rw [typing, typing,
        mem_neededKeys_sequel htable (fun x hx _ => ih x hx) hentry.provisions
          (iff_of_false hl hempty),
        mem_neededKeys_sequel htable (fun x hx _ => ih x hx) Typing.sorted_empty.provisions
          Iff.rfl]
      exact or_congr_right (and_congr_left fun _ => iff_of_true hl hempty)
    | parallel | choice | conditional | repeated =>
      rw [mem_neededKeys_children htable (by intro h; cases h) (by intro _ h; cases h) entry,
        mem_neededKeys_children htable (by intro h; cases h) (by intro _ h; cases h) .empty]
      exact exists_congr fun c => and_congr_right fun hc => ih c hc hentry hl

/-- A sequence needs what a part needs, unless a part before provides it. -/
theorem mem_needed_sequence (htable : SortedTable table) :
    l ∈ needed ctx table (starter, .sequence parts) ↔
      MeetsBefore (fun x => l ∈ needed ctx table x) (fun x => grants ctx table l x = true)
        (flagged ctx.execution starter parts) := by
  rw [needed, typing, mem_neededKeys_sequel htable
    (fun x _ _ he hl => mem_neededKeys_typing htable x.1 x.2 he hl)
    Typing.sorted_empty.provisions Iff.rfl]
  exact (or_iff_right (Typing.not_mem_neededKeys_empty l)).trans
    (and_iff_right List.not_mem_nil)

/-- Other skeletons with parts need what one of them needs. -/
theorem mem_needed_iff (htable : SortedTable table) (hk : k.shape ≠ .leaf)
    (hsequence : ∀ parts, k ≠ .sequence parts) :
    l ∈ needed ctx table (starter, k) ↔
      ∃ c ∈ children ctx.execution starter k, l ∈ needed ctx table c :=
  mem_neededKeys_children htable hk hsequence .empty

end Needed

end Skeleton

end Correlation
