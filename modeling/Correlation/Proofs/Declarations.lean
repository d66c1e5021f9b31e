import Correlation.Proofs.Routes
import Mathlib.Data.List.Induction
import Mathlib.Data.List.Pairwise
import Mathlib.Data.List.Perm.Basic

/-!
# What correlation sets declare

The index of the correlation sets is built set by set and alias by alias, in two tables.  Here is
what it comes to, said of the whole list of sets.

* The index keeps the first set of every name (`firstDeclared`).
* An operation is routed by the first of these that has an alias for it (`ownerOf`).
* A set whose name is declared before is a violation, and its aliases are passed over.  Any other
  set has a violation for each alias whose operation is routed by another set (`violationsOf`).

`Declares` says so of the tables on the way.  Each further set keeps it (`Declares.addSet`), since
each further alias does what it should (`Claims.addAlias`).  The two tables fit together: the owner
of an operation is a set that is kept, and no later set of the list changes it (`ownerOf_concat`).

If nothing is wrong, no two sets have a name or an operation in common (`violationsOf_eq_nil_iff`).
Then the order of the sets makes no difference (`ofSets_first_declared`).
-/

namespace Correlation

namespace CorrelationSet

/-- The aliases of a set, in the order of its variables. -/
def aliases (set : CorrelationSet) : List CorrelationAlias :=
  set.members.flatMap CorrelationVariable.aliases

/-- Whether one of the aliases is for an operation. -/
def mentions (as : List CorrelationAlias) (operation : String) : Bool :=
  as.any fun a => decide (a.operation = operation)

theorem mentions_concat (as : List CorrelationAlias) (a : CorrelationAlias) (operation : String) :
    mentions (as ++ [a]) operation =
      (mentions as operation || decide (a.operation = operation)) := by
  simp only [mentions, List.any_append, List.any_cons, List.any_nil, Bool.or_false]

/-- Whether a variable of the set has an alias for an operation. -/
def hasAlias (set : CorrelationSet) (operation : String) : Bool :=
  mentions set.aliases operation

/-- A set has an alias for an operation if one of its variables does. -/
theorem hasAlias_iff {set : CorrelationSet} {operation : String} :
    set.hasAlias operation = true ↔ ∃ a ∈ set.aliases, a.operation = operation := by
  simp only [hasAlias, mentions, List.any_eq_true, decide_eq_true_eq]

theorem hasAlias_of_find? {sets : List CorrelationSet} {set : CorrelationSet} {operation : String}
    (h : sets.find? (·.hasAlias operation) = some set) : set.hasAlias operation = true :=
  List.find?_some (p := fun s : CorrelationSet => s.hasAlias operation) h

/-- The first of the sets with a name. -/
def named? (sets : List CorrelationSet) (name : String) : Option CorrelationSet :=
  sets.find? fun s => decide (s.name = name)

theorem named?_eq_none_iff {sets : List CorrelationSet} {name : String} :
    named? sets name = none ↔ ∀ s ∈ sets, s.name ≠ name := by
  simp only [named?, List.find?_eq_none, decide_eq_true_eq, ne_eq]

theorem name_of_named? {sets : List CorrelationSet} {set : CorrelationSet} {name : String}
    (h : named? sets name = some set) : set.name = name :=
  of_decide_eq_true (List.find?_some (p := fun s : CorrelationSet => decide (s.name = name)) h)

theorem named?_append (sets others : List CorrelationSet) (name : String) :
    named? (sets ++ others) name = (named? sets name).or (named? others name) :=
  List.find?_append

/-- Two sets with different names and different operations. -/
def Apart (s t : CorrelationSet) : Prop :=
  s.name ≠ t.name ∧ ∀ operation, ¬ (s.hasAlias operation = true ∧ t.hasAlias operation = true)

theorem Apart.symm {s t : CorrelationSet} (h : s.Apart t) : t.Apart s :=
  ⟨h.1.symm, fun operation hboth => h.2 operation hboth.symm⟩

instance : Std.Symm Apart := ⟨fun _ _ => Apart.symm⟩

end CorrelationSet

namespace Routing

open CorrelationSet (named? named?_eq_none_iff name_of_named? mentions mentions_concat hasAlias_iff
  hasAlias_of_find? Apart)

/-! ## Sets and those before them -/

/-- Every set, with those that are declared before it. -/
def withEarlier (sets : List CorrelationSet) : List (List CorrelationSet × CorrelationSet) :=
  sets.zipIdx.map fun (set, i) => (sets.take i, set)

/-- The sets with names that are not declared before. -/
def firstDeclared (sets : List CorrelationSet) : List CorrelationSet :=
  (withEarlier sets).filterMap fun (earlier, set) =>
    if (named? earlier set.name).isSome then none else some set

/-- The set that routes an operation: the first one that has an alias for it. -/
def ownerOf (sets : List CorrelationSet) (operation : String) : Option CorrelationSet :=
  (firstDeclared sets).find? (·.hasAlias operation)

/-- The violation of an alias whose operation has an owner. -/
def clash? (owner? : String → Option CorrelationSet) (set : CorrelationSet)
    (a : CorrelationAlias) : Option Violation :=
  (owner? a.operation).map fun owner =>
    ⟨a.path.span.or set.span, .operationInManySets a.operation owner.name set.name⟩

/-- The violations of the aliases of a set whose operations are routed by other sets. -/
def conflicts (owner? : String → Option CorrelationSet) (set : CorrelationSet) : List Violation :=
  let other? operation := (owner? operation).filter fun owner => !decide (owner.name = set.name)
  set.aliases.filterMap (clash? other? set)

/-- The violations of a set, given the sets before it and the owners of operations. -/
def violationsAfter (owner? : String → Option CorrelationSet) (earlier : List CorrelationSet)
    (set : CorrelationSet) : List Violation :=
  match named? earlier set.name with
  | some previous => [⟨set.span, .setAlreadyDeclared previous.span set.name⟩]
  | none => conflicts owner? set

/-- What is wrong with correlation sets, in the order in which they are declared. -/
def violationsOf (sets : List CorrelationSet) : List Violation :=
  (withEarlier sets).flatMap fun (earlier, set) => violationsAfter (ownerOf sets) earlier set

variable {sets others : List CorrelationSet} {set : CorrelationSet} {operation : String}

/-- The last set comes with all the others before it. -/
theorem withEarlier_concat (sets : List CorrelationSet) (set : CorrelationSet) :
    withEarlier (sets ++ [set]) = withEarlier sets ++ [(sets, set)] := by
  have hbefore : sets.zipIdx.map (fun x => ((sets ++ [set]).take x.2, x.1)) =
      sets.zipIdx.map fun x => (sets.take x.2, x.1) := by
    refine List.map_congr_left fun x hx => ?_
    have hlt : x.2 < sets.length + 0 := List.snd_lt_of_mem_zipIdx hx
    rw [List.take_append_of_le_length (Nat.le_of_lt hlt)]
  rw [withEarlier, withEarlier, List.zipIdx_append, List.map_append, hbefore, Nat.zero_add]
  simp only [List.zipIdx_singleton, List.map_cons, List.map_nil, List.take_left']

/-- One more set is declared for the first time if its name is new. -/
theorem firstDeclared_concat (sets : List CorrelationSet) (set : CorrelationSet) :
    firstDeclared (sets ++ [set]) =
      firstDeclared sets ++ if (named? sets set.name).isSome then [] else [set] := by
  rw [firstDeclared, withEarlier_concat, List.filterMap_append]
  refine congrArg (firstDeclared sets ++ ·) ?_
  rw [List.filterMap_cons, List.filterMap_nil]
  dsimp only
  cases named? sets set.name <;> rfl

/-- The sets that are left out have the names of sets that are kept. -/
theorem named?_firstDeclared (sets : List CorrelationSet) (name : String) :
    named? (firstDeclared sets) name = named? sets name := by
  induction sets using List.reverseRecOn with
  | nil => rfl
  | append_singleton sets set ih =>
    rw [firstDeclared_concat, CorrelationSet.named?_append, CorrelationSet.named?_append, ih]
    by_cases hset : set.name = name
    · subst hset
      cases named? sets set.name <;> rfl
    · have hother : named? [set] name = none := named?_eq_none_iff.mpr (by simpa using hset)
      split
      · rw [hother]
        rfl
      · rfl

/-- Sets with different names are all declared for the first time. -/
theorem firstDeclared_eq_self (h : sets.Pairwise fun s t => s.name ≠ t.name) :
    firstDeclared sets = sets := by
  induction sets using List.reverseRecOn with
  | nil => rfl
  | append_singleton sets set ih =>
    obtain ⟨hsets, _, hset⟩ := List.pairwise_append.mp h
    have hnew : named? sets set.name = none :=
      named?_eq_none_iff.mpr fun s hs => hset s hs set (List.mem_singleton_self _)
    rw [firstDeclared_concat, ih hsets, hnew]
    rfl

/-- A set that is kept and has an alias decides on the owner, whatever sets come after it. -/
theorem ownerOf_concat (hset : set ∈ firstDeclared sets) (halias : set.hasAlias operation = true)
    (next : CorrelationSet) : ownerOf (sets ++ [next]) operation = ownerOf sets operation := by
  have hfound : (ownerOf sets operation).isSome = true :=
    List.find?_isSome.mpr ⟨set, hset, halias⟩
  rw [ownerOf, firstDeclared_concat, List.find?_append]
  exact Option.or_of_isSome hfound

/-- A set with a new name is the owner of the operations that have none before. -/
theorem ownerOf_concat_of_new (hname : named? sets set.name = none) (operation : String) :
    ownerOf (sets ++ [set]) operation =
      (ownerOf sets operation).or (if set.hasAlias operation then some set else none) := by
  rw [ownerOf, firstDeclared_concat, hname, List.find?_append]
  exact congrArg (Option.or _) List.find?_singleton

/-- The owner of an operation has another name than a set that is declared for the first time. -/
theorem name_ne_of_ownerOf (hname : named? sets set.name = none) {owner : CorrelationSet}
    (h : ownerOf sets operation = some owner) : owner.name ≠ set.name := by
  rw [← named?_firstDeclared] at hname
  exact named?_eq_none_iff.mp hname owner (List.mem_of_find?_eq_some h)

/-- The violations of the aliases of a set with a new name are those whose operations have an owner
before. -/
theorem conflicts_of_new (hname : named? sets set.name = none) :
    conflicts (ownerOf (sets ++ [set])) set =
      set.aliases.filterMap (clash? (ownerOf sets) set) := by
  refine List.filterMap_congr fun a ha => ?_
  rw [clash?, clash?, ownerOf_concat_of_new hname, if_pos (hasAlias_iff.mpr ⟨a, ha, rfl⟩)]
  cases hbefore : ownerOf sets a.operation with
  | some owner =>
    rw [Option.some_or, Option.filter_some_pos (by simpa using name_ne_of_ownerOf hname hbefore)]
  | none => rw [Option.none_or, Option.filter_some_neg (by simp)]

/-- What is wrong with the sets before stays as it is. -/
theorem violationsOf_concat (sets : List CorrelationSet) (set : CorrelationSet) :
    violationsOf (sets ++ [set]) =
      violationsOf sets ++ violationsAfter (ownerOf (sets ++ [set])) sets set := by
  rw [violationsOf, withEarlier_concat, List.flatMap_append, List.flatMap_singleton]
  refine congrArg (· ++ violationsAfter (ownerOf (sets ++ [set])) sets set) ?_
  refine List.flatMap_congr fun ⟨earlier, s⟩ hs => ?_
  cases hname : named? earlier s.name with
  | some previous => simp only [violationsAfter, hname]
  | none =>
    have hkept : s ∈ firstDeclared sets := by
      refine List.mem_filterMap.mpr ⟨(earlier, s), hs, ?_⟩
      simp only [hname, Option.isSome_none]
      rfl
    simp only [violationsAfter, hname]
    refine List.filterMap_congr fun a ha => ?_
    rw [clash?, clash?, ownerOf_concat hkept (hasAlias_iff.mpr ⟨a, ha, rfl⟩) set]

/-! ## The tables on the way -/

/-- What the index has come to after some sets. -/
structure Declares (sets : List CorrelationSet) (acc : Routing × List Violation) : Prop where
  /-- The first set of every name is kept. -/
  kept : acc.1.sets.toList = firstDeclared sets
  /-- An operation has the name of its owner. -/
  owners : ∀ operation, acc.1.owners.get? operation =
    (ownerOf sets operation).map CorrelationSet.name
  violations : acc.2 = violationsOf sets

section OneSet

variable {acc : Routing × List Violation} {a : CorrelationAlias}

/-- An alias for an operation that nothing owns makes its set the owner. -/
theorem addAlias_of_none (h : acc.1.owners.get? a.operation = none) :
    addAlias set acc a =
      ({ acc.1 with owners := acc.1.owners.insert (a.operation, set.name) }, acc.2) := by
  rw [addAlias, claim, h]

theorem addAlias_of_same (h : acc.1.owners.get? a.operation = some set.name) :
    addAlias set acc a = acc := by
  rw [addAlias, claim, h]
  simp only [if_true]

/-- An alias for an operation of another set is reported. -/
theorem addAlias_of_other {owner : String} (h : acc.1.owners.get? a.operation = some owner)
    (howner : owner ≠ set.name) : addAlias set acc a =
      (acc.1, acc.2 ++ [⟨a.path.span.or set.span,
        .operationInManySets a.operation owner set.name⟩]) := by
  rw [addAlias, claim, h]
  simp only [if_neg howner]

variable {owner? : String → Option CorrelationSet} {vs : List Violation}
  {as : List CorrelationAlias}

/-- What the index has come to after some aliases of a set, given the owners and the violations
before.  The aliases go to the set as far as their operations have no owner. -/
structure Claims (owner? : String → Option CorrelationSet) (vs : List Violation)
    (set : CorrelationSet) (as : List CorrelationAlias) (acc : Routing × List Violation) :
    Prop where
  owners : ∀ operation, acc.1.owners.get? operation =
    ((owner? operation).or (if mentions as operation then some set else none)).map
      CorrelationSet.name
  violations : acc.2 = vs ++ as.filterMap (clash? owner? set)

/-- One more alias.  Its operation is owned by the set, unless it was owned before, and all other
operations are looked up as before. -/
theorem Claims.addAlias (h : Claims owner? vs set as acc)
    (hnames : ∀ operation owner, owner? operation = some owner → owner.name ≠ set.name)
    (a : CorrelationAlias) : Claims owner? vs set (as ++ [a]) (Routing.addAlias set acc a) := by
  have hbefore := h.owners a.operation
  have howners : ∀ r : Routing,
      (∀ operation, a.operation ≠ operation →
        r.owners.get? operation = acc.1.owners.get? operation) →
      r.owners.get? a.operation = ((owner? a.operation).or (some set)).map CorrelationSet.name →
      ∀ operation, r.owners.get? operation =
        ((owner? operation).or (if mentions (as ++ [a]) operation then some set else none)).map
          CorrelationSet.name := by
    intro r hothers hself operation
    rw [mentions_concat]
    by_cases hop : a.operation = operation
    · rw [← hop, decide_eq_true rfl, Bool.or_true]
      exact hself
    · rw [hothers operation hop, decide_eq_false hop, Bool.or_false]
      exact h.owners operation
  have hviolations : (as ++ [a]).filterMap (clash? owner? set) =
      as.filterMap (clash? owner? set) ++ (clash? owner? set a).toList := by
    rw [List.filterMap_append, List.filterMap_cons]
    cases clash? owner? set a <;> rfl
  cases howner : owner? a.operation with
  | some owner =>
    rw [howner] at hbefore
    rw [addAlias_of_other hbefore (hnames _ _ howner)]
    refine ⟨howners _ (fun _ _ => rfl) (by rw [howner]; exact hbefore), ?_⟩
    rw [h.violations, hviolations, clash?, howner, List.append_assoc]
    rfl
  | none =>
    have hclash : vs ++ (as ++ [a]).filterMap (clash? owner? set) = acc.2 := by
      rw [h.violations, hviolations, clash?, howner]
      exact congrArg (vs ++ ·) (List.append_nil _)
    rw [howner] at hbefore
    by_cases hmentions : mentions as a.operation = true
    · rw [if_pos hmentions] at hbefore
      rw [addAlias_of_same hbefore]
      exact ⟨howners _ (fun _ _ => rfl) (by rw [howner]; exact hbefore), hclash.symm⟩
    · rw [if_neg hmentions] at hbefore
      rw [addAlias_of_none hbefore]
      refine ⟨howners _ (fun operation hop => ?_) ?_, hclash.symm⟩
      · rw [NameTable.get?_insert, if_neg hop]
      · rw [NameTable.get?_insert, if_pos rfl, howner]
        rfl

/-- All aliases of a set. -/
theorem claims_foldl (set : CorrelationSet) (as : List CorrelationAlias)
    (acc : Routing × List Violation)
    (howners : ∀ operation, acc.1.owners.get? operation =
      (owner? operation).map CorrelationSet.name)
    (hnames : ∀ operation owner, owner? operation = some owner → owner.name ≠ set.name) :
    Claims owner? acc.2 set as (as.foldl (addAlias set) acc) := by
  induction as using List.reverseRecOn with
  | nil =>
    refine ⟨fun operation => (howners operation).trans ?_, (List.append_nil _).symm⟩
    exact congrArg (Option.map CorrelationSet.name) Option.or_none.symm
  | append_singleton as a ih =>
    rw [List.foldl_append]
    exact ih.addAlias hnames a

end OneSet

/-- One more set. -/
theorem Declares.addSet {acc : Routing × List Violation} (h : Declares sets acc)
    (set : CorrelationSet) : Declares (sets ++ [set]) (Routing.addSet acc set) := by
  have hfind : acc.1.sets.find? set.name = named? sets set.name := by
    rw [OrderedSet.find?, h.kept]
    exact named?_firstDeclared sets set.name
  cases hname : named? sets set.name with
  | some previous =>
    have hkept : firstDeclared (sets ++ [set]) = firstDeclared sets := by
      rw [firstDeclared_concat, hname]
      exact List.append_nil _
    rw [addSet_of_some (hfind.trans hname)]
    refine ⟨h.kept.trans hkept.symm, fun operation => ?_, ?_⟩
    · rw [ownerOf, hkept]
      exact h.owners operation
    · rw [violationsOf_concat, violationsAfter, hname, h.violations]
  | none =>
    have hkept : firstDeclared (sets ++ [set]) = firstDeclared sets ++ [set] := by
      rw [firstDeclared_concat, hname]
      rfl
    obtain ⟨howners, hviolations⟩ := claims_foldl set set.aliases
      ({ acc.1 with sets := acc.1.sets.insert set }, acc.2) h.owners
      fun operation owner => name_ne_of_ownerOf hname
    rw [addSet_of_none (hfind.trans hname)]
    refine ⟨?_, fun operation => ?_, ?_⟩
    · rw [hkept, ← h.kept, ← OrderedSet.toList_insert
        (OrderedSet.find?_eq_none_iff.mp (hfind.trans hname))]
      exact foldl_induction (P := fun acc' : Routing × List Violation =>
        acc'.1.sets.toList = (acc.1.sets.insert set).toList) rfl fun acc' entry _ h' =>
          (congrArg OrderedSet.toList sets_addAlias).trans h'
    · rw [ownerOf_concat_of_new hname]
      exact howners operation
    · rw [violationsOf_concat, violationsAfter, hname, ← h.violations]
      exact hviolations.trans (congrArg (acc.2 ++ ·) (conflicts_of_new hname).symm)

/-- Routing is made of the sets as declared. -/
theorem declares_ofSets (sets : List CorrelationSet) : Declares sets (ofSets sets) := by
  rw [ofSets]
  induction sets using List.reverseRecOn with
  | nil => exact ⟨rfl, fun _ => rfl, rfl⟩
  | append_singleton sets set ih =>
    rw [List.foldl_append]
    exact ih.addSet set

/-- The set that routes an operation is its owner. -/
theorem setFor_ofSets (sets : List CorrelationSet) (operation : String) :
    (ofSets sets).1.setFor operation = ownerOf sets operation := by
  have h := declares_ofSets sets
  rw [setFor, h.owners]
  cases howner : ownerOf sets operation with
  | none => rfl
  | some owner =>
    refine OrderedSet.find?_eq_some_iff.mpr ⟨?_, rfl⟩
    rw [h.kept]
    exact List.mem_of_find?_eq_some howner

/-! ## Sets with which nothing is wrong -/

/-- Nothing is wrong with sets if no two of them have a name or an operation in common. -/
theorem violationsOf_eq_nil_iff (sets : List CorrelationSet) :
    violationsOf sets = [] ↔ sets.Pairwise Apart := by
  induction sets using List.reverseRecOn with
  | nil => exact iff_of_true rfl .nil
  | append_singleton sets set ih =>
    rw [violationsOf_concat, List.append_eq_nil_iff, ih, List.pairwise_append]
    refine and_congr_right fun hsets => ?_
    have hkept : firstDeclared sets = sets := firstDeclared_eq_self (hsets.imp And.left)
    simp only [List.pairwise_singleton, true_and, List.mem_singleton, forall_eq]
    rw [violationsAfter]
    cases hname : named? sets set.name with
    | some previous =>
      refine iff_of_false (List.cons_ne_nil _ _) fun h => ?_
      exact (h previous (List.mem_of_find?_eq_some hname)).1 (name_of_named? hname)
    | none =>
      have hclash : ∀ a, clash? (ownerOf sets) set a = none ↔
          ∀ s ∈ sets, ¬ s.hasAlias a.operation = true := by
        intro a
        rw [clash?, Option.map_eq_none_iff, ownerOf, hkept, List.find?_eq_none]
      simp only [conflicts_of_new hname, List.filterMap_eq_nil_iff, hclash]
      constructor
      · intro h s hs
        refine ⟨named?_eq_none_iff.mp hname s hs, fun operation hboth => ?_⟩
        obtain ⟨a, ha, rfl⟩ := hasAlias_iff.mp hboth.2
        exact h a ha s hs hboth.1
      · intro h a ha s hs halias
        exact (h s hs).2 a.operation ⟨halias, hasAlias_iff.mpr ⟨a, ha, rfl⟩⟩

/-- Of sets that are apart at most one has an alias for an operation.  It is found in any order. -/
theorem find?_hasAlias_of_perm (h : sets.Pairwise Apart) (hperm : sets.Perm others)
    (operation : String) :
    others.find? (·.hasAlias operation) = sets.find? (·.hasAlias operation) := by
  cases hfound : sets.find? (·.hasAlias operation) with
  | none =>
    rw [List.find?_eq_none] at hfound ⊢
    exact fun s hs => hfound s (hperm.mem_iff.mpr hs)
  | some s =>
    have hs := List.mem_of_find?_eq_some hfound
    have halias := hasAlias_of_find? hfound
    obtain ⟨t, ht⟩ := Option.isSome_iff_exists.mp
      (List.find?_isSome (p := (·.hasAlias operation)).mpr ⟨s, hperm.mem_iff.mp hs, halias⟩)
    have hmem := hperm.mem_iff.mpr (List.mem_of_find?_eq_some ht)
    rw [ht]
    by_contra hne
    have hapart := h.forall hmem hs fun heq => hne (congrArg some heq)
    exact hapart.2 operation ⟨hasAlias_of_find? ht, halias⟩

/-- The index keeps the first set of every name, and an operation is routed by the first of these
that has an alias for it.  Every set whose name is declared before is a violation, and in the other
sets every alias whose operation is routed by another set.  If nothing is wrong, the sets may be
declared in any order. -/
theorem ofSets_first_declared (sets : List CorrelationSet) :
    (ofSets sets).1.sets.toList = firstDeclared sets ∧
      (∀ operation, (ofSets sets).1.setFor operation = ownerOf sets operation) ∧
      (ofSets sets).2 = violationsOf sets ∧
      ∀ others, sets.Perm others → (ofSets sets).2 = [] →
        (ofSets others).2 = [] ∧
          (ofSets others).1.sets.toList.Perm (ofSets sets).1.sets.toList ∧
          ∀ operation, (ofSets others).1.setFor operation = (ofSets sets).1.setFor operation := by
  have h := declares_ofSets sets
  refine ⟨h.kept, setFor_ofSets sets, h.violations, fun others hperm hnil => ?_⟩
  have hsets : sets.Pairwise Apart := (violationsOf_eq_nil_iff sets).mp (h.violations ▸ hnil)
  have hothers : others.Pairwise Apart :=
    (hperm.pairwise_iff Apart.symm).mp hsets
  have hkept : firstDeclared sets = sets := firstDeclared_eq_self (hsets.imp And.left)
  have hkept' : firstDeclared others = others := firstDeclared_eq_self (hothers.imp And.left)
  refine ⟨?_, ?_, fun operation => ?_⟩
  · rw [(declares_ofSets others).violations, violationsOf_eq_nil_iff]
    exact hothers
  · rw [h.kept, (declares_ofSets others).kept, hkept, hkept']
    exact hperm.symm
  · rw [setFor_ofSets, setFor_ofSets, ownerOf, ownerOf, hkept, hkept']
    exact find?_hasAlias_of_perm hsets hperm operation

/-- A correlation set with one variable, which has aliases for some operations. -/
def setOfOperations (name : String) (operations : List String) : CorrelationSet :=
  let sid : Path := ⟨⟨false, [.named "sid"]⟩, .unknown⟩
  ⟨.unknown, name, [⟨sid, operations.map (⟨·, sid⟩)⟩]⟩

/-- Two sets that share nothing, so that they may be swapped.  A second set of one name and sets for
operations that have owners are violations. -/
theorem ofSets_swappedSets :
    let user := setOfOperations "user" ["login", "checkout"]
    let stock := setOfOperations "stock" ["order", "refill", "order"]
    [user, stock].Perm [stock, user] ∧ (ofSets [user, stock]).2 = [] ∧
      (∀ operation,
        (ofSets [stock, user]).1.setFor operation = (ofSets [user, stock]).1.setFor operation) ∧
      ((ofSets [user, stock, setOfOperations "user" ["order"],
        setOfOperations "audit" ["order", "log", "login"],
        setOfOperations "journal" ["log"]]).2.map Violation.cause =
          [.setAlreadyDeclared .unknown "user", .operationInManySets "order" "stock" "audit",
            .operationInManySets "login" "user" "audit",
            .operationInManySets "log" "audit" "journal"]) := by
  intro user stock
  have hswap : [user, stock].Perm [stock, user] := .swap stock user []
  have hnil : (ofSets [user, stock]).2 = [] := by decide +kernel
  obtain ⟨_, _, hroutes⟩ := (ofSets_first_declared [user, stock]).2.2.2 [stock, user] hswap hnil
  exact ⟨hswap, hnil, hroutes, by decide +kernel⟩

end Routing

end Correlation
