import Correlation.OrderedSet
import Mathlib.Data.List.Basic
import Mathlib.Data.List.Induction
import Mathlib.Data.List.Nodup

/-!
# Unions of ordered sets

The members of the sets that the operations give, and the union in full: it lists the left set and
then those elements of the right one whose keys are new (`toList_union`).  So an element is found in
the left set first (`find?_union`).  When elements are collected, a key has the place of its first
element (`keys_ofList`) and is found with its last (`find?_ofList`).
-/

namespace Correlation

namespace OrderedSet

variable {α κ : Type} {key : α → κ}

/-- A change of elements that keeps their keys keeps the keys of the set. -/
theorem keys_modify (s : OrderedSet key) (f : α → α) (h : ∀ a, key (f a) = key a) :
    (s.modify f h).keys = s.keys := by
  rw [keys, keys, modify, List.map_map]
  exact List.map_congr_left fun a _ => h a

variable [DecidableEq κ]

/-! ## Members -/

theorem contains_eq_false_iff {s : OrderedSet key} {k : κ} : s.contains k = false ↔ k ∉ s.keys := by
  rw [← contains_iff_mem_keys, Bool.not_eq_true]

theorem mem_keys_insert {s : OrderedSet key} {a : α} {k : κ} :
    k ∈ (s.insert a).keys ↔ k = key a ∨ k ∈ s.keys := by
  rw [keys_insert]
  split
  · next h =>
    constructor
    · exact Or.inr
    · rintro (rfl | hk)
      · exact h
      · exact hk
  · rw [List.mem_append, List.mem_singleton, or_comm]

theorem mem_of_mem_insert {s : OrderedSet key} {a b : α} (h : b ∈ (s.insert a).toList) :
    b = a ∨ b ∈ s.toList := by
  rw [insert] at h
  split at h
  · obtain ⟨c, hc, rfl⟩ := List.mem_map.mp h
    by_cases hkey : key c = key a
    · rw [if_pos hkey]
      exact Or.inl rfl
    · rw [if_neg hkey]
      exact Or.inr hc
  · exact (List.mem_append.mp h).symm.imp_left List.mem_singleton.mp

theorem mem_keys_insertNew {s : OrderedSet key} {a : α} {k : κ} :
    k ∈ (s.insertNew a).keys ↔ k = key a ∨ k ∈ s.keys := by
  rw [keys_insertNew, ← keys_insert, mem_keys_insert]

theorem mem_keys_erase {s : OrderedSet key} {j k : κ} :
    k ∈ (s.erase j).keys ↔ k ∈ s.keys ∧ k ≠ j := by
  rw [keys_erase, List.mem_filter, Bool.not_eq_true', decide_eq_false_iff_not]

theorem mem_keys_foldl_erase {s : OrderedSet key} {as : List α} {k : κ} :
    k ∈ (as.foldl (fun s a => s.erase (key a)) s).keys ↔ k ∈ s.keys ∧ k ∉ as.map key := by
  induction as generalizing s with
  | nil => simp
  | cons a as ih => rw [List.foldl_cons, ih, mem_keys_erase, List.map_cons, List.mem_cons, not_or,
      and_assoc]

/-- The keys of the first elements are the keys of all elements. -/
theorem mem_keys_firsts {as : List α} {k : κ} :
    k ∈ (firsts as : OrderedSet key).keys ↔ ∃ a ∈ as, key a = k := by
  have hfold : ∀ (as : List α) (s : OrderedSet key),
      k ∈ (as.foldl insertNew s).keys ↔ k ∈ s.keys ∨ ∃ a ∈ as, key a = k := by
    intro as
    induction as with
    | nil => simp
    | cons a as ih =>
      intro s
      rw [List.foldl_cons, ih, mem_keys_insertNew, List.exists_mem_cons_iff, eq_comm,
        or_comm (a := key a = k), or_assoc]
  exact (hfold as empty).trans (or_iff_right List.not_mem_nil)

/-! ## Unions -/

/-- An element that is not there is put at the end, by either kind of insertion. -/
theorem insert_eq_insertNew {s : OrderedSet key} {a : α} (h : s.contains (key a) = false) :
    s.insert a = s.insertNew a := by
  have h' : ¬ s.contains (key a) = true := Bool.not_eq_true _ ▸ h
  rw [insert, insertNew, dif_neg h', dif_neg h']

/-- An element whose key is new is put at the end. -/
theorem toList_insert {s : OrderedSet key} {a : α} (h : key a ∉ s.keys) :
    (s.insert a).toList = s.toList ++ [a] := by
  rw [insert, dif_neg fun hc => h (contains_iff_mem_keys.mp hc)]
  rfl

/-- An element whose key is there takes the place of the one that had it. -/
theorem toList_insert_of_mem {s : OrderedSet key} {a : α} (h : key a ∈ s.keys) :
    (s.insert a).toList = s.toList.map fun b => if key b = key a then a else b := by
  rw [insert, dif_pos (contains_iff_mem_keys.mpr h)]
  rfl

/-- Nothing is inserted if the key is there already. -/
theorem insertNew_of_contains {s : OrderedSet key} {a : α} (h : s.contains (key a) = true) :
    s.insertNew a = s := by
  rw [insertNew, dif_pos h]

theorem toList_insertNew (s : OrderedSet key) (a : α) :
    (s.insertNew a).toList = s.toList ++ if s.contains (key a) then [] else [a] := by
  by_cases h : s.contains (key a) = true
  · rw [insertNew_of_contains h, if_pos h, List.append_nil]
  · rw [insertNew, dif_neg h, if_neg h]
    rfl

/-- Elements with pairwise distinct keys are put at the end, but for those whose keys are there. -/
theorem toList_foldl_insertNew (s : OrderedSet key) (as : List α) (h : (as.map key).Nodup) :
    (as.foldl insertNew s).toList = s.toList ++ as.filter fun a => !s.contains (key a) := by
  induction as generalizing s with
  | nil => rw [List.foldl_nil, List.filter_nil, List.append_nil]
  | cons a as ih =>
    rw [List.map_cons, List.nodup_cons] at h
    have hrest : ∀ b ∈ as, (s.insertNew a).contains (key b) = s.contains (key b) := by
      intro b hb
      rw [Bool.eq_iff_iff, contains_iff_mem_keys, contains_iff_mem_keys, mem_keys_insertNew]
      constructor
      · rintro (hba | hb')
        · exact absurd (hba ▸ List.mem_map_of_mem hb) h.1
        · exact hb'
      · exact Or.inr
    rw [List.foldl_cons, ih _ h.2, toList_insertNew, List.append_assoc,
      List.filter_congr fun b hb => congrArg Bool.not (hrest b hb)]
    by_cases ha : s.contains (key a) = true
    · simp [ha]
    · simp [ha]

/-- The union lists the left set, and then what is new in the right one. -/
theorem toList_union (s t : OrderedSet key) :
    (s.union t).toList = s.toList ++ t.toList.filter fun a => !s.contains (key a) :=
  toList_foldl_insertNew s t.toList t.nodup

/-- Elements with different keys are all kept. -/
theorem toList_firsts {as : List α} (h : (as.map key).Nodup) :
    (firsts as : OrderedSet key).toList = as := by
  rw [firsts, toList_foldl_insertNew _ _ h, toList_empty, List.nil_append]
  exact List.filter_eq_self.mpr fun _ _ => rfl

theorem mem_keys_union {s t : OrderedSet key} {k : κ} :
    k ∈ (s.union t).keys ↔ k ∈ s.keys ∨ k ∈ t.keys := by
  simp only [keys, toList_union, List.map_append, List.mem_append]
  constructor
  · rintro (hs | ht)
    · exact Or.inl hs
    · obtain ⟨a, ha, rfl⟩ := List.mem_map.mp ht
      exact Or.inr (List.mem_map_of_mem (List.mem_filter.mp ha).1)
  · rintro (hs | ht)
    · exact Or.inl hs
    · obtain ⟨a, ha, rfl⟩ := List.mem_map.mp ht
      by_cases hs : s.contains (key a) = true
      · exact Or.inl (contains_iff_mem_keys.mp hs)
      · refine Or.inr (List.mem_map_of_mem (List.mem_filter.mpr ⟨ha, ?_⟩))
        rw [eq_false_of_ne_true hs]
        rfl

theorem contains_union (s t : OrderedSet key) (k : κ) :
    (s.union t).contains k = (s.contains k || t.contains k) := by
  rw [Bool.eq_iff_iff, Bool.or_eq_true, contains_iff_mem_keys, contains_iff_mem_keys,
    contains_iff_mem_keys, mem_keys_union]

/-- An element is found in the left set first. -/
theorem find?_union (s t : OrderedSet key) (k : κ) :
    (s.union t).find? k = (s.find? k).or (t.find? k) := by
  have hlist : (s.union t).find? k = (s.find? k).or
      ((t.toList.filter fun a => !s.contains (key a)).find? fun a => decide (key a = k)) := by
    rw [find?, toList_union, List.find?_append]
    rfl
  rw [hlist]
  cases hs : s.find? k with
  | some a => rfl
  | none =>
    have hk : s.contains k = false := contains_eq_false_iff.mpr (find?_eq_none_iff.mp hs)
    rw [Option.none_or, Option.none_or, List.find?_filter, find?]
    congr 1
    funext a
    by_cases ha : key a = k
    · simp [ha, hk]
    · simp [ha]

/-- A modified element is found under the same key. -/
theorem find?_modify (s : OrderedSet key) (f : α → α) (h : ∀ a, key (f a) = key a) (k : κ) :
    (s.modify f h).find? k = (s.find? k).map f := by
  rw [find?, modify, List.find?_map, find?]
  exact congrArg (Option.map f) (congrArg (List.find? · s.toList) (funext fun a => by simp [h]))

theorem contains_empty (k : κ) : (empty : OrderedSet key).contains k = false := rfl

theorem empty_union (s : OrderedSet key) : (empty : OrderedSet key).union s = s := by
  apply ext
  rw [toList_union, toList_empty, List.nil_append]
  exact List.filter_eq_self.mpr fun a _ => congrArg Bool.not (contains_empty (key a))

/-- Of the elements of a set, in whatever order, one at most has a given key. -/
theorem filter_of_perm {s : OrderedSet key} {as : List α} (hperm : as.Perm s.toList) (k : κ) :
    as.filter (fun a => decide (key a = k)) = (s.find? k).toList := by
  have hmem : ∀ a, a ∈ as.filter (fun a => decide (key a = k)) ↔ s.find? k = some a := by
    intro a
    rw [List.mem_filter, decide_eq_true_eq, hperm.mem_iff, find?_eq_some_iff]
  cases hfind : s.find? k with
  | none =>
    refine List.eq_nil_iff_forall_not_mem.mpr fun a ha => ?_
    exact nomatch hfind.symm.trans ((hmem a).mp ha)
  | some a =>
    have hnodup : as.Nodup := hperm.nodup_iff.mpr (.of_map _ s.nodup)
    refine List.perm_singleton.mp
      ((List.perm_ext_iff_of_nodup (hnodup.filter _) (List.nodup_singleton a)).mpr fun b => ?_)
    rw [hmem, hfind, List.mem_singleton, Option.some_inj, eq_comm]

/-! ## Collected elements -/

/-- A set of a list with one more element has that element inserted. -/
theorem ofList_concat (as : List α) (a : α) :
    (ofList (as ++ [a]) : OrderedSet key) = (ofList as).insert a := by
  rw [ofList, ofList, List.foldl_append, List.foldl_cons, List.foldl_nil]

/-- Of collected elements, every key has the place where it comes first. -/
theorem keys_ofList (as : List α) :
    (ofList as : OrderedSet key).keys = (as.map key).eraseDups := by
  induction as using List.reverseRecOn with
  | nil => rfl
  | append_singleton as a ih =>
    have hnew : [key a].removeAll (as.map key) = if key a ∈ as.map key then [] else [key a] := by
      rw [List.removeAll, List.filter_singleton, List.elem_eq_contains]
      by_cases h : key a ∈ as.map key
      · rw [if_pos h, List.contains_iff_mem.mpr h]
        rfl
      · rw [if_neg h, eq_false_of_ne_true (mt List.contains_iff_mem.mp h)]
        rfl
    rw [ofList_concat, keys_insert, ih, List.map_append, List.eraseDups_append,
      List.map_singleton, hnew]
    by_cases h : key a ∈ as.map key
    · rw [if_pos (List.mem_eraseDups.mpr h), if_pos h, List.eraseDups_nil, List.append_nil]
    · rw [if_neg (mt List.mem_eraseDups.mp h), if_neg h, List.eraseDups_cons,
        List.filter_nil, List.eraseDups_nil]

/-- Of collected elements, every key has the element with which it comes last. -/
theorem find?_ofList (as : List α) (k : κ) :
    (ofList as : OrderedSet key).find? k = as.findRev? fun a => decide (key a = k) := by
  induction as using List.reverseRecOn with
  | nil => rfl
  | append_singleton as a ih =>
    rw [ofList_concat, find?_insert, ih, List.findRev?_eq_find?_reverse,
      List.findRev?_eq_find?_reverse, List.reverse_append, List.reverse_singleton,
      List.singleton_append, List.find?_cons]
    by_cases h : key a = k
    · simp [h]
    · simp [h]

/-- A set lists the elements of its keys. -/
theorem filterMap_find?_keys (s : OrderedSet key) : s.keys.filterMap s.find? = s.toList := by
  have hfind : ∀ a ∈ s.toList, (s.find? ∘ key) a = some a := fun a ha =>
    find?_eq_some_iff.mpr ⟨ha, rfl⟩
  rw [keys, List.filterMap_map, List.filterMap_congr hfind, List.filterMap_some]

end OrderedSet

/-- A table has the value that was inserted last under a name. -/
theorem NameTable.get?_insert {β : Type} (t : NameTable β) (name : String) (value : β)
    (other : String) :
    NameTable.get? (t.insert (name, value)) other =
      if name = other then some value else t.get? other := by
  rw [NameTable.get?, OrderedSet.find?_insert]
  split <;> rfl

end Correlation
