/-!
# Ordered sets

A list whose elements have pairwise distinct keys, in the order in which the keys were first put
in.  The key of an element is a part of it: two elements of one key may still differ in what they
carry besides, so it matters which of them an operation keeps, and where.

* `insert` puts an element in the place of the one with its key, or else at the end.
* `insertNew` keeps the element that is there.
* `erase` and `retain` keep the order of what remains.
* `union` keeps the left set and adds what it lacks at the end.

The view of a set is its list of keys together with `find?`.  `keys_insert`, `find?_insert` and
their companions say what each operation does to that view.
-/

namespace Correlation

variable {α κ : Type}

/-- A list of elements with pairwise distinct keys. -/
structure OrderedSet (key : α → κ) where
  /-- The elements, oldest key first. -/
  toList : List α
  /-- No two elements share a key. -/
  nodup : (toList.map key).Nodup

namespace OrderedSet

variable {key : α → κ}

/-- Two sets are equal when they list the same elements in the same order. -/
@[ext] theorem ext {s t : OrderedSet key} (h : s.toList = t.toList) : s = t := by
  cases s; cases t; cases h; rfl

instance [DecidableEq α] : DecidableEq (OrderedSet key) := fun s t =>
  decidable_of_iff (s.toList = t.toList) ⟨ext, fun h => h ▸ rfl⟩

/-- The set without elements. -/
def empty : OrderedSet key := ⟨[], List.nodup_nil⟩

instance : EmptyCollection (OrderedSet key) := ⟨empty⟩

instance : Inhabited (OrderedSet key) := ⟨empty⟩

/-- The keys, oldest first. -/
def keys (s : OrderedSet key) : List κ := s.toList.map key

@[simp] theorem toList_empty : (empty : OrderedSet key).toList = [] := rfl

@[simp] theorem keys_empty : (empty : OrderedSet key).keys = [] := rfl

theorem nodup_keys (s : OrderedSet key) : s.keys.Nodup := s.nodup

/-- The number of elements. -/
def size (s : OrderedSet key) : Nat := s.toList.length

/-- Whether there is no element. -/
def isEmpty (s : OrderedSet key) : Bool := s.toList.isEmpty

/-- The elements that pass a test, in their order. -/
def retain (s : OrderedSet key) (p : α → Bool) : OrderedSet key :=
  ⟨s.toList.filter p, s.nodup.sublist (List.filter_sublist.map key)⟩

/-- Changes every element by a function that keeps keys. -/
def modify (s : OrderedSet key) (f : α → α) (h : ∀ a, key (f a) = key a) : OrderedSet key :=
  ⟨s.toList.map f, by simpa [Function.comp_def, h] using s.nodup⟩

variable [DecidableEq κ]

/-- The element of a key. -/
def find? (s : OrderedSet key) (k : κ) : Option α := s.toList.find? fun a => decide (key a = k)

/-- Whether an element has the key. -/
def contains (s : OrderedSet key) (k : κ) : Bool := s.toList.any fun a => decide (key a = k)

theorem contains_iff_mem_keys {s : OrderedSet key} {k : κ} : s.contains k = true ↔ k ∈ s.keys := by
  simp [contains, keys]

/-- Adds an element whose key is new at the end. -/
def push (s : OrderedSet key) (a : α) (h : ¬ s.contains (key a) = true) : OrderedSet key :=
  ⟨s.toList ++ [a], by
    rw [contains_iff_mem_keys] at h
    rw [List.map_append, List.nodup_append]
    refine ⟨s.nodup, by simp, fun k hk l hl => ?_⟩
    rw [List.map_cons, List.map_nil, List.mem_singleton] at hl
    exact fun he => h (hl ▸ he ▸ hk)⟩

/-- Puts an element in the place of the one with its key, or else at the end. -/
def insert (s : OrderedSet key) (a : α) : OrderedSet key :=
  if h : s.contains (key a) then
    s.modify (fun b => if key b = key a then a else b) fun b => by
      by_cases hb : key b = key a <;> simp [hb]
  else s.push a h

/-- Adds an element at the end, unless its key is there. -/
def insertNew (s : OrderedSet key) (a : α) : OrderedSet key :=
  if h : s.contains (key a) then s else s.push a h

/-- Removes the element of a key.  The rest keeps its order. -/
def erase (s : OrderedSet key) (k : κ) : OrderedSet key := s.retain fun a => !decide (key a = k)

/-- Adds the elements of `t` whose keys are missing, in the order of `t`. -/
def union (s t : OrderedSet key) : OrderedSet key := t.toList.foldl insertNew s

/-- Inserts one element after the other.  A key keeps its first place and its last element. -/
def ofList (as : List α) : OrderedSet key := as.foldl insert empty

/-- Keeps the first element of every key. -/
def firsts (as : List α) : OrderedSet key := as.foldl insertNew empty

/-! ## The view -/

theorem find?_eq_some_iff {s : OrderedSet key} {k : κ} {a : α} :
    s.find? k = some a ↔ a ∈ s.toList ∧ key a = k := by
  obtain ⟨l, hl⟩ := s
  simp only [find?]
  induction l with
  | nil => simp
  | cons b l ih =>
    rw [List.map_cons, List.nodup_cons] at hl
    by_cases hb : key b = k
    · rw [List.find?_cons_of_pos (by simpa using hb), Option.some.injEq, List.mem_cons]
      constructor
      · rintro rfl
        exact ⟨Or.inl rfl, hb⟩
      · rintro ⟨rfl | ha, hk⟩
        · rfl
        · exact absurd (hb.trans hk.symm ▸ List.mem_map_of_mem ha) hl.1
    · rw [List.find?_cons_of_neg (by simpa using hb), ih hl.2, List.mem_cons]
      constructor
      · rintro ⟨ha, hk⟩
        exact ⟨Or.inr ha, hk⟩
      · rintro ⟨rfl | ha, hk⟩
        · exact absurd hk hb
        · exact ⟨ha, hk⟩

theorem isSome_find? (s : OrderedSet key) (k : κ) : (s.find? k).isSome = s.contains k := by
  rw [Bool.eq_iff_iff, find?, contains, List.find?_isSome, List.any_eq_true]

theorem find?_eq_none_iff {s : OrderedSet key} {k : κ} : s.find? k = none ↔ k ∉ s.keys := by
  rw [← contains_iff_mem_keys, ← isSome_find?]
  cases s.find? k <;> simp

@[simp] theorem keys_insert (s : OrderedSet key) (a : α) :
    (s.insert a).keys = if key a ∈ s.keys then s.keys else s.keys ++ [key a] := by
  by_cases h : s.contains (key a) = true
  · rw [if_pos (contains_iff_mem_keys.mp h), insert, dif_pos h, keys, modify, List.map_map]
    refine List.map_congr_left fun b _ => ?_
    by_cases hb : key b = key a <;> simp [hb]
  · rw [if_neg fun m => h (contains_iff_mem_keys.mpr m), insert, dif_neg h]
    simp [keys, push]

@[simp] theorem keys_insertNew (s : OrderedSet key) (a : α) :
    (s.insertNew a).keys = if key a ∈ s.keys then s.keys else s.keys ++ [key a] := by
  by_cases h : s.contains (key a) = true
  · rw [if_pos (contains_iff_mem_keys.mp h), insertNew, dif_pos h]
  · rw [if_neg fun m => h (contains_iff_mem_keys.mpr m), insertNew, dif_neg h]
    simp [keys, push]

@[simp] theorem keys_erase (s : OrderedSet key) (k : κ) :
    (s.erase k).keys = s.keys.filter fun l => !decide (l = k) := by
  simp [erase, retain, keys, List.filter_map, Function.comp_def]

theorem find?_insert (s : OrderedSet key) (a : α) (k : κ) :
    (s.insert a).find? k = if key a = k then some a else s.find? k := by
  have hmem : ∀ b, b ∈ (s.insert a).toList ↔ b = a ∨ b ∈ s.toList ∧ key b ≠ key a := by
    intro b
    by_cases h : s.contains (key a) = true
    · obtain ⟨c, hc, hck⟩ := List.mem_map.mp (contains_iff_mem_keys.mp h)
      simp only [insert, h, dite_true, modify, List.mem_map]
      constructor
      · rintro ⟨d, hd, rfl⟩
        by_cases hda : key d = key a
        · simp [hda]
        · simp [hda, hd]
      · rintro (rfl | ⟨hb, hba⟩)
        · exact ⟨c, hc, by simp [hck]⟩
        · exact ⟨b, hb, by simp [hba]⟩
    · have hk : key a ∉ s.keys := fun m => h (contains_iff_mem_keys.mpr m)
      simp only [insert, h, dite_false, push, List.mem_append, List.mem_singleton,
        Bool.false_eq_true]
      constructor
      · rintro (hb | rfl)
        · exact Or.inr ⟨hb, fun he => hk (he ▸ List.mem_map_of_mem hb)⟩
        · exact Or.inl rfl
      · rintro (rfl | ⟨hb, _⟩)
        · exact Or.inr rfl
        · exact Or.inl hb
  apply Option.ext
  intro b
  rw [find?_eq_some_iff, hmem]
  by_cases hk : key a = k
  · simp only [hk, if_true, Option.some.injEq]
    constructor
    · rintro ⟨rfl | ⟨_, hne⟩, hb⟩
      · rfl
      · exact absurd hb hne
    · rintro rfl
      exact ⟨Or.inl rfl, hk⟩
  · simp only [hk, if_false, find?_eq_some_iff]
    constructor
    · rintro ⟨rfl | ⟨hb, _⟩, hbk⟩
      · exact absurd hbk hk
      · exact ⟨hb, hbk⟩
    · rintro ⟨hb, hbk⟩
      exact ⟨Or.inr ⟨hb, fun he => hk (he.symm.trans hbk)⟩, hbk⟩

theorem find?_insertNew (s : OrderedSet key) (a : α) (k : κ) :
    (s.insertNew a).find? k = if key a = k ∧ k ∉ s.keys then some a else s.find? k := by
  by_cases h : s.contains (key a) = true
  · have hk := contains_iff_mem_keys.mp h
    simp only [insertNew, h, dite_true]
    rw [if_neg]
    rintro ⟨rfl, hn⟩
    exact hn hk
  · have hk : key a ∉ s.keys := fun m => h (contains_iff_mem_keys.mpr m)
    simp only [insertNew, h, dite_false, Bool.false_eq_true, push, find?, List.find?_append]
    by_cases hak : key a = k
    · subst hak
      have : s.toList.find? (fun b => decide (key b = key a)) = none :=
        find?_eq_none_iff.mpr hk
      simp [this, hk]
    · simp [hak]

end OrderedSet

/-- A set of names. -/
abbrev NameSet := OrderedSet (id : String → String)

/-- An association of names with values, in the order in which the names came. -/
abbrev NameTable (β : Type) := OrderedSet (Prod.fst : String × β → String)

/-- The value of a name. -/
def NameTable.get? {β : Type} (t : NameTable β) (name : String) : Option β :=
  (t.find? name).map Prod.snd

end Correlation
