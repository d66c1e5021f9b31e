import Correlation.Proofs.SetOperations

/-!
# Sets in order of insertion

The sets of paths are kept in a map, each element under its own key.  The map is not ours: a
`KeyedMap` is any map that keeps its entries in the order in which their keys came.  Over such a map
every operation does to the entries what it does to an ordered set (`stored_simulates_ordered`),
whose elements are those of the list in turn.  So a run of any operations on any number of sets can
be read off plain lists (`sets_keep_insertion_order`).
-/

namespace Correlation

variable {α κ ν : Type} {key : α → κ}

/-! ## Maps -/

variable [DecidableEq κ]

/-- A map that keeps its entries in the order in which their keys came.  What it does to them is
what its documentation promises: a value that is inserted takes the place of the one with its key,
or else comes last, and what remains after others are taken out keeps its order. -/
structure KeyedMap (κ α : Type) [DecidableEq κ] where
  Map : Type
  /-- The keys with their values, in their order. -/
  entries : Map → List (κ × α)
  empty : Map
  entries_empty : entries empty = []
  get? : Map → κ → Option α
  get?_eq : ∀ m k, get? m k = ((entries m).find? fun e => decide (e.1 = k)).map Prod.snd
  /-- The map with the entry, and the value that the key had before. -/
  insert : Map → κ → α → Map × Option α
  entries_insert : ∀ m k a, entries (insert m k a).1 =
    if k ∈ (entries m).map Prod.fst then
      (entries m).map fun e => if e.1 = k then (k, a) else e
    else entries m ++ [(k, a)]
  insert_snd : ∀ m k a, (insert m k a).2 = get? m k
  /-- The map without the entry of a key, and the value that the key had. -/
  remove : Map → κ → Map × Option α
  entries_remove : ∀ m k,
    entries (remove m k).1 = (entries m).filter fun e => !decide (e.1 = k)
  remove_snd : ∀ m k, (remove m k).2 = get? m k
  /-- Changes the value of a key where it stands. -/
  modify : Map → κ → (α → α) → Map
  entries_modify : ∀ m k f, entries (modify m k f) =
    (entries m).map fun e => if e.1 = k then (e.1, f e.2) else e
  /-- Keeps the entries that pass a test. -/
  retain : Map → (κ → α → Bool) → Map
  entries_retain : ∀ m p, entries (retain m p) = (entries m).filter fun e => p e.1 e.2
  clear : Map → Map
  entries_clear : ∀ m, entries (clear m) = []

namespace KeyedMap

/-- The values, in the order of their keys. -/
def values (M : KeyedMap κ α) (m : M.Map) : List α := (M.entries m).map Prod.snd

/-- The map of ordered sets of pairs. -/
def ofPairs : KeyedMap κ α where
  Map := OrderedSet (Prod.fst : κ × α → κ)
  entries m := m.toList
  empty := .empty
  entries_empty := rfl
  get? m k := (m.find? k).map Prod.snd
  get?_eq _ _ := rfl
  insert m k a := (m.insert (k, a), (m.find? k).map Prod.snd)
  entries_insert m k a := by
    by_cases h : k ∈ m.keys
    · exact (OrderedSet.toList_insert_of_mem h).trans (if_pos h).symm
    · exact (OrderedSet.toList_insert h).trans (if_neg h).symm
  insert_snd _ _ _ := rfl
  remove m k := (m.erase k, (m.find? k).map Prod.snd)
  entries_remove _ _ := rfl
  remove_snd _ _ := rfl
  modify m k f := m.modify (fun e => if e.1 = k then (e.1, f e.2) else e) fun e => by
    by_cases h : e.1 = k <;> simp [h]
  entries_modify _ _ _ := rfl
  retain m p := m.retain fun e => p e.1 e.2
  entries_retain _ _ := rfl
  clear _ := .empty
  entries_clear _ := rfl

end KeyedMap

namespace SetImplementation

/-- Puts an element under its key, unless the key is there. -/
def storeNew (key : α → κ) (M : KeyedMap κ α) (m : M.Map) (a : α) : M.Map :=
  if (M.get? m (key a)).isSome then m else (M.insert m (key a) a).1

/-- Sets as maps, with each element under its own key. -/
def stored (key : α → κ) (M : KeyedMap κ α) : SetImplementation key M.Map where
  empty := M.empty
  insert m a := M.insert m (key a) a
  erase m k := M.remove m k
  change m k c := (M.modify m k c.apply, M.get? m k)
  retain m p := M.retain m fun _ a => p a
  union m m' := (M.values m').foldl (storeNew key M) m
  clear m := M.clear m
  collect as := as.foldl (fun m a => (M.insert m (key a) a).1) M.empty

/-! ## Maps are ordered sets -/

/-- An element with its key. -/
def keyed (key : α → κ) (a : α) : κ × α := (key a, a)

/-- A map has the elements of a set, each under its key. -/
def Stores (M : KeyedMap κ α) (m : M.Map) (s : OrderedSet key) : Prop :=
  M.entries m = s.toList.map (keyed key)

section Stores

variable {M : KeyedMap κ α} {m : M.Map} {s : OrderedSet key}

theorem Stores.entries_eq (h : Stores M m s) : M.entries m = s.toList.map (keyed key) := h

theorem Stores.keys_eq (h : Stores M m s) : (M.entries m).map Prod.fst = s.keys := by
  rw [h.entries_eq, List.map_map]
  rfl

theorem Stores.values_eq (h : Stores M m s) : M.values m = s.toList := by
  rw [KeyedMap.values, h.entries_eq, List.map_map]
  exact List.map_id _

/-- A map finds what the set finds. -/
theorem Stores.get?_eq (h : Stores M m s) (k : κ) : M.get? m k = s.find? k := by
  rw [M.get?_eq, h.entries_eq, List.find?_map, Option.map_map]
  exact Option.map_id'

theorem Stores.empty : Stores M M.empty (OrderedSet.empty : OrderedSet key) := M.entries_empty

/-- Insertion keeps the map in step with the set. -/
theorem Stores.insert (h : Stores M m s) (a : α) :
    Stores M (M.insert m (key a) a).1 (s.insert a) := by
  rw [Stores, M.entries_insert, h.keys_eq]
  by_cases ha : key a ∈ s.keys
  · rw [if_pos ha, OrderedSet.toList_insert_of_mem ha, h.entries_eq, List.map_map, List.map_map]
    refine List.map_congr_left fun b _ => ?_
    by_cases hb : key b = key a <;> simp [keyed, hb]
  · rw [if_neg ha, OrderedSet.toList_insert ha, h.entries_eq, List.map_append]
    rfl

theorem Stores.storeNew (h : Stores M m s) (a : α) :
    Stores M (storeNew key M m a) (s.insertNew a) := by
  rw [SetImplementation.storeNew, h.get?_eq, OrderedSet.isSome_find?]
  by_cases ha : s.contains (key a) = true
  · rw [if_pos ha, OrderedSet.insertNew_of_contains ha]
    exact h
  · rw [if_neg ha, ← OrderedSet.insert_eq_insertNew (eq_false_of_ne_true ha)]
    exact h.insert a

end Stores

/-- What is done to a map is done to the set that it stores. -/
theorem stored_simulates_ordered (M : KeyedMap κ α) :
    Simulates (stored key M) (ordered key) (Stores M) where
  empty := .empty
  insert h a := ⟨h.insert a, (M.insert_snd _ _ _).trans (h.get?_eq _)⟩
  erase {m s} h k := by
    refine ⟨?_, (M.remove_snd m k).trans (h.get?_eq k)⟩
    refine (M.entries_remove m k).trans ?_
    rw [h.entries_eq, List.filter_map]
    rfl
  change {m s} h k c := by
    refine ⟨?_, h.get?_eq k⟩
    refine (M.entries_modify m k c.apply).trans ?_
    rw [h.entries_eq]
    refine (List.map_map).trans (Eq.trans ?_ (List.map_map).symm)
    refine List.map_congr_left fun a _ => ?_
    by_cases ha : key a = k <;> simp [keyed, ha, c.key_apply]
  retain {m s} h p := by
    refine (M.entries_retain m _).trans ?_
    rw [h.entries_eq, List.filter_map]
    rfl
  union {m s} h m' s' h' := by
    change Stores M ((M.values m').foldl (storeNew key M) m) (s.union s')
    rw [h'.values_eq]
    exact List.foldl_rel h fun a _ _ _ hs => hs.storeNew a
  clear {m s} _ := M.entries_clear m
  collect as := List.foldl_rel Stores.empty fun a _ _ _ hs => hs.insert a

/-! ## Runs -/

/-- Whatever is done on sets that are empty at first, no two elements of a set have one key, each is
stored under its own key, and both the elements in their order and the answers are those of the
lists. -/
theorem sets_keep_insertion_order [DecidableEq ν] (M : KeyedMap κ α)
    (steps : List (SetOperation key ν)) :
    let lists := (listed key).run steps
    let sets := (ordered key).run steps
    let maps := (stored key M).run steps
    (∀ n, ((lists.1 n).map key).Nodup ∧ (sets.1 n).toList = lists.1 n ∧
        M.entries (maps.1 n) = (lists.1 n).map fun a => (key a, a)) ∧
      sets.2 = lists.2 ∧ maps.2 = lists.2 := by
  intro lists sets maps
  obtain ⟨hsets, hanswers⟩ := ordered_simulates_listed.run steps
  obtain ⟨hmaps, hstored⟩ := (stored_simulates_ordered M).run steps
  refine ⟨fun n => ⟨?_, hsets n, ?_⟩, hanswers, hstored.trans hanswers⟩
  · exact hsets n ▸ (sets.1 n).nodup
  · exact (hmaps n).trans (congrArg (List.map (keyed key)) (hsets n))

/-- A correlation variable that got its value on a line. -/
def providedOn (line : UInt32) (name : String) (fresh : Bool) : ProvidedPath :=
  ⟨⟨⟨false, [.named "csets", .named name]⟩, .atLine "shop.ol" line⟩, fresh⟩

/-- Operations of all kinds on two sets, in which keys come again on other lines. -/
def mixedSteps : List (SetOperation ProvidedPath.location String) :=
  [.collect "left" [providedOn 1 "sid" true, providedOn 2 "order" false, providedOn 3 "sid" false],
    .insert "right" (providedOn 4 "user" false),
    .insert "right" (providedOn 5 "order" false),
    .union "left" "right",
    .change "left" (providedOn 5 "order" false).location (.freshness true),
    .insert "left" (providedOn 6 "sid" true),
    .erase "right" (providedOn 2 "user" true).location,
    .retain "left" ProvidedPath.fresh,
    .clear "right"]

theorem sets_keep_insertion_order_mixedSteps :
    let maps := (stored ProvidedPath.location KeyedMap.ofPairs).run mixedSteps
    let sid := providedOn 6 "sid" true
    let order := providedOn 2 "order" true
    KeyedMap.ofPairs.entries (maps.1 "left") = [(sid.location, sid), (order.location, order)] ∧
      KeyedMap.ofPairs.entries (maps.1 "right") = [] ∧
      maps.2 = [none, none, none, none, some (providedOn 2 "order" false),
        some (providedOn 3 "sid" false), some (providedOn 4 "user" false), none, none] := by
  obtain ⟨hsets, -, hanswers⟩ := sets_keep_insertion_order KeyedMap.ofPairs mixedSteps
  refine ⟨(hsets "left").2.2.trans ?_, (hsets "right").2.2.trans ?_, hanswers.trans ?_⟩
  all_goals decide +kernel

end SetImplementation

end Correlation
