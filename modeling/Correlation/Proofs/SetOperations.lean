import Correlation.Path.Basic
import Correlation.Proofs.Sets
import Mathlib.Logic.Function.Basic

/-!
# Operations on sets

What any number of sets come to when operations of all kinds are done on them, one after the other.
The operations are data (`SetOperation`), and an implementation says what each does to a set
(`SetImplementation`).  Here are two.

* `listed` is the reference: plain lists, with each operation as one would specify it.
* `ordered` has the ordered sets of the checker.

One implementation simulates another if every operation, done on related sets, gives related sets
and the same answer (`Simulates`).  Then so does every run (`Simulates.run`).  The ordered sets
simulate the lists (`ordered_simulates_listed`): each has the elements of its list, in that order.
-/

namespace Correlation

variable {α κ ν σ τ : Type} {key : α → κ}

/-! ## Operations -/

/-- A change of an element that leaves its key as it is. -/
structure Change (key : α → κ) where
  /-- The element after the change. -/
  apply : α → α
  /-- The key is the same. -/
  key_apply : ∀ a, key (apply a) = key a

/-- Sets the freshness of a provided path. -/
def Change.freshness (fresh : Bool) : Change ProvidedPath.location where
  apply p := { p with fresh }
  key_apply _ := rfl

/-- An operation on sets that have names. -/
inductive SetOperation (key : α → κ) (ν : Type) where
  /-- Puts an element in. -/
  | insert (set : ν) (a : α)
  /-- Takes the element of a key out. -/
  | erase (set : ν) (k : κ)
  /-- Changes the element of a key where it stands. -/
  | change (set : ν) (k : κ) (c : Change key)
  /-- Keeps the elements that pass a test. -/
  | retain (set : ν) (p : α → Bool)
  /-- Adds what another set has and this one lacks. -/
  | union (set other : ν)
  /-- Takes all elements out. -/
  | clear (set : ν)
  /-- Makes the set anew from elements. -/
  | collect (set : ν) (as : List α)

/-- The set that an operation is done on. -/
def SetOperation.target : SetOperation key ν → ν
  | .insert n _ | .erase n _ | .change n _ _ | .retain n _ | .union n _ | .clear n | .collect n _ =>
    n

/-- What each operation does to a set.  Those on one key answer with the element that the key had
before. -/
structure SetImplementation (key : α → κ) (σ : Type) where
  empty : σ
  insert : σ → α → σ × Option α
  erase : σ → κ → σ × Option α
  change : σ → κ → Change key → σ × Option α
  retain : σ → (α → Bool) → σ
  union : σ → σ → σ
  clear : σ → σ
  collect : List α → σ

namespace SetImplementation

/-- The set that an operation is done on as it is afterwards, and the answer. -/
def result (m : SetImplementation key σ) (sets : ν → σ) : SetOperation key ν → σ × Option α
  | .insert n a => m.insert (sets n) a
  | .erase n k => m.erase (sets n) k
  | .change n k c => m.change (sets n) k c
  | .retain n p => (m.retain (sets n) p, none)
  | .union n other => (m.union (sets n) (sets other), none)
  | .clear n => (m.clear (sets n), none)
  | .collect _ as => (m.collect as, none)

variable [DecidableEq ν]

/-- Does operations one after the other.  Gives all sets as they are at the end, and the answers. -/
def runFrom (m : SetImplementation key σ) (sets : ν → σ) :
    List (SetOperation key ν) → (ν → σ) × List (Option α)
  | [] => (sets, [])
  | step :: steps =>
    let first := m.result sets step
    let rest := m.runFrom (Function.update sets step.target first.1) steps
    (rest.1, first.2 :: rest.2)

/-- Does operations on sets that are empty at first. -/
def run (m : SetImplementation key σ) (steps : List (SetOperation key ν)) :
    (ν → σ) × List (Option α) :=
  m.runFrom (fun _ => m.empty) steps

/-! ## Simulation -/

/-- Every operation of the one implementation does what that of the other does, up to a relation
between their sets. -/
structure Simulates (m : SetImplementation key σ) (m' : SetImplementation key τ)
    (R : σ → τ → Prop) : Prop where
  empty : R m.empty m'.empty
  insert : ∀ {s t}, R s t → ∀ a,
    R (m.insert s a).1 (m'.insert t a).1 ∧ (m.insert s a).2 = (m'.insert t a).2
  erase : ∀ {s t}, R s t → ∀ k,
    R (m.erase s k).1 (m'.erase t k).1 ∧ (m.erase s k).2 = (m'.erase t k).2
  change : ∀ {s t}, R s t → ∀ k c,
    R (m.change s k c).1 (m'.change t k c).1 ∧ (m.change s k c).2 = (m'.change t k c).2
  retain : ∀ {s t}, R s t → ∀ p, R (m.retain s p) (m'.retain t p)
  union : ∀ {s t}, R s t → ∀ {u v}, R u v → R (m.union s u) (m'.union t v)
  clear : ∀ {s t}, R s t → R (m.clear s) (m'.clear t)
  collect : ∀ as, R (m.collect as) (m'.collect as)

namespace Simulates

variable {m : SetImplementation key σ} {m' : SetImplementation key τ} {R : σ → τ → Prop}
  {sets : ν → σ} {sets' : ν → τ}

omit [DecidableEq ν] in
/-- One operation keeps the relation, and gives the same answer. -/
theorem result (h : Simulates m m' R) (hsets : ∀ n, R (sets n) (sets' n))
    (step : SetOperation key ν) :
    R (m.result sets step).1 (m'.result sets' step).1 ∧
      (m.result sets step).2 = (m'.result sets' step).2 := by
  cases step with
  | insert n a => exact h.insert (hsets n) a
  | erase n k => exact h.erase (hsets n) k
  | change n k c => exact h.change (hsets n) k c
  | retain n p => exact ⟨h.retain (hsets n) p, rfl⟩
  | union n other => exact ⟨h.union (hsets n) (hsets other), rfl⟩
  | clear n => exact ⟨h.clear (hsets n), rfl⟩
  | collect n as => exact ⟨h.collect as, rfl⟩

/-- Operations one after the other keep the relation for all sets, and give the same answers. -/
theorem runFrom (h : Simulates m m' R) (hsets : ∀ n, R (sets n) (sets' n))
    (steps : List (SetOperation key ν)) :
    (∀ n, R ((m.runFrom sets steps).1 n) ((m'.runFrom sets' steps).1 n)) ∧
      (m.runFrom sets steps).2 = (m'.runFrom sets' steps).2 := by
  induction steps generalizing sets sets' with
  | nil => exact ⟨hsets, rfl⟩
  | cons step steps ih =>
    obtain ⟨hset, hanswer⟩ := h.result hsets step
    have hupdate : ∀ n, R (Function.update sets step.target (m.result sets step).1 n)
        (Function.update sets' step.target (m'.result sets' step).1 n) := by
      intro n
      by_cases hn : n = step.target
      · subst hn
        rw [Function.update_self, Function.update_self]
        exact hset
      · rw [Function.update_of_ne hn, Function.update_of_ne hn]
        exact hsets n
    obtain ⟨hrest, hanswers⟩ := ih hupdate
    exact ⟨hrest, congrArg₂ List.cons hanswer hanswers⟩

/-- A whole run gives related sets, and the same answers. -/
theorem run (h : Simulates m m' R) (steps : List (SetOperation key ν)) :
    (∀ n, R ((m.run steps).1 n) ((m'.run steps).1 n)) ∧ (m.run steps).2 = (m'.run steps).2 :=
  h.runFrom (fun _ => h.empty) steps

end Simulates

/-! ## Lists -/

variable [DecidableEq κ]

/-- The first element of a key gives its place to the new one.  If there is none, the new one comes
last. -/
def putIn (key : α → κ) (a : α) : List α → List α
  | [] => [a]
  | b :: bs => if key b = key a then a :: bs else b :: putIn key a bs

/-- The reference: what each operation does to the list of the elements.  A union is the left list
and then what is new in the right one.  Of collected elements, every key has the place where it
comes first, and the element with which it comes last. -/
def listed (key : α → κ) : SetImplementation key (List α) where
  empty := []
  insert as a := (putIn key a as, as.find? fun b => decide (key b = key a))
  erase as k := (as.eraseP fun a => decide (key a = k), as.find? fun a => decide (key a = k))
  change as k c :=
    (as.map fun a => if key a = k then c.apply a else a, as.find? fun a => decide (key a = k))
  retain as p := as.filter p
  union as bs := as ++ bs.filter fun b => decide (key b ∉ as.map key)
  clear _ := []
  collect as :=
    (as.map key).eraseDups.filterMap fun k => as.findRev? fun a => decide (key a = k)

/-! ## Ordered sets -/

/-- Changes the element of a key where it stands. -/
def changeAt (s : OrderedSet key) (k : κ) (c : Change key) : OrderedSet key :=
  s.modify (fun a => if key a = k then c.apply a else a) fun a => by
    by_cases h : key a = k <;> simp [h, c.key_apply]

example (s : ProvidedSet) (l : Location) (fresh : Bool) :
    changeAt s l (.freshness fresh) = s.mark l fresh := rfl

/-- The ordered sets of the checker. -/
def ordered (key : α → κ) : SetImplementation key (OrderedSet key) where
  empty := .empty
  insert s a := (s.insert a, s.find? (key a))
  erase s k := (s.erase k, s.find? k)
  change s k c := (changeAt s k c, s.find? k)
  retain s p := s.retain p
  union s t := s.union t
  clear _ := .empty
  collect as := .ofList as

/-! ## Ordered sets are lists -/

/-- Where no element has the key, the new one comes last. -/
theorem putIn_of_not_mem {a : α} {as : List α} (h : key a ∉ as.map key) :
    putIn key a as = as ++ [a] := by
  induction as with
  | nil => rfl
  | cons b as ih =>
    rw [List.map_cons, List.mem_cons, not_or] at h
    rw [putIn, if_neg (Ne.symm h.1), ih h.2, List.cons_append]

/-- Where one element has the key, it is replaced.  The key does not come again, so all others stay
as they are. -/
theorem putIn_of_mem {a : α} {as : List α} (hnodup : (as.map key).Nodup)
    (h : key a ∈ as.map key) :
    putIn key a as = as.map fun b => if key b = key a then a else b := by
  induction as with
  | nil => exact absurd h List.not_mem_nil
  | cons b as ih =>
    rw [List.map_cons, List.nodup_cons] at hnodup
    rw [putIn, List.map_cons]
    by_cases hb : key b = key a
    · have hrest : ∀ c ∈ as, (if key c = key a then a else c) = c := fun c hc =>
        if_neg fun he => hnodup.1 (List.mem_map.mpr ⟨c, hc, he.trans hb.symm⟩)
      rw [if_pos hb, if_pos hb, List.map_congr_left hrest, List.map_id']
    · rw [List.map_cons, List.mem_cons] at h
      rw [if_neg hb, if_neg hb, ih hnodup.2 (h.resolve_left (Ne.symm hb))]

theorem toList_insert_eq_putIn (s : OrderedSet key) (a : α) :
    (s.insert a).toList = putIn key a s.toList := by
  by_cases h : key a ∈ s.keys
  · rw [putIn_of_mem s.nodup h, OrderedSet.toList_insert_of_mem h]
  · rw [putIn_of_not_mem h, OrderedSet.toList_insert h]

/-- With different keys, no element but the first of a key is taken out with it. -/
theorem filter_eq_eraseP {as : List α} (h : (as.map key).Nodup) (k : κ) :
    (as.filter fun a => !decide (key a = k)) = as.eraseP fun a => decide (key a = k) := by
  induction as with
  | nil => rfl
  | cons a as ih =>
    rw [List.map_cons, List.nodup_cons] at h
    by_cases ha : key a = k
    · rw [List.filter_cons_of_neg (by simp [ha]), List.eraseP_cons_of_pos (by simp [ha])]
      refine List.filter_eq_self.mpr fun b hb => ?_
      rw [Bool.not_eq_true', decide_eq_false_iff_not]
      exact fun he => h.1 (ha ▸ he ▸ List.mem_map_of_mem hb)
    · rw [List.filter_cons_of_pos (by simp [ha]), List.eraseP_cons_of_neg (by simp [ha]), ih h.2]

/-- What is done to an ordered set is done to the list of its elements. -/
theorem ordered_simulates_listed :
    Simulates (ordered key) (listed key) fun s as => s.toList = as where
  empty := rfl
  insert := by
    rintro s _ rfl a
    exact ⟨toList_insert_eq_putIn s a, rfl⟩
  erase := by
    rintro s _ rfl k
    exact ⟨filter_eq_eraseP s.nodup k, rfl⟩
  change := by
    rintro s _ rfl k c
    exact ⟨rfl, rfl⟩
  retain := by
    rintro s _ rfl p
    rfl
  union := by
    rintro s _ rfl t _ rfl
    refine (OrderedSet.toList_union s t).trans (congrArg (s.toList ++ ·) ?_)
    refine List.filter_congr fun a _ => ?_
    rw [decide_not, ← OrderedSet.keys, Bool.not_inj_iff, Bool.eq_iff_iff, decide_eq_true_eq,
      OrderedSet.contains_iff_mem_keys]
  clear _ := rfl
  collect as := by
    rw [← OrderedSet.filterMap_find?_keys]
    refine (List.filterMap_congr fun k _ => OrderedSet.find?_ofList as k).trans ?_
    exact congrArg (List.filterMap _) (OrderedSet.keys_ofList as)

end SetImplementation

end Correlation
