import Mathlib.Data.List.Basic
import Mathlib.Data.List.Forall2

/-!
# Traces

A trace is the list of what happens in a run, oldest first.  The following does not depend on what
the events are.

* The number of events of a kind in a concatenation is told by the parts that have one
  (`countP_flatten_le`, `countP_le_flatten`).
* A trace *meets* one property *before* another one if some event has the first property and none
  before it has the second.  In a concatenation the event may be in any part before which nothing
  has the second property (`meetsBefore_append`).
* A trace *interleaves* others if it consists of their events, each in its own order
  (`Interleaving`).  The events of an interleaving are those of the concatenation
  (`Interleaving.perm`), any of the traces may come first (`Interleaving.exists_first`), and what an
  interleaving meets before something one of the traces does (`Interleaving.exists_meetsBefore`).
  A relation between any event and a later one holds if it holds within the traces, and between
  them in both directions (`Interleaving.pairwise`).
-/

namespace Correlation

variable {α : Type}

/-- A choice for every element of a list. -/
theorem exists_forall₂ {β : Type} {R : β → α → Prop} {xs : List β} (h : ∀ x ∈ xs, ∃ a, R x a) :
    ∃ as, List.Forall₂ R xs as := by
  induction xs with
  | nil => exact ⟨[], .nil⟩
  | cons x xs ih =>
    obtain ⟨a, ha⟩ := h x List.mem_cons_self
    obtain ⟨as, has⟩ := ih fun y hy => h y (List.mem_cons_of_mem x hy)
    exact ⟨a :: as, .cons ha has⟩

/-- A relation between lists may be changed where the elements of the first list allow it. -/
theorem forall₂_imp_of_mem {β : Type} {R S : β → α → Prop} {xs : List β} {as : List α}
    (h : ∀ x ∈ xs, ∀ a, R x a → S x a) (hR : List.Forall₂ R xs as) : List.Forall₂ S xs as := by
  have hmem : List.Forall₂ (fun x a => x ∈ xs ∧ R x a) xs as :=
    (List.forall₂_and_left xs as).mpr ⟨fun _ hx => hx, hR⟩
  exact hmem.imp fun x a hx => h x hx.1 a hx.2

/-- A choice for every element of a list, with given ones for some of them. -/
theorem exists_forall₂_of_sublist {β : Type} {R : β → α → Prop} {xs ys : List β} {bs : List α}
    (hsub : ys.Sublist xs) (hbs : List.Forall₂ R ys bs) (h : ∀ x ∈ xs, ∃ a, R x a) :
    ∃ as, List.Forall₂ R xs as ∧ bs.Sublist as := by
  induction hsub generalizing bs with
  | slnil =>
    cases hbs
    exact ⟨[], .nil, .refl []⟩
  | cons x _ ih =>
    obtain ⟨a, ha⟩ := h x List.mem_cons_self
    obtain ⟨as, has, hsub⟩ := ih hbs fun y hy => h y (List.mem_cons_of_mem x hy)
    exact ⟨a :: as, .cons ha has, hsub.cons a⟩
  | cons_cons x _ ih =>
    cases hbs with
    | @cons _ b _ _ hb hbs =>
      obtain ⟨as, has, hsub⟩ := ih hbs fun y hy => h y (List.mem_cons_of_mem x hy)
      exact ⟨b :: as, .cons hb has, hsub.cons_cons b⟩

/-- A choice for every element of a list, with a given one among them. -/
theorem exists_forall₂_of_mem {β : Type} {R : β → α → Prop} {xs : List β} {x : β} {a : α}
    (hx : x ∈ xs) (ha : R x a) (h : ∀ y ∈ xs, ∃ b, R y b) :
    ∃ as, List.Forall₂ R xs as ∧ a ∈ as := by
  obtain ⟨as, has, hsub⟩ :=
    exists_forall₂_of_sublist (List.singleton_sublist.mpr hx) (.cons ha .nil) h
  exact ⟨as, has, List.singleton_sublist.mp hsub⟩

/-- An element of the second list is related to one of the first. -/
theorem exists_of_forall₂ {β : Type} {R : β → α → Prop} {xs : List β} {as : List α} {a : α}
    (h : List.Forall₂ R xs as) (ha : a ∈ as) : ∃ x ∈ xs, R x a := by
  induction h with
  | nil => cases ha
  | cons hx _ ih =>
    rcases List.mem_cons.mp ha with rfl | ha
    · exact ⟨_, List.mem_cons_self, hx⟩
    · obtain ⟨y, hy, hya⟩ := ih ha
      exact ⟨y, List.mem_cons_of_mem _ hy, hya⟩

/-- Lists whose elements look the same pairwise look the same. -/
theorem map_eq_of_forall₂ {β γ : Type} {f : β → γ} {g : α → γ} {xs : List β} {as : List α}
    (h : List.Forall₂ (fun x a => f x = g a) xs as) : xs.map f = as.map g := by
  rwa [← List.forall₂_eq_eq_eq, List.forall₂_map_left_iff, List.forall₂_map_right_iff]

/-- Lists that are the same but for one element are related if their elements are. -/
theorem forall₂_replace {R : α → α → Prop} {before after : List α} {a b : α}
    (hself : ∀ c ∈ before ++ after, R c c) (hab : R a b) :
    List.Forall₂ R (before ++ a :: after) (before ++ b :: after) :=
  List.rel_append (List.forall₂_same.mpr fun c hc => hself c (List.mem_append_left _ hc))
    (.cons hab (List.forall₂_same.mpr fun c hc => hself c (List.mem_append_right _ hc)))

/-- What holds of any two elements of a list holds of those that are related to them. -/
theorem pairwise_of_forall₂ {β : Type} {R : β → α → Prop} {S : β → β → Prop} {T : α → α → Prop}
    {xs : List β} {as : List α} (h : ∀ x y a b, R x a → R y b → S x y → T a b)
    (hR : List.Forall₂ R xs as) (hS : xs.Pairwise S) : as.Pairwise T := by
  induction hR with
  | nil => exact .nil
  | cons hx hxs ih =>
    obtain ⟨hhead, htail⟩ := List.pairwise_cons.mp hS
    refine .cons (fun b hb => ?_) (ih htail)
    obtain ⟨y, hy, hyb⟩ := exists_of_forall₂ hxs hb
    exact h _ y _ b hx hyb (hhead y hy)

/-! ## Number -/

section Count

variable {β : Type} {P : β → Bool} {q : α → Bool} {R : β → List α → Prop} {xs : List β}
  {ts : List (List α)}

/-- A concatenation has no more events of a kind than there are parts that may have one. -/
theorem countP_flatten_le (h : List.Forall₂ R xs ts)
    (hle : ∀ x t, R x t → t.countP q ≤ (P x).toNat) : ts.flatten.countP q ≤ xs.countP P := by
  induction h with
  | nil => exact Nat.le_refl 0
  | @cons x t xs ts hx _ ih =>
    have hone : (P x).toNat = if P x = true then 1 else 0 := by cases P x <;> rfl
    rw [List.flatten_cons, List.countP_append, List.countP_cons, ← hone, Nat.add_comm]
    exact Nat.add_le_add ih (hle x t hx)

/-- A concatenation has at least as many events of a kind as there are parts that have one. -/
theorem countP_le_flatten (h : List.Forall₂ R xs ts)
    (hle : ∀ x t, R x t → P x = true → ∃ a ∈ t, q a = true) :
    xs.countP P ≤ ts.flatten.countP q := by
  induction h with
  | nil => exact Nat.le_refl 0
  | @cons x t xs ts hx _ ih =>
    rw [List.flatten_cons, List.countP_append, List.countP_cons, Nat.add_comm]
    refine Nat.add_le_add ?_ ih
    by_cases hP : P x = true
    · rw [if_pos hP]
      exact List.countP_pos_iff.mpr (hle x t hx hP)
    · rw [if_neg hP]
      exact Nat.zero_le _

/-- What is found first is the only thing that can be found. -/
theorem findSome?_of_countP_le_one {γ : Type} {f : β → Option γ} {x : β} {c : γ}
    (h : xs.countP (fun x => (f x).isSome) ≤ 1) (hx : x ∈ xs) (hc : f x = some c) :
    xs.findSome? f = some c := by
  induction xs with
  | nil => cases hx
  | cons y ys ih =>
    rw [List.findSome?_cons]
    rw [List.countP_cons] at h
    rcases List.mem_cons.mp hx with rfl | hx
    · rw [hc]
    · have hpos : 0 < ys.countP fun x => (f x).isSome :=
        List.countP_pos_iff.mpr ⟨x, hx, by rw [hc]; rfl⟩
      cases hy : f y with
      | none => exact ih (by omega) hx
      | some b =>
        rw [hy] at h
        simp only [Option.isSome_some, if_true] at h
        omega

end Count

/-! ## Order -/

/-- Some event has the first property, and none before it has the second. -/
def MeetsBefore (p q : α → Prop) : List α → Prop
  | [] => False
  | a :: as => p a ∨ ¬ q a ∧ MeetsBefore p q as

section Meets

variable {p q : α → Prop}

theorem meetsBefore_append {as bs : List α} :
    MeetsBefore p q (as ++ bs) ↔
      MeetsBefore p q as ∨ (∀ a ∈ as, ¬ q a) ∧ MeetsBefore p q bs := by
  induction as with
  | nil => simp [MeetsBefore]
  | cons a as ih =>
    rw [List.cons_append, MeetsBefore, ih, MeetsBefore, List.forall_mem_cons]
    tauto

/-- The event that is met, and those around it. -/
theorem meetsBefore_iff_exists {as : List α} :
    MeetsBefore p q as ↔
      ∃ before a after, as = before ++ a :: after ∧ p a ∧ ∀ b ∈ before, ¬ q b := by
  constructor
  · intro h
    induction as with
    | nil => cases h
    | cons a as ih =>
      rcases h with ha | ⟨ha, has⟩
      · exact ⟨[], a, as, rfl, ha, fun _ h => nomatch h⟩
      · obtain ⟨before, b, after, rfl, hb, hbefore⟩ := ih has
        exact ⟨a :: before, b, after, rfl, hb, List.forall_mem_cons.mpr ⟨ha, hbefore⟩⟩
  · rintro ⟨before, a, after, rfl, ha, hbefore⟩
    exact meetsBefore_append.mpr (Or.inr ⟨hbefore, Or.inl ha⟩)

/-- What a concatenation of traces meets, one of them does, and those before it do not prevent it.
-/
theorem meetsBefore_flatten {β : Type} {P Q : β → Prop} {R : β → List α → Prop} {xs : List β}
    {ts : List (List α)} (hR : List.Forall₂ R xs ts)
    (hp : ∀ x t, R x t → MeetsBefore p q t → P x) (hq : ∀ x t, R x t → (∀ a ∈ t, ¬ q a) → ¬ Q x)
    (h : MeetsBefore p q ts.flatten) : MeetsBefore P Q xs := by
  induction hR with
  | nil => exact h
  | cons hx _ ih =>
    rw [List.flatten_cons, meetsBefore_append] at h
    rcases h with h | ⟨hbefore, h⟩
    · exact Or.inl (hp _ _ hx h)
    · exact Or.inr ⟨hq _ _ hx hbefore, ih h⟩

/-- What parts meet, some traces of them do. -/
theorem exists_meetsBefore_flatten {β : Type} {P Q : β → Prop} {R : β → List α → Prop} {xs : List β}
    (hR : ∀ x ∈ xs, ∃ t, R x t) (hp : ∀ x ∈ xs, P x → ∃ t, R x t ∧ MeetsBefore p q t)
    (hq : ∀ x t, R x t → ¬ Q x → ∀ a ∈ t, ¬ q a) (h : MeetsBefore P Q xs) :
    ∃ ts, List.Forall₂ R xs ts ∧ MeetsBefore p q ts.flatten := by
  induction xs with
  | nil => cases h
  | cons x xs ih =>
    have hR' : ∀ y ∈ xs, ∃ t, R y t := fun y hy => hR y (List.mem_cons_of_mem x hy)
    rcases h with hx | ⟨hx, hxs⟩
    · obtain ⟨t, ht, hmeets⟩ := hp x List.mem_cons_self hx
      obtain ⟨ts, hts⟩ := exists_forall₂ hR'
      exact ⟨t :: ts, .cons ht hts, meetsBefore_append.mpr (Or.inl hmeets)⟩
    · obtain ⟨t, ht⟩ := hR x List.mem_cons_self
      obtain ⟨ts, hts, hmeets⟩ := ih hR' (fun y hy => hp y (List.mem_cons_of_mem x hy)) hxs
      exact ⟨t :: ts, .cons ht hts, meetsBefore_append.mpr (Or.inr ⟨hq x t ht hx, hmeets⟩)⟩

end Meets

/-! ## Interleaving -/

/-- The third trace consists of the events of the first two, each in their order. -/
inductive Shuffle : List α → List α → List α → Prop where
  /-- Nothing happens. -/
  | nil : Shuffle [] [] []
  /-- The first trace goes on. -/
  | left (a : α) {as bs cs : List α} (h : Shuffle as bs cs) : Shuffle (a :: as) bs (a :: cs)
  /-- The second trace goes on. -/
  | right (b : α) {as bs cs : List α} (h : Shuffle as bs cs) : Shuffle as (b :: bs) (b :: cs)

/-- A trace consists of the events of several others, each in their order. -/
inductive Interleaving : List (List α) → List α → Prop where
  /-- There is no trace. -/
  | nil : Interleaving [] []
  /-- One more trace is shuffled into the interleaving. -/
  | cons {as bs cs : List α} {ts : List (List α)} (hts : Interleaving ts bs)
      (h : Shuffle as bs cs) : Interleaving (as :: ts) cs

namespace Shuffle

variable {as bs cs : List α}

/-- The events of a shuffle are those of both traces. -/
theorem perm (h : Shuffle as bs cs) : cs.Perm (as ++ bs) := by
  induction h with
  | nil => exact .nil
  | left a _ ih => exact ih.cons a
  | right b _ ih => exact (ih.cons b).trans List.perm_middle.symm

theorem nil_left : ∀ bs : List α, Shuffle [] bs bs
  | [] => .nil
  | b :: bs => .right b (nil_left bs)

/-- The first trace may come first. -/
theorem first (bs : List α) : ∀ as : List α, Shuffle as bs (as ++ bs)
  | [] => nil_left bs
  | a :: as => .left a (first bs as)

/-- What the second trace begins with may come first. -/
theorem prefixed (h : Shuffle as bs cs) : ∀ ds : List α, Shuffle as (ds ++ bs) (ds ++ cs)
  | [] => h
  | d :: ds => .right d (prefixed h ds)

theorem meetsBefore {p q : α → Prop} (h : Shuffle as bs cs) (hcs : MeetsBefore p q cs) :
    MeetsBefore p q as ∨ MeetsBefore p q bs := by
  induction h with
  | nil => exact Or.inl hcs
  | left a _ ih =>
    rcases hcs with ha | ⟨ha, hcs⟩
    · exact Or.inl (Or.inl ha)
    · exact (ih hcs).imp_left fun has => Or.inr ⟨ha, has⟩
  | right b _ ih =>
    rcases hcs with hb | ⟨hb, hcs⟩
    · exact Or.inr (Or.inl hb)
    · exact (ih hcs).imp_right fun hbs => Or.inr ⟨hb, hbs⟩

/-- Both traces are parts of the shuffle, in their order. -/
theorem sublists (h : Shuffle as bs cs) : as.Sublist cs ∧ bs.Sublist cs := by
  induction h with
  | nil => exact ⟨.slnil, .slnil⟩
  | left a _ ih => exact ⟨ih.1.cons_cons a, ih.2.cons a⟩
  | right b _ ih => exact ⟨ih.1.cons b, ih.2.cons_cons b⟩

/-- What holds of any two events of one trace in their order, and of two events of both traces in
any order, holds in the shuffle. -/
theorem pairwise {R : α → α → Prop} (h : Shuffle as bs cs) (has : as.Pairwise R)
    (hbs : bs.Pairwise R) (hboth : ∀ a ∈ as, ∀ b ∈ bs, R a b ∧ R b a) : cs.Pairwise R := by
  induction h with
  | nil => exact .nil
  | left a h ih =>
    obtain ⟨ha, has⟩ := List.pairwise_cons.mp has
    obtain ⟨hab, hboth⟩ := List.forall_mem_cons.mp hboth
    refine .cons (fun c hc => ?_) (ih has hbs hboth)
    rcases List.mem_append.mp (h.perm.mem_iff.mp hc) with hc | hc
    · exact ha c hc
    · exact (hab c hc).1
  | right b h ih =>
    obtain ⟨hb, hbs⟩ := List.pairwise_cons.mp hbs
    refine .cons (fun c hc => ?_)
      (ih has hbs fun a ha c hc => hboth a ha c (List.mem_cons_of_mem b hc))
    rcases List.mem_append.mp (h.perm.mem_iff.mp hc) with hc | hc
    · exact (hboth c hc b List.mem_cons_self).2
    · exact hb c hc

end Shuffle

namespace Interleaving

variable {ts : List (List α)} {t : List α}

/-- The events of an interleaving are those of the concatenation. -/
theorem perm (h : Interleaving ts t) : t.Perm ts.flatten := by
  induction h with
  | nil => exact .nil
  | cons _ h ih => exact h.perm.trans (ih.append_left _)

/-- Every trace is a part of the interleaving, in its order. -/
theorem sublist {u : List α} (h : Interleaving ts t) (hu : u ∈ ts) : u.Sublist t := by
  induction h with
  | nil => cases hu
  | cons _ h ih =>
    rcases List.mem_cons.mp hu with rfl | hu
    · exact h.sublists.1
    · exact (ih hu).trans h.sublists.2

/-- The traces may run one after the other. -/
theorem flatten : ∀ ts : List (List α), Interleaving ts ts.flatten
  | [] => .nil
  | t :: ts => .cons (flatten ts) (Shuffle.first _ t)

/-- Any of the traces may run first. -/
theorem exists_first (h : t ∈ ts) : ∃ u, Interleaving ts (t ++ u) := by
  induction ts with
  | nil => cases h
  | cons s ts ih =>
    rcases List.mem_cons.mp h with rfl | h
    · exact ⟨_, .cons (flatten ts) (Shuffle.first _ _)⟩
    · obtain ⟨u, hu⟩ := ih h
      exact ⟨s ++ u, .cons hu ((Shuffle.first u s).prefixed t)⟩

/-- Of two traces either may run first. -/
theorem exists_swapped {u v : List α} (h : [u, v].Sublist ts) :
    ∃ t, Interleaving ts t ∧ (v ++ u).Sublist t := by
  generalize huv : [u, v] = us at h
  induction h with
  | slnil => cases huv
  | cons s _ ih =>
    obtain ⟨t, ht, hsub⟩ := ih huv
    exact ⟨s ++ t, .cons ht (Shuffle.first t s), hsub.trans (List.sublist_append_right s t)⟩
  | cons_cons _ h _ =>
    cases huv
    obtain ⟨w, hw⟩ := exists_first (List.singleton_sublist.mp h)
    refine ⟨v ++ (u ++ w), .cons hw ((Shuffle.first w u).prefixed v), ?_⟩
    exact (List.Sublist.refl v).append (List.sublist_append_left u w)

/-- What holds of any two events of one trace in their order, and of two events of different traces
in any order, holds in the interleaving. -/
theorem pairwise {R : α → α → Prop} (h : Interleaving ts t) (hts : ∀ u ∈ ts, u.Pairwise R)
    (hboth : ts.Pairwise fun u v => ∀ a ∈ u, ∀ b ∈ v, R a b ∧ R b a) : t.Pairwise R := by
  induction h with
  | nil => exact .nil
  | cons hts' h ih =>
    obtain ⟨hhead, htail⟩ := List.pairwise_cons.mp hboth
    obtain ⟨hfirst, hrest⟩ := List.forall_mem_cons.mp hts
    refine h.pairwise hfirst (ih hrest htail) fun a ha b hb => ?_
    obtain ⟨u, hu, hb⟩ := List.mem_flatten.mp (hts'.perm.mem_iff.mp hb)
    exact hhead u hu a ha b hb

/-- What an interleaving meets before something, one of the traces does. -/
theorem exists_meetsBefore {p q : α → Prop} (h : Interleaving ts t) (ht : MeetsBefore p q t) :
    ∃ u ∈ ts, MeetsBefore p q u := by
  induction h with
  | nil => cases ht
  | cons _ h ih =>
    rcases h.meetsBefore ht with h | h
    · exact ⟨_, List.mem_cons_self, h⟩
    · obtain ⟨u, hu, hmeets⟩ := ih h
      exact ⟨u, List.mem_cons_of_mem _ hu, hmeets⟩

end Interleaving

end Correlation
