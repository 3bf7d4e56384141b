import Mathlib

/-!
# Support — Multimap

An ordered multimap as the list of its entries in iteration order, kept sorted by key.  A
new entry goes after every entry whose key is not greater (the upper bound of its key), so
entries with one key stay in the order they were inserted: the `(key, insertion)` order of
`std::multimap`.

* `insert`, with `perm_insert` and `sublist_insert`: the other entries keep their order.
* `sorted_insert`: insertion keeps the list sorted; `Sorted.sublist` for what removes entries.
* `insert_split`: on a sorted list the new entry stands after every key at most its own and
  before every greater key.
* `pairwise_move`, `pairwise_insert`: moving an element that `P` relates both ways to
  everything, or inserting one that `P` relates to what is before and after it, keeps
  `List.Pairwise P`; `pair_sublist_append` says where a pair of a list grown at its end is.
-/

namespace Multimap

section TakesPrefix

variable {κ α : Type*}

/-- Entries leave `m` only from its front: after some prefix, every entry of `m` is still in
`m'`, in order. -/
def TakesPrefix (m m' : List (κ × α)) : Prop := ∃ pre rest, m = pre ++ rest ∧ List.Sublist rest m'

theorem TakesPrefix.of_sublist {m m' : List (κ × α)} (h : List.Sublist m m') : TakesPrefix m m' :=
  ⟨[], m, rfl, h⟩

theorem TakesPrefix.of_append {m m' pre : List (κ × α)} (h : m = pre ++ m') : TakesPrefix m m' :=
  ⟨pre, m', h, List.Sublist.refl _⟩

end TakesPrefix

variable {κ α : Type*} [LinearOrder κ]

/-- `insert` of `std::multimap`: after every entry whose key is not greater. -/
def insert (k : κ) (a : α) : List (κ × α) → List (κ × α)
  | [] => [(k, a)]
  | e :: m => if k < e.1 then (k, a) :: e :: m else e :: insert k a m

/-- The entries are in the order of their keys. -/
def Sorted (m : List (κ × α)) : Prop := m.Pairwise (fun e f => e.1 ≤ f.1)

theorem perm_insert (k : κ) (a : α) (m : List (κ × α)) : (insert k a m).Perm ((k, a) :: m) := by
  induction m with
  | nil => simp [insert]
  | cons e m ih =>
      simp only [insert]
      split
      · exact List.Perm.refl _
      · exact (ih.cons e).trans (List.Perm.swap (k, a) e m)

theorem mem_insert {k : κ} {a : α} {m : List (κ × α)} {e : κ × α} :
    e ∈ insert k a m ↔ e = (k, a) ∨ e ∈ m := by
  rw [(perm_insert k a m).mem_iff, List.mem_cons]

/-- The values after an insertion, as a multiset. -/
theorem map_snd_insert (k : κ) (a : α) (m : List (κ × α)) :
    (↑((insert k a m).map Prod.snd) : Multiset α) = ↑(m.map Prod.snd) + {a} := by
  rw [Multiset.coe_eq_coe.mpr ((perm_insert k a m).map Prod.snd)]
  simp [add_comm]

theorem sublist_insert (k : κ) (a : α) (m : List (κ × α)) : List.Sublist m (insert k a m) := by
  induction m with
  | nil => simp [insert]
  | cons e m ih =>
      simp only [insert]
      split
      · exact List.sublist_cons_self _ _
      · exact ih.cons_cons e

theorem Sorted.sublist {m m' : List (κ × α)} (h : List.Sublist m' m) (hm : Sorted m) : Sorted m' :=
  List.Pairwise.sublist h hm

theorem sorted_insert (k : κ) (a : α) {m : List (κ × α)} (hm : Sorted m) :
    Sorted (insert k a m) := by
  induction m with
  | nil => simp [insert, Sorted]
  | cons e m ih =>
      have he := List.pairwise_cons.mp hm
      simp only [insert]
      split
      · rename_i hlt
        refine List.pairwise_cons.mpr ⟨?_, hm⟩
        intro f hf
        rcases List.mem_cons.mp hf with rfl | hf
        · exact le_of_lt hlt
        · exact le_trans (le_of_lt hlt) (he.1 f hf)
      · rename_i hlt
        refine List.pairwise_cons.mpr ⟨?_, ih he.2⟩
        intro f hf
        rcases mem_insert.mp hf with rfl | hf
        · exact le_of_not_gt hlt
        · exact he.1 f hf

/-- Where `insert` puts the entry: after the keys at most its own, before the greater ones. -/
theorem insert_split (k : κ) (a : α) {m : List (κ × α)} (hm : Sorted m) :
    ∃ l₁ l₂, m = l₁ ++ l₂ ∧ insert k a m = l₁ ++ (k, a) :: l₂ ∧
      (∀ e ∈ l₁, e.1 ≤ k) ∧ ∀ e ∈ l₂, k < e.1 := by
  induction m with
  | nil => exact ⟨[], [], rfl, rfl, by simp, by simp⟩
  | cons e m ih =>
      have he := List.pairwise_cons.mp hm
      by_cases hlt : k < e.1
      · refine ⟨[], e :: m, rfl, by simp [insert, hlt], by simp, ?_⟩
        intro f hf
        rcases List.mem_cons.mp hf with rfl | hf
        · exact hlt
        · exact lt_of_lt_of_le hlt (he.1 f hf)
      · obtain ⟨l₁, l₂, hm', hi, h₁, h₂⟩ := ih he.2
        refine ⟨e :: l₁, l₂, by simp [hm'], by simp [insert, hlt, hi], ?_, h₂⟩
        intro f hf
        rcases List.mem_cons.mp hf with rfl | hf
        · exact le_of_not_gt hlt
        · exact h₁ f hf

/-- Moving `t` within a list, when `P` relates it both ways to everything, keeps the other
elements' `Pairwise P`. -/
theorem pairwise_move {β : Type*} {P : β → β → Prop} {t : β} (ht : ∀ x, P x t ∧ P t x)
    {A B₁ B₂ : List β} (h : (A ++ t :: (B₁ ++ B₂)).Pairwise P) :
    (A ++ B₁ ++ t :: B₂).Pairwise P := by
  simp only [List.pairwise_append, List.pairwise_cons, List.mem_append, List.mem_cons] at h ⊢
  obtain ⟨hA, ⟨-, hB₁, hB₂, hB⟩, hAt⟩ := h
  refine ⟨⟨hA, hB₁, fun x hx y hy => hAt x hx y (.inr (.inl hy))⟩, ⟨fun x _ => (ht x).2, hB₂⟩, ?_⟩
  rintro x (hx | hx) y (rfl | hy)
  · exact (ht x).1
  · exact hAt x hx y (.inr (.inr hy))
  · exact (ht x).1
  · exact hB x hx y hy

/-- Inserting `t` into a list keeps `Pairwise P` when `t` is related to everything before it
and everything after it. -/
theorem pairwise_insert {β : Type*} {P : β → β → Prop} {t : β} {A B : List β}
    (h : (A ++ B).Pairwise P) (hA : ∀ a ∈ A, P a t) (hB : ∀ b ∈ B, P t b) :
    (A ++ t :: B).Pairwise P := by
  rw [List.pairwise_append] at h ⊢
  obtain ⟨hA', hB', hAB⟩ := h
  refine ⟨hA', List.pairwise_cons.mpr ⟨hB, hB'⟩, ?_⟩
  intro a ha b hb
  rcases List.mem_cons.mp hb with rfl | hb
  · exact hA a ha
  · exact hAB a ha b hb

/-- A pair taken from a list with one more element at its end is a pair of the list, or ends
with that element. -/
theorem pair_sublist_append {β : Type*} {p q r : β} {l : List β}
    (h : List.Sublist [p, q] (l ++ [r])) : List.Sublist [p, q] l ∨ (p ∈ l ∧ q = r) := by
  obtain ⟨l₁, l₂, he, h₁, h₂⟩ := List.sublist_append_iff.mp h
  rcases l₁ with _ | ⟨a, _ | ⟨b, _ | ⟨c, l₁⟩⟩⟩
  · simp at he
    subst he
    simp at h₂
  · simp at he
    obtain ⟨rfl, rfl⟩ := he
    simp at h₁ h₂
    exact .inr ⟨h₁, h₂⟩
  · simp at he
    obtain ⟨rfl, rfl, rfl⟩ := he
    exact .inl h₁
  · simp at he

/-! ### A vector of maps -/

section Vector

variable {ι κ α : Type*} [Fintype ι]

/-- The values of a vector of maps, counted with multiplicity. -/
def values (v : ι → List (κ × α)) : Multiset α := ∑ i, (↑((v i).map Prod.snd) : Multiset α)

/-- Replacing one map of the vector replaces its values. -/
theorem values_update [DecidableEq ι] (v : ι → List (κ × α)) (i : ι) (l : List (κ × α)) :
    values (Function.update v i l) + ↑((v i).map Prod.snd) = values v + ↑(l.map Prod.snd) := by
  have hv : (fun j => (↑((Function.update v i l j).map Prod.snd) : Multiset α)) =
      Function.update (fun j => (↑((v j).map Prod.snd) : Multiset α)) i ↑(l.map Prod.snd) := by
    funext j
    exact Function.apply_update (fun _ m => (↑(m.map Prod.snd) : Multiset α)) v i l j
  unfold values
  rw [hv, Finset.sum_update_of_mem (Finset.mem_univ i),
    ← Finset.add_sum_erase _ _ (Finset.mem_univ i), Finset.sdiff_singleton_eq_erase]
  abel

/-- Maps that each keep some of their entries keep some of the values. -/
theorem values_le {v v' : ι → List (κ × α)} (h : ∀ i, List.Sublist (v' i) (v i)) :
    values v' ≤ values v :=
  Finset.sum_le_sum fun i _ => Multiset.coe_le.mpr ((h i).map _).subperm

end Vector

end Multimap
