import Mathlib

/-!
# Support — counting processes by their state

Processes `0, 1, …, n - 1`, process `i` in state `f i`, and a property `q` of states:
`Count.below n f q` is the number of processes whose state has `q`.  A counter of a program
that tracks how many processes are in some part of their code is, as an invariant, such a
count.

* `below_update`: moving one process changes the count by what it moved from and to;
  `below_update_sub` is the case of a process that leaves `q`.
* `below_succ_update`: a new process, numbered `n`, adds its own state to the count.
* `exists_of_below_pos`, `below_pos`: a positive count names a process, and a process in `q`
  makes the count positive.
-/

namespace Count

open Function

variable {β : Type*} {n c : Nat} {f : Nat → β} {q : β → Bool}

/-- The processes below `n` whose state has `q`. -/
def below (n : Nat) (f : Nat → β) (q : β → Bool) : Nat :=
  (List.range n).countP fun i => q (f i)

@[simp] theorem below_zero : below 0 f q = 0 := rfl

theorem below_succ : below (n + 1) f q = below n f q + (q (f n)).toNat := by
  cases h : q (f n) <;> simp [below, List.range_succ, List.countP_append, h]

theorem below_congr {g : Nat → β} (h : ∀ i < n, q (f i) = q (g i)) :
    below n f q = below n g q :=
  List.countP_congr fun i hi => by rw [h i (List.mem_range.mp hi)]

/-- **Moving one process** changes the count by what it moved from and to. -/
theorem below_update (hc : c < n) (p : β) :
    below n (update f c p) q + (q (f c)).toNat = below n f q + (q p).toNat := by
  -- induction on the number of processes, the last of them being `c` or not
  induction n with
  | zero => omega
  | succ n ih =>
      rw [below_succ, below_succ]
      rcases Nat.lt_succ_iff_lt_or_eq.mp hc with hlt | rfl
      · have := ih hlt
        rw [update_of_ne (Nat.ne_of_gt hlt)]
        omega
      · have hsame : below c (update f c p) q = below c f q :=
          below_congr fun i hi => by rw [update_of_ne (Nat.ne_of_lt hi)]
        rw [hsame, update_self]
        omega

/-- A process that moves out of `q` takes one from the count. -/
theorem below_update_sub (hc : c < n) {p : β} (h1 : q (f c) = true) (h0 : q p = false) :
    below n (update f c p) q + 1 = below n f q := by
  have := below_update (q := q) (f := f) hc p
  rw [h0, h1] at this
  simpa using this

/-- **A new process**, numbered `n`, adds its own state to the count. -/
theorem below_succ_update (p : β) :
    below (n + 1) (update f n p) q = below n f q + (q p).toNat := by
  rw [below_succ, update_self,
    below_congr fun i hi => by rw [update_of_ne (Nat.ne_of_lt hi)]]

theorem exists_of_below_pos (h : 0 < below n f q) : ∃ i < n, q (f i) = true := by
  obtain ⟨i, hi, hq⟩ := List.countP_pos_iff.mp h
  exact ⟨i, List.mem_range.mp hi, hq⟩

theorem below_pos (hc : c < n) (hq : q (f c) = true) : 0 < below n f q :=
  List.countP_pos_iff.mpr ⟨c, List.mem_range.mpr hc, hq⟩

end Count
