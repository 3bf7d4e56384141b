import Mathlib

/-!
# Support — Machine

A machine whose steps are computed: `step s a` is the state the action `a` leads to from `s`,
or `none` when `a` is not enabled in `s`.  Threads that interleave are such a machine, whose
actions name the thread and the critical section it runs; a run is the list of actions, in the
order the sections took their locks.

* `run`: the state a list of actions leads to (`run_append` splits it).
* `Reach`: reachability, with the step last, so that a property of every reachable state is
  proved by induction from the start; every run reaches its end (`reach_of_run`).
* `Invariant`: a property every step keeps; it holds of every reachable state
  (`Invariant.reach`).
* `restrict step ok`: the steps that end where `ok` holds, for the runs that never leave it.
* `ghost step upd`: the machine with a ghost record of its run beside the state, which no step
  reads (`ghost_eq_some`).
* `Leads ok s t`: `t` is reached from `s` by actions that `ok` allows, which is how progress
  that needs only some of the parties is stated; `Leads.trans` composes such runs, and
  `Leads.invariant` carries a property that the allowed steps keep.
* `TokenHeld token holds`: a lock word that is `1` exactly when one party holds it, and never
  held by two; a compare-exchange from `0` to `1` hands it to one party (`TokenHeld.acquire`),
  and the holder's from `1` to `0` gives it back (`TokenHeld.release`).
* `not_always_of_run`: one run ending where a property fails refutes "always";
  `failsAfter` computes that a run ends so, and `not_always_of_failsAfter` takes its answer;
  `holdsAfter` and `exists_of_holdsAfter` do the same for a state a run reaches.
-/

namespace Machine

variable {σ α : Type*}

/-- The state `as` leads to from `s`, or `none` when an action of `as` is not enabled. -/
def run (step : σ → α → Option σ) : σ → List α → Option σ
  | s, [] => some s
  | s, a :: as =>
      match step s a with
      | some t => run step t as
      | none => none

section

variable {step : σ → α → Option σ}

@[simp] theorem run_nil (s : σ) : run step s [] = some s := rfl

theorem run_cons (s : σ) (a : α) (as : List α) :
    run step s (a :: as) = (step s a).bind (fun t => run step t as) := by
  simp only [run]
  cases step s a <;> rfl

theorem run_append (s : σ) (as bs : List α) :
    run step s (as ++ bs) = (run step s as).bind (fun t => run step t bs) := by
  induction as generalizing s with
  | nil => rfl
  | cons a as ih =>
      rw [List.cons_append, run_cons, run_cons]
      cases step s a with
      | none => rfl
      | some t => exact ih t

end

/-- `t` is reachable from `s₀`: by no step, or by one more step from a reachable state. -/
inductive Reach (step : σ → α → Option σ) (s₀ : σ) : σ → Prop
  | init : Reach step s₀ s₀
  | next {s t : σ} (a : α) : Reach step s₀ s → step s a = some t → Reach step s₀ t

section

variable {step : σ → α → Option σ}

theorem Reach.trans {s₀ s t : σ} (h₁ : Reach step s₀ s) (h₂ : Reach step s t) :
    Reach step s₀ t := by
  induction h₂ with
  | init => exact h₁
  | next a _ hs ih => exact .next a ih hs

theorem Reach.one {s t : σ} (a : α) (h : step s a = some t) : Reach step s t :=
  .next a .init h

theorem reach_of_run {s t : σ} {as : List α} (h : run step s as = some t) : Reach step s t := by
  induction as generalizing s with
  | nil =>
      cases h
      exact .init
  | cons a as ih =>
      rw [run_cons] at h
      cases hs : step s a with
      | none => rw [hs] at h; cases h
      | some u =>
          rw [hs] at h
          exact (Reach.one a hs).trans (ih h)

end

/-- The steps of `step` that end where `ok` holds: its runs are the runs of `step` that never
leave `ok`. -/
def restrict (step : σ → α → Option σ) (ok : σ → Bool) (s : σ) (a : α) : Option σ :=
  (step s a).filter ok

theorem restrict_eq_some {step : σ → α → Option σ} {ok : σ → Bool} {s t : σ} {a : α} :
    restrict step ok s a = some t ↔ step s a = some t ∧ ok t = true :=
  Option.filter_eq_some_iff

/-- The machine `step` with a ghost beside its state: each step updates the ghost from the
state it starts in and its action, and no step reads it. -/
def ghost {γ : Type*} (step : σ → α → Option σ) (upd : σ → α → γ → γ) (p : σ × γ) (a : α) :
    Option (σ × γ) :=
  (step p.1 a).map fun t => (t, upd p.1 a p.2)

section Ghost

variable {γ : Type*} {step : σ → α → Option σ} {upd : σ → α → γ → γ}

theorem ghost_eq_some {p q : σ × γ} {a : α} :
    ghost step upd p a = some q ↔ step p.1 a = some q.1 ∧ q.2 = upd p.1 a p.2 := by
  obtain ⟨t, g⟩ := q
  constructor
  · intro h
    obtain ⟨t', ht', he⟩ := Option.map_eq_some_iff.mp h
    cases he
    exact ⟨ht', rfl⟩
  · rintro ⟨ht, rfl⟩
    simp [ghost, ht]

end Ghost

/-- `t` is reached from `s` by a run of actions that `ok` allows. -/
def Leads (step : σ → α → Option σ) (ok : α → Prop) (s t : σ) : Prop :=
  ∃ as, (∀ a ∈ as, ok a) ∧ run step s as = some t

namespace Leads

variable {step : σ → α → Option σ} {ok : α → Prop}

theorem refl (s : σ) : Leads step ok s s := ⟨[], by simp, rfl⟩

theorem single {s t : σ} {a : α} (ha : ok a) (h : step s a = some t) : Leads step ok s t :=
  ⟨[a], by simp [ha], by simp [run_cons, h]⟩

theorem trans {s t u : σ} (h₁ : Leads step ok s t) (h₂ : Leads step ok t u) :
    Leads step ok s u := by
  obtain ⟨as, has, hr⟩ := h₁
  obtain ⟨bs, hbs, hr'⟩ := h₂
  refine ⟨as ++ bs, fun a ha => ?_, by rw [run_append, hr]; exact hr'⟩
  rcases List.mem_append.mp ha with ha | ha
  · exact has a ha
  · exact hbs a ha

/-- One allowed step, then an allowed run. -/
theorem head {s t u : σ} {a : α} (ha : ok a) (h : step s a = some t) (h' : Leads step ok t u) :
    Leads step ok s u :=
  (single ha h).trans h'

theorem reach {s t : σ} (h : Leads step ok s t) : Reach step s t := by
  obtain ⟨_, -, hr⟩ := h
  exact reach_of_run hr

/-- **A property that every allowed step keeps holds along every allowed run.** -/
theorem invariant {P : σ → Prop} (hP : ∀ s a t, ok a → P s → step s a = some t → P t)
    {s t : σ} (h₀ : P s) (h : Leads step ok s t) : P t := by
  obtain ⟨as, has, hr⟩ := h
  -- induction on the run, from its first action
  induction as generalizing s with
  | nil =>
      rw [run_nil, Option.some.injEq] at hr
      exact hr ▸ h₀
  | cons a as ih =>
      rw [run_cons] at hr
      cases hs : step s a with
      | none => rw [hs] at hr; cases hr
      | some u =>
          rw [hs] at hr
          exact ih (hP s a u (has a List.mem_cons_self) h₀ hs)
            (fun b hb => has b (List.mem_cons_of_mem a hb)) hr

end Leads

/-- `P` is kept by every step. -/
def Invariant (step : σ → α → Option σ) (P : σ → Prop) : Prop :=
  ∀ s a t, P s → step s a = some t → P t

namespace Invariant

variable {step : σ → α → Option σ} {P Q : σ → Prop}

/-- **An invariant holds of every reachable state.** -/
theorem reach (hP : Invariant step P) {s₀ s : σ} (h₀ : P s₀) (h : Reach step s₀ s) : P s := by
  induction h with
  | init => exact h₀
  | next a _ hs ih => exact hP _ a _ ih hs

theorem and (hP : Invariant step P) (hQ : Invariant step Q) :
    Invariant step (fun s => P s ∧ Q s) :=
  fun s a t ⟨hp, hq⟩ hs => ⟨hP s a t hp hs, hQ s a t hq hs⟩

end Invariant

/-- A lock word `token` and the parties `holds` that hold it: `1` exactly when some party holds
it, and never two parties. -/
structure TokenHeld {ι : Type*} (token : Nat) (holds : ι → Prop) : Prop where
  le_one : token ≤ 1
  held : token = 1 ↔ ∃ x, holds x
  unique : ∀ x y, holds x → holds y → x = y

namespace TokenHeld

variable {ι : Type*} {token : Nat} {H H' : ι → Prop}

/-- A holder sees the word at `1`. -/
theorem eq_one (h : TokenHeld token H) {x : ι} (hx : H x) : token = 1 :=
  h.held.mpr ⟨x, hx⟩

/-- With the word at `0` no party holds it. -/
theorem not_holds (h : TokenHeld 0 H) (x : ι) : ¬ H x := fun hx => by
  have := h.eq_one hx
  omega

/-- Moves that keep the holders keep the word's meaning. -/
theorem congr (h : TokenHeld token H) (hH : ∀ x, H' x ↔ H x) : TokenHeld token H' where
  le_one := h.le_one
  held := by simp only [hH]; exact h.held
  unique x y hx hy := h.unique x y ((hH x).mp hx) ((hH y).mp hy)

/-- **A compare-exchange from `0` to `1`** makes its party the one holder. -/
theorem acquire (h : TokenHeld 0 H) (x₀ : ι) (hH : ∀ x, H' x ↔ H x ∨ x = x₀) :
    TokenHeld 1 H' where
  le_one := le_refl _
  held := ⟨fun _ => ⟨x₀, (hH x₀).mpr (.inr rfl)⟩, fun _ => rfl⟩
  unique x y hx hy := by
    rcases (hH x).mp hx with hx | rfl
    · exact absurd hx (h.not_holds x)
    rcases (hH y).mp hy with hy | rfl
    · exact absurd hy (h.not_holds y)
    rfl

/-- **The holder's compare-exchange from `1` to `0`** leaves the word held by no one. -/
theorem release (h : TokenHeld 1 H) {x₀ : ι} (hx₀ : H x₀) (hH : ∀ x, H' x ↔ H x ∧ x ≠ x₀) :
    TokenHeld 0 H' where
  le_one := Nat.zero_le _
  held := ⟨fun h => absurd h (by omega), fun ⟨x, hx⟩ => by
    obtain ⟨hx, hne⟩ := (hH x).mp hx
    exact absurd (h.unique x x₀ hx hx₀) hne⟩
  unique x _ hx := by
    obtain ⟨hx, hne⟩ := (hH x).mp hx
    exact absurd (h.unique x x₀ hx hx₀) hne

end TokenHeld

/-- **A run refutes "always".**  If some run from `s₀` ends in a state where `P` fails, `P`
does not hold of every state reachable from `s₀`. -/
theorem not_always_of_run {step : σ → α → Option σ} {P : σ → Prop} {s₀ t : σ} {as : List α}
    (h : run step s₀ as = some t) (hP : ¬ P t) : ¬ ∀ s, Reach step s₀ s → P s :=
  fun hall => hP (hall t (reach_of_run h))

/-- `P` fails at the end of the run `as` from `s₀` (`false` when the run gets stuck). -/
def failsAfter (step : σ → α → Option σ) (s₀ : σ) (as : List α) (P : σ → Prop)
    [DecidablePred P] : Bool :=
  match run step s₀ as with
  | some t => !decide (P t)
  | none => false

theorem not_always_of_failsAfter {step : σ → α → Option σ} {P : σ → Prop} [DecidablePred P]
    {s₀ : σ} (as : List α) (h : failsAfter step s₀ as P = true) :
    ¬ ∀ s, Reach step s₀ s → P s := by
  unfold failsAfter at h
  split at h
  · rename_i t ht
    exact not_always_of_run ht (by simpa using h)
  · cases h

/-- `P` holds at the end of the run `as` from `s₀` (`false` when the run gets stuck). -/
def holdsAfter (step : σ → α → Option σ) (s₀ : σ) (as : List α) (P : σ → Prop)
    [DecidablePred P] : Bool :=
  match run step s₀ as with
  | some t => decide (P t)
  | none => false

/-- The run `as` ends in a state where `P` holds. -/
theorem exists_run_of_holdsAfter {step : σ → α → Option σ} {P : σ → Prop} [DecidablePred P]
    {s₀ : σ} (as : List α) (h : holdsAfter step s₀ as P = true) :
    ∃ s, run step s₀ as = some s ∧ P s := by
  unfold holdsAfter at h
  split at h
  · rename_i t ht
    exact ⟨t, ht, of_decide_eq_true h⟩
  · cases h

/-- **A run reaches `P`.**  The state at the end of a run where `P` holds is reachable. -/
theorem exists_of_holdsAfter {step : σ → α → Option σ} {P : σ → Prop} [DecidablePred P]
    {s₀ : σ} (as : List α) (h : holdsAfter step s₀ as P = true) :
    ∃ s, Reach step s₀ s ∧ P s := by
  obtain ⟨t, ht, hP⟩ := exists_run_of_holdsAfter as h
  exact ⟨t, reach_of_run ht, hP⟩

/-- **A run of allowed actions leads to `P`.**  The actions allowed are given first, since
neither the run nor `P` determines them. -/
theorem Leads.exists_of_holdsAfter {step : σ → α → Option σ} (ok : α → Prop) {P : σ → Prop}
    [DecidablePred P] {s₀ : σ} (as : List α) (hok : ∀ a ∈ as, ok a)
    (h : holdsAfter step s₀ as P = true) : ∃ s, Leads step ok s₀ s ∧ P s := by
  obtain ⟨t, ht, hP⟩ := exists_run_of_holdsAfter as h
  exact ⟨t, ⟨as, hok, ht⟩, hP⟩

end Machine
