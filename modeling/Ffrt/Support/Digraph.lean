import Mathlib.Logic.Relation

/-!
# Support — Digraph

Cycles of a relation `r`, a cycle being a vertex that `r` reaches from itself in one step or
more (`Relation.TransGen r a a`), and the sets of vertices a depth-first search finishes.

* `Closed`: a set that every edge out of it stays in; `Closed.transGen`: so does every path.
* `Acyclic`: no vertex of the set is on a cycle.
* `Closed.insert`, `Acyclic.insert`: a closed set with no cycle, grown by a vertex whose edges
  all lead into it, is again closed and has no cycle: a cycle through the new vertex would
  return to it from the set, which no path leaves.
-/

namespace Digraph

open Relation

variable {α : Type*} {r : α → α → Prop} {S : α → Prop}

/-- Every edge out of `S` leads into `S`. -/
def Closed (r : α → α → Prop) (S : α → Prop) : Prop := ∀ a b, r a b → S a → S b

/-- No vertex of `S` is on a cycle. -/
def Acyclic (r : α → α → Prop) (S : α → Prop) : Prop := ∀ a, S a → ¬ TransGen r a a

/-- **No path leaves a closed set.** -/
theorem Closed.transGen (hS : Closed r S) {a b : α} (h : TransGen r a b) (ha : S a) : S b := by
  induction h with
  | single hab => exact hS _ _ hab ha
  | tail _ hbc ih => exact hS _ _ hbc ih

/-- A closed set grown by a vertex whose edges all lead into it is closed. -/
theorem Closed.insert (hS : Closed r S) {v : α} (hv : ∀ w, r v w → S w) :
    Closed r (fun a => S a ∨ a = v) := by
  rintro a b hab (ha | rfl)
  · exact .inl (hS a b hab ha)
  · exact .inl (hv b hab)

/-- **A vertex added on top of a closed set with no cycle is on no cycle.**  A cycle through
`v` leaves it by an edge into `S`, and no path comes back out of `S` to `v`. -/
theorem Acyclic.insert (hS : Closed r S) (hA : Acyclic r S) {v : α} (hvS : ¬ S v)
    (hv : ∀ w, r v w → S w) : Acyclic r (fun a => S a ∨ a = v) := by
  rintro a (ha | rfl) hcyc
  · exact hA a ha hcyc
  · obtain ⟨w, hvw, hwv⟩ := TransGen.head'_iff.mp hcyc
    rcases reflTransGen_iff_eq_or_transGen.mp hwv with rfl | hpath
    · exact hvS (hv _ hvw)
    · exact hvS (hS.transGen hpath (hv w hvw))

end Digraph
