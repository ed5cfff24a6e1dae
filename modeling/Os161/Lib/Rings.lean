import Mathlib.Logic.Relation

/-! # Walks along a single-valued relation

A walk goes on until there is no next element or the next one is where it started. It never
ends exactly if it gets into a ring that its start is not part of. -/
namespace Os161.Lib

open Relation

variable {α : Type} {r : α → α → Prop}

/-- The walk from `a` comes to an element with no successor, or with the successor `a`. -/
def Halts (r : α → α → Prop) (a : α) : Prop :=
  ∃ b, ReflTransGen r a b ∧ ((∀ c, ¬ r b c) ∨ r b a)

theorem Halts.of_ring {a : α} (h : TransGen r a a) : Halts r a := by
  obtain ⟨b, hab, hba⟩ := TransGen.tail'_iff.mp h
  exact ⟨b, hab, .inr hba⟩

/-- What an element of a ring leads to leads back to it. -/
theorem ring_back (hr : Relator.RightUnique r) {a b : α} (ha : TransGen r a a)
    (hab : ReflTransGen r a b) : ReflTransGen r b a := by
  induction hab with
  | refl => exact .refl
  | @tail b c hb hbc ih =>
    rcases ReflTransGen.cases_head ih with rfl | ⟨d, hbd, hda⟩
    · obtain ⟨d, hbd, hdb⟩ := TransGen.head'_iff.mp ha
      exact hr hbc hbd ▸ hdb
    · exact hr hbc hbd ▸ hda

/-- A walk that halts stays out of every ring that its start is not part of. -/
theorem Halts.back (hr : Relator.RightUnique r) {a b : α} (h : Halts r a)
    (hab : ReflTransGen r a b) (hb : TransGen r b b) : ReflTransGen r b a := by
  obtain ⟨c, hac, hend⟩ := h
  -- the walk is in the ring at its end, or not yet
  have hcb : ReflTransGen r c b := by
    rcases ReflTransGen.total_of_right_unique hr hab hac with hbc | hcb
    · exact ring_back hr hb hbc
    · exact hcb
  rcases hend with hdead | hca
  · rcases ReflTransGen.cases_head hcb with rfl | ⟨d, hcd, -⟩
    · obtain ⟨d, hcd, -⟩ := TransGen.head'_iff.mp hb
      exact absurd hcd (hdead d)
    · exact absurd hcd (hdead d)
  · exact ring_back hr (TransGen.tail' hac hca) hab

end Os161.Lib
