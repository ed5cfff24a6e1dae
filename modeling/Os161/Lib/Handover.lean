import Mathlib.Data.List.Nodup
import Mathlib.Data.List.Perm.Subperm
import Mathlib.Logic.Function.Basic

/-! # Handing over each item once

An item comes in with a carrier that has none, and goes out from there. However the carriers are
interleaved, no item goes out twice, and when all carriers are free every item has gone out. -/
namespace Os161.Lib

structure Handover (K C : Type) where
  passed : List C
  done : List C
  carried : K → Option C

namespace Handover

variable {K C : Type} {h : Handover K C}

/-- Each item that came in has gone out, once, or is with one carrier. -/
structure Once (h : Handover K C) : Prop where
  passed : h.passed.Nodup
  done : h.done.Nodup
  came : ∀ c ∈ h.done, c ∈ h.passed
  carried : ∀ k c, h.carried k = some c → c ∈ h.passed ∧ c ∉ h.done
  alone : ∀ k k' c, h.carried k = some c → h.carried k' = some c → k = k'
  covered : ∀ c ∈ h.passed, c ∈ h.done ∨ ∃ k, h.carried k = some c

theorem Once.length_le (h1 : Once h) : h.done.length ≤ h.passed.length :=
  (h1.done.subperm h1.came).length_le

/-- As many items out as in are all of them. -/
theorem Once.perm (h1 : Once h) (hlen : h.passed.length ≤ h.done.length) :
    h.done.Perm h.passed :=
  (h1.done.subperm h1.came).perm_of_length_le hlen

theorem Once.exists_carried (h1 : Once h) (hlen : h.done.length < h.passed.length) :
    ∃ k c, h.carried k = some c := by
  by_contra hnone
  have hall : ∀ c ∈ h.passed, c ∈ h.done := fun c hc =>
    (h1.covered c hc).resolve_right fun ⟨k, hk⟩ => hnone ⟨k, c, hk⟩
  have hle := (h1.passed.subperm hall).length_le
  omega

theorem Once.empty (K C : Type) : Once (⟨[], [], fun _ => none⟩ : Handover K C) :=
  ⟨List.nodup_nil, List.nodup_nil, nofun, nofun, nofun, nofun⟩

variable [DecidableEq K]

/-- Carrier `k` gets an item. -/
def take (h : Handover K C) (k : K) (c : C) : Handover K C where
  passed := h.passed ++ [c]
  done := h.done
  carried := Function.update h.carried k (some c)

/-- Carrier `k`, with the item `c`, hands it over. -/
def give (h : Handover K C) (k : K) (c : C) : Handover K C where
  passed := h.passed
  done := h.done ++ [c]
  carried := Function.update h.carried k none

theorem carried_take {k x : K} {c d : C} (hx : (h.take k c).carried x = some d) :
    x = k ∧ d = c ∨ x ≠ k ∧ h.carried x = some d := by
  change Function.update h.carried k (some c) x = some d at hx
  rw [Function.update_apply] at hx
  split at hx
  · next heq => exact .inl ⟨heq, (Option.some.inj hx).symm⟩
  · next hne => exact .inr ⟨hne, hx⟩

theorem carried_give {k x : K} {c d : C} (hx : (h.give k c).carried x = some d) :
    x ≠ k ∧ h.carried x = some d := by
  change Function.update h.carried k none x = some d at hx
  rw [Function.update_apply] at hx
  split at hx
  · cases hx
  · next hne => exact ⟨hne, hx⟩

theorem Once.take (h1 : Once h) {k : K} {c : C} (hk : h.carried k = none)
    (hc : c ∉ h.passed) : Once (h.take k c) := by
  refine ⟨?_, h1.done, fun d hd => List.mem_append_left _ (h1.came d hd), ?_, ?_, ?_⟩
  · have hnew := List.Nodup.concat hc h1.passed
    rwa [List.concat_eq_append] at hnew
  · intro x d hx
    rcases carried_take hx with ⟨-, rfl⟩ | ⟨-, hx⟩
    · exact ⟨List.mem_append_right _ List.mem_cons_self, fun hd => hc (h1.came d hd)⟩
    · obtain ⟨hin, hout⟩ := h1.carried x d hx
      exact ⟨List.mem_append_left _ hin, hout⟩
  · intro x y d hx hy
    rcases carried_take hx with ⟨hxk, hdx⟩ | ⟨-, hx⟩
    · rcases carried_take hy with ⟨hyk, -⟩ | ⟨-, hy⟩
      · rw [hxk, hyk]
      · exact absurd (hdx ▸ (h1.carried y d hy).1) hc
    · rcases carried_take hy with ⟨-, hdy⟩ | ⟨-, hy⟩
      · exact absurd (hdy ▸ (h1.carried x d hx).1) hc
      · exact h1.alone x y d hx hy
  · intro d hd
    rcases List.mem_append.mp hd with hd | hd
    · refine (h1.covered d hd).imp_right fun ⟨x, hx⟩ => ⟨x, ?_⟩
      have hne : x ≠ k := by
        rintro rfl
        cases hk.symm.trans hx
      exact (Function.update_of_ne hne ..).trans hx
    · cases List.mem_singleton.mp hd
      exact .inr ⟨k, Function.update_self ..⟩

theorem Once.give (h1 : Once h) {k : K} {c : C} (hk : h.carried k = some c) :
    Once (h.give k c) := by
  obtain ⟨hin, hout⟩ := h1.carried k c hk
  refine ⟨h1.passed, ?_, ?_, ?_, ?_, ?_⟩
  · have hnew := List.Nodup.concat hout h1.done
    rwa [List.concat_eq_append] at hnew
  · intro d hd
    rcases List.mem_append.mp hd with hd | hd
    · exact h1.came d hd
    · exact List.mem_singleton.mp hd ▸ hin
  · intro x d hx
    obtain ⟨hne, hx⟩ := carried_give hx
    obtain ⟨hd, hnot⟩ := h1.carried x d hx
    refine ⟨hd, fun hmem => ?_⟩
    rcases List.mem_append.mp hmem with hmem | hmem
    · exact hnot hmem
    · rw [List.mem_singleton.mp hmem] at hx
      exact hne (h1.alone x k c hx hk)
  · intro x y d hx hy
    exact h1.alone x y d (carried_give hx).2 (carried_give hy).2
  · intro d hd
    by_cases hdc : d = c
    · rw [hdc]
      exact .inl (List.mem_append_right _ List.mem_cons_self)
    · refine (h1.covered d hd).imp (List.mem_append_left _) fun ⟨x, hx⟩ => ⟨x, ?_⟩
      have hne : x ≠ k := by
        rintro rfl
        exact hdc (Option.some.inj (hx.symm.trans hk))
      exact (Function.update_of_ne hne ..).trans hx

end Handover

end Os161.Lib
