import Mathlib.Data.List.Basic
import Mathlib.Logic.Function.Basic
import Mathlib.Tactic.Common

/-! # Tables with free slots

A finite map kept as a list of slots, some of them free: a key has one slot at most, a new key
takes a free slot or one at the end, and removing a key frees its slot. -/
namespace Os161.Lib

abbrev Slots (κ ν : Type) := List (Option (κ × ν))

namespace Slots

variable {κ ν : Type} {t : Slots κ ν} {i j : Nat} {k : κ} {a b : ν}

/-- Slot `i` binds `k` to `a`. -/
def Binds (t : Slots κ ν) (i : Nat) (k : κ) (a : ν) : Prop := t[i]? = some (some (k, a))

/-- Slot `i` can take a new key. -/
def Free (t : Slots κ ν) (i : Nat) : Prop := t[i]? = some none ∨ i = t.length

def Distinct (t : Slots κ ν) : Prop :=
  ∀ i j k a b, t.Binds i k a → t.Binds j k b → i = j

def put (t : Slots κ ν) (i : Nat) (e : Option (κ × ν)) : Slots κ ν :=
  if i < t.length then t.set i e else t ++ [e]

/-- How many slots have the value. -/
def uses [DecidableEq ν] (t : Slots κ ν) (a : ν) : Nat :=
  t.countP fun e => e.map Prod.snd = some a

section Find

variable [DecidableEq κ]

def find (t : Slots κ ν) (k : κ) : Option ν :=
  t.findSome? fun e => e.bind fun e => if e.1 = k then some e.2 else none

theorem find_eq_none : t.find k = none ↔ ∀ i a, ¬ t.Binds i k a := by
  rw [find, List.findSome?_eq_none_iff]
  constructor
  · intro h i a hb
    have := h _ (List.mem_of_getElem? hb)
    simp at this
  · intro h e he
    obtain ⟨i, hi⟩ := List.getElem?_of_mem he
    cases e with
    | none => rfl
    | some e =>
      obtain ⟨k', a⟩ := e
      have hne : k' ≠ k := fun hk => h i a (by rw [Binds, hi, hk])
      simp [hne]

theorem find_eq_some (h : t.Distinct) : t.find k = some a ↔ ∃ i, t.Binds i k a := by
  constructor
  · intro hf
    obtain ⟨e, he, hx⟩ := List.exists_of_findSome?_eq_some hf
    obtain ⟨i, hi⟩ := List.getElem?_of_mem he
    cases e with
    | none => cases hx
    | some e =>
      obtain ⟨k', a'⟩ := e
      rw [Option.bind_some] at hx
      split at hx
      · next hk =>
        cases hx
        cases hk
        exact ⟨i, hi⟩
      · cases hx
  · intro hb
    obtain ⟨i, hi⟩ := hb
    cases hf : t.find k with
    | none => exact absurd hi (find_eq_none.mp hf i a)
    | some a' =>
      obtain ⟨e, he, hx⟩ := List.exists_of_findSome?_eq_some hf
      obtain ⟨j, hj⟩ := List.getElem?_of_mem he
      cases e with
      | none => cases hx
      | some e =>
        obtain ⟨k', b⟩ := e
        rw [Option.bind_some] at hx
        split at hx
        · next hk =>
          cases hx
          cases hk
          obtain rfl := h i j _ _ _ hi hj
          rw [Binds, hj] at hi
          cases hi
          rfl
        · cases hx

/-- Two tables with the same bindings, wherever they have them. -/
theorem find_congr {t' : Slots κ ν} (h : t.Distinct) (h' : t'.Distinct)
    (hk : ∀ a, (∃ i, t'.Binds i k a) ↔ ∃ i, t.Binds i k a) : t'.find k = t.find k :=
  Option.ext fun a => by
    rw [find_eq_some h', find_eq_some h, hk]

end Find

/-! ## Filling and freeing a slot -/

theorem getElem?_put {e : Option (κ × ν)} (h : i ≤ t.length) :
    (t.put i e)[j]? = if j = i then some e else t[j]? := by
  unfold put
  split
  · next hi =>
    rw [List.getElem?_set]
    by_cases hj : i = j
    · rw [if_pos hj, if_pos hi, if_pos hj.symm]
    · rw [if_neg hj, if_neg (Ne.symm hj)]
  · next hi =>
    obtain rfl : i = t.length := by omega
    by_cases hj : j = t.length
    · rw [hj, if_pos rfl, List.getElem?_append_right (Nat.le_refl _), Nat.sub_self]
      rfl
    · rw [if_neg hj]
      by_cases hlt : j < t.length
      · rw [List.getElem?_append_left hlt]
      · rw [List.getElem?_eq_none (by rw [List.length_append, List.length_singleton]; omega),
          List.getElem?_eq_none (by omega)]

theorem length_put (e : Option (κ × ν)) :
    (t.put i e).length = if i < t.length then t.length else t.length + 1 := by
  unfold put
  split
  · exact List.length_set
  · exact List.length_append

/-- From `t` to `t'` the table got longer only if no slot was free. -/
def Reuses (t t' : Slots κ ν) : Prop := t.length < t'.length → ∀ j : Nat, t[j]? ≠ some none

theorem Reuses.refl (t : Slots κ ν) : t.Reuses t := fun h => absurd h (Nat.lt_irrefl _)

theorem Reuses.put {e : Option (κ × ν)} (h : i = t.length → ∀ j : Nat, t[j]? ≠ some none)
    (hi : i ≤ t.length) : t.Reuses (t.put i e) := by
  intro hlt
  refine h ?_
  rw [length_put] at hlt
  split at hlt
  · exact absurd hlt (Nat.lt_irrefl _)
  · next hx => exact Nat.le_antisymm hi (Nat.le_of_not_lt hx)

theorem Reuses.trans_put {t' : Slots κ ν} {e : Option (κ × ν)} (h : t.Reuses t')
    (hi : i < t'.length) : t.Reuses (t'.put i e) := by
  rw [Reuses, length_put, if_pos hi]
  exact h

theorem Free.le (h : t.Free i) : i ≤ t.length := by
  rcases h with h | h
  · exact Nat.le_of_lt (List.getElem?_eq_some_iff.mp h).1
  · exact Nat.le_of_eq h

theorem Free.not_binds (h : t.Free i) : ¬ t.Binds i k a := by
  intro hb
  rcases h with h | h
  · rw [Binds, h] at hb
    cases hb
  · rw [Binds, List.getElem?_eq_none (Nat.le_of_eq h.symm)] at hb
    cases hb

theorem Binds.lt (h : t.Binds i k a) : i < t.length := (List.getElem?_eq_some_iff.mp h).1

theorem binds_put {e : Option (κ × ν)} (h : i ≤ t.length) :
    (t.put i e).Binds j k a ↔ if j = i then e = some (k, a) else t.Binds j k a := by
  rw [Binds, getElem?_put h]
  split
  · exact Option.some_inj
  · rfl

theorem Distinct.put_some (h : t.Distinct) (hf : t.Free i) (hk : ∀ j b, ¬ t.Binds j k b) :
    Distinct (t.put i (some (k, a))) := by
  intro x y k' b c hx hy
  rw [binds_put hf.le] at hx hy
  split at hx <;> split at hy
  · omega
  · cases hx
    exact absurd hy (hk y c)
  · cases hy
    exact absurd hx (hk x b)
  · exact h x y k' b c hx hy

theorem Distinct.put_none (h : t.Distinct) (hi : i ≤ t.length) : Distinct (t.put i none) := by
  intro x y k' b c hx hy
  rw [binds_put hi] at hx hy
  split at hx
  · cases hx
  · split at hy
    · cases hy
    · exact h x y k' b c hx hy

section Find

variable [DecidableEq κ]

theorem find_put_some (h : t.Distinct) (hf : t.Free i) (hk : t.find k = none) :
    (t.put i (some (k, a))).find = Function.update t.find k (some a) := by
  have hno := find_eq_none.mp hk
  have hd := h.put_some (a := a) hf hno
  funext x
  by_cases hx : x = k
  · subst hx
    rw [Function.update_self, find_eq_some hd]
    exact ⟨i, by rw [binds_put hf.le, if_pos rfl]⟩
  · rw [Function.update_of_ne hx]
    refine find_congr h hd fun b => ?_
    constructor
    · intro hb
      obtain ⟨j, hj⟩ := hb
      rw [binds_put hf.le] at hj
      split at hj
      · cases hj
        exact absurd rfl hx
      · exact ⟨j, hj⟩
    · intro hb
      obtain ⟨j, hj⟩ := hb
      refine ⟨j, ?_⟩
      rw [binds_put hf.le, if_neg]
      · exact hj
      · intro hji
        exact hf.not_binds (hji ▸ hj)

theorem find_put_none (h : t.Distinct) (hb : t.Binds i k a) :
    (t.put i none).find = Function.update t.find k none := by
  have hi := Nat.le_of_lt hb.lt
  have hd := h.put_none hi
  funext x
  by_cases hx : x = k
  · subst hx
    rw [Function.update_self, find_eq_none]
    intro j b hj
    rw [binds_put hi] at hj
    split at hj
    · cases hj
    · next hne => exact hne (h j i _ b a hj hb)
  · rw [Function.update_of_ne hx]
    refine find_congr h hd fun b => ?_
    constructor
    · intro hj
      obtain ⟨j, hj⟩ := hj
      rw [binds_put hi] at hj
      split at hj
      · cases hj
      · exact ⟨j, hj⟩
    · intro hj
      obtain ⟨j, hj⟩ := hj
      refine ⟨j, ?_⟩
      rw [binds_put hi, if_neg]
      · exact hj
      · rintro rfl
        rw [Binds, hb] at hj
        cases hj
        exact hx rfl

end Find

/-! ## Uses of a value -/

section Uses

variable [DecidableEq ν]

theorem uses_put {e : Option (κ × ν)} (h : i ≤ t.length) (a : ν) :
    (t.put i e).uses a + (if t[i]?.join.map Prod.snd = some a then 1 else 0) =
      t.uses a + if e.map Prod.snd = some a then 1 else 0 := by
  unfold put uses
  induction t generalizing i with
  | nil =>
    obtain rfl : i = 0 := Nat.le_zero.mp h
    by_cases he : e.map Prod.snd = some a <;> simp [he]
  | cons x t ih =>
    cases i with
    | zero =>
      simp only [List.length_cons, Nat.zero_lt_succ, if_true, List.set_cons_zero, List.countP_cons,
        List.getElem?_cons_zero, Option.join_some, decide_eq_true_eq]
      omega
    | succ i =>
      have := ih (i := i) (by simpa using h)
      simp only [List.length_cons, Nat.succ_lt_succ_iff, List.getElem?_cons_succ] at this ⊢
      split
      · next hi =>
        rw [if_pos hi] at this
        rw [List.set_cons_succ, List.countP_cons, List.countP_cons]
        omega
      · next hi =>
        rw [if_neg hi] at this
        rw [List.cons_append, List.countP_cons, List.countP_cons]
        omega

theorem uses_put_some (hf : t.Free i) (a b : ν) :
    Slots.uses (t.put i (some (k, a))) b = t.uses b + if a = b then 1 else 0 := by
  have h := uses_put (e := some (k, a)) hf.le b
  have hnone : t[i]?.join = none := by
    rcases hf with hf | hf
    · rw [hf]
      rfl
    · rw [List.getElem?_eq_none (Nat.le_of_eq hf.symm)]
      rfl
  simpa [hnone] using h

theorem uses_put_none (hb : t.Binds i k a) (b : ν) :
    Slots.uses (t.put i none) b + (if a = b then 1 else 0) = t.uses b := by
  have h := uses_put (e := none) (Nat.le_of_lt hb.lt) b
  rw [show t[i]? = some (some (k, a)) from hb] at h
  simpa using h

theorem uses_pos : 0 < t.uses a ↔ ∃ i k, t.Binds i k a := by
  rw [uses, List.countP_pos_iff]
  constructor
  · intro h
    obtain ⟨e, he, hx⟩ := h
    obtain ⟨i, hi⟩ := List.getElem?_of_mem he
    cases e with
    | none => simp at hx
    | some e =>
      obtain ⟨k, b⟩ := e
      obtain rfl : b = a := by simpa using hx
      exact ⟨i, k, hi⟩
  · intro h
    obtain ⟨i, k, hi⟩ := h
    exact ⟨_, List.mem_of_getElem? hi, by simp⟩

end Uses

end Slots

end Os161.Lib
