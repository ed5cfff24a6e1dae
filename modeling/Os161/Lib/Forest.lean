import Mathlib.Data.List.Induction
import Mathlib.Tactic.Common

/-! # Forests of pointer nodes

A store maps an address and an index to an address; address 0 is no node. A
forest has named roots, each with the depth of its leaves, and its nodes are
named by a root and the path from it. Everything below a missing node is
missing. The lemmas say where a forest changes when one pointer is set or
pointers are cleared, in terms of these names. -/
namespace Os161.Lib

variable {α ι κ : Type} [Zero α] [DecidableEq α]

/-- Follow a path from an address. -/
def walk (child : α → ι → α) : α → List ι → α
  | b, [] => b
  | b, j :: p => if b = 0 then 0 else walk child (child b j) p

@[simp] theorem walk_nil (child : α → ι → α) (b : α) : walk child b [] = b := rfl

@[simp] theorem walk_zero (child : α → ι → α) (p : List ι) : walk child 0 p = 0 := by
  cases p <;> simp [walk]

theorem walk_append (child : α → ι → α) (b : α) (p q : List ι) :
    walk child b (p ++ q) = walk child (walk child b p) q := by
  induction p generalizing b with
  | nil => rfl
  | cons j p ih =>
    by_cases hb : b = 0
    · simp [hb]
    · simp only [List.cons_append, walk, if_neg hb]
      exact ih _

structure Forest (κ ι α : Type) where
  depth : κ → Nat
  root : κ → α
  child : α → ι → α

namespace Forest

/-- The address of the node at a path below a root. -/
def at' (F : Forest κ ι α) (k : κ) (p : List ι) : α := walk F.child (F.root k) p

@[simp] theorem at_nil (F : Forest κ ι α) (k : κ) : F.at' k [] = F.root k := rfl

theorem at_snoc (F : Forest κ ι α) (k : κ) (p : List ι) (j : ι) :
    F.at' k (p ++ [j]) = if F.at' k p = 0 then 0 else F.child (F.at' k p) j := by
  simp only [at', walk_append]
  rfl

/-- A node below a missing one is missing. -/
theorem at_append_of_zero {F : Forest κ ι α} {k : κ} {p : List ι} (h : F.at' k p = 0)
    (q : List ι) : F.at' k (p ++ q) = 0 := by
  rw [at', walk_append]
  change walk F.child (F.at' k p) q = 0
  rw [h, walk_zero]

theorem at_ne_zero_of_append {F : Forest κ ι α} {k : κ} {p q : List ι}
    (h : F.at' k (p ++ q) ≠ 0) : F.at' k p ≠ 0 :=
  fun h0 => h (at_append_of_zero h0 q)

/-- Two forests agree below the roots in `K` when they have the same roots and
the pointers of every inner node agree. -/
theorem at_congr {F G : Forest κ ι α} {K : κ → Prop}
    (hroot : ∀ k, K k → G.root k = F.root k)
    (hchild : ∀ k, K k → ∀ p, p.length < F.depth k → F.at' k p ≠ 0 →
      ∀ j, G.child (F.at' k p) j = F.child (F.at' k p) j) :
    ∀ k, K k → ∀ p, p.length ≤ F.depth k → G.at' k p = F.at' k p := by
  intro k hk p
  induction p using List.reverseRecOn with
  | nil => intro _; exact hroot k hk
  | append_singleton p j ih =>
    intro hp
    rw [List.length_append, List.length_singleton] at hp
    rw [at_snoc, at_snoc, ih (by omega)]
    by_cases h : F.at' k p = 0
    · simp [h]
    · rw [if_neg h, if_neg h, hchild k hk p (by omega) h j]

/-- Setting one missing pointer to a node without children adds that node and
nothing else. -/
theorem at_graft {F G : Forest κ ι α} {K : κ → Prop} {r : κ} {s : List ι} {n : ι} {c : α}
    (hroot : ∀ k, K k → G.root k = F.root k)
    (hp₀ : F.at' r s ≠ 0) (hmiss : F.child (F.at' r s) n = 0)
    (hnew : G.child (F.at' r s) n = c)
    (hempty : s.length + 1 < F.depth r → ∀ j, G.child c j = 0)
    (hchild : ∀ k, K k → ∀ p, p.length < F.depth k → F.at' k p ≠ 0 → ∀ j,
      ¬ (k = r ∧ p = s ∧ j = n) → G.child (F.at' k p) j = F.child (F.at' k p) j)
    [DecidableEq κ] [DecidableEq ι] :
    ∀ k, K k → ∀ p, p.length ≤ F.depth k →
      G.at' k p = if k = r ∧ p = s ++ [n] then c else F.at' k p := by
  intro k hk p
  induction p using List.reverseRecOn with
  | nil => intro _; simpa using hroot k hk
  | append_singleton p j ih =>
    intro hp
    rw [List.length_append, List.length_singleton] at hp
    rw [at_snoc, ih (by omega)]
    by_cases hq : k = r ∧ p = s ++ [n]
    · -- below the new node nothing is there, before or after
      obtain ⟨rfl, rfl⟩ := hq
      have hlen : ¬ (s ++ [n] ++ [j] = s ++ [n]) := fun h => by
        simpa using congrArg List.length h
      have hold : F.at' k (s ++ [n]) = 0 := by rw [at_snoc, if_neg hp₀, hmiss]
      simp only [List.length_append, List.length_singleton] at hp
      simp only [and_self, if_true, hlen, and_false, if_false, at_append_of_zero hold,
        hempty (by omega), ite_self]
    · rw [if_neg hq]
      by_cases h : F.at' k p = 0
      · have hne : ¬ (k = r ∧ p ++ [j] = s ++ [n]) := by
          intro hx
          obtain ⟨rfl, he⟩ := hx
          obtain ⟨rfl, _⟩ := List.append_inj' he rfl
          exact hp₀ h
        rw [if_pos h, if_neg hne, at_append_of_zero h]
      · rw [if_neg h, at_snoc, if_neg h]
        by_cases he : k = r ∧ p = s ∧ j = n
        · obtain ⟨rfl, rfl, rfl⟩ := he
          simpa using hnew
        · have hne : ¬ (k = r ∧ p ++ [j] = s ++ [n]) := by
            intro hx
            obtain ⟨hk', hpj⟩ := hx
            obtain ⟨hp', hj'⟩ := List.append_inj' hpj rfl
            exact he ⟨hk', hp', by simpa using hj'⟩
          rw [if_neg hne, hchild k hk p (by omega) h j he]

/-- Setting a missing root to a node without children adds that node. -/
theorem at_plant {F G : Forest κ ι α} {K : κ → Prop} {r : κ} {c : α}
    (hmiss : F.root r = 0) (hnew : G.root r = c)
    (hroot : ∀ k, K k → k ≠ r → G.root k = F.root k)
    (hempty : 0 < F.depth r → ∀ j, G.child c j = 0)
    (hchild : ∀ k, K k → ∀ p, p.length < F.depth k → F.at' k p ≠ 0 → ∀ j,
      G.child (F.at' k p) j = F.child (F.at' k p) j)
    [DecidableEq κ] [DecidableEq ι] :
    ∀ k, K k → ∀ p, p.length ≤ F.depth k →
      G.at' k p = if k = r ∧ p = [] then c else F.at' k p := by
  intro k hk p
  induction p using List.reverseRecOn with
  | nil =>
    intro _
    by_cases h : k = r
    · subst h
      simpa using hnew
    · simpa [h] using hroot k hk h
  | append_singleton p j ih =>
    intro hp
    rw [List.length_append, List.length_singleton] at hp
    have hne : ¬ (k = r ∧ p ++ [j] = []) := by simp
    rw [if_neg hne, at_snoc, ih (by omega)]
    by_cases hq : k = r ∧ p = []
    · obtain ⟨rfl, rfl⟩ := hq
      have hold : F.at' k [j] = 0 := at_append_of_zero (p := []) hmiss [j]
      simp only [List.length_nil] at hp
      simp only [and_self, if_true, hempty (by omega), ite_self, List.nil_append, hold]
    · rw [if_neg hq, at_snoc]
      by_cases h : F.at' k p = 0
      · simp [h]
      · rw [if_neg h, if_neg h, hchild k hk p (by omega) h j]

end Forest

end Os161.Lib
