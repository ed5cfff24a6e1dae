import Mathlib.Logic.Function.Basic

/-! # Linked lists

Nodes with a pointer to the next one, the lists they make, and the two ways a loop goes along
one: with a pointer to the node, or with a pointer to the pointer. -/
namespace Os161.Lib

variable {α : Type}

/-- From `p` on, the nodes are those of the list. -/
def Linked (next : α → Option α) : Option α → List α → Prop
  | p, [] => p = none
  | p, a :: l => p = some a ∧ Linked next (next a) l

theorem Linked.congr {next next' : α → Option α} {p : Option α} {l : List α}
    (h : Linked next p l) (he : ∀ a ∈ l, next' a = next a) : Linked next' p l := by
  induction l generalizing p with
  | nil => exact h
  | cons a l ih =>
    refine ⟨h.1, ?_⟩
    rw [he a List.mem_cons_self]
    exact ih h.2 fun b hb => he b (List.mem_cons_of_mem _ hb)

/-- A loop over the nodes that ends at the first one that passes the test. No result is a failed
assertion, or a loop that is not done after as many steps. -/
def search (next : α → Option α) (test : α → Option Bool) : Nat → Option α → Option (Option α)
  | _, none => some none
  | 0, some _ => none
  | n + 1, some a =>
    match test a with
    | none => none
    | some true => some (some a)
    | some false => search next test n (next a)

theorem search_spec {next : α → Option α} {test : α → Option Bool} {pass : α → Bool} {n : Nat}
    {p : Option α} {l : List α} (h : Linked next p l) (hn : l.length ≤ n)
    (ht : ∀ a ∈ l, test a = some (pass a)) : search next test n p = some (l.find? pass) := by
  induction l generalizing p n with
  | nil =>
    cases h
    unfold search
    rfl
  | cons a l ih =>
    obtain ⟨rfl, hl⟩ := h
    cases n with
    | zero => exact absurd hn (Nat.not_succ_le_zero _)
    | succ n =>
      rw [search, ht a List.mem_cons_self]
      cases hp : pass a with
      | true => rw [List.find?_cons_of_pos hp]
      | false =>
        have hneg : ¬ pass a = true := by rw [hp]; exact Bool.false_ne_true
        rw [List.find?_cons_of_neg hneg]
        exact ih hl (Nat.le_of_succ_le_succ hn) fun b hb => ht b (List.mem_cons_of_mem _ hb)

/-- A head and the pointers of the nodes. -/
structure Chain (α : Type) where
  head : Option α
  next : α → Option α

namespace Chain

variable [DecidableEq α]

/-- What a pointer to a pointer points to: that of a node, or the head. -/
def get (c : Chain α) : Option α → Option α
  | none => c.head
  | some a => c.next a

def set (c : Chain α) : Option α → Option α → Chain α
  | none, p => { c with head := p }
  | some a, p => { c with next := Function.update c.next a p }

/-- The loop that takes a node out. -/
def unlink (c : Chain α) (a : α) : Nat → Option α → Option (Chain α)
  | 0, guy => if (c.get guy).isSome then none else some c
  | n + 1, guy =>
    match c.get guy with
    | none => some c
    | some b => if b = a then some (c.set guy (c.next b)) else c.unlink a n (some b)

theorem get_set (c : Chain α) (guy p x : Option α) :
    (c.set guy p).get x = if x = guy then p else c.get x := by
  cases guy with
  | none =>
    cases x with
    | none => rfl
    | some a => rfl
  | some b =>
    cases x with
    | none => rfl
    | some a =>
      show Function.update c.next b p a = _
      rw [Function.update_apply]
      simp only [Option.some.injEq, get]

theorem unlink_spec {c : Chain α} {a : α} {l : List α} {n : Nat} {guy : Option α}
    (h : Linked c.next (c.get guy) l) (hnodup : l.Nodup) (hguy : ∀ b ∈ l, guy ≠ some b)
    (hn : l.length ≤ n) : ∃ c', c.unlink a n guy = some c' ∧
      Linked c'.next (c'.get guy) (l.erase a) ∧
      ∀ x, x ≠ guy → (∀ b ∈ l, x ≠ some b) → c'.get x = c.get x := by
  induction l generalizing guy n with
  | nil =>
    refine ⟨c, ?_, h, fun _ _ _ => rfl⟩
    have hnone : c.get guy = none := h
    cases n with
    | zero => rw [unlink, hnone, Option.isSome_none, if_neg Bool.false_ne_true]
    | succ n => rw [unlink, hnone]
  | cons b l ih =>
    obtain ⟨hget, hl⟩ := h
    obtain ⟨hb, hnodup⟩ := List.nodup_cons.mp hnodup
    cases n with
    | zero => exact absurd hn (Nat.not_succ_le_zero _)
    | succ n =>
      by_cases hba : b = a
      · refine ⟨c.set guy (c.next b), ?_, ?_, ?_⟩
        · rw [unlink, hget]
          exact if_pos hba
        · rw [hba, List.erase_cons_head, get_set, if_pos rfl, ← hba]
          refine hl.congr fun d hd => ?_
          show (c.set guy (c.next b)).get (some d) = c.get (some d)
          rw [get_set, if_neg fun he => hguy d (List.mem_cons_of_mem _ hd) he.symm]
        · intro x hx _
          rw [get_set, if_neg hx]
      · have hsome : ∀ d ∈ l, some b ≠ some d := fun d hd he => hb (Option.some.inj he ▸ hd)
        have hrest : Linked c.next (c.get (some b)) l := hl
        obtain ⟨c', hc, hl', hsame⟩ := ih hrest hnodup hsome (Nat.le_of_succ_le_succ hn)
        refine ⟨c', ?_, ?_, ?_⟩
        · rw [unlink, hget]
          exact (if_neg hba).trans hc
        · rw [List.erase_cons_tail (by simpa using hba), hsame guy (hguy b List.mem_cons_self)
            fun d hd => hguy d (List.mem_cons_of_mem _ hd)]
          exact ⟨hget, hl'⟩
        · intro x _ hxl
          exact hsame x (hxl b List.mem_cons_self) fun d hd => hxl d (List.mem_cons_of_mem _ hd)

/-- Taking a node out of the whole list. -/
theorem unlink_head {c : Chain α} {l : List α} {n : Nat} (a : α) (h : Linked c.next c.head l)
    (hnodup : l.Nodup) (hn : l.length ≤ n) : ∃ c', c.unlink a n none = some c' ∧
      Linked c'.next c'.head (l.erase a) ∧ ∀ b, b ∉ l → c'.next b = c.next b := by
  have hhead : Linked c.next (c.get none) l := h
  obtain ⟨c', hc, hl, hsame⟩ := unlink_spec (a := a) hhead hnodup
    (fun b _ => (Option.some_ne_none b).symm) hn
  refine ⟨c', hc, hl, fun b hb => ?_⟩
  exact hsame (some b) (Option.some_ne_none b) fun d hd he => hb (Option.some.inj he ▸ hd)

end Chain
end Os161.Lib
