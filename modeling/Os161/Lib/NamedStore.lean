import Mathlib.Logic.Function.Basic
import Mathlib.Tactic.Common

/-! # Stores of named objects

Objects are reached through names and through counted references; each has one handle at most, and
some of the references keep it open. An object is kept as long as a name or a reference is left. -/
namespace Os161.Lib

structure NamedStore (N I H γ : Type) where
  names : N → Option I
  objects : I → Option γ
  handles : H → Option I
  counts : I → Nat
  opens : I → Nat

namespace NamedStore

variable {N I H γ : Type} {s s' : NamedStore N I H γ} {n m : N} {i j : I} {h : H} {x y : γ}

/-- Nothing leads to `i`. -/
def Idle (s : NamedStore N I H γ) (i : I) : Prop := s.counts i = 0 ∧ ∀ n, s.names n ≠ some i

/-- `h` may be handed out for `i`: it is the handle of `i`, or both have none. -/
def Opens (s : NamedStore N I H γ) (h : H) (i : I) : Prop :=
  s.handles h = some i ∨ s.handles h = none ∧ s.counts i = 0

/-! ## Operations -/

def bind [DecidableEq N] (s : NamedStore N I H γ) (n : N) (i : I) : NamedStore N I H γ :=
  { s with names := Function.update s.names n (some i) }

def unbind [DecidableEq N] (s : NamedStore N I H γ) (n : N) : NamedStore N I H γ :=
  { s with names := Function.update s.names n none }

def take [DecidableEq I] [DecidableEq H] (s : NamedStore N I H γ) (h : H) (i : I) :
    NamedStore N I H γ :=
  { s with
    handles := Function.update s.handles h (some i)
    counts := Function.update s.counts i (s.counts i + 1) }

/-- A reference is given back; with the last one the handle goes. -/
def drop [DecidableEq I] [DecidableEq H] (s : NamedStore N I H γ) (h : H) (i : I) :
    NamedStore N I H γ :=
  { s with
    handles := if s.counts i = 1 then Function.update s.handles h none else s.handles
    counts := Function.update s.counts i (s.counts i - 1) }

def put [DecidableEq I] (s : NamedStore N I H γ) (i : I) (x : γ) : NamedStore N I H γ :=
  { s with objects := Function.update s.objects i (some x) }

/-- The object is open `k` times. -/
def reopen [DecidableEq I] (s : NamedStore N I H γ) (i : I) (k : Nat) : NamedStore N I H γ :=
  { s with opens := Function.update s.opens i k }

theorem not_idle_of_name (hn : s.names n = some i) : ¬ s.Idle i := fun hi => hi.2 n hn

section Reap

variable [DecidableEq I]

open Classical in
/-- An object nothing leads to goes. -/
noncomputable def reap (s : NamedStore N I H γ) (i : I) : NamedStore N I H γ :=
  if s.Idle i then { s with objects := Function.update s.objects i none } else s

theorem reap_of_idle (hi : s.Idle i) :
    s.reap i = { s with objects := Function.update s.objects i none } := if_pos hi

theorem reap_of_not_idle (hi : ¬ s.Idle i) : s.reap i = s := if_neg hi

theorem reap_of_none (ho : s.objects i = none) : s.reap i = s := by
  by_cases hi : s.Idle i
  · rw [reap_of_idle hi, ← ho, Function.update_eq_self]
  · exact reap_of_not_idle hi

@[simp] theorem names_reap (i : I) : (s.reap i).names = s.names := by
  unfold reap
  split <;> rfl

@[simp] theorem handles_reap (i : I) : (s.reap i).handles = s.handles := by
  unfold reap
  split <;> rfl

@[simp] theorem counts_reap (i : I) : (s.reap i).counts = s.counts := by
  unfold reap
  split <;> rfl

@[simp] theorem opens_reap (i : I) : (s.reap i).opens = s.opens := by
  unfold reap
  split <;> rfl

theorem reap_put (hi : s.Idle i) (ho : s.objects i = none) : (s.put i x).reap i = s := by
  have hi' : (s.put i x).Idle i := hi
  have : Function.update (Function.update s.objects i (some x)) i none = s.objects := by
    rw [Function.update_idem, ← ho, Function.update_eq_self]
  rw [reap_of_idle hi']
  unfold put
  dsimp only
  rw [this]

end Reap

/-- A reference that is handed out and given back leaves no trace. -/
theorem drop_take [DecidableEq I] [DecidableEq H] (hh : s.Opens h i)
    (hpos : s.handles h = some i → 0 < s.counts i) : (s.take h i).drop h i = s := by
  unfold drop take
  simp only [Function.update_self, Function.update_idem, Nat.add_sub_cancel,
    Function.update_eq_self]
  have hhandles : (if s.counts i + 1 = 1 then Function.update s.handles h none
      else Function.update s.handles h (some i)) = s.handles := by
    rcases hh with hh | ⟨hh, h0⟩
    · have := hpos hh
      rw [if_neg (by omega), ← hh, Function.update_eq_self]
    · rw [if_pos (by omega), ← hh, Function.update_eq_self]
  rw [hhandles]

open Classical in
/-- What is left when all references are gone: the objects with names. -/
noncomputable def settle (s : NamedStore N I H γ) : NamedStore N I H γ where
  names := s.names
  objects i := if ∃ n, s.names n = some i then s.objects i else none
  handles _ := none
  counts _ := 0
  opens _ := 0

theorem objects_settle (hn : s.names n = some i) : s.settle.objects i = s.objects i :=
  if_pos ⟨n, hn⟩

/-! ## Steps -/

section Steps

variable [DecidableEq N] [DecidableEq I] [DecidableEq H]

/-- What may happen to a store. -/
inductive Act (N I H γ : Type) where
  | enter (n : N) (h : H)
  | start (h : H)
  | again (h : H)
  | make (n : N) (h : H) (i : I) (x : γ)
  | link (n : N) (h : H)
  | unlink (n : N)
  | move (n m : N)
  | change (h : H) (i : I) (x : γ)
  | reopen (h : H) (k : Nat)
  | close (h : H)
  | nothing

inductive Step (s : NamedStore N I H γ) : Act N I H γ → NamedStore N I H γ → Prop
  | enter {n : N} {h : H} {i : I} (hn : s.names n = some i) (hh : s.Opens h i) :
      Step s (.enter n h) (s.take h i)
  | start {h : H} {i : I} (hh : s.Opens h i) : Step s (.start h) (s.take h i)
  | again {h : H} {i : I} (hh : s.handles h = some i) : Step s (.again h) (s.take h i)
  | make {n : N} {h : H} {i : I} (x : γ) (hn : s.names n = none) (hi : s.objects i = none)
      (hh : s.handles h = none) : Step s (.make n h i x) (((s.put i x).bind n i).take h i)
  | link {n : N} {h : H} {i : I} (hn : s.names n = none) (hh : s.handles h = some i) :
      Step s (.link n h) (s.bind n i)
  | unlink {n : N} {i : I} (hn : s.names n = some i) : Step s (.unlink n) ((s.unbind n).reap i)
  | move {n m : N} {i : I} (hn : s.names n = some i) (hm : s.names m = none) :
      Step s (.move n m) ((s.bind m i).unbind n)
  | change {h : H} {i : I} (x : γ) (hh : s.handles h = some i) :
      Step s (.change h i x) (s.put i x)
  | reopen {h : H} {i : I} (k : Nat) (hh : s.handles h = some i) :
      Step s (.reopen h k) (s.reopen i k)
  | close {h : H} {i : I} (hh : s.handles h = some i) :
      Step s (.close h) ((s.drop h i).reap i)
  | nothing : Step s .nothing s

/-- The action takes no name `n` away and leaves the object `i` as it is. -/
def Act.Spares (n : N) (i : I) : Act N I H γ → Prop
  | .unlink m => m ≠ n
  | .move m _ => m ≠ n
  | .change _ j _ => j ≠ i
  | _ => True

end Steps

end NamedStore

end Os161.Lib
