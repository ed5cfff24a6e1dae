import Mathlib.Data.List.Basic
import Mathlib.Data.List.Induction
import Mathlib.Logic.Function.Basic
import Mathlib.Tactic.Common

/-! # Arrays and queues of pointers

`kern/lib/array.c` and `kern/lib/queue.c`. The heap is an oracle: `heap n` says whether
the `n`th call of `kmalloc` succeeds, and every function that may call `kmalloc` takes
and returns the number of calls so far. -/
namespace Os161.Switch

/-! ## Arrays -/

/-- `struct array`: `guys` are the first `num` pointers of `v`. -/
structure GuyArray (T : Type) where
  guys : List T
  max : Nat

/-- `while (nguys > newmax) newmax = (newmax+1)*2`. -/
def newMax : Nat → Nat → Nat → Nat
  | 0, _, newmax => newmax
  | fuel + 1, nguys, newmax =>
    if newmax < nguys then newMax fuel nguys ((newmax + 1) * 2) else newmax

theorem le_newMax (fuel nguys newmax : Nat) : newmax ≤ newMax fuel nguys newmax := by
  induction fuel generalizing newmax with
  | zero => exact Nat.le_refl _
  | succ fuel ih =>
    rw [newMax]
    split
    · have := ih ((newmax + 1) * 2)
      omega
    · exact Nat.le_refl _

theorem newMax_ge (fuel nguys newmax : Nat) (h : nguys ≤ newmax + fuel) :
    nguys ≤ newMax fuel nguys newmax := by
  induction fuel generalizing newmax with
  | zero => exact h
  | succ fuel ih =>
    rw [newMax]
    split
    · exact ih _ (by omega)
    · omega

section Array

variable {T : Type} (heap : Nat → Bool)

def arrayCreate : GuyArray T := ⟨[], 0⟩

def arrayPreallocate (a : GuyArray T) (nguys n : Nat) : Option (GuyArray T) × Nat :=
  if heap n then (some { a with max := newMax nguys nguys a.max }, n + 1) else (none, n + 1)

/-- `array_setsize(a, num+1)` and the store that follows it. -/
def arrayAdd (a : GuyArray T) (guy : T) (n : Nat) : Option (GuyArray T) × Nat :=
  if a.max < a.guys.length + 1 then
    match arrayPreallocate heap a (a.guys.length + 1) n with
    | (some a, n) => (some { a with guys := a.guys ++ [guy] }, n)
    | (none, n) => (none, n)
  else (some { a with guys := a.guys ++ [guy] }, n)

/-- `array_setsize(a, 0)`: a large vector goes back to the heap. -/
def arrayClear (a : GuyArray T) : GuyArray T :=
  if 16 < a.max then ⟨[], 0⟩ else { a with guys := [] }

def arrayRemove (a : GuyArray T) (index : Nat) : GuyArray T :=
  { a with guys := a.guys.eraseIdx index }

end Array

section ArraySpec

variable {T : Type} {heap : Nat → Bool} {a a' : GuyArray T} {n n' : Nat}

theorem arrayPreallocate_cases {nguys : Nat} (h : arrayPreallocate heap a nguys n = (some a', n')) :
    a'.guys = a.guys ∧ a.max ≤ a'.max ∧ nguys ≤ a'.max := by
  unfold arrayPreallocate at h
  split at h
  · cases h
    exact ⟨rfl, le_newMax _ _ _, newMax_ge _ _ _ (by omega)⟩
  · cases h

theorem arrayPreallocate_none {nguys : Nat} (h : arrayPreallocate heap a nguys n = (none, n')) :
    heap n = false := by
  unfold arrayPreallocate at h
  split at h
  · cases h
  · next hf => simpa using hf

/-- There is room for one more. -/
def GuyArray.Fits (a : GuyArray T) : Prop := a.guys.length < a.max

theorem arrayAdd_fits (guy : T) (h : a.Fits) :
    arrayAdd heap a guy n = (some { a with guys := a.guys ++ [guy] }, n) := by
  have hle : ¬ a.max < a.guys.length + 1 := by
    rw [GuyArray.Fits] at h
    omega
  rw [arrayAdd, if_neg hle]

/-- A full array goes to the heap. -/
theorem arrayAdd_full (guy : T) (h : ¬ a.Fits) :
    (arrayAdd heap a guy n).2 = n + 1 := by
  have hlt : a.max < a.guys.length + 1 := by
    rw [GuyArray.Fits] at h
    omega
  rw [arrayAdd, if_pos hlt, arrayPreallocate]
  cases heap n <;> rfl

theorem arrayAdd_guys {guy : T} (h : arrayAdd heap a guy n = (some a', n')) :
    a'.guys = a.guys ++ [guy] ∧ a.max ≤ a'.max ∧ a'.guys.length ≤ a'.max := by
  by_cases hfit : a.Fits
  · rw [arrayAdd_fits guy hfit] at h
    cases h
    refine ⟨rfl, Nat.le_refl _, ?_⟩
    rw [List.length_append]
    exact hfit
  · have hlt : a.max < a.guys.length + 1 := by
      rw [GuyArray.Fits] at hfit
      omega
    rw [arrayAdd, if_pos hlt] at h
    split at h
    · next b m hb =>
      cases h
      obtain ⟨hg, hm, hl⟩ := arrayPreallocate_cases hb
      refine ⟨by rw [hg], hm, ?_⟩
      simpa [hg] using hl
    · cases h

theorem arrayAdd_none {guy : T} (h : arrayAdd heap a guy n = (none, n')) : heap n = false := by
  unfold arrayAdd at h
  split at h
  · split at h
    · cases h
    · next hb => exact arrayPreallocate_none hb
  · cases h

theorem arrayAdd_none_calls {guy : T} (h : arrayAdd heap a guy n = (none, n')) : n' = n + 1 := by
  by_cases hfit : a.Fits
  · rw [arrayAdd_fits guy hfit] at h
    cases h
  · have hcalls : (arrayAdd heap a guy n).2 = n + 1 := arrayAdd_full guy hfit
    rwa [h] at hcalls

@[simp] theorem arrayClear_guys : (arrayClear a).guys = [] := by
  rw [arrayClear]
  split <;> rfl

@[simp] theorem arrayRemove_guys (i : Nat) : (arrayRemove a i).guys = a.guys.eraseIdx i := rfl

@[simp] theorem arrayRemove_max (i : Nat) : (arrayRemove a i).max = a.max := rfl

end ArraySpec

/-! ## Ring arithmetic -/

section Wrap

variable {a b i j n : Nat}

theorem wrap_eq (ha : a < n) (hi : i ≤ n) :
    (a + i) % n = if a + i < n then a + i else a + i - n := by
  split
  · next h => exact Nat.mod_eq_of_lt h
  · next h => rw [Nat.mod_eq_sub_mod (by omega), Nat.mod_eq_of_lt (by omega)]

theorem wrap_inj (ha : a < n) (hi : i < n) (hj : j < n) (h : (a + i) % n = (a + j) % n) :
    i = j := by
  rw [wrap_eq ha (by omega), wrap_eq ha (by omega)] at h
  split at h <;> split at h <;> omega

theorem wrap_succ (a i n : Nat) : ((a + i) % n + 1) % n = (a + (i + 1)) % n := by
  rw [Nat.mod_add_mod, Nat.add_assoc]

end Wrap

/-! ## Queues -/

/-- `struct queue`: a ring; `none` is what a slot holds before it is first written. -/
structure Queue (T : Type) where
  size : Nat
  nextwrite : Nat
  nextread : Nat
  data : Nat → Option T

/-- `while (nsize < targetsize) nsize *= 2`. -/
def nsize : Nat → Nat → Nat → Nat
  | 0, _, m => m
  | fuel + 1, targetsize, m => if m < targetsize then nsize fuel targetsize (m * 2) else m

theorem le_nsize (fuel targetsize m : Nat) : m ≤ nsize fuel targetsize m := by
  induction fuel generalizing m with
  | zero => exact Nat.le_refl _
  | succ fuel ih =>
    rw [nsize]
    split
    · have := ih (m * 2)
      omega
    · exact Nat.le_refl _

theorem nsize_ge (fuel targetsize m : Nat) (hm : 0 < m) (h : targetsize ≤ m + fuel) :
    targetsize ≤ nsize fuel targetsize m := by
  induction fuel generalizing m with
  | zero => exact h
  | succ fuel ih =>
    rw [nsize]
    split
    · exact ih _ (by omega) (by omega)
    · omega

section Queue

variable {T : Type} (heap : Nat → Bool)

def qCreate (size : Nat) : Queue T := ⟨size, 0, 0, fun _ => none⟩

def Queue.empty (q : Queue T) : Bool := q.nextwrite = q.nextread

/-- `nextnext==q->nextread`. -/
def Queue.full (q : Queue T) : Bool := (q.nextwrite + 1) % q.size = q.nextread

/-- What `q_addtail` does once there is room. -/
def Queue.put (q : Queue T) (ptr : Option T) : Queue T :=
  { q with
    data := Function.update q.data q.nextwrite ptr
    nextwrite := (q.nextwrite + 1) % q.size }

/-- The loop of `q_grow`, from `i` on. The `q_addtail` in it has a larger ring to fill
than the one it reads, and does not grow it again. -/
def growCopy (old : Queue T) : Nat → Nat → Queue T → Option (Queue T)
  | 0, i, q => if i = old.nextwrite then some q else none
  | fuel + 1, i, q =>
    if i = old.nextwrite then some q
    else if q.full then none
    else growCopy old fuel ((i + 1) % old.size) (q.put (old.data i))

def qGrow (q : Queue T) (targetsize n : Nat) : Option (Queue T) × Nat :=
  if heap n then
    (growCopy q q.size q.nextread (qCreate (nsize targetsize targetsize q.size)), n + 1)
  else (none, n + 1)

def qPreallocate (q : Queue T) (size n : Nat) : Option (Queue T) × Nat :=
  if q.size < size then qGrow heap q size n else (some q, n)

def qAddtail (q : Queue T) (ptr : T) (n : Nat) : Option (Queue T) × Nat :=
  if q.full then
    match qGrow heap q (q.size + 1) n with
    | (some q, n) => (some (q.put (some ptr)), n)
    | (none, n) => (none, n)
  else (some (q.put (some ptr)), n)

def qRemhead (q : Queue T) : Option T × Queue T :=
  (q.data q.nextread, { q with nextread := (q.nextread + 1) % q.size })

end Queue

/-- The ring holds `l`, oldest first; one slot always stays free. -/
structure Queue.Holds {T : Type} (q : Queue T) (l : List T) : Prop where
  room : l.length < q.size
  head : q.nextread < q.size
  tail : q.nextwrite = (q.nextread + l.length) % q.size
  slot : ∀ i (h : i < l.length), q.data ((q.nextread + i) % q.size) = some (l.get ⟨i, h⟩)

namespace Queue.Holds

variable {T : Type} {heap : Nat → Bool} {q q' : Queue T} {l : List T} {n n' : Nat}

theorem create {size : Nat} (h : 0 < size) : (qCreate size : Queue T).Holds [] :=
  ⟨h, h, by simp [qCreate], fun i hi => absurd hi (Nat.not_lt_zero i)⟩

theorem empty_iff (h : q.Holds l) : q.empty = true ↔ l = [] := by
  have hroom := h.room
  rw [Queue.empty, decide_eq_true_eq, h.tail]
  constructor
  · intro heq
    have h0 : (q.nextread + l.length) % q.size = (q.nextread + 0) % q.size := by
      rw [heq, Nat.add_zero, Nat.mod_eq_of_lt h.head]
    exact List.length_eq_zero_iff.mp (wrap_inj h.head hroom (by omega) h0)
  · intro hx
    obtain rfl := hx
    simpa using Nat.mod_eq_of_lt h.head

/-- The ring is full with one slot less than its size. -/
theorem full_iff (h : q.Holds l) : q.full = true ↔ l.length + 1 = q.size := by
  have hroom := h.room
  rw [Queue.full, decide_eq_true_eq, h.tail, wrap_succ, wrap_eq h.head (by omega)]
  split <;> constructor <;> intro <;> have := h.head <;> omega

theorem put (h : q.Holds l) (hroom : l.length + 1 < q.size) (t : T) :
    (q.put (some t)).Holds (l ++ [t]) := by
  refine ⟨by simpa [Queue.put] using hroom, h.head, ?_, fun i hi => ?_⟩
  · simp only [Queue.put, h.tail, wrap_succ, List.length_append, List.length_singleton]
  · have hlen : i < l.length + 1 := by simpa using hi
    simp only [Queue.put]
    rcases Nat.lt_succ_iff_lt_or_eq.mp hlen with hlt | rfl
    · have hne : (q.nextread + i) % q.size ≠ q.nextwrite := by
        intro heq
        rw [h.tail] at heq
        have := wrap_inj h.head (by omega) (by omega) heq
        omega
      rw [Function.update_of_ne hne, h.slot i hlt]
      simp [List.getElem_append_left hlt]
    · rw [← h.tail, Function.update_self]
      simp

theorem remhead {t : T} (h : q.Holds (t :: l)) :
    (qRemhead q).1 = some t ∧ (qRemhead q).2.Holds l := by
  have hroom := h.room
  rw [List.length_cons] at hroom
  refine ⟨?_, by simp only [qRemhead]; omega, Nat.mod_lt _ (by omega), ?_, fun i hi => ?_⟩
  · have := h.slot 0 (by simp)
    simpa [qRemhead, Nat.mod_eq_of_lt h.head] using this
  · simp only [qRemhead, h.tail, Nat.mod_add_mod, List.length_cons]
    congr 1
    omega
  · have := h.slot (i + 1) (by simpa using hi)
    simp only [qRemhead, Nat.mod_add_mod]
    rw [show q.nextread + 1 + i = q.nextread + (i + 1) by omega, this]
    simp

/-- The loop of `q_grow` copies what is left of the old ring. -/
theorem growCopy {old : Queue T} (h : old.Holds l) (k fuel : Nat) (hk : k ≤ l.length)
    (hfuel : l.length - k ≤ fuel) (hsize : l.length < q.size) (hq : q.Holds (l.take k)) :
    ∃ q', growCopy old fuel ((old.nextread + k) % old.size) q = some q' ∧ q'.Holds l ∧
      q'.size = q.size := by
  have hroom := h.room
  induction fuel generalizing k q with
  | zero =>
    have hkl : k = l.length := by omega
    subst hkl
    refine ⟨q, ?_, by simpa using hq, rfl⟩
    rw [Switch.growCopy, if_pos h.tail.symm]
  | succ fuel ih =>
    rw [Switch.growCopy]
    by_cases hkl : k = l.length
    · subst hkl
      rw [if_pos h.tail.symm]
      exact ⟨q, rfl, by simpa using hq, rfl⟩
    · have hlt : k < l.length := by omega
      have hne : (old.nextread + k) % old.size ≠ old.nextwrite := by
        intro heq
        rw [h.tail] at heq
        exact hkl (wrap_inj h.head (by omega) hroom heq)
      have htake : (l.take k).length = k := by simp; omega
      have hfull : ¬ q.full = true := by
        rw [hq.full_iff, htake]
        omega
      rw [if_neg hne, if_neg hfull, h.slot k hlt, wrap_succ]
      have hput := hq.put (t := l.get ⟨k, hlt⟩) (by rw [htake]; omega)
      have hstep : l.take k ++ [l.get ⟨k, hlt⟩] = l.take (k + 1) := by simp
      rw [hstep] at hput
      obtain ⟨q', hc, hh, hs⟩ := ih (k + 1) (by omega) (by omega) (by exact hsize) hput
      exact ⟨q', hc, hh, hs⟩

theorem grow (h : q.Holds l) (target : Nat) (hheap : heap n = true) :
    ∃ q', qGrow heap q target n = (some q', n + 1) ∧ q'.Holds l ∧ q.size ≤ q'.size ∧
      target ≤ q'.size := by
  have hroom := h.room
  have hle := le_nsize target target q.size
  have hge := nsize_ge target target q.size (by omega) (by omega)
  obtain ⟨q', hc, hh, hs⟩ := h.growCopy (q := qCreate (nsize target target q.size)) 0 q.size
    (Nat.zero_le _) (by omega) (by simp only [qCreate]; omega) (by
      rw [List.take_zero]
      exact create (by omega))
  rw [Nat.add_zero, Nat.mod_eq_of_lt h.head] at hc
  refine ⟨q', by rw [qGrow, if_pos hheap, hc], hh, ?_, ?_⟩
  · rw [hs]
    exact hle
  · rw [hs]
    exact hge

theorem grow_cases {target : Nat} (h : q.Holds l) (hg : qGrow heap q target n = (some q', n')) :
    q'.Holds l ∧ q.size ≤ q'.size ∧ target ≤ q'.size := by
  cases hheap : heap n with
  | true =>
    obtain ⟨p, hp, hh, hs, ht⟩ := h.grow target hheap
    rw [hp] at hg
    cases hg
    exact ⟨hh, hs, ht⟩
  | false => simp [qGrow, hheap] at hg

theorem grow_none {target : Nat} (h : q.Holds l) (hg : qGrow heap q target n = (none, n')) :
    heap n = false := by
  cases hheap : heap n with
  | true =>
    obtain ⟨p, hp, _⟩ := h.grow target hheap
    rw [hp] at hg
    cases hg
  | false => rfl

theorem preallocate_cases {size : Nat} (h : q.Holds l)
    (hp : qPreallocate heap q size n = (some q', n')) :
    q'.Holds l ∧ q.size ≤ q'.size ∧ size ≤ q'.size := by
  unfold qPreallocate at hp
  split at hp
  · exact h.grow_cases hp
  · cases hp
    exact ⟨h, Nat.le_refl _, by omega⟩

/-- With a slot to spare the heap is left alone. -/
theorem addtail_room (h : q.Holds l) (hroom : l.length + 1 < q.size) (t : T) :
    qAddtail heap q t n = (some (q.put (some t)), n) := by
  have hfull : ¬ q.full = true := by
    rw [h.full_iff]
    omega
  rw [qAddtail, if_neg hfull]

theorem addtail_full (h : q.Holds l) (hroom : ¬ l.length + 1 < q.size) (t : T) :
    (qAddtail heap q t n).2 = n + 1 := by
  have hfull : q.full = true := by
    rw [h.full_iff]
    have := h.room
    omega
  have hg : (qGrow heap q (q.size + 1) n).2 = n + 1 := by
    rw [qGrow]
    split <;> rfl
  rw [qAddtail, if_pos hfull]
  split
  · next hm => rwa [hm] at hg
  · next hm => rwa [hm] at hg

theorem addtail_cases {t : T} (h : q.Holds l) (ha : qAddtail heap q t n = (some q', n')) :
    q'.Holds (l ++ [t]) ∧ q.size ≤ q'.size := by
  by_cases hroom : l.length + 1 < q.size
  · rw [h.addtail_room hroom] at ha
    cases ha
    exact ⟨h.put hroom t, Nat.le_refl _⟩
  · have hfull : q.full = true := by
      rw [h.full_iff]
      have := h.room
      omega
    rw [qAddtail, if_pos hfull] at ha
    split at ha
    · next p m hp =>
      cases ha
      obtain ⟨hh, hs, ht⟩ := h.grow_cases hp
      have := h.room
      exact ⟨hh.put (by omega) t, hs⟩
    · cases ha

theorem addtail_none {t : T} (h : q.Holds l) (ha : qAddtail heap q t n = (none, n')) :
    heap n = false := by
  unfold qAddtail at ha
  split at ha
  · split at ha
    · cases ha
    · next hp => exact h.grow_none hp
  · cases ha

end Queue.Holds

/-- How many pointers the ring holds, by the indices. -/
def Queue.num {T : Type} (q : Queue T) : Nat :=
  if q.nextread ≤ q.nextwrite then q.nextwrite - q.nextread
  else q.nextwrite + q.size - q.nextread

/-- The pointers in the order `q_remhead` returns them. -/
def Queue.contents {T : Type} (q : Queue T) : List T :=
  (List.range q.num).filterMap fun i => q.data ((q.nextread + i) % q.size)

theorem Queue.Holds.num_eq {T : Type} {q : Queue T} {l : List T} (h : q.Holds l) :
    q.num = l.length := by
  have hroom := h.room
  have hhead := h.head
  have htail := h.tail
  rw [wrap_eq hhead (by omega)] at htail
  rw [Queue.num]
  split at htail <;> split <;> omega

theorem Queue.Holds.contents_eq {T : Type} {q : Queue T} {l : List T} (h : q.Holds l) :
    q.contents = l := by
  rw [Queue.contents, h.num_eq]
  have hmap : (List.range l.length).filterMap (fun i => q.data ((q.nextread + i) % q.size)) =
      (List.range l.length).filterMap (fun i => l[i]?) := by
    refine List.filterMap_congr fun i hi => ?_
    have hlt := List.mem_range.mp hi
    rw [h.slot i hlt]
    simp [hlt]
  rw [hmap]
  clear hmap h
  induction l using List.reverseRecOn with
  | nil => rfl
  | append_singleton l t ih =>
    rw [List.length_append, List.length_singleton, List.range_succ, List.filterMap_append]
    have hinit : (List.range l.length).filterMap (fun i => (l ++ [t])[i]?) =
        (List.range l.length).filterMap (fun i => l[i]?) :=
      List.filterMap_congr fun i hi => List.getElem?_append_left (List.mem_range.mp hi)
    rw [hinit, ih]
    simp

end Os161.Switch
