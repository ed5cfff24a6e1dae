import Os161.Switch.Containers

/-! # Queues as lists

`kern/lib/queue.c` once more, with what can go wrong in it: the assertions, the `int` that
doubles in `q_grow`, the bytes asked of `kmalloc`, and `q_addtail` called again by the
growing it started. -/
namespace Os161.Switch.Fifo

variable {T : Type}

/-- How a function ends. -/
inductive Outcome (α : Type) where
  | ret (a : α)
  | assertion
  | bounds
  | diverges

def Outcome.bind {α β : Type} : Outcome α → (α → Outcome β) → Outcome β
  | .ret a, f => f a
  | .assertion, _ => .assertion
  | .bounds, _ => .bounds
  | .diverges, _ => .diverges

@[simp] theorem Outcome.ret_bind {α β : Type} (a : α) (f : α → Outcome β) :
    (Outcome.ret a).bind f = f a := rfl

/-- The error code of the source, as a success or a failure. -/
inductive Errno where
  | none
  | ENOMEM
  deriving DecidableEq

/-- The pointers that fit in what `kmalloc(size * sizeof(void *))` gave. -/
def slots (q : Queue T) : Nat := q.size * 4 % 4294967296 / 4

/-- The queue, the calls of `kmalloc` so far, and the error code. -/
structure Reply (T : Type) where
  queue : Queue T
  calls : Nat
  result : Errno

/-- `while (nsize < targetsize)`: an `int` doubled beyond `2^31` is not positive. -/
def growSize (targetsize : Nat) : Nat → Nat → Outcome Nat
  | 0, nsize => if nsize < targetsize then .diverges else .ret nsize
  | fuel + 1, nsize =>
    if nsize < targetsize then
      if nsize * 2 < 2147483648 then growSize targetsize fuel (nsize * 2) else .assertion
    else .ret nsize

/-- The loop of `q_grow`, from `i` on. -/
def copy (addtail : Queue T → Option T → Nat → Outcome (Reply T)) (old : Queue T) :
    Nat → Nat → Queue T → Nat → Outcome (Queue T × Nat)
  | 0, i, q, n => if i = old.nextwrite then .ret (q, n) else .diverges
  | fuel + 1, i, q, n =>
    if i = old.nextwrite then .ret (q, n)
    else if slots old ≤ i then .bounds
    else (addtail q (old.data i) n).bind fun r =>
      if r.result = .none then copy addtail old fuel ((i + 1) % old.size) r.queue r.calls
      else .assertion

def qGrow (heap : Nat → Bool) (addtail : Queue T → Option T → Nat → Outcome (Reply T))
    (q : Queue T) (targetsize n : Nat) : Outcome (Reply T) :=
  (growSize targetsize 32 q.size).bind fun nsize =>
    if heap n then
      (copy addtail q q.size q.nextread (qCreate nsize) (n + 1)).bind fun r =>
        .ret ⟨r.1, r.2, .none⟩
    else .ret ⟨q, n + 1, .ENOMEM⟩

/-- The end of `q_addtail`. -/
def store (q : Queue T) (ptr : Option T) (n : Nat) : Outcome (Reply T) :=
  if slots q ≤ q.nextwrite then .bounds else .ret ⟨q.put ptr, n, .none⟩

/-- `q_addtail`, within `depth` calls of itself. -/
def qAddtail (heap : Nat → Bool) : Nat → Queue T → Option T → Nat → Outcome (Reply T)
  | 0, _, _, _ => .diverges
  | depth + 1, q, ptr, n =>
    if q.size = 0 then .assertion
    else if q.full then
      (qGrow heap (qAddtail heap depth) q (q.size + 1) n).bind fun r =>
        if r.result = .none then store r.queue ptr r.calls else .ret r
    else store q ptr n

def qPreallocate (heap : Nat → Bool) (depth : Nat) (q : Queue T) (size : Int) (n : Nat) :
    Outcome (Reply T) :=
  if q.size = 0 then .assertion
  else if size > q.size then qGrow heap (qAddtail heap depth) q size.toNat n
  else .ret ⟨q, n, .none⟩

/-- `none` is a slot that was never written. -/
def qRemhead (q : Queue T) : Outcome (Option T × Queue T) :=
  if q.size = 0 then .assertion
  else if q.empty then .assertion
  else if slots q ≤ q.nextread then .bounds
  else .ret (Switch.qRemhead q)

/-- `none` is `NULL`. -/
def qCreate (heap : Nat → Bool) (size n : Nat) : Option (Queue T) × Nat :=
  if heap n then
    if heap (n + 1) then (some (Switch.qCreate size), n + 2) else (none, n + 2)
  else (none, n + 1)

/-! ## Growing -/

section Spec

variable {heap : Nat → Bool} {q : Queue T} {l : List T} {n : Nat}

/-- Below this size the ring has all its slots. -/
def Small (q : Queue T) : Prop := q.size < 1073741824

theorem slots_eq (h : Small q) : slots q = q.size := by
  unfold Small at h
  unfold slots
  omega

theorem growSize_spec (fuel : Nat) {target m : Nat} (hm : 0 < m) (hsmall : m < 1073741824)
    (ht : target ≤ 536870912) (hfuel : target ≤ m <<< fuel) :
    ∃ k, growSize target fuel m = .ret k ∧ target ≤ k ∧ m ≤ k ∧ k < 1073741824 := by
  induction fuel generalizing m with
  | zero =>
    rw [Nat.shiftLeft_zero] at hfuel
    exact ⟨m, by rw [growSize, if_neg (by omega)], hfuel, Nat.le_refl _, hsmall⟩
  | succ fuel ih =>
    rw [growSize]
    by_cases hlt : m < target
    · rw [if_pos hlt, if_pos (by omega)]
      obtain ⟨k, hk, h1, h2, h3⟩ := ih (m := m * 2) (by omega) (by omega)
        (by rw [Nat.mul_comm, ← Nat.shiftLeft_succ_inside]; exact hfuel)
      exact ⟨k, hk, h1, by omega, h3⟩
    · rw [if_neg hlt]
      exact ⟨m, rfl, by omega, Nat.le_refl _, hsmall⟩

theorem store_spec (h : q.Holds l) (hs : Small q) (t : T) :
    store q (some t) n = .ret ⟨q.put (some t), n, .none⟩ := by
  have htail : q.nextwrite < q.size := by
    rw [h.tail]
    exact Nat.mod_lt _ (by have := h.head; omega)
  rw [store, slots_eq hs, if_neg (by omega)]

/-- With a slot to spare nothing grows. -/
theorem addtail_room (heap : Nat → Bool) (h : q.Holds l) (hs : Small q)
    (hroom : l.length + 1 < q.size) (t : T) (depth : Nat) :
    qAddtail heap (depth + 1) q (some t) n = .ret ⟨q.put (some t), n, .none⟩ := by
  have hfull : ¬ q.full = true := by
    rw [h.full_iff]
    omega
  rw [qAddtail, if_neg (by omega), if_neg hfull, store_spec h hs]

/-- The loop copies what is left of the old ring, and the new one never fills. -/
theorem copy_spec (heap : Nat → Bool) {old : Queue T} (h : old.Holds l) (hold : Small old)
    (k fuel depth : Nat) (hk : k ≤ l.length) (hfuel : l.length - k ≤ fuel)
    (hsize : l.length < q.size)
    (hs : Small q) (hq : q.Holds (l.take k)) :
    ∃ q', copy (qAddtail heap (depth + 1)) old fuel ((old.nextread + k) % old.size) q n =
      .ret (q', n) ∧ q'.Holds l ∧ q'.size = q.size := by
  have hroom := h.room
  induction fuel generalizing k q with
  | zero =>
    have hkl : k = l.length := by omega
    subst hkl
    refine ⟨q, ?_, by simpa using hq, rfl⟩
    rw [copy, if_pos h.tail.symm]
  | succ fuel ih =>
    rw [copy]
    by_cases hkl : k = l.length
    · subst hkl
      rw [if_pos h.tail.symm]
      exact ⟨q, rfl, by simpa using hq, rfl⟩
    · have hlt : k < l.length := by omega
      have hne : (old.nextread + k) % old.size ≠ old.nextwrite := by
        intro heq
        rw [h.tail] at heq
        exact hkl (wrap_inj h.head (by omega) hroom heq)
      have hin : (old.nextread + k) % old.size < old.size := Nat.mod_lt _ (by omega)
      have htake : (l.take k).length + 1 < q.size := by
        rw [List.length_take]
        omega
      rw [if_neg hne, slots_eq hold, if_neg (by omega), h.slot k hlt,
        addtail_room heap hq hs htake, Outcome.ret_bind]
      have hput := hq.put htake (l.get ⟨k, hlt⟩)
      have hstep : l.take k ++ [l.get ⟨k, hlt⟩] = l.take (k + 1) := by simp
      rw [hstep] at hput
      obtain ⟨q', hc, hh, hsz⟩ := ih (q := q.put (some (l.get ⟨k, hlt⟩))) (k + 1) (by omega)
        (by omega) hsize hs hput
      refine ⟨q', ?_, hh, hsz⟩
      rw [if_pos rfl, wrap_succ]
      exact hc

/-- `q_grow` refuses and leaves the queue, or keeps what the queue holds. -/
theorem grow_spec (heap : Nat → Bool) (n : Nat) (h : q.Holds l) (hs : Small q) {target : Nat}
    (ht : target ≤ 536870912) (depth : Nat) :
    (heap n = false ∧
      qGrow heap (qAddtail heap (depth + 1)) q target n = .ret ⟨q, n + 1, .ENOMEM⟩) ∨
    (∃ q', qGrow heap (qAddtail heap (depth + 1)) q target n = .ret ⟨q', n + 1, .none⟩ ∧
      q'.Holds l ∧ target ≤ q'.size ∧ Small q') := by
  have hroom := h.room
  obtain ⟨k, hk, htk, hmk, hsmall⟩ := growSize_spec 32 (m := q.size) (by omega) hs ht
    (by omega)
  cases hheap : heap n with
  | false =>
    refine .inl ⟨rfl, ?_⟩
    rw [qGrow, hk, Outcome.ret_bind, hheap]
    rfl
  | true =>
    obtain ⟨q', hc, hh, hsz⟩ := copy_spec heap (n := n + 1)
      (q := (Switch.qCreate k : Queue T)) h hs 0 q.size depth (Nat.zero_le _) (by omega)
      (by simp only [Switch.qCreate]; omega) hsmall (by
        rw [List.take_zero]
        exact Queue.Holds.create (by omega))
    rw [Nat.add_zero q.nextread, Nat.mod_eq_of_lt h.head] at hc
    refine .inr ⟨q', ?_, hh, ?_, ?_⟩
    · rw [qGrow, hk, Outcome.ret_bind, hheap, if_pos rfl, hc, Outcome.ret_bind]
    · rw [hsz]
      exact htk
    · rw [Small, hsz]
      exact hsmall

/-- `q_addtail` appends, or refuses and leaves the queue. -/
theorem addtail_spec (heap : Nat → Bool) (n : Nat) (h : q.Holds l) (hs : Small q)
    (hsize : q.full = true → q.size < 536870912) (t : T) (depth : Nat) :
    (heap n = false ∧ qAddtail heap (depth + 2) q (some t) n = .ret ⟨q, n + 1, .ENOMEM⟩) ∨
    (∃ q' n', qAddtail heap (depth + 2) q (some t) n = .ret ⟨q', n', .none⟩ ∧
      q'.Holds (l ++ [t]) ∧ Small q') := by
  have hroom := h.room
  by_cases hfull : q.full = true
  · have hlt := hsize hfull
    have hunfold : qAddtail heap (depth + 2) q (some t) n =
        (qGrow heap (qAddtail heap (depth + 1)) q (q.size + 1) n).bind fun r =>
          if r.result = .none then store r.queue (some t) r.calls else .ret r := by
      rw [qAddtail, if_neg (by omega), if_pos hfull]
    obtain ⟨hheap, hg⟩ | ⟨q', hg, hh, hge, hs'⟩ :=
      grow_spec heap n h hs (show q.size + 1 ≤ 536870912 by omega) depth
    · refine .inl ⟨hheap, ?_⟩
      rw [hunfold, hg]
      rfl
    · refine .inr ⟨q'.put (some t), n + 1, ?_, hh.put (by omega) t, hs'⟩
      rw [hunfold, hg, Outcome.ret_bind, if_pos rfl, store_spec hh hs']
  · have hlt : l.length + 1 < q.size := by
      rw [h.full_iff] at hfull
      omega
    exact .inr ⟨q.put (some t), n, addtail_room heap h hs hlt t (depth + 1), h.put hlt t, hs⟩

theorem preallocate_spec (heap : Nat → Bool) (n : Nat) (h : q.Holds l) (hs : Small q)
    {size : Int} (hsize : size < 536870912) (depth : Nat) :
    (heap n = false ∧ qPreallocate heap (depth + 1) q size n = .ret ⟨q, n + 1, .ENOMEM⟩) ∨
    (∃ q' n', qPreallocate heap (depth + 1) q size n = .ret ⟨q', n', .none⟩ ∧ q'.Holds l ∧
      Small q') := by
  have hroom := h.room
  rw [qPreallocate, if_neg (by omega)]
  by_cases hlt : size > q.size
  · rw [if_pos hlt]
    obtain hg | ⟨q', hg, hh, -, hs'⟩ :=
      grow_spec heap n h hs (show size.toNat ≤ 536870912 by omega) depth
    · exact .inl hg
    · exact .inr ⟨q', n + 1, hg, hh, hs'⟩
  · rw [if_neg hlt]
    exact .inr ⟨q, n, rfl, h, hs⟩

theorem remhead_spec {t : T} (h : q.Holds (t :: l)) (hs : Small q) :
    ∃ q', qRemhead q = .ret (some t, q') ∧ q'.Holds l ∧ Small q' := by
  have hhead := h.head
  have hempty : ¬ q.empty = true := by
    rw [h.empty_iff]
    exact List.cons_ne_nil _ _
  obtain ⟨ht, hh⟩ := h.remhead
  refine ⟨(Switch.qRemhead q).2, ?_, hh, hs⟩
  rw [qRemhead, if_neg (by omega), if_neg hempty, slots_eq hs, if_neg (by omega), ← ht]

end Spec

/-! ## Runs -/

inductive Call (T : Type) where
  | addtail (ptr : T)
  | remhead
  | preallocate (size : Int)

/-- What a call hands back. -/
inductive Answer (T : Type) where
  | code (e : Errno)
  | guy (ptr : Option T)

def perform (heap : Nat → Bool) (depth : Nat) (q : Queue T) (n : Nat) :
    Call T → Outcome (Answer T × Queue T × Nat)
  | .addtail ptr => (qAddtail heap depth q (some ptr) n).bind fun r =>
      .ret (.code r.result, r.queue, r.calls)
  | .preallocate size => (qPreallocate heap depth q size n).bind fun r =>
      .ret (.code r.result, r.queue, r.calls)
  | .remhead => (qRemhead q).bind fun r => .ret (.guy r.1, r.2, n)

/-- What a call does to a list, oldest first. -/
inductive Step : List T → Call T → Answer T → List T → Prop
  | appended (l : List T) (t : T) : Step l (.addtail t) (.code .none) (l ++ [t])
  | noMemory (l : List T) (t : T) : Step l (.addtail t) (.code .ENOMEM) l
  | removed (t : T) (l : List T) : Step (t :: l) .remhead (.guy (some t)) l
  | preallocated (l : List T) (size : Int) (e : Errno) : Step l (.preallocate size) (.code e) l

/-- The queue is not empty where its head is removed, and sizes stay below `2^29`. -/
def Allowed (q : Queue T) (l : List T) : Call T → Prop
  | .addtail _ => q.full = true → q.size < 536870912
  | .remhead => l ≠ []
  | .preallocate size => size < 536870912

/-- The queue goes on as the list `l` does. -/
def Refines (heap : Nat → Bool) (depth : Nat) : Queue T → Nat → List T → List (Call T) → Prop
  | q, _, l, [] => q.empty = true ↔ l = []
  | q, n, l, c :: cs =>
    (q.empty = true ↔ l = []) ∧
    (Allowed q l c → ∃ a q' n' l', perform heap depth q n c = .ret (a, q', n') ∧ Step l c a l' ∧
      (a = .code .ENOMEM → q' = q ∧ heap n = false) ∧ Refines heap depth q' n' l' cs)

theorem perform_spec {heap : Nat → Bool} {q : Queue T} {l : List T} (h : q.Holds l)
    (hs : Small q) (depth n : Nat) {c : Call T} (hc : Allowed q l c) :
    ∃ a q' n' l', perform heap (depth + 2) q n c = .ret (a, q', n') ∧ Step l c a l' ∧
      (a = .code .ENOMEM → q' = q ∧ heap n = false) ∧ q'.Holds l' ∧ Small q' := by
  cases c with
  | addtail t =>
    obtain ⟨hheap, hp⟩ | ⟨q', n', hp, hh, hs'⟩ := addtail_spec heap n h hs hc t depth
    · refine ⟨.code .ENOMEM, q, n + 1, l, ?_, .noMemory l t, fun _ => ⟨rfl, hheap⟩, h, hs⟩
      rw [perform, hp, Outcome.ret_bind]
    · refine ⟨.code .none, q', n', l ++ [t], ?_, .appended l t, nofun, hh, hs'⟩
      rw [perform, hp, Outcome.ret_bind]
  | remhead =>
    obtain ⟨t, l, rfl⟩ := List.exists_cons_of_ne_nil hc
    obtain ⟨q', hp, hh, hs'⟩ := remhead_spec h hs
    refine ⟨.guy (some t), q', n, l, ?_, .removed t l, nofun, hh, hs'⟩
    rw [perform, hp, Outcome.ret_bind]
  | preallocate size =>
    obtain ⟨hheap, hp⟩ | ⟨q', n', hp, hh, hs'⟩ :=
      preallocate_spec heap n h hs hc (depth + 1)
    · refine ⟨.code .ENOMEM, q, n + 1, l, ?_, .preallocated l size .ENOMEM,
        fun _ => ⟨rfl, hheap⟩, h, hs⟩
      rw [perform, hp, Outcome.ret_bind]
    · refine ⟨.code .none, q', n', l, ?_, .preallocated l size .none, nofun, hh, hs'⟩
      rw [perform, hp, Outcome.ret_bind]

theorem refines_of_holds {heap : Nat → Bool} (depth : Nat) (cs : List (Call T)) {q : Queue T}
    {l : List T} (h : q.Holds l) (hs : Small q) (n : Nat) :
    Refines heap (depth + 2) q n l cs := by
  induction cs generalizing q l n with
  | nil => exact h.empty_iff
  | cons c cs ih =>
    refine ⟨h.empty_iff, fun hc => ?_⟩
    obtain ⟨a, q', n', l', hp, hstep, hnomem, hh, hs'⟩ := perform_spec h hs depth n hc
    exact ⟨a, q', n', l', hp, hstep, hnomem, ih hh hs' n'⟩

/-- A new queue is the empty list, and goes on as a list whatever is called. -/
theorem queue_refines_list (heap : Nat → Bool) (size n n' : Nat) (q : Queue T)
    (h0 : 1 ≤ size) (h1 : size < 536870912) (hq : qCreate heap size n = (some q, n'))
    (depth : Nat) (hdepth : 2 ≤ depth) (cs : List (Call T)) :
    Refines heap depth q n' [] cs := by
  obtain ⟨k, rfl⟩ := Nat.exists_eq_add_of_le' hdepth
  obtain rfl : Switch.qCreate size = q := by
    unfold qCreate at hq
    split at hq
    · split at hq
      · exact Option.some.inj (Prod.mk.inj hq).1
      · cases (Prod.mk.inj hq).1
    · cases (Prod.mk.inj hq).1
  refine refines_of_holds k cs (.create h0) ?_ n'
  change size < 1073741824
  omega

theorem queue_refines_list_one :
    Refines (fun n => n ≠ 2) 2 (Switch.qCreate 1 : Queue Nat) 2 []
      [.addtail 7, .addtail 8, .remhead] :=
  queue_refines_list (fun n => n ≠ 2) 1 0 2 _ (by decide) (by decide) rfl 2 (by decide) _

end Os161.Switch.Fifo
