import Mathlib.Data.List.Nodup
import Os161.Switch.ThreadTable

/-! # The thread lists form a partition

What every step keeps of the four places a thread can be in, and of the storage that
`thread_fork` has preallocated for them. -/
namespace Os161.Switch

variable {T A : Type} {heap : Nat → Bool}

/-! ## `exorcise` -/

section Exorcise

variable [DecidableEq T]

theorem destroyAll_cases {cur : Option T} {zs live live' : List T}
    (h : destroyAll cur zs live = some live') (t : T) :
    live'.count t = live.count t - zs.count t := by
  induction zs generalizing live with
  | nil =>
    cases h
    simp
  | cons z zs ih =>
    rw [destroyAll] at h
    split at h
    · cases h
    · rw [ih h, List.count_erase, List.count_cons]
      omega

theorem destroyAll_some (cur : Option T) (zs live : List T)
    (h : ∀ t, cur = some t → t ∉ zs) : ∃ live', destroyAll cur zs live = some live' := by
  induction zs generalizing live with
  | nil => exact ⟨live, rfl⟩
  | cons z zs ih =>
    rw [destroyAll, if_neg fun hc => h z hc List.mem_cons_self]
    exact ih _ fun t ht hz => h t ht (List.mem_cons_of_mem z hz)

theorem destroyAll_nodup {cur : Option T} {zs live live' : List T}
    (h : destroyAll cur zs live = some live') (hl : live.Nodup) : live'.Nodup := by
  rw [List.nodup_iff_count_le_one] at hl ⊢
  intro t
  have := hl t
  rw [destroyAll_cases h]
  omega

end Exorcise

namespace Sys

/-! ## The invariant -/

/-- `l` is what the run queue holds. `stored` and `ring` are the room for every
outstanding thread; before the first `thread_fork` there is no vector to sleep on. -/
structure Inv [DecidableEq T] (s : Sys T A) (l : List T) : Prop where
  holds : s.runqueue.Holds l
  places : ∀ t, s.cur.toList.count t + l.count t + s.sleepers.guys.count t +
    s.zombies.guys.count t = s.live.count t
  nodup : s.live.Nodup
  count : s.numthreads + s.zombies.guys.length = s.live.length
  stored : s.numthreads ≤ s.sleepers.max ∨ s.sleepers.max = 0 ∧ s.numthreads ≤ 1
  ring : s.numthreads ≤ s.runqueue.size
  making : (s.making.map Prod.snd).Nodup
  fresh : ∀ p ∈ s.making, p.2 ∉ s.live

namespace Inv

variable [DecidableEq T] {s s' : Sys T A} {l : List T}

theorem perm (h : s.Inv l) :
    (s.cur.toList ++ l ++ s.sleepers.guys ++ s.zombies.guys).Perm s.live := by
  rw [List.perm_iff_count]
  intro t
  rw [List.count_append, List.count_append, List.count_append, h.places t]

theorem numthreads_eq (h : s.Inv l) :
    s.numthreads = s.cur.toList.length + l.length + s.sleepers.guys.length := by
  have hlen := h.perm.length_eq
  have hcount := h.count
  simp only [List.length_append] at hlen
  omega

theorem cur_live {t : T} (h : s.Inv l) (hc : s.cur = some t) :
    s.live.count t = 1 ∧ t ∉ l ∧ t ∉ s.sleepers.guys ∧ t ∉ s.zombies.guys := by
  have hp := h.places t
  have hle := List.nodup_iff_count_le_one.mp h.nodup t
  have hcur : s.cur.toList.count t = 1 := by simp [hc]
  refine ⟨by omega, ?_, ?_, ?_⟩ <;> rw [← List.count_eq_zero] <;> omega

/-- The place of every thread, as the four counts say it. -/
theorem one_place (h : s.Inv l) (t : T) :
    s.cur.toList.count t + l.count t + s.sleepers.guys.count t + s.zombies.guys.count t =
      if t ∈ s.live then 1 else 0 := by
  rw [h.places t]
  split
  · next ht => exact List.count_eq_one_of_mem h.nodup ht
  · next ht => exact List.count_eq_zero_of_not_mem ht

theorem numthreads_zombies (h : s.Inv l) :
    s.numthreads = (s.live.filter fun t => t ∉ s.zombies.guys).length := by
  have hperm := h.perm
  have hz : s.zombies.guys.Nodup := by
    rw [List.nodup_iff_count_le_one]
    intro t
    have hp := h.places t
    have hle := List.nodup_iff_count_le_one.mp h.nodup t
    omega
  have hin : (s.live.filter fun t => t ∈ s.zombies.guys).Perm s.zombies.guys := by
    rw [List.perm_iff_count]
    intro t
    by_cases ht : t ∈ s.zombies.guys
    · rw [List.count_filter (by simpa using ht)]
      have hp := h.places t
      have hle := List.nodup_iff_count_le_one.mp h.nodup t
      have hpos := List.count_pos_iff.mpr ht
      omega
    · rw [List.count_eq_zero_of_not_mem ht, List.count_eq_zero]
      intro hf
      exact ht (by simpa using (List.mem_filter.mp hf).2)
  have hsum : (s.live.filter fun t => t ∈ s.zombies.guys).length +
      (s.live.filter fun t => t ∉ s.zombies.guys).length = s.live.length := by
    have := s.live.length_eq_length_filter_add fun t => decide (t ∈ s.zombies.guys)
    simpa using this.symm
  have hcount := h.count
  rw [hin.length_eq] at hsum
  omega

theorem boot (me : T) : (boot me : Sys T A).Inv [] where
  holds := Queue.Holds.create (by decide)
  places := fun t => by simp [Sys.boot, arrayCreate]
  nodup := List.nodup_singleton me
  count := rfl
  stored := .inr ⟨rfl, Nat.le_refl 1⟩
  ring := by simp [Sys.boot, qCreate]
  making := List.nodup_nil
  fresh := fun p hp => absurd hp List.not_mem_nil

end Inv

/-! ## What each step does -/

section Cases

variable {s s' : Sys T A} {l : List T}

/-- `s'` is `s` after an assertion failed because a call of `kmalloc` did. -/
structure Starved (heap : Nat → Bool) (s s' : Sys T A) : Prop where
  panic : s'.panic = true
  calls : s.calls < s'.calls
  refused : ∃ n, heap n = false

theorem makeRunnable_cases (heap : Nat → Bool) (h : s.runqueue.Holds l) (t : T) :
    (∃ q n, s.makeRunnable heap t = { s with runqueue := q, calls := n } ∧ q.Holds (l ++ [t]) ∧
      s.runqueue.size ≤ q.size) ∨
    Starved heap s (s.makeRunnable heap t) := by
  unfold makeRunnable
  split
  · next q n hq =>
    obtain ⟨hh, hs⟩ := h.addtail_cases hq
    exact .inl ⟨q, n, rfl, hh, hs⟩
  · next n hq =>
    refine .inr ⟨rfl, ?_, _, h.addtail_none hq⟩
    by_cases hroom : l.length + 1 < s.runqueue.size
    · rw [h.addtail_room hroom] at hq
      cases hq
    · have hcalls : (qAddtail heap s.runqueue t s.calls).2 = s.calls + 1 := h.addtail_full hroom t
      rw [hq] at hcalls
      have hn : n = s.calls + 1 := hcalls
      exact Nat.lt_of_lt_of_eq (Nat.lt_succ_self _) hn.symm

theorem makeRunnable_room (h : s.runqueue.Holds l)
    (hroom : l.length + 1 < s.runqueue.size) (t : T) :
    s.makeRunnable heap t = { s with runqueue := s.runqueue.put (some t) } := by
  rw [makeRunnable, h.addtail_room hroom]

theorem makeRunnable_full (heap : Nat → Bool) (h : s.runqueue.Holds l)
    (hroom : ¬ l.length + 1 < s.runqueue.size) (t : T) :
    (s.makeRunnable heap t).calls = s.calls + 1 := by
  have hcalls : (qAddtail heap s.runqueue t s.calls).2 = s.calls + 1 := h.addtail_full hroom t
  unfold makeRunnable
  split
  · next hq => rwa [hq] at hcalls
  · next hq => rwa [hq] at hcalls

theorem makeRunnable_calls_le (heap : Nat → Bool) (h : s.runqueue.Holds l) (t : T) :
    s.calls ≤ (s.makeRunnable heap t).calls := by
  by_cases hroom : l.length + 1 < s.runqueue.size
  · exact Nat.le_of_eq (by rw [makeRunnable_room h hroom])
  · rw [makeRunnable_full heap h hroom]
    exact Nat.le_succ _

section Fork

variable [DecidableEq T]

/-- The critical section of `thread_fork`: without memory the new thread is dropped. -/
theorem finishFork_cases (heap : Nat → Bool) (h : s.runqueue.Holds l) (p : T × T) :
    ∃ sl z q n, sl.guys = s.sleepers.guys ∧ s.sleepers.max ≤ sl.max ∧
      z.guys = s.zombies.guys ∧ s.runqueue.size ≤ q.size ∧
      (q.Holds l ∧ s.finishFork heap p =
          { s with
            making := s.making.erase p, sleepers := sl, zombies := z, runqueue := q, calls := n } ∨
        q.Holds (l ++ [p.2]) ∧ s.numthreads + 1 ≤ sl.max ∧ s.numthreads + 1 ≤ q.size ∧
        s.finishFork heap p =
          { s with
            making := s.making.erase p, sleepers := sl, zombies := z, runqueue := q, calls := n
            numthreads := s.numthreads + 1
            resume := Function.update s.resume p.2 .fresh
            live := p.2 :: s.live }) := by
  unfold finishFork
  dsimp only
  split
  · next n _ => exact ⟨s.sleepers, s.zombies, s.runqueue, n, rfl, Nat.le_refl _, rfl,
      Nat.le_refl _, .inl ⟨h, rfl⟩⟩
  next sl n₁ hsl =>
  obtain ⟨hg₁, hm₁, hn₁⟩ := arrayPreallocate_cases hsl
  split
  · next n _ => exact ⟨sl, s.zombies, s.runqueue, n, hg₁, hm₁, rfl, Nat.le_refl _, .inl ⟨h, rfl⟩⟩
  next z n₂ hz =>
  obtain ⟨hg₂, hm₂, hn₂⟩ := arrayPreallocate_cases hz
  split
  · next n _ => exact ⟨sl, z, s.runqueue, n, hg₁, hm₁, hg₂, Nat.le_refl _, .inl ⟨h, rfl⟩⟩
  next q n₃ hq =>
  obtain ⟨hh, hs, ht⟩ := h.preallocate_cases hq
  split
  · next n _ => exact ⟨sl, z, q, n, hg₁, hm₁, hg₂, hs, .inl ⟨hh, rfl⟩⟩
  next q' n₄ hq' =>
  obtain ⟨hh', hs'⟩ := hh.addtail_cases hq'
  exact ⟨sl, z, q', n₄, hg₁, hm₁, hg₂, Nat.le_trans hs hs',
    .inr ⟨hh', hn₁, Nat.le_trans ht hs', rfl⟩⟩

end Fork

section Wakeup

variable [DecidableEq A]

/-- `thread_wakeup` from index `i` on, where the sleepers are `pre ++ rest`. -/
theorem wakeupLoop_cases (heap : Nat → Bool) (a : A) {fuel : Nat} {pre rest : List T}
    (h : s.runqueue.Holds l)
    (hs : s.sleepers.guys = pre ++ rest) (hfuel : rest.length ≤ fuel) (hp : s.panic = false) :
    (∃ q n, s.wakeupLoop heap a fuel pre.length =
        { s with
          sleepers := ⟨pre ++ rest.filter fun t => s.sleepaddr t ≠ some a, s.sleepers.max⟩
          runqueue := q, calls := n } ∧
      q.Holds (l ++ rest.filter fun t => s.sleepaddr t = some a) ∧ s.runqueue.size ≤ q.size) ∨
    Starved heap s (s.wakeupLoop heap a fuel pre.length) := by
  induction fuel generalizing s pre rest l with
  | zero =>
    have hnil : rest = [] := List.length_eq_zero_iff.mp (by omega)
    subst hnil
    refine .inl ⟨s.runqueue, s.calls, ?_, by simpa using h, Nat.le_refl _⟩
    simp only [wakeupLoop, List.filter_nil, ← hs]
  | succ fuel ih =>
    cases rest with
    | nil =>
      refine .inl ⟨s.runqueue, s.calls, ?_, by simpa using h, Nat.le_refl _⟩
      have hnone : s.sleepers.guys[pre.length]? = none := by simp [hs]
      rw [wakeupLoop, if_neg (by simp [hp]), hnone]
      simp only [List.filter_nil, ← hs]
    | cons t rest =>
      have hsome : s.sleepers.guys[pre.length]? = some t := by simp [hs]
      have hstop : ¬ s.panic = true := by simp [hp]
      rw [List.length_cons] at hfuel
      by_cases ht : s.sleepaddr t = some a
      · have hloop : s.wakeupLoop heap a (fuel + 1) pre.length =
            ({ s with sleepers := arrayRemove s.sleepers pre.length }.makeRunnable heap
              t).wakeupLoop
              heap a fuel pre.length := by
          rw [wakeupLoop, if_neg hstop, hsome]
          exact if_pos ht
        have hrem : (arrayRemove s.sleepers pre.length).guys = pre ++ rest := by
          rw [arrayRemove_guys, hs, List.eraseIdx_append_of_length_le (Nat.le_refl _)]
          simp
        rw [hloop]
        rcases makeRunnable_cases (s := { s with sleepers := arrayRemove s.sleepers pre.length })
            heap h t with ⟨q, n, heq, hq, hsize⟩ | hst
        · have hmono := makeRunnable_calls_le
            (s := { s with sleepers := arrayRemove s.sleepers pre.length }) heap h t
          rw [heq] at hmono ⊢
          have := ih (s := { s with
            sleepers := arrayRemove s.sleepers pre.length, runqueue := q, calls := n })
            hq hrem (by omega) hp
          rw [List.filter_cons_of_neg (by simpa using ht),
            List.filter_cons_of_pos (by simpa using ht)]
          rcases this with ⟨q', n', heq', hq', hsize'⟩ | hst
          · refine .inl ⟨q', n', heq', ?_, Nat.le_trans hsize hsize'⟩
            rwa [List.append_assoc, List.singleton_append] at hq'
          · exact .inr ⟨hst.panic, Nat.lt_of_le_of_lt hmono hst.calls, hst.refused⟩
        · refine .inr ?_
          cases fuel with
          | zero => exact ⟨hst.panic, hst.calls, hst.refused⟩
          | succ fuel =>
            rw [wakeupLoop, if_pos hst.panic]
            exact ⟨hst.panic, hst.calls, hst.refused⟩
      · have hloop : s.wakeupLoop heap a (fuel + 1) pre.length =
            s.wakeupLoop heap a fuel (pre ++ [t]).length := by
          rw [wakeupLoop, if_neg hstop, hsome, List.length_append]
          exact if_neg ht
        rw [hloop, List.filter_cons_of_pos (by simpa using ht),
          List.filter_cons_of_neg (by simpa using ht)]
        have := ih h (List.append_cons _ _ _ ▸ hs) (by omega) hp
        simpa only [List.append_assoc, List.singleton_append] using this

theorem wakeoneLoop_cases (heap : Nat → Bool) (a : A) {fuel : Nat} {pre rest : List T}
    (h : s.runqueue.Holds l)
    (hs : s.sleepers.guys = pre ++ rest) (hfuel : rest.length ≤ fuel) :
    (∃ q n, s.wakeoneLoop heap a fuel pre.length =
        { s with
          sleepers := ⟨pre ++ rest.eraseP fun t => s.sleepaddr t = some a, s.sleepers.max⟩
          runqueue := q, calls := n } ∧
      q.Holds (l ++ (rest.find? fun t => s.sleepaddr t = some a).toList) ∧
      s.runqueue.size ≤ q.size) ∨
    Starved heap s (s.wakeoneLoop heap a fuel pre.length) := by
  induction fuel generalizing pre rest with
  | zero =>
    have hnil : rest = [] := List.length_eq_zero_iff.mp (by omega)
    subst hnil
    refine .inl ⟨s.runqueue, s.calls, ?_, by simpa using h, Nat.le_refl _⟩
    simp only [wakeoneLoop, List.eraseP_nil, ← hs]
  | succ fuel ih =>
    cases rest with
    | nil =>
      refine .inl ⟨s.runqueue, s.calls, ?_, by simpa using h, Nat.le_refl _⟩
      have hnone : s.sleepers.guys[pre.length]? = none := by simp [hs]
      simp only [wakeoneLoop, hnone, List.eraseP_nil, ← hs]
    | cons t rest =>
      have hsome : s.sleepers.guys[pre.length]? = some t := by simp [hs]
      rw [List.length_cons] at hfuel
      by_cases ht : s.sleepaddr t = some a
      · have hloop : s.wakeoneLoop heap a (fuel + 1) pre.length =
            { s with sleepers := arrayRemove s.sleepers pre.length }.makeRunnable heap t := by
          rw [wakeoneLoop, hsome]
          exact if_pos ht
        have hrem : arrayRemove s.sleepers pre.length = ⟨pre ++ rest, s.sleepers.max⟩ := by
          rw [arrayRemove, hs, List.eraseIdx_append_of_length_le (Nat.le_refl _)]
          simp
        rw [hloop, List.eraseP_cons_of_pos (by simpa using ht),
          List.find?_cons_of_pos (by simpa using ht), hrem]
        rcases makeRunnable_cases (s := { s with sleepers := ⟨pre ++ rest, s.sleepers.max⟩ })
            heap h t with hok | hst
        · exact .inl hok
        · exact .inr ⟨hst.panic, hst.calls, hst.refused⟩
      · have hloop : s.wakeoneLoop heap a (fuel + 1) pre.length =
            s.wakeoneLoop heap a fuel (pre ++ [t]).length := by
          rw [wakeoneLoop, hsome, List.length_append]
          exact if_neg ht
        rw [hloop, List.eraseP_cons_of_neg (by simpa using ht),
          List.find?_cons_of_neg (by simpa using ht)]
        have := ih (List.append_cons _ _ _ ▸ hs) (by omega)
        simpa only [List.append_assoc, List.singleton_append] using this

theorem wakeup_cases (heap : Nat → Bool) (a : A) (h : s.runqueue.Holds l) (hp : s.panic = false) :
    (∃ q n, s.wakeupLoop heap a s.sleepers.guys.length 0 =
        { s with
          sleepers := ⟨s.sleepers.guys.filter fun t => s.sleepaddr t ≠ some a, s.sleepers.max⟩
          runqueue := q, calls := n } ∧
      q.Holds (l ++ s.sleepers.guys.filter fun t => s.sleepaddr t = some a) ∧
      s.runqueue.size ≤ q.size) ∨
    Starved heap s (s.wakeupLoop heap a s.sleepers.guys.length 0) :=
  wakeupLoop_cases heap a h (List.nil_append _).symm (Nat.le_refl _) hp

theorem wakeone_cases (heap : Nat → Bool) (a : A) (h : s.runqueue.Holds l) :
    (∃ q n, s.wakeoneLoop heap a s.sleepers.guys.length 0 =
        { s with
          sleepers := ⟨s.sleepers.guys.eraseP fun t => s.sleepaddr t = some a, s.sleepers.max⟩
          runqueue := q, calls := n } ∧
      q.Holds (l ++ (s.sleepers.guys.find? fun t => s.sleepaddr t = some a).toList) ∧
      s.runqueue.size ≤ q.size) ∨
    Starved heap s (s.wakeoneLoop heap a s.sleepers.guys.length 0) :=
  wakeoneLoop_cases heap a h (List.nil_append _).symm (Nat.le_refl _)

/-- `thread_wakeup` keeps out of the heap exactly if the run queue has room for all it
moves. -/
theorem wakeupLoop_calls (heap : Nat → Bool) (a : A) {fuel : Nat} {pre rest : List T}
    (h : s.runqueue.Holds l)
    (hs : s.sleepers.guys = pre ++ rest) (hfuel : rest.length ≤ fuel) (hp : s.panic = false) :
    s.calls ≤ (s.wakeupLoop heap a fuel pre.length).calls ∧
    ((s.wakeupLoop heap a fuel pre.length).calls = s.calls ↔
      l.length + (rest.filter fun t => s.sleepaddr t = some a).length < s.runqueue.size) := by
  induction fuel generalizing s pre rest l with
  | zero =>
    have hnil : rest = [] := List.length_eq_zero_iff.mp (by omega)
    subst hnil
    exact ⟨Nat.le_refl _, iff_of_true rfl h.room⟩
  | succ fuel ih =>
    cases rest with
    | nil =>
      have hnone : s.sleepers.guys[pre.length]? = none := by simp [hs]
      rw [wakeupLoop, if_neg (by simp [hp]), hnone]
      exact ⟨Nat.le_refl _, iff_of_true rfl h.room⟩
    | cons t rest =>
      have hsome : s.sleepers.guys[pre.length]? = some t := by simp [hs]
      have hstop : ¬ s.panic = true := by simp [hp]
      rw [List.length_cons] at hfuel
      by_cases ht : s.sleepaddr t = some a
      · have hloop : s.wakeupLoop heap a (fuel + 1) pre.length =
            ({ s with sleepers := arrayRemove s.sleepers pre.length }.makeRunnable heap
              t).wakeupLoop
              heap a fuel pre.length := by
          rw [wakeupLoop, if_neg hstop, hsome]
          exact if_pos ht
        have hrem : (arrayRemove s.sleepers pre.length).guys = pre ++ rest := by
          rw [arrayRemove_guys, hs, List.eraseIdx_append_of_length_le (Nat.le_refl _)]
          simp
        rw [hloop, List.filter_cons_of_pos (by simpa using ht), List.length_cons]
        by_cases hroom : l.length + 1 < s.runqueue.size
        · rw [makeRunnable_room (s := { s with sleepers := arrayRemove s.sleepers pre.length })
            h hroom]
          have := ih (s := { s with
            sleepers := arrayRemove s.sleepers pre.length
            runqueue := s.runqueue.put (some t) }) (h.put hroom t) hrem (by omega) hp
          rw [List.length_append, List.length_singleton] at this
          refine ⟨this.1, this.2.trans ?_⟩
          show l.length + 1 + _ < s.runqueue.size ↔ _
          rw [Nat.add_assoc, Nat.add_comm 1]
        · have hone := makeRunnable_full (s := { s with
            sleepers := arrayRemove s.sleepers pre.length }) heap h hroom t
          have hgrow : s.calls + 1 ≤ (({ s with
              sleepers := arrayRemove s.sleepers pre.length }.makeRunnable heap t).wakeupLoop
              heap a fuel pre.length).calls := by
            rcases makeRunnable_cases (s := { s with
              sleepers := arrayRemove s.sleepers pre.length }) heap h t with
              ⟨q, n, heq, hq, hsize⟩ | hst
            · rw [heq] at hone ⊢
              exact hone ▸ (ih (s := { s with
                sleepers := arrayRemove s.sleepers pre.length, runqueue := q, calls := n })
                hq hrem (by omega) hp).1
            · cases fuel with
              | zero => exact Nat.le_of_eq hone.symm
              | succ fuel =>
                rw [wakeupLoop, if_pos hst.panic]
                exact Nat.le_of_eq hone.symm
          exact ⟨by omega, iff_of_false (by omega) (by omega)⟩
      · have hloop : s.wakeupLoop heap a (fuel + 1) pre.length =
            s.wakeupLoop heap a fuel (pre ++ [t]).length := by
          rw [wakeupLoop, if_neg hstop, hsome, List.length_append]
          exact if_neg ht
        rw [hloop, List.filter_cons_of_neg (by simpa using ht)]
        exact ih h (List.append_cons _ _ _ ▸ hs) (by omega) hp

theorem wakeoneLoop_calls (heap : Nat → Bool) (a : A) {fuel : Nat} {pre rest : List T}
    (h : s.runqueue.Holds l)
    (hs : s.sleepers.guys = pre ++ rest) (hfuel : rest.length ≤ fuel) :
    (s.wakeoneLoop heap a fuel pre.length).calls = s.calls ↔
      l.length + (rest.find? fun t => s.sleepaddr t = some a).toList.length < s.runqueue.size := by
  induction fuel generalizing pre rest with
  | zero =>
    have hnil : rest = [] := List.length_eq_zero_iff.mp (by omega)
    subst hnil
    exact iff_of_true rfl h.room
  | succ fuel ih =>
    cases rest with
    | nil =>
      have hnone : s.sleepers.guys[pre.length]? = none := by simp [hs]
      rw [wakeoneLoop, hnone]
      exact iff_of_true rfl h.room
    | cons t rest =>
      have hsome : s.sleepers.guys[pre.length]? = some t := by simp [hs]
      rw [List.length_cons] at hfuel
      by_cases ht : s.sleepaddr t = some a
      · have hloop : s.wakeoneLoop heap a (fuel + 1) pre.length =
            { s with sleepers := arrayRemove s.sleepers pre.length }.makeRunnable heap t := by
          rw [wakeoneLoop, hsome]
          exact if_pos ht
        rw [hloop, List.find?_cons_of_pos (by simpa using ht)]
        by_cases hroom : l.length + 1 < s.runqueue.size
        · rw [makeRunnable_room (s := { s with sleepers := arrayRemove s.sleepers pre.length })
            h hroom]
          exact iff_of_true rfl hroom
        · rw [makeRunnable_full (s := { s with sleepers := arrayRemove s.sleepers pre.length })
            heap h hroom]
          exact iff_of_false (Nat.succ_ne_self s.calls) hroom
      · have hloop : s.wakeoneLoop heap a (fuel + 1) pre.length =
            s.wakeoneLoop heap a fuel (pre ++ [t]).length := by
          rw [wakeoneLoop, hsome, List.length_append]
          exact if_neg ht
        rw [hloop, List.find?_cons_of_neg (by simpa using ht)]
        exact ih (List.append_cons _ _ _ ▸ hs) (by omega)

end Wakeup

end Cases

end Sys

end Os161.Switch
