import Os161.Switch.Partition

/-! # Runs of the thread system

Every step keeps the partition; a step of the context switch goes to the heap exactly
where the storage that the earlier forks left is full. -/
namespace Os161.Switch

namespace Sys

variable {T A : Type} {heap : Nat → Bool}

/-- What `scheduler` will return, in order. -/
def ready (s : Sys T A) : List T := s.runqueue.contents

theorem find_append_eraseP (p : T → Bool) (l : List T) :
    ((l.find? p).toList ++ l.eraseP p).Perm l := by
  induction l with
  | nil => exact .refl _
  | cons t l ih =>
    by_cases ht : p t = true
    · rw [List.find?_cons_of_pos ht, List.eraseP_cons_of_pos ht]
      exact .refl _
    · rw [List.find?_cons_of_neg ht, List.eraseP_cons_of_neg ht]
      exact List.perm_middle.trans (ih.cons t)

/-! ## The invariant, step by step -/

namespace Inv

variable [DecidableEq T] {s s' : Sys T A} {l : List T}

theorem ready_eq (h : s.Inv l) : s.ready = l := h.holds.contents_eq

/-- Threads go from `sleepers` to the end of the run queue. -/
theorem woken {moved kept : List T} {q : Queue T} {n : Nat} (h : s.Inv l)
    (hperm : (moved ++ kept).Perm s.sleepers.guys) (hq : q.Holds (l ++ moved))
    (hsize : s.runqueue.size ≤ q.size) :
    Inv { s with sleepers := ⟨kept, s.sleepers.max⟩, runqueue := q, calls := n }
      (l ++ moved) where
  holds := hq
  places := fun t => by
    have hp := h.places t
    have hc := List.perm_iff_count.mp hperm t
    show s.cur.toList.count t + (l ++ moved).count t + kept.count t + s.zombies.guys.count t =
      s.live.count t
    rw [List.count_append] at hc ⊢
    omega
  nodup := h.nodup
  count := h.count
  stored := h.stored
  ring := Nat.le_trans h.ring hsize
  making := h.making
  fresh := h.fresh

theorem created {n : Nat} {t newguy : T} (h : s.Inv l) (hlive : newguy ∉ s.live)
    (hmaking : newguy ∉ s.making.map Prod.snd) :
    Inv { s with calls := n, making := (t, newguy) :: s.making } l where
  holds := h.holds
  places := h.places
  nodup := h.nodup
  count := h.count
  stored := h.stored
  ring := h.ring
  making := List.nodup_cons.mpr ⟨hmaking, h.making⟩
  fresh := fun p hp => by
    rcases List.mem_cons.mp hp with rfl | hp
    · exact hlive
    · exact h.fresh p hp

theorem finished (heap : Nat → Bool) {p : T × T} (h : s.Inv l) (hp : p ∈ s.making) :
    ∃ l', (s.finishFork heap p).Inv l' := by
  obtain ⟨sl, z, q, n, hsl, hmax, hz, hsize, hcase⟩ := finishFork_cases heap h.holds p
  have hmaking : ((s.making.erase p).map Prod.snd).Nodup :=
    h.making.sublist (List.erase_sublist.map Prod.snd)
  have hstored : s.numthreads ≤ sl.max ∨ sl.max = 0 ∧ s.numthreads ≤ 1 := by
    have := h.stored
    omega
  rcases hcase with ⟨hq, heq⟩ | ⟨hq, hroom, hring, heq⟩
  · refine ⟨l, ?_⟩
    rw [heq]
    exact {
      holds := hq
      places := fun t => by simpa only [hsl, hz] using h.places t
      nodup := h.nodup
      count := by simpa only [hz] using h.count
      stored := hstored
      ring := Nat.le_trans h.ring hsize
      making := hmaking
      fresh := fun r hr => h.fresh r (List.mem_of_mem_erase hr) }
  · refine ⟨l ++ [p.2], ?_⟩
    rw [heq]
    exact {
      holds := hq
      places := fun t => by
        have := h.places t
        simp only [hsl, hz, List.count_append, List.count_cons, List.count_nil] at this ⊢
        omega
      nodup := List.nodup_cons.mpr ⟨h.fresh p hp, h.nodup⟩
      count := by
        have := h.count
        simp only [hz, List.length_cons]
        omega
      stored := .inl hroom
      ring := hring
      making := hmaking
      fresh := fun r hr hmem => by
        have hrs := List.mem_of_mem_erase hr
        rcases List.mem_cons.mp hmem with heq | hmem
        · have hne : r ≠ p := by
            intro hx
            obtain rfl := hx
            exact h.making.of_map.not_mem_erase hr
          exact hne (List.inj_on_of_nodup_map h.making hrs hp heq)
        · exact h.fresh r hrs hmem }

theorem yielded {t : T} {q : Queue T} {n : Nat} {b : Bool} {f : T → Resume} (h : s.Inv l)
    (hc : s.cur = some t) (hq : q.Holds (l ++ [t])) (hsize : s.runqueue.size ≤ q.size) :
    Inv { s with cur := none, idle := b, resume := f, runqueue := q, calls := n } (l ++ [t]) where
  holds := hq
  places := fun u => by
    have := h.places u
    simp only [hc, Option.toList_some, Option.toList_none, List.count_append,
      List.count_nil] at this ⊢
    omega
  nodup := h.nodup
  count := h.count
  stored := h.stored
  ring := Nat.le_trans h.ring hsize
  making := h.making
  fresh := h.fresh

theorem slept {t : T} {sl : GuyArray T} {n : Nat} {b : Bool} {f : T → Resume} {g : T → Option A}
    (h : s.Inv l) (hc : s.cur = some t) (hg : sl.guys = s.sleepers.guys ++ [t])
    (hmax : s.sleepers.max ≤ sl.max) (hfit : sl.guys.length ≤ sl.max) :
    Inv { s with
      cur := none, idle := b, resume := f, sleepaddr := g, sleepers := sl, calls := n } l where
  holds := h.holds
  places := fun u => by
    have := h.places u
    simp only [hc, hg, Option.toList_some, Option.toList_none, List.count_append,
      List.count_nil] at this ⊢
    omega
  nodup := h.nodup
  count := h.count
  stored := by
    have := h.stored
    rw [hg, List.length_append, List.length_singleton] at hfit
    show s.numthreads ≤ sl.max ∨ sl.max = 0 ∧ s.numthreads ≤ 1
    omega
  ring := h.ring
  making := h.making
  fresh := h.fresh

theorem exited {t : T} {z : GuyArray T} {n : Nat} {b : Bool} (h : s.Inv l) (hc : s.cur = some t)
    (hg : z.guys = s.zombies.guys ++ [t]) :
    Inv { s with
      cur := none, idle := b, numthreads := s.numthreads - 1, zombies := z, calls := n } l where
  holds := h.holds
  places := fun u => by
    have := h.places u
    simp only [hc, hg, Option.toList_some, Option.toList_none, List.count_append,
      List.count_nil] at this ⊢
    omega
  nodup := h.nodup
  count := by
    have hcount := h.count
    have hnum := h.numthreads_eq
    simp only [hc, Option.toList_some, List.length_singleton] at hnum
    simp only [hg, List.length_append, List.length_singleton]
    omega
  stored := by
    have := h.stored
    show s.numthreads - 1 ≤ s.sleepers.max ∨ s.sleepers.max = 0 ∧ s.numthreads - 1 ≤ 1
    omega
  ring := by
    have := h.ring
    show s.numthreads - 1 ≤ s.runqueue.size
    omega
  making := h.making
  fresh := h.fresh

theorem dispatched {t : T} (h : s.Inv (t :: l)) (hc : s.cur = none) :
    Inv { s with cur := some t, idle := false, runqueue := (qRemhead s.runqueue).2 } l where
  holds := h.holds.remhead.2
  places := fun u => by
    have := h.places u
    simp only [hc, Option.toList_some, Option.toList_none, List.count_cons,
      List.count_nil] at this ⊢
    omega
  nodup := h.nodup
  count := h.count
  stored := h.stored
  ring := h.ring
  making := h.making
  fresh := h.fresh

/-- The current thread is no zombie, so `exorcise` goes through. -/
theorem exorcise {t : T} (h : s.Inv l) (hc : s.cur = some t) :
    s.exorcise.Inv l ∧ s.exorcise.panic = s.panic := by
  obtain ⟨live, hlive⟩ := destroyAll_some s.cur s.zombies.guys s.live (by
    intro u hu
    rw [hc] at hu
    cases hu
    exact (h.cur_live hc).2.2.2)
  have hcount := destroyAll_cases hlive
  have heq : s.exorcise = { s with live := live, zombies := arrayClear s.zombies } := by
    rw [Sys.exorcise, hlive]
  have hplaces (u : T) : s.cur.toList.count u + l.count u + s.sleepers.guys.count u =
      live.count u := by
    have := h.places u
    rw [hcount u]
    omega
  have hperm : (s.cur.toList ++ l ++ s.sleepers.guys).Perm live := by
    rw [List.perm_iff_count]
    intro u
    rw [List.count_append, List.count_append, hplaces u]
  rw [heq]
  refine ⟨?_, rfl⟩
  exact {
    holds := h.holds
    places := fun u => by simpa using hplaces u
    nodup := destroyAll_nodup hlive h.nodup
    count := by
      have hnum := h.numthreads_eq
      have hlen := hperm.length_eq
      simp only [List.length_append, arrayClear_guys, List.length_nil] at hlen ⊢
      omega
    stored := h.stored
    ring := h.ring
    making := h.making
    fresh := fun p hp hmem => by
      have hpos := List.count_pos_iff.mpr hmem
      rw [hcount] at hpos
      exact h.fresh p hp (List.count_pos_iff.mp (by omega)) }

theorem resumed {t : T} (h : s.Inv l) (hc : s.cur = some t) :
    (s.resumed t).Inv l ∧ (s.resumed t).panic = s.panic := by
  have hex := h.exorcise hc
  unfold Sys.resumed
  split
  · exact ⟨h, rfl⟩
  · exact hex
  · exact ⟨⟨hex.1.holds, hex.1.places, hex.1.nodup, hex.1.count, hex.1.stored, hex.1.ring,
      hex.1.making, hex.1.fresh⟩, hex.2⟩

end Inv

/-! ## Steps -/

section Steps

variable [DecidableEq T] [DecidableEq A] {s s' : Sys T A} {l : List T}

/-- What `step` can do, one constructor for each way through the code. -/
inductive Stepped (heap : Nat → Bool) (s : Sys T A) : Act T A → Sys T A → Prop
  | create {t newguy : T} {n : Nat} (hc : s.cur = some t) (hlive : newguy ∉ s.live)
      (hmaking : newguy ∉ s.making.map Prod.snd) :
      Stepped heap s (.create newguy) { s with calls := n, making := (t, newguy) :: s.making }
  | noMemory {newguy : T} {n : Nat} : Stepped heap s (.create newguy) { s with calls := n }
  | finish {p : T × T} (hp : p ∈ s.making) : Stepped heap s .finish (s.finishFork heap p)
  | yield {t : T} (hc : s.cur = some t) : Stepped heap s .yield (s.stashReady heap t)
  | sleep {t : T} (a : A) (hc : s.cur = some t) : Stepped heap s (.sleep a) (s.stashSleep heap t a)
  | exit {t : T} (hc : s.cur = some t) : Stepped heap s .exit (s.stashZomb heap t)
  | wakeup (a : A) (hi : s.interruptible = true) :
      Stepped heap s (.wakeup a) (s.wakeupLoop heap a s.sleepers.guys.length 0)
  | wakeone (a : A) (hi : s.interruptible = true) :
      Stepped heap s (.wakeone a) (s.wakeoneLoop heap a s.sleepers.guys.length 0)
  | dispatch {t : T} {q : Queue T} (hc : s.cur = none) (hempty : ¬ s.runqueue.empty = true)
      (hq : qRemhead s.runqueue = (some t, q)) :
      Stepped heap s .dispatch ({ s with cur := some t, idle := false, runqueue := q }.resumed t)
  | stale {q : Queue T} (hempty : ¬ s.runqueue.empty = true)
      (hq : qRemhead s.runqueue = (none, q)) :
      Stepped heap s .dispatch { s with panic := true }

theorem step_cases {a : Act T A} (hs : s.step heap a = some s') :
    s.panic = false ∧ Stepped heap s a s' := by
  unfold step at hs
  split at hs
  · cases hs
  next hp =>
  refine ⟨by simpa using hp, ?_⟩
  split at hs
  · next newguy t hc =>
    split at hs
    · cases hs
    · next hfree =>
      rw [not_or, not_or] at hfree
      split at hs
      · cases hs
        exact .create hc hfree.2.1 hfree.2.2
      · cases hs
        exact .noMemory
  · next t hc =>
    obtain ⟨p, hp, rfl⟩ := Option.map_eq_some_iff.mp hs
    exact .finish (List.mem_of_find?_eq_some hp)
  · next t hc =>
    cases hs
    exact .yield hc
  · next a t hc =>
    cases hs
    exact .sleep a hc
  · next t hc =>
    split at hs
    · cases hs
    · cases hs
      exact .exit hc
  · split at hs
    · next hi =>
      cases hs
      exact .wakeup _ hi
    · cases hs
  · split at hs
    · next hi =>
      cases hs
      exact .wakeone _ hi
    · cases hs
  · next hc =>
    split at hs
    · cases hs
    · next hempty =>
      split at hs
      · next t q hq =>
        cases hs
        exact .dispatch hc hempty hq
      · next q hq =>
        cases hs
        exact .stale hempty hq
  · cases hs

/-- A step that finds no memory where the code asserts that it does ends in a panic; every
other step keeps the invariant. -/
theorem Inv.step {a : Act T A} (h : s.Inv l) (hs : s.step heap a = some s') :
    (∃ l', s'.Inv l' ∧ s'.panic = false) ∨ Starved heap s s' := by
  obtain ⟨hp, hs⟩ := step_cases hs
  cases hs with
  | create hc hlive hmaking => exact .inl ⟨l, h.created hlive hmaking, hp⟩
  | noMemory =>
    exact .inl ⟨l, ⟨h.holds, h.places, h.nodup, h.count, h.stored, h.ring, h.making, h.fresh⟩, hp⟩
  | @finish p hmem =>
    obtain ⟨l', hl'⟩ := h.finished heap hmem
    refine .inl ⟨l', hl', ?_⟩
    obtain ⟨sl, z, q, n, _, _, _, _, ⟨_, heq⟩ | ⟨_, _, _, heq⟩⟩ :=
      finishFork_cases heap h.holds p
    · rw [heq]
      exact hp
    · rw [heq]
      exact hp
  | @yield t hc =>
    rcases makeRunnable_cases (s := { s with
        cur := none, resume := Function.update s.resume t .yielded }) heap h.holds t with
      ⟨q, n, heq, hq, hsize⟩ | hst
    · refine .inl ⟨l ++ [t], ?_, ?_⟩
      · rw [stashReady, heq]
        exact h.yielded hc hq hsize
      · rw [stashReady, heq]
        exact hp
    · exact .inr ⟨hst.panic, hst.calls, hst.refused⟩
  | @sleep t a hc =>
    unfold stashSleep
    dsimp only
    split
    · next sl n hsl =>
      obtain ⟨hg, hmax, hfit⟩ := arrayAdd_guys hsl
      exact .inl ⟨l, h.slept hc hg hmax hfit, hp⟩
    · next n hsl =>
      refine .inr ⟨rfl, ?_, _, arrayAdd_none hsl⟩
      exact Nat.lt_of_lt_of_eq (Nat.lt_succ_self _) (arrayAdd_none_calls hsl).symm
  | @exit t hc =>
    have hnum := h.numthreads_eq
    simp only [hc, Option.toList_some, List.length_singleton] at hnum
    unfold stashZomb
    rw [if_neg (by omega)]
    dsimp only
    split
    · next z n hz =>
      exact .inl ⟨l, h.exited hc (arrayAdd_guys hz).1, hp⟩
    · next n hz =>
      refine .inr ⟨rfl, ?_, _, arrayAdd_none hz⟩
      exact Nat.lt_of_lt_of_eq (Nat.lt_succ_self _) (arrayAdd_none_calls hz).symm
  | wakeup a hi =>
    rcases wakeup_cases heap a h.holds hp with ⟨q, n, heq, hq, hsize⟩ | hst
    · rw [heq]
      refine .inl ⟨_, h.woken ?_ hq hsize, hp⟩
      have := List.filter_append_perm (fun t => s.sleepaddr t = some a) s.sleepers.guys
      simpa using this
    · exact .inr hst
  | wakeone a hi =>
    rcases wakeone_cases heap a h.holds with ⟨q, n, heq, hq, hsize⟩ | hst
    · rw [heq]
      exact .inl ⟨_, h.woken (find_append_eraseP _ _) hq hsize, hp⟩
    · exact .inr hst
  | @dispatch t q hc hempty hq =>
    cases l with
    | nil => exact absurd (h.holds.empty_iff.mpr rfl) hempty
    | cons u l =>
      have hd := h.dispatched hc
      rw [h.holds.remhead.1.symm.trans (congrArg Prod.fst hq) |> Option.some.inj] at hd
      rw [hq] at hd
      obtain ⟨hinv, hpan⟩ := hd.resumed rfl
      exact .inl ⟨l, hinv, hpan.trans hp⟩
  | stale hempty hq =>
    cases l with
    | nil => exact absurd (h.holds.empty_iff.mpr rfl) hempty
    | cons u l =>
      have := h.holds.remhead.1
      rw [hq] at this
      cases this

theorem Reach.inv {ok : Sys T A → Act T A → Prop} {me : T} (h : Reach heap ok me s) :
    (∃ l, s.Inv l) ∨ s.panic = true ∧ ∃ n, heap n = false := by
  induction h with
  | boot => exact .inl ⟨[], Inv.boot me⟩
  | step a _ _ hs ih =>
    rcases ih with ⟨l, hl⟩ | ⟨hp, hno⟩
    · rcases hl.step hs with ⟨l', hl', _⟩ | hst
      · exact .inl ⟨l', hl'⟩
      · exact .inr ⟨hst.panic, hst.refused⟩
    · rw [(step_cases hs).1] at hp
      cases hp

/-- With memory for every request no assertion fails. -/
theorem Reach.panic {ok : Sys T A → Act T A → Prop} {me : T} (hheap : ∀ n, heap n = true)
    (h : Reach heap ok me s) : s.panic = false := by
  cases h with
  | boot => rfl
  | step a h _ hs =>
    rcases h.inv with ⟨l, hl⟩ | ⟨_, n, hn⟩
    · rcases hl.step hs with ⟨_, _, hp⟩ | hst
      · exact hp
      · obtain ⟨n, hn⟩ := hst.refused
        rw [hheap] at hn
        cases hn
    · rw [hheap] at hn
      cases hn

theorem Inv.step_wakeup {a : A} (h : s.Inv l) (hs : s.step heap (.wakeup a) = some s')
    (hp : s'.panic = false) :
    s'.ready = s.ready ++ s.sleepers.guys.filter (fun t => s.sleepaddr t = some a) ∧
      s'.sleepers.guys = s.sleepers.guys.filter (fun t => s.sleepaddr t ≠ some a) ∧
      s'.cur = s.cur ∧ s'.zombies = s.zombies ∧ s'.live = s.live := by
  obtain ⟨hps, hs⟩ := step_cases hs
  cases hs with
  | wakeup _ hi =>
    rcases wakeup_cases heap a h.holds hps with ⟨q, n, heq, hq, _⟩ | hst
    · rw [heq, h.ready_eq]
      exact ⟨hq.contents_eq, rfl, rfl, rfl, rfl⟩
    · rw [hst.panic] at hp
      cases hp

theorem Inv.step_wakeone {a : A} (h : s.Inv l) (hs : s.step heap (.wakeone a) = some s')
    (hp : s'.panic = false) :
    s'.ready = s.ready ++ (s.sleepers.guys.find? fun t => s.sleepaddr t = some a).toList ∧
      s'.sleepers.guys = s.sleepers.guys.eraseP (fun t => s.sleepaddr t = some a) ∧
      s'.cur = s.cur ∧ s'.zombies = s.zombies ∧ s'.live = s.live := by
  obtain ⟨hps, hs⟩ := step_cases hs
  cases hs with
  | wakeone _ hi =>
    rcases wakeone_cases heap a h.holds with ⟨q, n, heq, hq, _⟩ | hst
    · rw [heq, h.ready_eq]
      exact ⟨hq.contents_eq, rfl, rfl, rfl, rfl⟩
    · rw [hst.panic] at hp
      cases hp

/-- Every thread that was forked and not yet destroyed is in one place, and the wake-ups
move the sleepers they are for. -/
theorem lists_partition {me : T} (hheap : ∀ n, heap n = true)
    (hr : Reach heap (fun _ _ => True) me s) :
    s.panic = false ∧
    (∀ t, s.cur.toList.count t + s.ready.count t + s.sleepers.guys.count t +
      s.zombies.guys.count t = if t ∈ s.live then 1 else 0) ∧
    s.numthreads = (s.live.filter fun t => t ∉ s.zombies.guys).length ∧
    (∀ a s', s.step heap (.wakeup a) = some s' →
      s'.ready = s.ready ++ s.sleepers.guys.filter (fun t => s.sleepaddr t = some a) ∧
      s'.sleepers.guys = s.sleepers.guys.filter (fun t => s.sleepaddr t ≠ some a) ∧
      s'.cur = s.cur ∧ s'.zombies = s.zombies ∧ s'.live = s.live) ∧
    (∀ a s', s.step heap (.wakeone a) = some s' →
      s'.ready = s.ready ++ (s.sleepers.guys.find? fun t => s.sleepaddr t = some a).toList ∧
      s'.sleepers.guys = s.sleepers.guys.eraseP (fun t => s.sleepaddr t = some a) ∧
      s'.cur = s.cur ∧ s'.zombies = s.zombies ∧ s'.live = s.live) := by
  have hp := hr.panic hheap
  obtain ⟨l, h⟩ | ⟨hpan, _⟩ := hr.inv
  · refine ⟨hp, fun t => ?_, h.numthreads_zombies, fun a s' hs => ?_, fun a s' hs => ?_⟩
    · rw [h.ready_eq]
      exact h.one_place t
    · exact h.step_wakeup hs ((hr.step _ trivial hs).panic hheap)
    · exact h.step_wakeone hs ((hr.step _ trivial hs).panic hheap)
  · rw [hp] at hpan
    cases hpan

/-- Forked, one thread waits on the run queue while the other runs. -/
theorem lists_partition_forked : ∃ s : Sys Nat Nat,
    s.cur = some 0 ∧ s.ready = [1] ∧ s.panic = false ∧ s.numthreads = 2 := by
  have hrun : ((boot 0 : Sys Nat Nat).runs (fun _ => true) [.create 1, .finish]).isSome = true := by
    decide +kernel
  obtain ⟨s, hs⟩ := Option.isSome_iff_exists.mp hrun
  have hpart := lists_partition (fun _ => rfl) (Reach.boot.runs hs)
  have hview : (((boot 0 : Sys Nat Nat).runs (fun _ => true) [.create 1, .finish]).map fun s =>
      (s.cur, s.ready, s.live, s.zombies.guys)) = some (some 0, [1], [1, 0], []) := by
    decide +kernel
  rw [hs] at hview
  simp only [Option.map_some, Option.some.injEq, Prod.mk.injEq] at hview
  obtain ⟨hcur, hready, hlive, hz⟩ := hview
  refine ⟨s, hcur, hready, hpart.1, ?_⟩
  rw [hpart.2.2.1, hlive, hz]
  rfl

/-! ## Storage -/

/-- There is room in the storage at hand for what this step of the switch adds. -/
def Sized (s : Sys T A) : Act T A → Prop
  | .yield => s.ready.length + 1 < s.runqueue.size
  | .sleep _ => 0 < s.sleepers.max
  | .exit => s.zombies.guys.length < s.zombies.max
  | .wakeup a => s.cur = none →
    s.ready.length + (s.sleepers.guys.filter fun t => s.sleepaddr t = some a).length <
      s.runqueue.size
  | .wakeone a => s.cur = none →
    s.ready.length + (s.sleepers.guys.find? fun t => s.sleepaddr t = some a).toList.length <
      s.runqueue.size
  | .create _ | .finish | .dispatch => True

omit [DecidableEq A] in
theorem resumed_calls (t : T) : (s.resumed t).calls = s.calls := by
  have hex : s.exorcise.calls = s.calls := by
    unfold exorcise
    split <;> rfl
  unfold resumed
  split
  · rfl
  · exact hex
  · exact hex

theorem Inv.yield_calls {t : T} (h : s.Inv l) :
    (s.stashReady heap t).calls = s.calls ↔ s.Sized .yield := by
  rw [Sized, h.ready_eq]
  have hq : ({ s with cur := none, resume := Function.update s.resume t .yielded } :
    Sys T A).runqueue.Holds l := h.holds
  by_cases hroom : l.length + 1 < s.runqueue.size
  · refine iff_of_true ?_ hroom
    rw [stashReady, makeRunnable_room hq hroom]
  · refine iff_of_false ?_ hroom
    have hfull := makeRunnable_full heap hq hroom t
    intro heq
    exact Nat.succ_ne_self s.calls (hfull.symm.trans heq)

theorem Inv.sleep_calls {t : T} {a : A} (h : s.Inv l) (hc : s.cur = some t) :
    (s.stashSleep heap t a).calls = s.calls ↔ s.Sized (.sleep a) := by
  have hnum := h.numthreads_eq
  simp only [hc, Option.toList_some, List.length_singleton] at hnum
  have hstored := h.stored
  have hfits : s.sleepers.Fits ↔ 0 < s.sleepers.max := by
    rw [GuyArray.Fits]
    omega
  rw [Sized, ← hfits]
  by_cases hfit : s.sleepers.Fits
  · refine iff_of_true ?_ hfit
    simp only [stashSleep, arrayAdd_fits t hfit]
  · refine iff_of_false ?_ hfit
    have hcalls : (arrayAdd heap s.sleepers t s.calls).2 = s.calls + 1 := arrayAdd_full t hfit
    unfold stashSleep
    dsimp only
    split
    · next hm =>
      rw [hm] at hcalls
      exact fun heq => Nat.succ_ne_self s.calls (hcalls.symm.trans heq)
    · next hm =>
      rw [hm] at hcalls
      exact fun heq => Nat.succ_ne_self s.calls (hcalls.symm.trans heq)

theorem Inv.exit_calls {t : T} (h : s.Inv l) (hc : s.cur = some t) :
    (s.stashZomb heap t).calls = s.calls ↔ s.Sized .exit := by
  have hnum := h.numthreads_eq
  simp only [hc, Option.toList_some, List.length_singleton] at hnum
  rw [stashZomb, if_neg (by omega)]
  by_cases hfit : s.zombies.Fits
  · refine iff_of_true ?_ hfit
    simp only [arrayAdd_fits t hfit]
  · refine iff_of_false ?_ hfit
    have hcalls : (arrayAdd heap s.zombies t s.calls).2 = s.calls + 1 := arrayAdd_full t hfit
    dsimp only
    split
    · next hm =>
      rw [hm] at hcalls
      exact fun heq => Nat.succ_ne_self s.calls (hcalls.symm.trans heq)
    · next hm =>
      rw [hm] at hcalls
      exact fun heq => Nat.succ_ne_self s.calls (hcalls.symm.trans heq)

omit [DecidableEq A] in
/-- While a thread runs, the run queue has room for all the others. -/
theorem Inv.room {t : T} {moved : List T} (h : s.Inv l) (hc : s.cur = some t)
    (hm : moved.length ≤ s.sleepers.guys.length) : l.length + moved.length < s.runqueue.size := by
  have hnum := h.numthreads_eq
  simp only [hc, Option.toList_some, List.length_singleton] at hnum
  have := h.ring
  omega

omit [DecidableEq A] in
theorem Inv.sized_wakeup {moved : List T} (h : s.Inv l)
    (hm : moved.length ≤ s.sleepers.guys.length) :
    (s.cur = none → l.length + moved.length < s.runqueue.size) ↔
      l.length + moved.length < s.runqueue.size := by
  cases hc : s.cur with
  | none => exact ⟨fun hr => hr rfl, fun hr _ => hr⟩
  | some t => exact iff_of_true (fun hn => by cases hn) (h.room hc hm)

theorem Inv.calls_iff {a : Act T A} (h : s.Inv l) (hs : s.step heap a = some s')
    (ha : a.switches = true) : s'.calls = s.calls ↔ s.Sized a := by
  obtain ⟨hp, hs⟩ := step_cases hs
  cases hs with
  | create | noMemory | finish => cases ha
  | yield hc => exact h.yield_calls
  | sleep a hc => exact h.sleep_calls hc
  | exit hc => exact h.exit_calls hc
  | wakeup a hi =>
    have := (wakeupLoop_calls heap a h.holds (List.nil_append _).symm (Nat.le_refl _) hp).2
    rw [Sized, h.ready_eq, h.sized_wakeup (List.length_filter_le _ _)]
    exact this
  | wakeone a hi =>
    have := wakeoneLoop_calls heap a h.holds (List.nil_append _).symm (Nat.le_refl _)
    rw [Sized, h.ready_eq, h.sized_wakeup ?_]
    · exact this
    · cases hf : s.sleepers.guys.find? fun t => s.sleepaddr t = some a with
      | none => exact Nat.zero_le _
      | some t => exact List.length_pos_of_mem (List.mem_of_find?_eq_some hf)
  | dispatch hc hempty hq => exact iff_of_true (resumed_calls _) trivial
  | stale hempty hq => exact iff_of_true rfl trivial

/-- `thread_fork` reports its failures. -/
theorem Inv.fork_panic {a : Act T A} (h : s.Inv l) (hs : s.step heap a = some s')
    (ha : a.switches = false) : s'.panic = false := by
  obtain ⟨hp, hs⟩ := step_cases hs
  cases hs with
  | create | noMemory => exact hp
  | @finish p hmem =>
    obtain ⟨sl, z, q, n, _, _, _, _, ⟨_, heq⟩ | ⟨_, _, _, heq⟩⟩ := finishFork_cases heap h.holds p
    · rw [heq]
      exact hp
    · rw [heq]
      exact hp
  | yield | sleep | exit | wakeup | wakeone | dispatch | stale => cases ha

/-- A step of the switch stays away from the heap, and from the assertions about it,
exactly where it finds room; and a run whose steps all find room never panics, whatever
the heap answers. -/
theorem switch_calls_iff {me : T} (heap : Nat → Bool) :
    (∀ s a s', Reach heap (fun _ _ => True) me s → s.step heap a = some s' →
      a.switches = true → ((s'.calls = s.calls ∧ s'.panic = false) ↔ s.Sized (A := A) a)) ∧
    (∀ s, Reach heap (Sized (T := T) (A := A)) me s → s.panic = false) := by
  have quiet {s s' : Sys T A} {l : List T} {a : Act T A} (hl : s.Inv l)
      (hs : s.step heap a = some s') (hcalls : s'.calls = s.calls) : s'.panic = false := by
    rcases hl.step hs with ⟨_, _, hpan⟩ | hst
    · exact hpan
    · exact absurd hcalls (Nat.ne_of_gt hst.calls)
  refine ⟨fun s a s' hr hs ha => ?_, fun s hr => ?_⟩
  · rcases hr.inv with ⟨l, hl⟩ | ⟨hp, _⟩
    · exact ⟨fun hq => (hl.calls_iff hs ha).mp hq.1, fun hz =>
        have hcalls := (hl.calls_iff hs ha).mpr hz
        ⟨hcalls, quiet hl hs hcalls⟩⟩
    · rw [(step_cases hs).1] at hp
      cases hp
  · cases hr with
    | boot => rfl
    | step a hr hz hs =>
      rcases hr.inv with ⟨l, hl⟩ | ⟨hp, _⟩
      · cases ha : a.switches with
        | true => exact quiet hl hs ((hl.calls_iff hs ha).mpr hz)
        | false => exact hl.fork_panic hs ha
      · rw [(step_cases hs).1] at hp
        cases hp

end Steps

/-- Threads that fork one more thread and exit, while the first one sleeps: none of them
resumes in `mi_switch`, and nobody runs `exorcise`. -/
def generations : Nat → Nat → List (Act Nat Nat)
  | 0, _ => []
  | n + 1, k => .create (k + 1) :: .finish :: .exit :: .dispatch :: generations n (k + 1)

/-- With two threads at a time, the seventh exit in a row asks for memory; where there is
none, it panics. -/
theorem generations_panic : ¬ ∀ (heap : Nat → Bool) (s : Sys Nat Nat) (a : Act Nat Nat)
    (s' : Sys Nat Nat), Reach heap (fun _ _ => True) 0 s → s.step heap a = some s' →
    a.switches = true → s'.calls = s.calls ∧ s'.panic = false := by
  intro h
  let heap : Nat → Bool := fun n => n < 40
  let as : List (Act Nat Nat) :=
    .create 1 :: .finish :: .sleep 0 :: .dispatch :: (generations 6 1 ++ [.create 8, .finish])
  have hview : (((boot 0).runs heap as).bind fun s =>
      (s.step heap .exit).map fun s' => s'.panic) = some true := by
    decide +kernel
  obtain ⟨s, hs, hstep⟩ := Option.bind_eq_some_iff.mp hview
  obtain ⟨s', hs', hpanic⟩ := Option.map_eq_some_iff.mp hstep
  have hok := (h heap s .exit s' (Reach.boot.runs hs) hs' rfl).2
  rw [hpanic] at hok
  cases hok

/-- Before the first fork there is nothing to sleep on. -/
theorem switch_calls_iff_boot :
    ¬ (boot 0 : Sys Nat Nat).Sized (.sleep 0) ∧
      ∀ s', (boot 0 : Sys Nat Nat).step (fun _ => true) (.sleep 0) = some s' →
        ¬ (s'.calls = (boot 0 : Sys Nat Nat).calls ∧ s'.panic = false) := by
  have hnot : ¬ (boot 0 : Sys Nat Nat).Sized (.sleep 0) := Nat.lt_irrefl 0
  exact ⟨hnot, fun s' hs hq => hnot (((switch_calls_iff fun _ => true).1 _ _ _ .boot hs rfl).mp hq)⟩

end Sys

end Os161.Switch
