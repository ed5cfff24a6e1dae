import Os161.Bar.Tabs
import Mathlib.Data.Fintype.BigOperators

/-! # Closing time

The last customer submits one empty order for every bartender. A bartender that reads
`drinkers()` only after the count has dropped to 0 goes home without one. -/
namespace Os161.Bar
open Os161.Lib Finset

variable {sz : Sizes}

/-! ## Before closing -/

theorem tally_threads (p : Thread sz → Prop) [Decidable (p .createbar)] :
    tally univ p = (if p .createbar then 1 else 0) + (tally univ (fun b => p (.bartender b)) +
      tally univ fun c => p (.customer c)) := by
  classical
  have hsum {ι : Type} [Fintype ι] (r : ι → Prop) : tally univ r = ∑ i, if r i then 1 else 0 := by
    rw [← Finset.card_filter]
    rfl
  rw [hsum, hsum, hsum, ← Equiv.sum_comp (Thread.equiv sz), Fintype.sum_option,
    Fintype.sum_sum_type]
  congr 1
  exact if_congr Iff.rfl rfl rfl

/-- The customers that drink are counted, bartenders stay while there are any, and
`alldone` counts the threads that have finished. -/
structure House (s : State sz) : Prop where
  drinkers : s.data.ndrinkers = (tally univ fun t => (s.pc t).drinking = true : Nat)
  left : ∀ b, s.pc (.bartender b) = .goHome ∨ s.pc (.bartender b) = .home → s.data.ndrinkers = 0
  within : ∀ t, (s.pc t).Within sz.nbartenders
  alldone : s.count .alldone + (s.pc .createbar).waited = tally univ fun t => s.pc t = .home

theorem House.not_drinking {s : State sz} (hh : House s) (h0 : s.data.ndrinkers = 0)
    (t : Thread sz) : (s.pc t).drinking = false := by
  have h := hh.drinkers
  rw [h0] at h
  have := tally_eq_zero.mp (Int.ofNat_eq_zero.mp h.symm) t (mem_univ t)
  simpa using this

/-- Only `createbar` waits on `alldone`. -/
theorem waited_move {s : State sz} (hat : ∀ t : Thread sz, t.At (s.pc t)) {t : Thread sz} {k : Pc}
    (hk : t.At k) : (Function.update s.pc t k .createbar).waited + (s.pc t).waited =
      (s.pc .createbar).waited + k.waited := by
  have hzero {v : Thread sz} {c : Pc} (hv : v.At c) (hne : v ≠ .createbar) : c.waited = 0 := by
    cases v with
    | createbar => exact absurd rfl hne
    | bartender b =>
      cases c <;> first | rfl | (simp [Thread.At, Pc.ofBartender] at hv)
    | customer c' =>
      cases c <;> first | rfl | (simp [Thread.At, Pc.ofCustomer] at hv)
  by_cases ht : t = .createbar
  · subst ht
    rw [Function.update_self]
    omega
  · rw [Function.update_of_ne (Ne.symm ht), hzero (hat t) ht, hzero hk ht]

/-- Once the drinkers are all gone, they stay away. -/
theorem House.stay {s s' : State sz} (hh : House s) (h0 : s.data.ndrinkers = 0) {t : Thread sz}
    (hs : s.step (code sz) t = some s') : s'.data.ndrinkers = 0 := by
  obtain ⟨k, -, htab⟩ := tab hs
  have hd := hh.not_drinking h0 t
  have h₃ := htab.drinkers
  have hdk : k.drinking = false := by
    rcases htab.drinking with h | h
    · rw [h, hd]
    · rw [h] at hd
      cases hd
  rw [hd, hdk, h0] at h₃
  simpa using h₃

theorem House.step {s s' : State sz} (hh : House s) (hk : Kept s) {t : Thread sz}
    (hs : s.step (code sz) t = some s') : House s' := by
  obtain ⟨k, hnext, htab⟩ := tab hs
  have hdrinkers : s'.data.ndrinkers = (tally univ fun t => (s'.pc t).drinking = true : Nat) := by
    have h₁ := @tally_move_bool sz Pc.drinking s.pc t k
    have h₂ := hh.drinkers
    have h₃ := htab.drinkers
    rw [htab.pc]
    split at h₃ <;> split at h₃ <;> simp_all
    omega
  refine ⟨hdrinkers, fun b hb => ?_, Config.points_step within_next hh.within hs, ?_⟩
  · rw [htab.pc] at hb
    by_cases hbt : Thread.bartender b = t
    · subst hbt
      rw [Function.update_self] at hb
      rcases htab.left hb with hc | hc | h0
      · have := hk.at' (.bartender b)
        rw [hc] at this
        cases this
      · exact hh.stay (hh.left b (.inl hc)) hs
      · exact hh.stay h0 hs
    · rw [Function.update_of_ne hbt] at hb
      exact hh.stay (hh.left b hb) hs
  · have h₁ := htab.alldone
    have h₂ := waited_move hk.at' (at_next t _ _ _ (hk.at' t) hnext)
    have h₃ := hh.alldone
    have h₄ := tally_change (p := fun u => s.pc u = .home)
      (q := fun u => Function.update s.pc t k u = .home) (mem_univ t) fun u _ hu => by
        rw [Function.update_of_ne hu]
    simp only [Function.update_self] at h₄
    rw [htab.pc]
    omega

theorem House.barOpen (d : Data) : House (barOpen sz d) where
  drinkers := by
    have hcard : tally univ (fun t : Thread sz => t.entry.drinking = true) = sz.ncustomers := by
      have hcust : tally univ (fun c : Fin sz.ncustomers =>
          (Thread.customer c : Thread sz).entry.drinking = true) = sz.ncustomers :=
        (tally_eq_card fun _ _ => rfl).trans (card_fin _)
      have hbart : tally univ (fun b : Fin sz.nbartenders =>
          (Thread.bartender b : Thread sz).entry.drinking = true) = 0 :=
        tally_eq_zero.mpr fun _ _ => by simp [Thread.entry, Pc.drinking, Pc.call]
      rw [tally_threads, hcust, hbart]
      simp [Thread.entry, Pc.drinking, Pc.call]
    exact (congrArg Nat.cast hcard).symm
  left b hb := by rcases hb with hb | hb <;> cases hb
  within t := by
    cases t <;>
      exact ⟨by simp [Bar.barOpen, Thread.entry], by simp [Bar.barOpen, Thread.entry, Pc.call]⟩
  alldone := (tally_eq_zero.mpr fun t _ => by cases t <;> simp [Bar.barOpen, Thread.entry]).symm

/-! ## The empty orders -/

/-- The bartenders that wait for an order. -/
noncomputable def waiting (s : State sz) : Nat :=
  tally univ fun b => s.pc (.bartender b) = .takeWait

/-- The empty orders submitted so far, once there are no drinkers. -/
def empties (s : State sz) : Nat :=
  match s.owner .ndrinkerslock with
  | some t => (s.pc t).empties sz.nbartenders
  | none => sz.nbartenders

/-- Each of the `n` bartenders that waited for an order when the last drinker left takes
one empty order. -/
def LastOrders (n : Nat) (s : State sz) : Prop :=
  waiting s + empties s = n + s.count .ordersready + tally univ fun t => (s.pc t).placing = true

theorem Pc.empties_of_not_holds {c : Pc} {n : Nat} (h : ¬ Holds c .ndrinkerslock) :
    c.empties n = n := by
  cases c
  case crawlDec | crawlTest | crawlLoop => simp [Holds, Pc.locks] at h
  case fault f =>
    cases f with
    | noSlot u => cases u <;> simp [Holds, Pc.locks, Call.locks, Pc.empties, Pc.call] at h ⊢
    | noOrder => rfl
    | noGlass => rfl
  case submitLock u | submitScan u _ | submitUnlock u _ | submitReady u _ | submitWait u _
      | submitGlass u _ | submitNumber u _ _ | servedLock u _ _ | servedSet u _ _
      | servedUnlock u _ | drink u _ | returnLock u _ | returnEmpty u _ | returnNumber u _
      | returnUnlock u _ | returnReady u _ | resetLock u _ | resetSet u _ | resetUnlock u =>
    cases u <;> simp [Holds, Pc.locks, Call.locks, Pc.empties, Pc.call] at h ⊢
  all_goals rfl

theorem empties_eq {s : State sz} (hm : s.Mutex Holds) {t : Thread sz}
    (h : Holds (s.pc t) .ndrinkerslock) : empties s = (s.pc t).empties sz.nbartenders := by
  rw [empties, (hm _ t).mpr h]

theorem empties_eq_of_free {s : State sz} (hm : s.Mutex Holds)
    (h : ∀ t, ¬ Holds (s.pc t) .ndrinkerslock) : empties s = sz.nbartenders := by
  rw [empties]
  cases ho : s.owner .ndrinkerslock with
  | none => rfl
  | some t => exact absurd ((hm _ t).mp ho) (h t)

theorem empties_move {s s' : State sz} (hm : s.Mutex Holds) (hm' : s'.Mutex Holds) {t : Thread sz}
    {k : Pc} (hpc : s'.pc = Function.update s.pc t k) :
    empties s' + (s.pc t).empties sz.nbartenders = empties s + k.empties sz.nbartenders := by
  have hself : s'.pc t = k := by rw [hpc, Function.update_self]
  have hother {u : Thread sz} (hu : u ≠ t) : s'.pc u = s.pc u := by
    rw [hpc, Function.update_of_ne hu]
  by_cases hc : Holds (s.pc t) .ndrinkerslock
  · rw [empties_eq hm hc]
    by_cases hk : Holds k .ndrinkerslock
    · rw [empties_eq hm' (t := t) (by rwa [hself]), hself]
      omega
    · have hfree (u : Thread sz) : ¬ Holds (s'.pc u) .ndrinkerslock := by
        by_cases hu : u = t
        · rw [hu, hself]
          exact hk
        · rw [hother hu]
          exact fun h => hu (hm.unique h hc)
      rw [empties_eq_of_free hm' hfree, Pc.empties_of_not_holds hk]
      omega
  · rw [Pc.empties_of_not_holds hc]
    by_cases hk : Holds k .ndrinkerslock
    · have hfree (u : Thread sz) : ¬ Holds (s.pc u) .ndrinkerslock := by
        by_cases hu : u = t
        · rw [hu]
          exact hc
        · rw [← hother hu]
          exact fun h => hu (hm'.unique h (by rwa [hself]))
      rw [empties_eq hm' (t := t) (by rwa [hself]), hself, empties_eq_of_free hm hfree]
      omega
    · rw [Pc.empties_of_not_holds hk]
      by_cases hex : ∃ u, Holds (s.pc u) .ndrinkerslock
      · obtain ⟨u, hu⟩ := hex
        have hne : u ≠ t := fun h => hc (h ▸ hu)
        rw [empties_eq hm hu, empties_eq hm' (t := u) (by rwa [hother hne]), hother hne]
      · have hfree (u : Thread sz) : ¬ Holds (s'.pc u) .ndrinkerslock := by
          by_cases hu : u = t
          · rw [hu, hself]
            exact hk
          · rw [hother hu]
            exact fun h => hex ⟨u, h⟩
        rw [empties_eq_of_free hm' hfree, empties_eq_of_free hm fun u h => hex ⟨u, h⟩]

theorem waiting_eq {s : State sz} (hat : ∀ t : Thread sz, t.At (s.pc t)) :
    waiting s = tally univ fun t => s.pc t = .takeWait := by
  have hcust : tally univ (fun c => s.pc (.customer c) = .takeWait) = 0 :=
    tally_eq_zero.mpr fun c _ h => by
      have := hat (.customer c)
      rw [h] at this
      cases this
  have hmain : s.pc .createbar ≠ .takeWait := by
    obtain ⟨i, -, hi⟩ := hat .createbar
    rw [hi]
    simp
  rw [tally_threads, hcust, if_neg hmain]
  simp [waiting]

/-- Once there are no drinkers, every step keeps the account of the empty orders. -/
theorem LastOrders.step {n : Nat} {s s' : State sz} (hl : LastOrders n s) (hk : Kept s)
    (hh : House s) (h0 : s.data.ndrinkers = 0) {t : Thread sz} (hs : s.step (code sz) t = some s') :
    LastOrders n s' := by
  have hk' := hk.step hs
  obtain ⟨k, -, htab⟩ := tab hs
  have h₁ := htab.orders h0 (hh.not_drinking h0 t) (hh.within t)
  have h₂ := empties_move hk.mutex hk'.mutex htab.pc
  have h₃ := tally_change (p := fun u => s.pc u = .takeWait)
    (q := fun u => s'.pc u = .takeWait) (mem_univ t) fun u _ hu => by
      rw [htab.pc, Function.update_of_ne hu]
  have h₄ := tally_change (p := fun u => (s.pc u).placing = true)
    (q := fun u => (s'.pc u).placing = true) (mem_univ t) fun u _ hu => by
      rw [htab.pc, Function.update_of_ne hu]
  have hself : s'.pc t = k := by rw [htab.pc, Function.update_self]
  rw [LastOrders, waiting_eq hk.at'] at hl
  rw [LastOrders, waiting_eq hk'.at']
  rw [hself] at h₃ h₄
  omega

/-- A thread that does not drink and does not hold `ndrinkerslock` has no order. -/
theorem Pc.no_order {c : Pc} (hd : c.drinking = false) (hl : ¬ Holds c .ndrinkerslock) (d : Data) :
    orderOf d c = none ∧ c.placing = false := by
  cases c
  case submitLock u | submitScan u _ | submitUnlock u _ | submitReady u _ | submitWait u _
      | submitGlass u _ | submitNumber u _ _ | servedLock u _ _ | servedSet u _ _
      | servedUnlock u _ | drink u _ | returnLock u _ | returnEmpty u _ | returnNumber u _
      | returnUnlock u _ | returnReady u _ | resetLock u _ | resetSet u _ | resetUnlock u =>
    cases u with
    | drink => simp [Pc.drinking, Pc.call] at hd
    | empty => simp [Holds, Pc.locks, Call.locks] at hl
  all_goals exact ⟨rfl, rfl⟩

/-- Without orders nothing is counted by `ordersready`. -/
theorem Books.no_orders {s : State sz} (hb : Books s) (h : ∀ t, orderOf s.data (s.pc t) = none) :
    s.count .ordersready = 0 := by
  have hzero : tally (range sz.ncustomers) (fun i => (s.data.orders i).state = 1) = 0 :=
    tally_eq_zero.mpr fun i _ h1 => by
      have howned := hb.owned i
      rw [if_pos (by omega)] at howned
      obtain ⟨t, -, ht⟩ := tally_pos.mp (Nat.lt_of_lt_of_eq Nat.one_pos howned.symm)
      rw [h t] at ht
      cases ht
  have := hb.ready
  omega

/-- When the last drinker leaves there is no order any more. -/
theorem LastOrders.start {s s' : State sz} (hk : Kept s) (hh : House s) {t : Thread sz}
    (hpc : s.pc t = .crawlDec) (h1 : s.data.ndrinkers = 1) (hs : s.step (code sz) t = some s') :
    LastOrders (waiting s) s' := by
  have hk' := hk.step hs
  have hh' := hh.step hk hs
  have hs' : s' = { s with
      pc := Function.update s.pc t .crawlTest
      data := { s.data with ndrinkers := s.data.ndrinkers - 1 } } := by
    simp only [Config.step, hpc, code, Option.some.injEq] at hs
    exact hs.symm
  have h0 : s'.data.ndrinkers = 0 := by simp [hs', h1]
  have hself : s'.pc t = .crawlTest := by simp [hs']
  have hother {u : Thread sz} (hu : u ≠ t) : s'.pc u = s.pc u := by simp [hs', hu]
  have hholds : Holds (s'.pc t) .ndrinkerslock := by rw [hself]; simp [Holds, Pc.locks]
  have hnone (u : Thread sz) : orderOf s'.data (s'.pc u) = none ∧ (s'.pc u).placing = false := by
    by_cases hu : u = t
    · rw [hu, hself]
      exact ⟨rfl, rfl⟩
    · exact Pc.no_order (hh'.not_drinking h0 u) (fun h => hu (hk'.mutex.unique h hholds)) _
  have hplacing : tally univ (fun u => (s'.pc u).placing = true) = 0 :=
    tally_eq_zero.mpr fun u _ => by simp [(hnone u).2]
  have hwaiting : waiting s' = waiting s := by
    rw [waiting_eq hk.at', waiting_eq hk'.at']
    refine tally_congr fun u _ => ?_
    by_cases hu : u = t
    · rw [hu, hself, hpc]
      simp
    · rw [hother hu]
  rw [LastOrders, hwaiting, empties_eq hk'.mutex hholds, hself,
    hk'.books.no_orders fun u => (hnone u).1, hplacing]
  rfl

/-! ## Nobody is left waiting -/

/-- Where a thread waits when no thread can take a step. -/
inductive Waits (s : State sz) : Pc → Prop
  | order {u : Call} {i : Nat} (h : s.count (.ordercomplete i) = 0) : Waits s (.submitWait u i)
  | ready (h : s.count .ordersready = 0) : Waits s .takeWait
  | glass {o : Nat} (h : s.count .emptyglasses = 0) : Waits s (.fillWait o)
  | crawl (h : s.owner .ndrinkerslock ≠ none) : Waits s .crawlLock
  | home : Waits s .home
  | closing {i : Nat} (h : i < sz.ncustomers + sz.nbartenders → s.count .alldone = 0) :
    Waits s (.closing i)

namespace Waits

variable {s : State sz} {c : Pc} (h : Waits s c)
include h

theorem idle (d : Data) : c.ordering = false ∧ c.refilling = false ∧ c.placing = false ∧
    glassOf d c = none := by
  cases h <;> exact ⟨rfl, rfl, rfl, rfl⟩

theorem of_slot {d : Data} {i : Nat} (hi : slotOf d c = some i) : c = .fillWait i := by
  cases h <;> cases hi
  rfl

theorem of_order {d : Data} {i : Nat} (hi : orderOf d c = some i) :
    ∃ u, c = .submitWait u i ∧ s.count (.ordercomplete i) = 0 := by
  cases h <;> cases hi
  exact ⟨_, rfl, ‹_›⟩

end Waits

section Stopped

variable {s : State sz} (hk : Kept s) (hno : ∀ t, s.step (code sz) t = none)
include hk hno

/-- A thread that waits can only hold `ndrinkerslock`. -/
theorem lock_free {t : Thread sz} {l : Lock} (h : Holds (s.pc t) l) : l = .ndrinkerslock := by
  have hstop := hk.mutex.step_eq_none (code_follows sz) (hno t)
  have hpt := hk.books.points t
  cases hpc : s.pc t <;> rw [hpc] at h hpt <;> simp only [hpc, code] at hstop
  case fault => exact absurd hpt id
  case submitLock u | servedLock u _ _ | returnLock u _ | resetLock u _ | submitWait u _ =>
    cases u with
    | drink => simp [Holds, Pc.locks, Call.locks] at h
    | empty => simpa [Holds, Pc.locks, Call.locks] using h
  all_goals simp_all [Holds, Pc.locks]

theorem waits (t : Thread sz) : Waits s (s.pc t) := by
  have hstop := hk.mutex.step_eq_none (code_follows sz) (hno t)
  have hpt := hk.books.points t
  have hfree {l : Lock} (hl : l ≠ .ndrinkerslock) : s.owner l = none := by
    cases ho : s.owner l with
    | none => rfl
    | some u => exact absurd (lock_free hk hno ((hk.mutex l u).mp ho)) hl
  cases hpc : s.pc t <;> rw [hpc] at hpt <;> simp only [hpc, code] at hstop
  case fault => exact absurd hpt id
  case submitWait => exact .order (by simpa using hstop)
  case takeWait => exact .ready (by simpa using hstop)
  case fillWait => exact .glass (by simpa using hstop)
  case crawlLock => exact .crawl (by simpa using hstop)
  case home => exact .home
  case closing i =>
    refine .closing fun hi => ?_
    rw [if_pos hi] at hstop
    simpa using hstop
  case submitLock | servedLock | resetLock | takeLock =>
    simp [hfree (l := .orderslock) (by decide)] at hstop
  case returnLock | fillLock => simp [hfree (l := .glassarraylock) (by decide)] at hstop
  case bottlesLock => simp [hfree (l := .bottleslock) (by decide)] at hstop
  all_goals simp at hstop

theorem ready_eq : s.count .ordersready =
    tally (range sz.ncustomers) fun i => (s.data.orders i).state = 1 := by
  have hzero : tally univ (fun u => (s.pc u).ordering = true) = 0 :=
    tally_eq_zero.mpr fun u _ => by simp [((waits hk hno u).idle s.data).1]
  have := hk.books.ready
  omega

theorem empty_eq : s.count .emptyglasses =
    tally (range sz.nglasses) fun g => (s.data.glasses g).state = 0 := by
  have hzero : tally univ (fun u => (s.pc u).refilling = true) = 0 :=
    tally_eq_zero.mpr fun u _ => by simp [((waits hk hno u).idle s.data).2.1]
  have := hk.books.empty
  omega

/-- Not all glasses are in use: nobody who could go on has one. -/
theorem no_fillWait (hg : 0 < sz.nglasses) (t : Thread sz) (o : Nat) : s.pc t ≠ .fillWait o := by
  intro hpc
  have hb := hk.books
  have hw := waits hk hno t
  rw [hpc] at hw
  cases hw with
  | glass hzero =>
    rw [empty_eq hk hno] at hzero
    have hused := tally_eq_zero.mp hzero 0 (mem_range.mpr hg)
    have hhands : tally univ (fun u => glassOf s.data (s.pc u) = some 0) = 0 :=
      tally_eq_zero.mpr fun u _ => by simp [((waits hk hno u).idle s.data).2.2.2]
    have hglass := hb.glass 0
    rw [if_pos hused, hhands, Nat.zero_add] at hglass
    -- the glass belongs to an order that its customer can pick up
    obtain ⟨i, -, hi, -⟩ := tally_pos.mp (Nat.lt_of_lt_of_eq Nat.one_pos hglass.symm)
    have htaken := hb.taken i
    have howned := hb.owned i
    rw [if_pos (by split at htaken <;> omega)] at howned
    obtain ⟨u, -, hu⟩ := tally_pos.mp (Nat.lt_of_lt_of_eq Nat.one_pos howned.symm)
    obtain ⟨-, -, hcount⟩ := (waits hk hno u).of_order hu
    omega

/-- An order that is waited for lies ready: no bartender has it. -/
theorem ready_of_wait (hg : 0 < sz.nglasses) {t : Thread sz} {u : Call} {i : Nat}
    (hpc : s.pc t = .submitWait u i) : 0 < s.count .ordersready := by
  have hb := hk.books
  have hw := waits hk hno t
  rw [hpc] at hw
  cases hw with
  | order hzero =>
    have hst := hb.state_of_order (t := t) (i := i) (by rw [hpc]; rfl)
    have htaken := hb.taken i
    have hone : (s.data.orders i).state = 1 := by
      by_contra hne
      rw [if_pos (by omega), hzero, Nat.add_zero] at htaken
      obtain ⟨v, -, hv⟩ := tally_pos.mp (Nat.lt_of_lt_of_eq Nat.one_pos htaken.symm)
      exact no_fillWait hk hno hg v i ((waits hk hno v).of_slot hv)
    rw [ready_eq hk hno]
    exact tally_pos.mpr ⟨i, mem_range.mpr (hb.number i hst).1, hone⟩

theorem empties_le (hh : House s) : empties s ≤ sz.nbartenders := by
  rw [empties]
  split
  · rename_i t ho
    have hl := (hk.mutex _ t).mp ho
    have hw := waits hk hno t
    have hwithin := (hh.within t).2
    generalize s.pc t = c at hl hw hwithin
    cases hw with
    | order h =>
      rename_i u i
      cases u with
      | drink => simp [Holds, Pc.locks, Call.locks] at hl
      | empty j => exact hwithin j rfl
    | _ => simp [Holds, Pc.locks] at hl
  · exact Nat.le_refl _

/-- No customer waits for an order. -/
theorem no_submitWait (hb : 0 < sz.nbartenders) (hg : 0 < sz.nglasses) (hh : House s)
    (hlast : s.data.ndrinkers = 0 → LastOrders sz.nbartenders s) (t : Thread sz) (u : Call)
    (i : Nat) : s.pc t ≠ .submitWait u i := by
  intro hpc
  have hready := ready_of_wait hk hno hg hpc
  have hnotake (v : Thread sz) : s.pc v ≠ .takeWait := fun h => by
    have hw := waits hk hno v
    rw [h] at hw
    cases hw with
    | ready hzero => omega
  by_cases h0 : s.data.ndrinkers = 0
  · -- the bartenders that are gone took more empty orders than were submitted
    have hl := hlast h0
    have hwaiting : waiting s = 0 := tally_eq_zero.mpr fun b _ => hnotake (.bartender b)
    have hle := empties_le hk hno hh
    rw [LastOrders] at hl
    omega
  · -- some bartender is still there, and it can only wait for an order
    have hat := hk.at' (.bartender ⟨0, hb⟩)
    have hw := waits hk hno (.bartender ⟨0, hb⟩)
    have hhome : s.pc (.bartender ⟨0, hb⟩) ≠ .home := fun h => h0 (hh.left _ (.inr h))
    have htake := hnotake (.bartender ⟨0, hb⟩)
    have hfill := no_fillWait hk hno hg (.bartender ⟨0, hb⟩)
    generalize s.pc (.bartender ⟨0, hb⟩) = c at hat hw hhome htake hfill
    cases hw with
    | ready => exact htake rfl
    | glass => exact hfill _ rfl
    | home => exact hhome rfl
    | _ => simp [Thread.At, Pc.ofBartender] at hat

/-- All customers have gone home. -/
theorem customers_home (hb : 0 < sz.nbartenders) (hg : 0 < sz.nglasses) (hh : House s)
    (hlast : s.data.ndrinkers = 0 → LastOrders sz.nbartenders s) :
    s.owner .ndrinkerslock = none ∧ ∀ c, s.pc (.customer c) = .home := by
  have hnowait := no_submitWait hk hno hb hg hh hlast
  have hfree : s.owner .ndrinkerslock = none := by
    cases ho : s.owner .ndrinkerslock with
    | none => rfl
    | some t =>
      have hl := (hk.mutex _ t).mp ho
      have hw := waits hk hno t
      have hne := hnowait t
      generalize s.pc t = c at hl hw hne
      cases hw with
      | order => exact absurd rfl (hne _ _)
      | _ => simp [Holds, Pc.locks] at hl
  refine ⟨hfree, fun c => ?_⟩
  have hat := hk.at' (.customer c)
  have hw := waits hk hno (.customer c)
  have hne := hnowait (.customer c)
  generalize s.pc (.customer c) = k at hat hw hne
  cases hw with
  | home => rfl
  | order => exact absurd rfl (hne _ _)
  | crawl h => exact absurd hfree h
  | _ => simp [Thread.At, Pc.ofCustomer, Pc.ofBartender] at hat

/-- Then the bartenders have gone home too. -/
theorem bartenders_home (hb : 0 < sz.nbartenders) (hg : 0 < sz.nglasses) (hh : House s)
    (hlast : s.data.ndrinkers = 0 → LastOrders sz.nbartenders s) (b : Fin sz.nbartenders) :
    s.pc (.bartender b) = .home := by
  obtain ⟨hfree, hhome⟩ := customers_home hk hno hb hg hh hlast
  have h0 : s.data.ndrinkers = 0 := by
    rw [hh.drinkers]
    refine congrArg Nat.cast (tally_eq_zero.mpr fun t _ => ?_)
    have hw := waits hk hno t
    have hnowait := no_submitWait hk hno hb hg hh hlast t
    have hat := hk.at' t
    cases t with
    | customer c => simp [hhome c, Pc.drinking, Pc.call]
    | createbar =>
      obtain ⟨i, -, hi⟩ := hat
      simp [hi, Pc.drinking, Pc.call]
    | bartender b =>
      generalize s.pc (.bartender b) = c at hat hw
      cases hw <;> simp [Thread.At, Pc.ofBartender, Pc.drinking, Pc.call] at hat ⊢
  have hl := hlast h0
  have hempties : empties s = sz.nbartenders := by rw [empties, hfree]
  rw [LastOrders, hempties] at hl
  have hplacing : tally univ (fun t => (s.pc t).placing = true) = 0 :=
    tally_eq_zero.mpr fun t _ => by simp [((waits hk hno t).idle s.data).2.2.1]
  have hat := hk.at' (.bartender b)
  have hw := waits hk hno (.bartender b)
  have hfill := no_fillWait hk hno hg (.bartender b)
  have htake : s.pc (.bartender b) = .takeWait → 0 < waiting s := fun h =>
    tally_pos.mpr ⟨b, mem_univ b, h⟩
  generalize s.pc (.bartender b) = c at hat hw hfill htake
  cases hw with
  | home => rfl
  | ready hzero =>
    have := htake rfl
    omega
  | glass => exact absurd rfl (hfill _)
  | _ => simp [Thread.At, Pc.ofBartender] at hat

/-- And `createbar` has seen all of them go. -/
theorem all_ended (hb : 0 < sz.nbartenders) (hg : 0 < sz.nglasses) (hh : House s)
    (hlast : s.data.ndrinkers = 0 → LastOrders sz.nbartenders s) (t : Thread sz) :
    (s.pc t).Ended sz := by
  have hcust := (customers_home hk hno hb hg hh hlast).2
  have hbart := bartenders_home hk hno hb hg hh hlast
  cases t with
  | customer c => rw [hcust c]; rfl
  | bartender b => rw [hbart b]; rfl
  | createbar =>
    have hw := waits hk hno .createbar
    obtain ⟨i, -, hi⟩ := hk.at' .createbar
    rw [hi] at hw ⊢
    have hcount := hh.alldone
    have hall : tally univ (fun t => s.pc t = .home) = sz.ncustomers + sz.nbartenders := by
      rw [tally_threads, if_neg (by simp [hi]), tally_eq_card fun b _ => hbart b,
        tally_eq_card fun c _ => hcust c, card_fin, card_fin]
      omega
    rw [hall, hi] at hcount
    cases hw with
    | closing h =>
      have hge : ¬ i < sz.ncustomers + sz.nbartenders := fun hlt => by
        rw [h hlt] at hcount
        simp only [Pc.waited] at hcount
        omega
      simp only [Pc.Ended, code, if_neg hge]

end Stopped

/-! ## Every run -/

/-- When the last drinker leaves, every bartender waits for an order. -/
def LastCall (s : State sz) (t : Thread sz) : Prop :=
  s.pc t = .crawlDec → s.data.ndrinkers = 1 → ∀ b, s.pc (.bartender b) = .takeWait

instance (s : State sz) (t : Thread sz) : Decidable (LastCall s t) :=
  inferInstanceAs (Decidable (s.pc t = .crawlDec → s.data.ndrinkers = 1 →
    ∀ b, s.pc (.bartender b) = .takeWait))

theorem House.run {d : Data} {s : State sz} {met : State sz → Thread sz → Prop}
    (hr : Run (code sz) met (Bar.barOpen sz d) s) : House s := by
  have := Run.invariant (I := fun s => Kept s ∧ House s) ⟨Kept.barOpen d, House.barOpen d⟩
    (fun s s' t h _ hs => ⟨h.1.step hs, h.2.step h.1 hs⟩) hr
  exact this.2

/-- The step that brings the count to 0. -/
theorem last_leaves {s s' : State sz} (hh : House s) (hn : s.data.ndrinkers ≠ 0) {t : Thread sz}
    (hs : s.step (code sz) t = some s') (h0 : s'.data.ndrinkers = 0) :
    s.pc t = .crawlDec ∧ s.data.ndrinkers = 1 := by
  obtain ⟨k, -, htab⟩ := tab hs
  have h₁ := htab.drinkers
  have h₂ := hh.drinkers
  rw [h0] at h₁
  rcases htab.drinking with hk | hk
  · rw [hk] at h₁
    omega
  · refine ⟨hk, ?_⟩
    split at h₁ <;> split at h₁ <;> omega

theorem LastOrders.barOpen (d : Data) : LastOrders sz.nbartenders (barOpen sz d) := by
  have h₁ : waiting (Bar.barOpen sz d) = 0 := tally_eq_zero.mpr fun b _ => by
    simp [Bar.barOpen, Thread.entry]
  have h₂ : tally univ (fun t => ((Bar.barOpen sz d).pc t).placing = true) = 0 :=
    tally_eq_zero.mpr fun t _ => by cases t <;> simp [Bar.barOpen, Thread.entry, Pc.placing]
  rw [LastOrders, h₁, h₂]
  simp [empties, Bar.barOpen]

theorem LastOrders.run {d : Data} {s : State sz}
    (hr : Run (code sz) LastCall (Bar.barOpen sz d) s) :
    s.data.ndrinkers = 0 → LastOrders sz.nbartenders s := by
  induction hr with
  | start => exact fun _ => LastOrders.barOpen d
  | @step s s' t hr hm hs ih =>
    intro h0'
    have hk := Kept.run hr
    have hh := House.run hr
    by_cases h0 : s.data.ndrinkers = 0
    · exact (ih h0).step hk hh h0 hs
    · obtain ⟨hpc, h1⟩ := last_leaves hh h0 hs h0'
      have hall : waiting s = sz.nbartenders :=
        (tally_eq_card fun b _ => hm hpc h1 b).trans (card_fin _)
      rw [← hall]
      exact LastOrders.start hk hh hpc h1 hs

/-- With too few bartenders waiting, some thread never ends. -/
theorem LastOrders.not_ended {n : Nat} {s : State sz} (hl : LastOrders n s)
    (hn : n < sz.nbartenders) (hk : Kept s) : ∃ t, ¬ (s.pc t).Ended sz := by
  by_contra hall
  have hend (t : Thread sz) : s.pc t = .home ∨ ∃ i, s.pc t = .closing i := by
    have h : (s.pc t).Ended sz := not_not.mp fun h => hall ⟨t, h⟩
    cases hpc : s.pc t <;> simp [hpc, Pc.Ended, code] at h ⊢
  have hfree : ∀ t, ¬ Holds (s.pc t) .ndrinkerslock := fun t => by
    rcases hend t with h | ⟨i, h⟩ <;> simp [h, Holds, Pc.locks]
  have hready := hk.books.no_orders fun t => by
    rcases hend t with h | ⟨i, h⟩ <;> rw [h] <;> rfl
  have hplacing : tally univ (fun t => (s.pc t).placing = true) = 0 :=
    tally_eq_zero.mpr fun t _ => by rcases hend t with h | ⟨i, h⟩ <;> simp [h, Pc.placing]
  have hwaiting : waiting s = 0 :=
    tally_eq_zero.mpr fun b _ => by rcases hend (.bartender b) with h | ⟨i, h⟩ <;> simp [h]
  rw [LastOrders, empties_eq_of_free hk.mutex hfree, hready, hplacing, hwaiting] at hl
  omega

/-- The bar closes in every run in which all bartenders wait for an order when the last
drinker leaves, and in no other. -/
theorem bar_closes (sz : Sizes) (hb : 0 < sz.nbartenders) (hg : 0 < sz.nglasses) (d : Data) :
    (∀ s, Run (code sz) LastCall (barOpen sz d) s → ¬ Stuck s) ∧
    ∀ s₁ s₂ s t, Reach (code sz) (barOpen sz d) s₁ → ¬ LastCall s₁ t →
      s₁.step (code sz) t = some s₂ → Reach (code sz) s₂ s → ∃ u, ¬ (s.pc u).Ended sz := by
  constructor
  · intro s hr hx
    obtain ⟨⟨t, ht⟩, hno⟩ := hx
    exact ht (all_ended (Kept.run hr) hno hb hg (House.run hr) (LastOrders.run hr) t)
  · intro s₁ s₂ s t hr hlate hs hr'
    have hk := Kept.run hr
    have hh := House.run hr
    obtain ⟨hpc, h1, b, hbar⟩ : s₁.pc t = .crawlDec ∧ s₁.data.ndrinkers = 1 ∧
        ∃ b, s₁.pc (.bartender b) ≠ .takeWait := by
      simpa [LastCall] using hlate
    have hfew : waiting s₁ < sz.nbartenders :=
      Nat.lt_of_lt_of_eq (tally_lt_card (mem_univ b) hbar) (card_fin _)
    have h0 : s₂.data.ndrinkers = 0 := by
      simp only [Config.step, hpc, code, Option.some.injEq] at hs
      simp [← hs, h1]
    have hinv := Run.invariant
      (I := fun s => Kept s ∧ House s ∧ s.data.ndrinkers = 0 ∧ LastOrders (waiting s₁) s)
      ⟨hk.step hs, hh.step hk hs, h0, LastOrders.start hk hh hpc h1 hs⟩
      (fun s s' t h _ hs => ⟨h.1.step hs, h.2.1.step h.1 hs, h.2.1.stay h.2.2.1 hs,
        h.2.2.2.step h.1 h.2.1 h.2.2.1 hs⟩) hr'
    exact hinv.2.2.2.not_ended hfew hinv.1

/-- The customer's orders, each served by the bartender. -/
def fiveOrders : List (Thread ⟨1, 1, 1⟩) :=
  let order := List.replicate 4 (.customer 0) ++ List.replicate 15 (.bartender 0) ++
    List.replicate 15 (.customer 0)
  order ++ order ++ order ++ order ++ order

/-- The bartender takes its place for another order before the customer leaves. -/
def readyBartender : List (Thread ⟨1, 1, 1⟩) :=
  fiveOrders ++ [.bartender 0, .customer 0, .customer 0]

/-- The empty order is placed and served, and all go home. -/
def emptyOrder : List (Thread ⟨1, 1, 1⟩) :=
  List.replicate 6 (.customer 0) ++ List.replicate 16 (.bartender 0) ++
    List.replicate 17 (.customer 0) ++ [.createbar, .createbar]

/-- The bartender waits for an order when the customer leaves; the empty order sends it home. -/
theorem bar_closes_one : ∃ s s' : State ⟨1, 1, 1⟩,
    Run (code ⟨1, 1, 1⟩) LastCall (barOpen ⟨1, 1, 1⟩ emptyBar) s ∧ s.data.ndrinkers = 0 ∧
    s.pc (.bartender 0) = .takeWait ∧ ¬ Stuck s ∧ Run (code ⟨1, 1, 1⟩) LastCall s s' ∧
    ∀ t, (s'.pc t).Ended ⟨1, 1, 1⟩ := by
  have hleft : ((barOpen ⟨1, 1, 1⟩ emptyBar).steps (code ⟨1, 1, 1⟩) readyBartender).map
      (fun s => (s.data.ndrinkers, s.pc (.bartender 0))) = some (0, .takeWait) := by decide +kernel
  obtain ⟨s, hs, hend⟩ := Option.map_eq_some_iff.mp hleft
  simp only [Prod.mk.injEq] at hend
  obtain ⟨h0, hb⟩ := hend
  have hrun : Run (code ⟨1, 1, 1⟩) LastCall (barOpen ⟨1, 1, 1⟩ emptyBar) s :=
    Run.of_along .start (by decide +kernel) hs
  have hclosed : ∀ s ∈ (barOpen ⟨1, 1, 1⟩ emptyBar).steps (code ⟨1, 1, 1⟩) readyBartender,
      s.Along (code ⟨1, 1, 1⟩) LastCall emptyOrder ∧ (s.steps (code ⟨1, 1, 1⟩) emptyOrder).map
        (fun s => (s.pc (.customer 0), s.pc (.bartender 0), s.pc .createbar)) =
        some (.home, .home, .closing 2) := by decide +kernel
  obtain ⟨halong, hclosed⟩ := hclosed s hs
  obtain ⟨s', hs', hend⟩ := Option.map_eq_some_iff.mp hclosed
  simp only [Prod.mk.injEq] at hend
  obtain ⟨hc, hb', hm⟩ := hend
  refine ⟨s, s', hrun, h0, hb, (bar_closes ⟨1, 1, 1⟩ (by decide) (by decide) emptyBar).1 s hrun,
    .of_along .start halong hs', fun t => ?_⟩
  cases t with
  | createbar => simp [hm, Pc.Ended, code]
  | bartender b =>
    obtain rfl : b = 0 := Subsingleton.elim _ _
    simp [hb', Pc.Ended, code]
  | customer c =>
    obtain rfl : c = 0 := Subsingleton.elim _ _
    simp [hc, Pc.Ended, code]

/-- The customer drinks and leaves before the bartender, back from its last order, reads
`drinkers()`. -/
def lateBartender : List (Thread ⟨1, 1, 1⟩) :=
  fiveOrders ++ List.replicate 8 (.customer 0) ++ [.bartender 0, .bartender 0, .createbar]

/-- The bartender is home and the customer waits for its empty order. -/
theorem bar_stuck : ∃ s : State ⟨1, 1, 1⟩,
    Reach (code ⟨1, 1, 1⟩) (barOpen ⟨1, 1, 1⟩ emptyBar) s ∧ Stuck s ∧
    s.pc (.customer 0) = .submitWait (.empty 0) 0 ∧ s.pc (.bartender 0) = .home := by
  have hrun : ((barOpen ⟨1, 1, 1⟩ emptyBar).steps (code ⟨1, 1, 1⟩) lateBartender).map
      (fun s => (s.pc (.customer 0), s.pc (.bartender 0), s.pc .createbar,
        s.count (.ordercomplete 0), s.count .alldone)) =
      some (.submitWait (.empty 0) 0, .home, .closing 1, 0, 0) := by decide +kernel
  obtain ⟨s, hs, hend⟩ := Option.map_eq_some_iff.mp hrun
  simp only [Prod.mk.injEq] at hend
  obtain ⟨hc, hb, hm, hcount, hdone⟩ := hend
  refine ⟨s, .of_steps .start hs, ⟨⟨.customer 0, ?_⟩, fun t => ?_⟩, hc, hb⟩
  · simp [hc, Pc.Ended, code]
  · cases t with
    | createbar => simp [Config.step, hm, code, hdone]
    | bartender b =>
      obtain rfl : b = 0 := Subsingleton.elim _ _
      simp [Config.step, hb, code]
    | customer c =>
      obtain rfl : c = 0 := Subsingleton.elim _ _
      simp [Config.step, hc, code, hcount]

end Os161.Bar
