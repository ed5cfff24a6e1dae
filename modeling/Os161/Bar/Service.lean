import Os161.Bar.Bookkeeping

/-! # Service

Every step keeps the books, so no order and no glass is ever shared, and every search of
the arrays finds what the semaphore promised. -/
namespace Os161.Bar
open Os161.Lib Finset

variable {sz : Sizes}

/-! ## Writing the arrays -/

@[simp] theorem Data.orders_setOrder (d : Data) (i j : Nat) (o : Order) :
    (d.setOrder i o).orders j = if j = i then o else d.orders j := Function.update_apply _ _ _ _

@[simp] theorem Data.glasses_setOrder (d : Data) (i : Nat) (o : Order) :
    (d.setOrder i o).glasses = d.glasses := (rfl)

@[simp] theorem Data.glasses_setGlass (d : Data) (g j : Nat) (x : Glass) :
    (d.setGlass g x).glasses j = if j = g then x else d.glasses j := Function.update_apply _ _ _ _

@[simp] theorem Data.orders_setGlass (d : Data) (g : Nat) (x : Glass) :
    (d.setGlass g x).orders = d.orders := (rfl)

namespace Books

variable {s : State sz} (hb : Books s) (hm : s.Mutex Holds) {t : Thread sz} {k : Pc}
  {l : Lock → Option (Thread sz)}
include hb

include hm in
/-- The holder of `orderslock` changes the state of an order. -/
theorem setOrder (hl : Holds (s.pc t) .orderslock) {i : Nat} {o : Order} (hi : i < sz.ncustomers)
    (hg : o.glass = (s.data.orders i).glass) (hn : o.state ≠ 0 → o.ordernumber = i)
    (hk : Local (s.data.setOrder i o) k)
    (howned : ∀ j, (if (s.data.orders i).state ≠ 0 ∧ j = i then 1 else 0) +
        (if orderOf (s.data.setOrder i o) k = some j then 1 else 0) =
      (if o.state ≠ 0 ∧ j = i then 1 else 0) +
        if orderOf s.data (s.pc t) = some j then 1 else 0)
    (htaken : ∀ j, (if 2 ≤ (s.data.orders i).state ∧ j = i then 1 else 0) +
        (if slotOf (s.data.setOrder i o) k = some j then 1 else 0) =
      (if 2 ≤ o.state ∧ j = i then 1 else 0) + if slotOf s.data (s.pc t) = some j then 1 else 0)
    (hglass : glassOf (s.data.setOrder i o) k = glassOf s.data (s.pc t))
    (hready : (if (s.data.orders i).state = 1 then 1 else 0) +
      (if k.ordering = true then 1 else 0) =
      (if o.state = 1 then 1 else 0) + if (s.pc t).ordering = true then 1 else 0)
    (hempty : k.refilling = (s.pc t).refilling) :
    Books ⟨Function.update s.pc t k, l, s.count, s.data.setOrder i o⟩ := by
  have hgl (j : Nat) : ((s.data.setOrder i o).orders j).glass = (s.data.orders j).glass := by
    by_cases h : j = i <;> simp [h, hg]
  refine hb.balance (d := s.data.setOrder i o)
    ⟨fun u hu => ⟨fun h => ?_, fun _ _ => rfl, fun _ _ => rfl, fun j _ => hgl j⟩,
    hk, fun j hj => ?_, hb.bound, fun j => ?_, fun j => ?_, fun g => ?_, ?_, ?_⟩
  · exact absurd (hm.unique h hl) hu
  · by_cases h : j = i
    · subst h
      simp only [Data.orders_setOrder, if_true] at hj ⊢
      exact ⟨hi, hn hj⟩
    · simp only [Data.orders_setOrder, if_neg h] at hj ⊢
      exact hb.number j hj
  · have := howned j
    by_cases h : j = i
    · subst h
      simpa using this
    · simpa [h] using this
  · have := htaken j
    by_cases h : j = i
    · subst h
      simp only [and_true] at this
      simp only [Data.orders_setOrder, if_true]
      omega
    · simp only [h, and_false, if_false] at this
      simp only [Data.orders_setOrder, if_neg h]
      omega
  · simp only [hgl, hglass, Data.glasses_setOrder]
  · have := tally_change (S := range sz.ncustomers) (p := fun j => (s.data.orders j).state = 1)
      (q := fun j => ((s.data.setOrder i o).orders j).state = 1) (mem_range.mpr hi)
      fun j _ hj => by simp [hj]
    simp only [Data.orders_setOrder, if_true] at this ⊢
    omega
  · simp only [Data.glasses_setOrder, hempty]

include hm in
/-- The holder of `glassarraylock` changes the state of a glass. -/
theorem setGlass (hl : Holds (s.pc t) .glassarraylock) {g : Nat} {x : Glass} (hg : g < sz.nglasses)
    (hn : x.ordernumber = (s.data.glasses g).ordernumber)
    (hk : Local (s.data.setGlass g x) k)
    (howned : orderOf (s.data.setGlass g x) k = orderOf s.data (s.pc t))
    (htaken : slotOf (s.data.setGlass g x) k = slotOf s.data (s.pc t))
    (hglass : ∀ j, (if (s.data.glasses g).state ≠ 0 ∧ j = g then 1 else 0) +
        (if glassOf (s.data.setGlass g x) k = some j then 1 else 0) =
      (if x.state ≠ 0 ∧ j = g then 1 else 0) + if glassOf s.data (s.pc t) = some j then 1 else 0)
    (hready : k.ordering = (s.pc t).ordering)
    (hempty : (if (s.data.glasses g).state = 0 then 1 else 0) +
      (if k.refilling = true then 1 else 0) =
      (if x.state = 0 then 1 else 0) + if (s.pc t).refilling = true then 1 else 0) :
    Books ⟨Function.update s.pc t k, l, s.count, s.data.setGlass g x⟩ := by
  have hnum (j : Nat) :
      ((s.data.setGlass g x).glasses j).ordernumber = (s.data.glasses j).ordernumber := by
    by_cases h : j = g <;> simp [h, hn]
  refine hb.balance (d := s.data.setGlass g x)
    ⟨fun u hu => ⟨fun _ _ => rfl, fun h => ?_, fun j _ => hnum j, fun _ _ => rfl⟩,
    hk, hb.number, fun j hj => ?_, fun j => ?_, fun j => ?_, fun j => ?_, ?_, ?_⟩
  · exact absurd (hm.unique h hl) hu
  · by_cases h : j = g
    · exact h ▸ hg
    · simp only [Data.glasses_setGlass, if_neg h] at hj
      exact hb.bound j hj
  · rw [howned]
    rfl
  · rw [htaken]
    rfl
  · have := hglass j
    by_cases h : j = g
    · subst h
      simp only [and_true] at this
      simp only [Data.glasses_setGlass, Data.orders_setGlass, if_true]
      omega
    · simp only [h, and_false, if_false] at this
      simp only [Data.glasses_setGlass, Data.orders_setGlass, if_neg h]
      omega
  · simp only [hready, Data.orders_setGlass]
  · have := tally_change (S := range sz.nglasses) (p := fun j => (s.data.glasses j).state = 0)
      (q := fun j => ((s.data.setGlass g x).glasses j).state = 0) (mem_range.mpr hg)
      fun j _ hj => by simp [hj]
    simp only [Data.glasses_setGlass, if_true] at this ⊢
    omega

/-- `g->ordernumber = i` of the customer that has the glass. -/
theorem submitNumber {u : Call} {i g : Nat} (hpc : s.pc t = .submitNumber u i g) :
    Books ⟨Function.update s.pc t (.servedLock u i g), l, s.count,
      s.data.setGlass g { s.data.glasses g with ordernumber := i }⟩ := by
  have hg : glassOf s.data (s.pc t) = some g := by rw [hpc]; rfl
  have hst (j : Nat) : ((s.data.setGlass g
    { s.data.glasses g with ordernumber := i }).glasses j).state =
      (s.data.glasses j).state := by
    by_cases h : j = g <;> simp [h]
  refine hb.balance (k := .servedLock u i g)
    (d := s.data.setGlass g { s.data.glasses g with ordernumber := i })
      ⟨fun u hu => ⟨fun _ _ => rfl, fun _ _ => hst _, fun j hj => ?_, fun _ _ => rfl⟩,
    by simp [Local], hb.number, fun j hj => ?_, fun j => ?_, fun j => ?_, fun j => ?_, ?_, ?_⟩
  · have hne : j ≠ g := by
      intro hx
      obtain rfl := hx
      rcases hj with hj | hj
      · exact hu (hb.glass_unique hj hg)
      · exact hb.glass_state hg hj
    simp [hne]
  · rw [hst] at hj
    exact hb.bound j hj
  · simp [hpc, orderOf, servedSlot]
  · simp [hpc, slotOf, takenOf, servedSlot]
  · simp only [hst]
    simp [hpc, glassOf]
  · simp [hpc, Pc.ordering]
  · simp only [hst]
    simp [hpc, Pc.refilling]

/-- `o->glass = g` of the bartender that has the order. -/
theorem fillGlass {o g : Nat} (hpc : s.pc t = .fillGlass o g) :
    Books ⟨Function.update s.pc t (.bottlesLock o g), l, s.count,
      s.data.setOrder o { s.data.orders o with glass := g }⟩ := by
  have ho : slotOf s.data (s.pc t) = some o := by rw [hpc]; rfl
  have hst (j : Nat) : ((s.data.setOrder o { s.data.orders o with glass := g }).orders j).state =
      (s.data.orders j).state := by
    by_cases h : j = o <;> simp [h]
  have hS (j : Nat) : tally (range sz.ncustomers) (fun i => 0 < s.count (.ordercomplete i) ∧
        ((s.data.setOrder o { s.data.orders o with glass := g }).orders i).glass = j) =
      tally (range sz.ncustomers) fun i =>
        0 < s.count (.ordercomplete i) ∧ (s.data.orders i).glass = j := by
    refine tally_congr fun i _ => ?_
    by_cases h : i = o
    · subst h
      simp [(hb.slot_state ho).2]
    · simp [h]
  refine hb.balance (k := .bottlesLock o g)
    (d := s.data.setOrder o { s.data.orders o with glass := g })
      ⟨fun u hu => ⟨fun _ _ => hst _, fun _ _ => rfl, fun _ _ => rfl, fun j hj => ?_⟩,
    trivial, fun j hj => ?_, hb.bound, fun j => ?_, fun j => ?_, fun j => ?_, ?_, ?_⟩
  · have hne : j ≠ o := by
      intro hx
      obtain rfl := hx
      exact hu (hb.slot_unique hj ho)
    simp [hne]
  · rw [hst] at hj
    obtain ⟨h₁, h₂⟩ := hb.number j hj
    refine ⟨h₁, ?_⟩
    by_cases h : j = o
    · subst h
      simpa using h₂
    · simpa [h] using h₂
  · simp only [hst]
    simp [hpc, orderOf, servedSlot]
  · simp only [hst]
    simp [hpc, slotOf, takenOf, servedSlot]
  · simp only [hS, Data.glasses_setOrder]
    simp [hpc, glassOf]
  · simp only [hst]
    simp [hpc, Pc.ordering]
  · simp [hpc, Pc.refilling]

/-- A semaphore operation that changes no order's completion. -/
theorem counts {c : Sem → Nat} (hk : Local s.data k)
    (hc : ∀ i, c (.ordercomplete i) = s.count (.ordercomplete i))
    (howned : orderOf s.data k = orderOf s.data (s.pc t))
    (htaken : slotOf s.data k = slotOf s.data (s.pc t))
    (hglass : glassOf s.data k = glassOf s.data (s.pc t))
    (hready : c .ordersready + (if k.ordering = true then 1 else 0) =
      s.count .ordersready + if (s.pc t).ordering = true then 1 else 0)
    (hempty : c .emptyglasses + (if k.refilling = true then 1 else 0) =
      s.count .emptyglasses + if (s.pc t).refilling = true then 1 else 0) :
    Books ⟨Function.update s.pc t k, l, c, s.data⟩ := by
  refine hb.balance ⟨fun u _ => (SameBooks.refl _).frame _, hk, hb.number, hb.bound, fun i => ?_,
    fun i => ?_, fun g => ?_, ?_, ?_⟩
  · rw [howned]
  · rw [htaken, hc]
  · simp only [hc, hglass]
  · omega
  · omega

/-- The customer finds its order complete. -/
theorem submitWait {u : Call} {i : Nat} (hpc : s.pc t = .submitWait u i)
    (hi : 0 < s.count (.ordercomplete i)) :
    Books ⟨Function.update s.pc t (.submitGlass u i), l,
      Function.update s.count (.ordercomplete i) (s.count (.ordercomplete i) - 1), s.data⟩ := by
  have htaken := hb.taken i
  have hst : 2 ≤ (s.data.orders i).state := by
    by_contra h
    rw [if_neg h] at htaken
    omega
  have hone : s.count (.ordercomplete i) = 1 := by
    rw [if_pos hst] at htaken
    omega
  have hlt : i < sz.ncustomers := (hb.number i (by omega)).1
  refine hb.balance (k := .submitGlass u i) (d := s.data)
    ⟨fun u _ => (SameBooks.refl _).frame _, trivial, hb.number,
    hb.bound, fun j => ?_, fun j => ?_, fun g => ?_, ?_, ?_⟩
  · simp [hpc, orderOf, servedSlot]
  · by_cases h : j = i
    · subst h
      simp [hpc, slotOf, takenOf, servedSlot, hone]
    · simp [hpc, slotOf, takenOf, servedSlot, h, Ne.symm h]
  · have := tally_change (S := range sz.ncustomers)
      (p := fun j => 0 < s.count (.ordercomplete j) ∧ (s.data.orders j).glass = g)
      (q := fun j => 0 < Function.update s.count (.ordercomplete i)
        (s.count (.ordercomplete i) - 1) (.ordercomplete j) ∧ (s.data.orders j).glass = g)
      (mem_range.mpr hlt) fun j _ hj => by simp [hj]
    simp only [hone, Function.update_self, Nat.sub_self, Nat.lt_irrefl, false_and, if_false,
      Nat.zero_lt_one, true_and] at this
    simp only [hone, Nat.sub_self, hpc, glassOf, Option.some.injEq, reduceCtorEq, if_false]
    omega
  · simp [hpc, Pc.ordering]
  · simp [hpc, Pc.refilling]

/-- The bartender signals that the order is complete. -/
theorem serveReady {i : Nat} (hpc : s.pc t = .serveReady i) :
    Books ⟨Function.update s.pc t .drinkers, l,
      Function.update s.count (.ordercomplete i) (s.count (.ordercomplete i) + 1), s.data⟩ := by
  have hslot : slotOf s.data (s.pc t) = some i := by rw [hpc]; rfl
  obtain ⟨hst, hzero⟩ := hb.slot_state hslot
  have hlt : i < sz.ncustomers := (hb.number i (by omega)).1
  refine hb.balance (k := .drinkers) (d := s.data)
    ⟨fun u _ => (SameBooks.refl _).frame _, trivial, hb.number,
    hb.bound, fun j => ?_, fun j => ?_, fun g => ?_, ?_, ?_⟩
  · simp [hpc, orderOf, servedSlot]
  · by_cases h : j = i
    · subst h
      simp [hpc, slotOf, takenOf, servedSlot, hzero]
    · simp [hpc, slotOf, takenOf, servedSlot, h, Ne.symm h]
  · have := tally_change (S := range sz.ncustomers)
      (p := fun j => 0 < s.count (.ordercomplete j) ∧ (s.data.orders j).glass = g)
      (q := fun j => 0 < Function.update s.count (.ordercomplete i)
        (s.count (.ordercomplete i) + 1) (.ordercomplete j) ∧ (s.data.orders j).glass = g)
      (mem_range.mpr hlt) fun j _ hj => by simp [hj]
    simp only [hzero, Function.update_self, Nat.zero_add, Nat.lt_irrefl, false_and, if_false,
      Nat.zero_lt_one, true_and] at this
    simp only [hzero, Nat.zero_add, hpc, glassOf, Option.some.injEq, reduceCtorEq, if_false]
    omega
  · simp [hpc, Pc.ordering]
  · simp [hpc, Pc.refilling]

/-- A step that moves nothing. -/
theorem still {c : Pc} (hpc : s.pc t = c) (hk : Local s.data k)
    (ho : orderOf s.data k = orderOf s.data c) (hs : slotOf s.data k = slotOf s.data c)
    (hg : glassOf s.data k = glassOf s.data c) (hr : k.ordering = c.ordering)
    (he : k.refilling = c.refilling) : Books ⟨Function.update s.pc t k, l, s.count, s.data⟩ := by
  subst hpc
  exact hb.quiet (SameBooks.refl _) (fun _ _ => rfl) hk ho hs hg hr he

end Books

/-! ## Who is where -/

def Pc.ofBartender : Pc → Bool
  | .drinkers | .takeWait | .takeLock | .takeScan _ | .takeUnlock _ | .fillWait _ | .fillLock _
  | .fillScan _ _ | .fillUnlock _ _ | .fillGlass _ _ | .bottlesLock _ _ | .pour _ _
  | .bottlesUnlock _ | .serve _ | .serveReady _ | .goHome | .home | .fault .noOrder
  | .fault .noGlass => true
  | _ => false

def Pc.ofCustomer : Pc → Bool
  | .goHome | .home | .fault (.noSlot _) => true
  | .closing _ => false
  | k => !k.ofBartender

/-- The program points of each thread. -/
def Thread.At : Thread sz → Pc → Prop
  | .createbar, k => ∃ i ≤ sz.ncustomers + sz.nbartenders, k = .closing i
  | .bartender _, k => k.ofBartender = true
  | .customer _, k => k.ofCustomer = true

theorem at_next (t : Thread sz) (c : Pc) (d : Data) (k : Pc) (h : t.At c)
    (hk : (code sz c).next d = some k) : t.At k := by
  cases t with
  | createbar =>
    obtain ⟨i, hi, rfl⟩ := h
    simp only [code] at hk
    split at hk
    · cases hk
      exact ⟨i + 1, by omega, rfl⟩
    · cases hk
  | bartender b =>
    cases c <;> simp only [Thread.At, Pc.ofBartender, Bool.false_eq_true] at h
    case home | fault => cases hk
    all_goals
      simp only [code, Instr.next, Option.some.injEq] at hk
      subst hk
      simp only [Thread.At]
      repeat' split
      all_goals rfl
  | customer c' =>
    cases c <;> simp only [Thread.At, Pc.ofCustomer, Pc.ofBartender, Bool.not_true,
      Bool.false_eq_true] at h
    case home | fault => cases hk
    all_goals
      simp only [code, Instr.next, Option.some.injEq] at hk
      subst hk
      simp only [Thread.At]
    case servedUnlock u g => cases u <;> rfl
    case resetUnlock u =>
      cases u <;> simp only [Call.returned]
      · split <;> rfl
      · rfl
    all_goals
      repeat' split
      all_goals rfl

/-! ## The searches -/

section Searches

variable {s : State sz} (hb : Books s) {t : Thread sz}
include hb

/-- A customer that looks for a slot has none, so one of the `norders` slots is free. -/
theorem Books.slot_found (hat : ∀ t : Thread sz, t.At (s.pc t)) {u : Call} {i : Nat}
    (hpc : s.pc t = .submitScan u i) : i < sz.ncustomers := by
  by_contra hi
  have hfull : ∀ j < sz.ncustomers, (s.data.orders j).state ≠ 0 := fun j hj => by
    have := hb.points t
    rw [hpc] at this
    exact this j (by omega)
  have hwho : ∀ j : Fin sz.ncustomers, ∃ c : Fin sz.ncustomers,
      orderOf s.data (s.pc (.customer c)) = some j.val := fun j => by
    have hone := hb.owned j.val
    rw [if_pos (hfull j j.isLt)] at hone
    obtain ⟨v, -, hv⟩ := tally_pos.mp (Nat.lt_of_lt_of_eq Nat.one_pos hone.symm)
    have hv' := hat v
    cases v with
    | customer c => exact ⟨c, hv⟩
    | createbar =>
      obtain ⟨n, -, hn⟩ := hv'
      rw [hn] at hv
      cases hv
    | bartender b =>
      generalize s.pc (.bartender b) = k at hv hv'
      cases k <;> simp [Thread.At, Pc.ofBartender, orderOf, servedSlot] at hv hv'
  choose f hf using hwho
  have hinj : Function.Injective f := fun j j' h => by
    have := hf j
    rw [h, hf j'] at this
    exact (Fin.ext (Option.some.inj this)).symm
  have hc := hat t
  rw [hpc] at hc
  cases t with
  | createbar => obtain ⟨n, -, hn⟩ := hc; cases hn
  | bartender b => cases hc
  | customer c =>
    obtain ⟨j, rfl⟩ := Finite.surjective_of_injective hinj c
    have := hf j
    rw [hpc] at this
    cases this

/-- A bartender past `ordersready` finds an order. -/
theorem Books.order_found {i : Nat} (hpc : s.pc t = .takeScan i) : i < sz.ncustomers := by
  by_contra hi
  have hnone : tally (range sz.ncustomers) (fun j => (s.data.orders j).state = 1) = 0 :=
    tally_eq_zero.mpr fun j hj => by
      have := hb.points t
      rw [hpc] at this
      exact this j (by have := mem_range.mp hj; omega)
  have hpos : 0 < tally univ fun t => (s.pc t).ordering = true :=
    tally_pos.mpr ⟨t, mem_univ t, by rw [hpc]; rfl⟩
  have := hb.ready
  omega

/-- A bartender past `emptyglasses` finds a glass. -/
theorem Books.glass_found {o i : Nat} (hpc : s.pc t = .fillScan o i) : i < sz.nglasses := by
  by_contra hi
  have hnone : tally (range sz.nglasses) (fun j => (s.data.glasses j).state = 0) = 0 :=
    tally_eq_zero.mpr fun j hj => by
      have := hb.points t
      rw [hpc] at this
      exact this j (by have := mem_range.mp hj; omega)
  have hpos : 0 < tally univ fun t => (s.pc t).refilling = true :=
    tally_pos.mpr ⟨t, mem_univ t, by rw [hpc]; rfl⟩
  have := hb.empty
  omega

end Searches

/-! ## Every step keeps the books -/

namespace Books

variable {s : State sz} (hb : Books s) (hm : s.Mutex Holds) {t : Thread sz}
  {l : Lock → Option (Thread sz)} {u : Call}
include hb hm

theorem submitScan_free {i : Nat} (hpc : s.pc t = .submitScan u i) (hi : i < sz.ncustomers)
    (h0 : (s.data.orders i).state = 0) :
    Books ⟨Function.update s.pc t (.submitUnlock u i), l, s.count,
      s.data.setOrder i { s.data.orders i with ing := u.ing, state := 1, ordernumber := i }⟩ := by
  refine hb.setOrder hm ?_ hi rfl (fun _ => rfl) trivial (fun j => ?_) (fun j => ?_) ?_ ?_ ?_
  · simp [hpc, Holds, Pc.locks]
  · simp [hpc, h0, orderOf, servedSlot, eq_comm]
  · simp [hpc, h0, slotOf, takenOf, servedSlot]
  · simp [hpc, glassOf]
  · simp [hpc, h0, Pc.ordering]
  · simp [hpc, Pc.refilling]

theorem takeScan_ready {i : Nat} (hpc : s.pc t = .takeScan i) (hi : i < sz.ncustomers)
    (h1 : (s.data.orders i).state = 1) :
    Books ⟨Function.update s.pc t (.takeUnlock i), l, s.count,
      s.data.setOrder i { s.data.orders i with state := 2 }⟩ := by
  refine hb.setOrder hm ?_ hi rfl (fun _ => (hb.number i (by omega)).2) trivial (fun j => ?_)
    (fun j => ?_) ?_ ?_ ?_
  · simp [hpc, Holds, Pc.locks]
  · simp [hpc, h1, orderOf, servedSlot]
  · simp [hpc, h1, slotOf, takenOf, servedSlot, eq_comm]
  · simp [hpc, glassOf]
  · simp [hpc, h1, Pc.ordering]
  · simp [hpc, Pc.refilling]

theorem servedSet {i g : Nat} (hpc : s.pc t = .servedSet u i g) :
    Books ⟨Function.update s.pc t (.servedUnlock u g), l, s.count,
      s.data.setOrder i { s.data.orders i with state := 3 }⟩ := by
  have hst : 2 ≤ (s.data.orders i).state :=
    (hb.slot_state (t := t) (by rw [hpc]; rfl)).1
  obtain ⟨hi, hn⟩ := hb.number i (by omega)
  have hg : (s.data.glasses g).ordernumber = i := by
    have := hb.points t
    rw [hpc] at this
    exact this
  have h0 : (s.data.orders i).state ≠ 0 := by omega
  have h1 : (s.data.orders i).state ≠ 1 := by omega
  refine hb.setOrder hm ?_ hi rfl (fun _ => hn) trivial (fun j => ?_) (fun j => ?_) ?_ ?_ ?_
  · simp [hpc, Holds, Pc.locks]
  · simp [hpc, h0, hg, orderOf, servedSlot]
  · simp [hpc, hst, hg, slotOf, takenOf, servedSlot]
  · simp [hpc, glassOf]
  · simp [hpc, h1, Pc.ordering]
  · simp [hpc, Pc.refilling]

theorem resetSet {i : Nat} (hpc : s.pc t = .resetSet u i) :
    Books ⟨Function.update s.pc t (.resetUnlock u), l, s.count,
      s.data.setOrder i { s.data.orders i with state := 0 }⟩ := by
  have hst : 2 ≤ (s.data.orders i).state :=
    (hb.slot_state (t := t) (by rw [hpc]; rfl)).1
  obtain ⟨hi, hn⟩ := hb.number i (by omega)
  have h0 : (s.data.orders i).state ≠ 0 := by omega
  have h1 : (s.data.orders i).state ≠ 1 := by omega
  refine hb.setOrder hm ?_ hi rfl (fun _ => hn) trivial (fun j => ?_) (fun j => ?_) ?_ ?_ ?_
  · simp [hpc, Holds, Pc.locks]
  · simp [hpc, h0, orderOf, servedSlot, eq_comm]
  · simp [hpc, hst, slotOf, takenOf, servedSlot, eq_comm]
  · simp [hpc, glassOf]
  · simp [hpc, h1, Pc.ordering]
  · simp [hpc, Pc.refilling]

theorem fillScan_empty {o i : Nat} (hpc : s.pc t = .fillScan o i) (hi : i < sz.nglasses)
    (h0 : (s.data.glasses i).state = 0) :
    Books ⟨Function.update s.pc t (.fillUnlock o i), l, s.count,
      s.data.setGlass i { s.data.glasses i with state := 1 }⟩ := by
  refine hb.setGlass hm ?_ hi rfl trivial ?_ ?_ (fun j => ?_) ?_ ?_
  · simp [hpc, Holds, Pc.locks]
  · simp [hpc, orderOf, servedSlot]
  · simp [hpc, slotOf, takenOf]
  · simp [hpc, h0, glassOf, eq_comm]
  · simp [hpc, Pc.ordering]
  · simp [hpc, h0, Pc.refilling]

theorem returnEmpty {g : Nat} (hpc : s.pc t = .returnEmpty u g) :
    Books ⟨Function.update s.pc t (.returnNumber u g), l, s.count,
      s.data.setGlass g { s.data.glasses g with state := 0 }⟩ := by
  have hst : (s.data.glasses g).state ≠ 0 := hb.glass_state (t := t) (by rw [hpc]; rfl)
  refine hb.setGlass hm ?_ (hb.bound g hst) rfl (by simp [Local]) ?_ ?_ (fun j => ?_) ?_ ?_
  · simp [hpc, Holds, Pc.locks]
  · simp [hpc, orderOf, servedSlot]
  · simp [hpc, slotOf, takenOf, servedSlot]
  · simp [hpc, hst, glassOf, eq_comm]
  · simp [hpc, Pc.ordering]
  · simp [hpc, hst, Pc.refilling]

end Books

/-- Waiting for a lock, and what a thread knows once it has it. -/
theorem Books.locked {s s' : State sz} (hb : Books s) {t : Thread sz} {c k : Pc} {x : Lock}
    (hpc : s.pc t = c)
    (hs : (if s.owner x = none then
      some { s with
        pc := Function.update s.pc t k, owner := Function.update s.owner x (some t) }
      else none) = some s')
    (hk : Local s.data k) (ho : orderOf s.data k = orderOf s.data c)
    (hsl : slotOf s.data k = slotOf s.data c) (hg : glassOf s.data k = glassOf s.data c)
    (hr : k.ordering = c.ordering) (he : k.refilling = c.refilling) : Books s' := by
  split at hs
  · obtain rfl := Option.some.inj hs
    exact hb.still hpc hk ho hsl hg hr he
  · cases hs

theorem Books.unlocked {s s' : State sz} (hb : Books s) {t : Thread sz} {c k : Pc} {x : Lock}
    (hpc : s.pc t = c)
    (hs : (if s.owner x = some t then
      some { s with pc := Function.update s.pc t k, owner := Function.update s.owner x none }
      else none) = some s')
    (hk : Local s.data k) (ho : orderOf s.data k = orderOf s.data c)
    (hsl : slotOf s.data k = slotOf s.data c) (hg : glassOf s.data k = glassOf s.data c)
    (hr : k.ordering = c.ordering) (he : k.refilling = c.refilling) : Books s' := by
  split at hs
  · obtain rfl := Option.some.inj hs
    exact hb.still hpc hk ho hsl hg hr he
  · cases hs

theorem Books.step {s s' : State sz} (hb : Books s) (hm : s.Mutex Holds)
    (hat : ∀ t : Thread sz, t.At (s.pc t)) {t : Thread sz}
    (hs : s.step (code sz) t = some s') : Books s' := by
  have hpt := hb.points t
  have hnone {P : Nat → Prop} (j : Nat) (hj : j < 0) : P j := absurd hj (Nat.not_lt_zero j)
  unfold Config.step at hs
  cases hpc : s.pc t <;> rw [hpc] at hpt <;> simp only [hpc, code] at hs
  case submitLock | takeLock | fillLock => exact hb.locked hpc hs hnone rfl rfl rfl rfl rfl
  case servedLock => exact hb.locked hpc hs hpt rfl rfl rfl rfl rfl
  case returnLock | resetLock | crawlLock | bottlesLock =>
    exact hb.locked hpc hs trivial rfl rfl rfl rfl rfl
  case submitUnlock | returnUnlock | crawlUnlock | takeUnlock | fillUnlock | bottlesUnlock =>
    exact hb.unlocked hpc hs trivial rfl rfl rfl rfl rfl
  case servedUnlock u g =>
    cases u <;> exact hb.unlocked hpc hs trivial rfl rfl rfl rfl rfl
  case resetUnlock u =>
    cases u with
    | empty i => exact hb.unlocked hpc hs trivial rfl rfl rfl rfl rfl
    | drink c i =>
      simp only [Call.returned] at hs
      by_cases hi : i + 1 < rounds
      · simp only [if_pos hi] at hs
        exact hb.unlocked hpc hs trivial rfl rfl rfl rfl rfl
      · simp only [if_neg hi] at hs
        exact hb.unlocked hpc hs trivial rfl rfl rfl rfl rfl
  case submitScan u i =>
    have hi := hb.slot_found hat hpc
    by_cases h0 : (s.data.orders i).state = 0
    · simp only [if_pos hi, if_pos h0] at hs
      obtain rfl := Option.some.inj hs
      exact hb.submitScan_free hm hpc hi h0
    · simp only [if_pos hi, if_neg h0] at hs
      obtain rfl := Option.some.inj hs
      refine hb.still hpc (fun j hj => ?_) rfl rfl rfl rfl rfl
      rcases Nat.lt_succ_iff_lt_or_eq.mp hj with hj | rfl
      · exact hpt j hj
      · exact h0
  case takeScan i =>
    have hi := hb.order_found hpc
    by_cases h1 : (s.data.orders i).state = 1
    · simp only [if_pos hi, if_pos h1] at hs
      obtain rfl := Option.some.inj hs
      exact hb.takeScan_ready hm hpc hi h1
    · simp only [if_pos hi, if_neg h1] at hs
      obtain rfl := Option.some.inj hs
      refine hb.still hpc (fun j hj => ?_) rfl rfl rfl rfl rfl
      rcases Nat.lt_succ_iff_lt_or_eq.mp hj with hj | rfl
      · exact hpt j hj
      · exact h1
  case fillScan o i =>
    have hi := hb.glass_found hpc
    by_cases h0 : (s.data.glasses i).state = 0
    · simp only [if_pos hi, if_pos h0] at hs
      obtain rfl := Option.some.inj hs
      exact hb.fillScan_empty hm hpc hi h0
    · simp only [if_pos hi, if_neg h0] at hs
      obtain rfl := Option.some.inj hs
      refine hb.still hpc (fun j hj => ?_) rfl rfl rfl rfl rfl
      rcases Nat.lt_succ_iff_lt_or_eq.mp hj with hj | rfl
      · exact hpt j hj
      · exact h0
  case submitWait u i =>
    split at hs
    · obtain rfl := Option.some.inj hs
      exact hb.submitWait hpc ‹_›
    · cases hs
  case takeWait =>
    split at hs
    · obtain rfl := Option.some.inj hs
      refine hb.counts trivial (fun i => by simp) ?_ ?_ ?_ ?_ ?_
      · simp [hpc, orderOf, servedSlot]
      · simp [hpc, slotOf, takenOf, servedSlot]
      · simp [hpc, glassOf]
      · simp [hpc, Pc.ordering]
        omega
      · simp [hpc, Pc.refilling]
    · cases hs
  case fillWait o =>
    split at hs
    · obtain rfl := Option.some.inj hs
      refine hb.counts trivial (fun i => by simp) ?_ ?_ ?_ ?_ ?_
      · simp [hpc, orderOf, servedSlot]
      · simp [hpc, slotOf, takenOf]
      · simp [hpc, glassOf]
      · simp [hpc, Pc.ordering]
      · simp [hpc, Pc.refilling]
        omega
    · cases hs
  case closing i =>
    by_cases hi : i < sz.ncustomers + sz.nbartenders
    · simp only [if_pos hi] at hs
      split at hs
      · obtain rfl := Option.some.inj hs
        refine hb.quiet (SameBooks.refl _) (fun x hx => Function.update_of_ne hx _ _)
          trivial ?_ ?_ ?_
          ?_ ?_ <;> rw [hpc] <;> rfl
      · cases hs
    · simp only [if_neg hi] at hs
      cases hs
  case submitReady u i =>
    obtain rfl := Option.some.inj hs
    refine hb.counts trivial (fun i => by simp) ?_ ?_ ?_ ?_ ?_
    · simp [hpc, orderOf]
    · simp [hpc, slotOf, takenOf, servedSlot]
    · simp [hpc, glassOf]
    · simp [hpc, Pc.ordering]
    · simp [hpc, Pc.refilling]
  case returnReady u i =>
    obtain rfl := Option.some.inj hs
    refine hb.counts trivial (fun i => by simp) ?_ ?_ ?_ ?_ ?_
    · simp [hpc, orderOf, servedSlot]
    · simp [hpc, slotOf, takenOf, servedSlot]
    · simp [hpc, glassOf]
    · simp [hpc, Pc.ordering]
    · simp [hpc, Pc.refilling]
  case serveReady i =>
    obtain rfl := Option.some.inj hs
    exact hb.serveReady hpc
  case goHome =>
    obtain rfl := Option.some.inj hs
    refine hb.quiet (SameBooks.refl _) (fun x hx => Function.update_of_ne hx _ _) trivial ?_ ?_ ?_
      ?_ ?_ <;> rw [hpc] <;> rfl
  case submitGlass | returnNumber =>
    obtain rfl := Option.some.inj hs
    exact hb.still hpc trivial rfl rfl rfl rfl rfl
  case submitNumber u i g =>
    obtain rfl := Option.some.inj hs
    exact hb.submitNumber hpc
  case servedSet u i g =>
    obtain rfl := Option.some.inj hs
    exact hb.servedSet hm hpc
  case drink u g =>
    obtain rfl := Option.some.inj hs
    refine hb.quiet (SameBooks.contents _ _ _) (fun _ _ => rfl) trivial ?_ ?_ ?_ ?_ ?_ <;> rw [hpc]
    · simp [orderOf, servedSlot]
    · simp [slotOf, takenOf, servedSlot]
    all_goals rfl
  case returnEmpty u g =>
    obtain rfl := Option.some.inj hs
    exact hb.returnEmpty hm hpc
  case resetSet u i =>
    obtain rfl := Option.some.inj hs
    exact hb.resetSet hm hpc
  case crawlDec =>
    obtain rfl := Option.some.inj hs
    refine hb.quiet ⟨fun _ => ⟨rfl, rfl, rfl⟩, fun _ => ⟨rfl, rfl⟩⟩ (fun _ _ => rfl) trivial
      ?_ ?_ ?_ ?_ ?_ <;> rw [hpc] <;> rfl
  case crawlTest | crawlLoop | drinkers =>
    obtain rfl := Option.some.inj hs
    split <;> exact hb.still hpc trivial rfl rfl rfl rfl rfl
  case fillGlass o g =>
    obtain rfl := Option.some.inj hs
    exact hb.fillGlass hpc
  case pour o g =>
    obtain rfl := Option.some.inj hs
    have hsame := SameBooks.pour s.data g (s.data.orders o).ing
    refine hb.quiet hsame (fun _ _ => rfl) trivial ?_ ?_ ?_ ?_ ?_ <;> rw [hpc]
    case refine_3 => exact congrArg some (hsame.order o).2.2
    all_goals rfl
  case serve o =>
    obtain rfl := Option.some.inj hs
    have hst := (hb.slot_state (t := t) (i := o) (by rw [hpc]; rfl)).1
    rw [(hb.number o (by omega)).2]
    exact hb.still hpc trivial rfl rfl rfl rfl rfl
  case home => cases hs
  case fault => exact absurd hpt id

/-! ## Every run -/

/-- What holds in every reachable state. -/
structure Kept (s : State sz) : Prop where
  at' : ∀ t : Thread sz, t.At (s.pc t)
  mutex : s.Mutex Holds
  books : Books s

theorem Kept.barOpen (d : Data) : Kept (barOpen sz d) where
  at'
    | .createbar => ⟨0, Nat.zero_le _, rfl⟩
    | .bartender _ => rfl
    | .customer _ => rfl
  mutex l t := by cases t <;> simp [Bar.barOpen, Thread.entry, Holds, Pc.locks, Call.locks]
  books := by
    have hnone (f : Pc → Option Nat) (i : Nat) (hf : ∀ t : Thread sz, f t.entry = none) :
        tally univ (fun t : Thread sz => f t.entry = some i) = 0 :=
      tally_eq_zero.mpr fun t _ => by simp [hf t]
    refine ⟨fun t => ?_, fun i h => absurd rfl h, fun g h => absurd rfl h, fun i => ?_, fun i => ?_,
      fun g => ?_, ?_, ?_⟩
    · cases t <;> trivial
    · exact hnone _ i fun t => by cases t <;> rfl
    · exact (Nat.add_zero _).trans (hnone _ i fun t => by cases t <;> rfl)
    · exact Nat.add_eq_zero_iff.mpr ⟨hnone _ g fun t => by cases t <;> rfl,
        tally_eq_zero.mpr fun i _ h => absurd h.1 (Nat.lt_irrefl 0)⟩
    · have h₁ : tally univ (fun t : Thread sz => t.entry.ordering = true) = 0 :=
        tally_eq_zero.mpr fun t _ => by cases t <;> simp [Thread.entry, Pc.ordering]
      have h₂ : tally (range sz.ncustomers) (fun _ => 0 = 1) = 0 :=
        tally_eq_zero.mpr fun _ _ => by decide
      exact (Nat.zero_add _).trans (h₁.trans h₂.symm)
    · have h₁ : tally univ (fun t : Thread sz => t.entry.refilling = true) = 0 :=
        tally_eq_zero.mpr fun t _ => by cases t <;> simp [Thread.entry, Pc.refilling]
      have h₂ : tally (range sz.nglasses) (fun _ => 0 = 0) = sz.nglasses :=
        (tally_eq_card fun _ _ => rfl).trans (card_range _)
      exact (congrArg (sz.nglasses + ·) h₁).trans h₂.symm

theorem Kept.step {s s' : State sz} (hk : Kept s) {t : Thread sz}
    (hs : s.step (code sz) t = some s') : Kept s' :=
  ⟨Config.points_step at_next hk.at' hs, hk.mutex.step (code_follows sz) hs,
    hk.books.step hk.mutex hk.at' hs⟩

theorem Kept.run {d : Data} {s : State sz} {met : State sz → Thread sz → Prop}
    (hr : Run (code sz) met (Bar.barOpen sz d) s) : Kept s :=
  Run.invariant (Kept.barOpen d) (fun _ _ _ hk _ hs => hk.step hs) hr

/-- The order at slot `i` has glass `g`: in the hands of its bartender or its customer, or
served and not yet picked up. -/
def UsesGlass (s : State sz) (i g : Nat) : Prop :=
  (∃ t, slotOf s.data (s.pc t) = some i ∧ glassOf s.data (s.pc t) = some g) ∨
    0 < s.count (.ordercomplete i) ∧ i < sz.ncustomers ∧ (s.data.orders i).glass = g

/-- The searches of the arrays end at what they look for, and no two outstanding orders
share a slot or a glass. -/
structure Orderly (s : State sz) : Prop where
  found : ∀ t f, s.pc t ≠ .fault f
  slot : ∀ t u i, orderOf s.data (s.pc t) = some i → orderOf s.data (s.pc u) = some i → t = u
  bound : ∀ t i, orderOf s.data (s.pc t) = some i → i < sz.ncustomers
  glass : ∀ i j g, UsesGlass s i g → UsesGlass s j g → i = j

theorem Books.orderly {s : State sz} (hb : Books s) : Orderly s where
  found t f h := by
    have := hb.points t
    rw [h] at this
    exact this
  slot t u i := hb.order_unique
  bound t i h := (hb.number i (hb.state_of_order h)).1
  glass i j g hi hj := by
    have hglass := hb.glass g
    -- a glass in somebody's hands is not at the counter
    have hboth {t : Thread sz} {i : Nat} (ht : glassOf s.data (s.pc t) = some g)
        (hi : 0 < s.count (.ordercomplete i) ∧ i < sz.ncustomers ∧ (s.data.orders i).glass = g) :
        False := by
      have h₁ := tally_pos (p := fun t => glassOf s.data (s.pc t) = some g).mpr ⟨t, mem_univ t, ht⟩
      have h₂ := tally_pos (p := fun i => 0 < s.count (.ordercomplete i) ∧
        (s.data.orders i).glass = g).mpr ⟨i, mem_range.mpr hi.2.1, hi.1, hi.2.2⟩
      split at hglass <;> omega
    rcases hi with ⟨t, hti, htg⟩ | hi <;> rcases hj with ⟨u, huj, hug⟩ | hj
    · obtain rfl := hb.glass_unique htg hug
      exact Option.some.inj (hti.symm.trans huj)
    · exact (hboth htg hj).elim
    · exact (hboth hug hi).elim
    · refine tally_unique (p := fun i => 0 < s.count (.ordercomplete i) ∧
        (s.data.orders i).glass = g) ?_ (mem_range.mpr hi.2.1) (mem_range.mpr hj.2.1)
        ⟨hi.1, hi.2.2⟩ ⟨hj.1, hj.2.2⟩
      split at hglass <;> omega

/-- Orders and glasses in every interleaving. -/
theorem bar_orderly (sz : Sizes) (d : Data) (s : State sz)
    (hr : Reach (code sz) (barOpen sz d) s) : Orderly s :=
  (Kept.run hr).books.orderly

def emptyBar : Data := ⟨fun _ => ⟨(0, 0, 0), 0, 0, 0⟩, fun _ => ⟨fun _ => 0, 0, 0⟩, fun _ => 0, 0⟩

/-- Two customers have ordered. -/
theorem bar_orderly_two : ∃ s : State ⟨2, 1, 1⟩,
    (barOpen ⟨2, 1, 1⟩ emptyBar).steps (code ⟨2, 1, 1⟩)
      (List.replicate 4 (.customer 0) ++ List.replicate 5 (.customer 1)) = some s ∧ Orderly s := by
  obtain ⟨s, hs⟩ := Option.isSome_iff_exists.mp (by decide +kernel :
    ((barOpen ⟨2, 1, 1⟩ emptyBar).steps (code ⟨2, 1, 1⟩)
      (List.replicate 4 (.customer 0) ++ List.replicate 5 (.customer 1))).isSome = true)
  exact ⟨s, hs, bar_orderly _ _ _ (.of_steps .start hs)⟩

end Os161.Bar
