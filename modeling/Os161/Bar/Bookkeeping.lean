import Os161.Bar.Code
import Mathlib.Data.Fintype.Option
import Mathlib.Data.Fintype.Sum

/-! # Orders and glasses

The two semaphores count orders and glasses whose state is kept in the arrays. The books
balance: each count with the threads that are between the semaphore and the array is
what the array holds. -/
namespace Os161.Bar
open Os161.Lib Finset

variable {sz : Sizes}

def Thread.equiv (sz : Sizes) : Option (Fin sz.nbartenders ⊕ Fin sz.ncustomers) ≃ Thread sz where
  toFun
    | none => .createbar
    | some (.inl b) => .bartender b
    | some (.inr c) => .customer c
  invFun
    | .createbar => none
    | .bartender b => some (.inl b)
    | .customer c => some (.inr c)
  left_inv := by rintro (_ | _ | _) <;> rfl
  right_inv := by rintro (_ | _ | _) <;> rfl

instance : Fintype (Thread sz) := Fintype.ofEquiv _ (Thread.equiv sz)

/-! ## Locks -/

def Call.locks : Call → List Lock
  | .drink _ _ => []
  | .empty _ => [.ndrinkerslock]

/-- The locks held at a program point. -/
def Pc.locks : Pc → List Lock
  | .submitScan u _ | .submitUnlock u _ | .servedSet u _ _ | .servedUnlock u _ | .resetSet u _
  | .resetUnlock u | .fault (.noSlot u) => .orderslock :: u.locks
  | .returnEmpty u _ | .returnNumber u _ | .returnUnlock u _ => .glassarraylock :: u.locks
  | .submitLock u | .submitReady u _ | .submitWait u _ | .submitGlass u _ | .submitNumber u _ _
  | .servedLock u _ _ | .drink u _ | .returnLock u _ | .returnReady u _ | .resetLock u _ => u.locks
  | .crawlDec | .crawlTest | .crawlLoop _ | .crawlUnlock => [.ndrinkerslock]
  | .takeScan _ | .takeUnlock _ | .fault .noOrder => [.orderslock]
  | .fillScan _ _ | .fillUnlock _ _ | .fault .noGlass => [.glassarraylock]
  | .pour _ _ | .bottlesUnlock _ => [.bottleslock]
  | _ => []

def Holds (k : Pc) (l : Lock) : Prop := l ∈ k.locks

@[simp] theorem Pc.locks_served (u : Call) (g : Nat) : (u.served g).locks = u.locks := by
  cases u <;> rfl

@[simp] theorem Pc.locks_returned (u : Call) : u.returned.locks = u.locks := by
  cases u with
  | drink c i => simp only [Call.returned]; split <;> rfl
  | empty i => rfl

theorem Call.locks_release {u : Call} {l l' : Lock} (hl : l ≠ .ndrinkerslock) :
    l' ∈ u.locks ↔ l' ≠ l ∧ l' ∈ l :: u.locks := by
  have hu : l ∉ u.locks := by cases u <;> simp [Call.locks, hl]
  constructor
  · intro h
    exact ⟨fun he => hu (he ▸ h), List.mem_cons_of_mem _ h⟩
  · intro hx
    obtain ⟨hne, h⟩ := hx
    exact (List.mem_cons.mp h).resolve_left hne

theorem code_follows (sz : Sizes) : Follows (code sz) Holds where
  acquire c l k h l' := by
    cases c <;> simp only [code, Instr.acquire.injEq, reduceCtorEq] at h
    case closing => split at h <;> cases h
    all_goals obtain ⟨rfl, rfl⟩ := h
    all_goals simp [Holds, Pc.locks]
  release c l k h l' := by
    cases c <;> simp only [code, Instr.release.injEq, reduceCtorEq] at h
    case closing => split at h <;> cases h
    all_goals obtain ⟨rfl, rfl⟩ := h
    case submitUnlock | returnUnlock => exact Call.locks_release (by decide)
    case servedUnlock | resetUnlock =>
      simp only [Holds, Pc.locks_served, Pc.locks_returned]
      exact Call.locks_release (by decide)
    all_goals simp [Holds, Pc.locks]
  held c l k h := by
    cases c <;> simp only [code, Instr.release.injEq, reduceCtorEq] at h
    case closing => split at h <;> cases h
    all_goals obtain ⟨rfl, rfl⟩ := h
    all_goals simp [Holds, Pc.locks]
  p c x k h l' := by
    cases c <;> simp only [code, Instr.p.injEq, reduceCtorEq] at h
    case closing =>
      split at h <;> cases h
      rfl
    all_goals obtain ⟨rfl, rfl⟩ := h
    all_goals rfl
  v c x k h l' := by
    cases c <;> simp only [code, Instr.v.injEq, reduceCtorEq] at h
    case closing => split at h <;> cases h
    all_goals obtain ⟨rfl, rfl⟩ := h
    all_goals rfl
  exec c f h d l' := by
    cases c <;> simp only [code, Instr.exec.injEq, reduceCtorEq] at h
    case closing => split at h <;> cases h
    all_goals
      subst h
      dsimp only
      repeat' split
      all_goals rfl

/-! ## Who has which order and which glass -/

/-- The order of a customer whose drink is ready, until its slot is free again. -/
def servedSlot (d : Data) : Pc → Option Nat
  | .submitGlass _ i | .submitNumber _ i _ | .servedLock _ i _ | .servedSet _ i _
  | .returnUnlock _ i | .returnReady _ i | .resetLock _ i | .resetSet _ i => some i
  | .servedUnlock _ g | .drink _ g | .returnLock _ g | .returnEmpty _ g | .returnNumber _ g =>
    some (d.glasses g).ordernumber
  | _ => none

/-- The order a customer has outstanding. -/
def orderOf (d : Data) : Pc → Option Nat
  | .submitUnlock _ i | .submitReady _ i | .submitWait _ i => some i
  | k => servedSlot d k

/-- The order a bartender works on. -/
def takenOf : Pc → Option Nat
  | .takeUnlock o | .fillWait o | .fillLock o | .fillScan o _ | .fillUnlock o _ | .fillGlass o _
  | .bottlesLock o _ | .pour o _ | .bottlesUnlock o | .serve o | .serveReady o => some o
  | _ => none

/-- The order that is taken or served. -/
def slotOf (d : Data) (k : Pc) : Option Nat := (takenOf k).or (servedSlot d k)

/-- The glass in the hands of a bartender or a customer. -/
def glassOf (d : Data) : Pc → Option Nat
  | .fillUnlock _ g | .fillGlass _ g | .submitNumber _ _ g | .servedLock _ _ g | .servedSet _ _ g
  | .servedUnlock _ g | .drink _ g | .returnLock _ g | .returnEmpty _ g => some g
  | .bottlesLock o _ | .pour o _ | .bottlesUnlock o | .serve o | .serveReady o
  | .submitGlass _ o => some (d.orders o).glass
  | _ => none

/-- Between `ordersready` and the state of the order. -/
def Pc.ordering : Pc → Bool
  | .submitUnlock _ _ | .submitReady _ _ | .takeLock | .takeScan _ => true
  | _ => false

/-- Between `emptyglasses` and the state of the glass. -/
def Pc.refilling : Pc → Bool
  | .returnNumber _ _ | .returnUnlock _ _ | .returnReady _ _ | .fillLock _ | .fillScan _ _ => true
  | _ => false

/-- What a thread knows at its program point. -/
def Local (d : Data) : Pc → Prop
  | .submitScan _ i => ∀ j < i, (d.orders j).state ≠ 0
  | .servedLock _ i g | .servedSet _ i g => (d.glasses g).ordernumber = i
  | .returnNumber _ g => (d.glasses g).state = 0
  | .takeScan i => ∀ j < i, (d.orders j).state ≠ 1
  | .fillScan _ i => ∀ j < i, (d.glasses j).state ≠ 0
  | .fault _ => False
  | _ => True

/-- Every order and every glass in use is accounted for once, and the semaphores agree
with the arrays. -/
structure Books (s : State sz) : Prop where
  points : ∀ t, Local s.data (s.pc t)
  number : ∀ i, (s.data.orders i).state ≠ 0 → i < sz.ncustomers ∧ (s.data.orders i).ordernumber = i
  bound : ∀ g, (s.data.glasses g).state ≠ 0 → g < sz.nglasses
  owned : ∀ i, tally univ (fun t => orderOf s.data (s.pc t) = some i) =
    if (s.data.orders i).state ≠ 0 then 1 else 0
  taken : ∀ i, tally univ (fun t => slotOf s.data (s.pc t) = some i) + s.count (.ordercomplete i) =
    if 2 ≤ (s.data.orders i).state then 1 else 0
  glass : ∀ g, tally univ (fun t => glassOf s.data (s.pc t) = some g) +
    tally (range sz.ncustomers) (fun i =>
      0 < s.count (.ordercomplete i) ∧ (s.data.orders i).glass = g) =
    if (s.data.glasses g).state ≠ 0 then 1 else 0
  ready : s.count .ordersready + tally univ (fun t => (s.pc t).ordering = true) =
    tally (range sz.ncustomers) fun i => (s.data.orders i).state = 1
  empty : s.count .emptyglasses + tally univ (fun t => (s.pc t).refilling = true) =
    tally (range sz.nglasses) fun g => (s.data.glasses g).state = 0

/-! ## Balancing one step -/

/-- What the data may do to a thread that does not move. -/
structure Frame (d d' : Data) (k : Pc) : Prop where
  orders : Holds k .orderslock → ∀ i, (d'.orders i).state = (d.orders i).state
  glasses : Holds k .glassarraylock → ∀ g, (d'.glasses g).state = (d.glasses g).state
  number : ∀ g, glassOf d k = some g ∨ (d.glasses g).state = 0 →
    (d'.glasses g).ordernumber = (d.glasses g).ordernumber
  glass : ∀ i, slotOf d k = some i → (d'.orders i).glass = (d.orders i).glass

namespace Frame

variable {d d' : Data} {k : Pc} (hf : Frame d d' k)
include hf

theorem local' (hl : Local d k) : Local d' k := by
  cases k <;> simp only [Local] at hl ⊢
  case submitScan =>
    intro j hj
    rw [hf.orders (by simp [Holds, Pc.locks])]
    exact hl j hj
  case servedLock | servedSet =>
    rw [hf.number _ (.inl rfl)]
    exact hl
  case returnNumber =>
    rw [hf.glasses (by simp [Holds, Pc.locks])]
    exact hl
  case takeScan =>
    intro j hj
    rw [hf.orders (by simp [Holds, Pc.locks])]
    exact hl j hj
  case fillScan =>
    intro j hj
    rw [hf.glasses (by simp [Holds, Pc.locks])]
    exact hl j hj

theorem servedSlot_eq (hl : Local d k) : servedSlot d' k = servedSlot d k := by
  cases k <;> simp only [servedSlot]
  case servedUnlock | drink | returnLock | returnEmpty => rw [hf.number _ (.inl rfl)]
  case returnNumber => rw [hf.number _ (.inr hl)]

theorem orderOf_eq (hl : Local d k) : orderOf d' k = orderOf d k := by
  have := hf.servedSlot_eq hl
  cases k <;> first | rfl | exact this

theorem slotOf_eq (hl : Local d k) : slotOf d' k = slotOf d k := by
  rw [slotOf, slotOf, hf.servedSlot_eq hl]

theorem glassOf_eq : glassOf d' k = glassOf d k := by
  cases k <;> simp only [glassOf]
  case bottlesLock | pour | bottlesUnlock | serve | serveReady | submitGlass =>
    rw [hf.glass _ rfl]

end Frame

/-- One step of thread `t` to `k` that leaves data `d` and counts `c`. -/
structure Balance (s : State sz) (t : Thread sz) (k : Pc) (d : Data) (c : Sem → Nat) : Prop where
  frame : ∀ u, u ≠ t → Frame s.data d (s.pc u)
  point : Local d k
  number : ∀ i, (d.orders i).state ≠ 0 → i < sz.ncustomers ∧ (d.orders i).ordernumber = i
  bound : ∀ g, (d.glasses g).state ≠ 0 → g < sz.nglasses
  owned : ∀ i, (if (s.data.orders i).state ≠ 0 then 1 else 0) +
    (if orderOf d k = some i then 1 else 0) =
    (if (d.orders i).state ≠ 0 then 1 else 0) + if orderOf s.data (s.pc t) = some i then 1 else 0
  taken : ∀ i, (if 2 ≤ (s.data.orders i).state then 1 else 0) + c (.ordercomplete i) +
      (if slotOf d k = some i then 1 else 0) =
    (if 2 ≤ (d.orders i).state then 1 else 0) + s.count (.ordercomplete i) +
      if slotOf s.data (s.pc t) = some i then 1 else 0
  glass : ∀ g, (if (s.data.glasses g).state ≠ 0 then 1 else 0) +
      tally (range sz.ncustomers) (fun i => 0 < c (.ordercomplete i) ∧ (d.orders i).glass = g) +
      (if glassOf d k = some g then 1 else 0) =
    (if (d.glasses g).state ≠ 0 then 1 else 0) +
      tally (range sz.ncustomers) (fun i =>
        0 < s.count (.ordercomplete i) ∧ (s.data.orders i).glass = g) +
      if glassOf s.data (s.pc t) = some g then 1 else 0
  ready : tally (range sz.ncustomers) (fun i => (s.data.orders i).state = 1) + c .ordersready +
      (if k.ordering = true then 1 else 0) =
    tally (range sz.ncustomers) (fun i => (d.orders i).state = 1) + s.count .ordersready +
      if (s.pc t).ordering = true then 1 else 0
  empty : tally (range sz.nglasses) (fun g => (s.data.glasses g).state = 0) + c .emptyglasses +
      (if k.refilling = true then 1 else 0) =
    tally (range sz.nglasses) (fun g => (d.glasses g).state = 0) + s.count .emptyglasses +
      if (s.pc t).refilling = true then 1 else 0

/-- Moving one thread moves a tally over the program points by the two points. -/
theorem tally_move {f f' : Pc → Option Nat} {pc : Thread sz → Pc} {t : Thread sz} {k : Pc} {i : Nat}
    (h : ∀ u, u ≠ t → f' (pc u) = f (pc u)) :
    tally univ (fun u => f' (Function.update pc t k u) = some i) +
        (if f (pc t) = some i then 1 else 0) =
      tally univ (fun u => f (pc u) = some i) + if f' k = some i then 1 else 0 := by
  have := tally_change (p := fun u => f (pc u) = some i)
    (q := fun u => f' (Function.update pc t k u) = some i) (mem_univ t) fun u _ hu => by
      rw [Function.update_of_ne hu, h u hu]
  simpa using this

theorem tally_move_bool {f : Pc → Bool} {pc : Thread sz → Pc} {t : Thread sz} {k : Pc} :
    tally univ (fun u => f (Function.update pc t k u) = true) +
        (if f (pc t) = true then 1 else 0) =
      tally univ (fun u => f (pc u) = true) + if f k = true then 1 else 0 := by
  have := tally_change (p := fun u => f (pc u) = true)
    (q := fun u => f (Function.update pc t k u) = true) (mem_univ t) fun u _ hu => by
      rw [Function.update_of_ne hu]
  simpa using this

theorem Books.balance {s : State sz} (hb : Books s) {t : Thread sz} {k : Pc} {d : Data}
    {c : Sem → Nat} (h : Balance s t k d c) {o : Lock → Option (Thread sz)} :
    Books ⟨Function.update s.pc t k, o, c, d⟩ where
  points u := by
    by_cases hu : u = t
    · subst hu
      simpa using h.point
    · simpa [Function.update_of_ne hu] using (h.frame u hu).local' (hb.points u)
  number := h.number
  bound := h.bound
  owned i := by
    have h₁ := @tally_move sz (orderOf s.data) (orderOf d) s.pc t k i fun u hu =>
      (h.frame u hu).orderOf_eq (hb.points u)
    have h₂ := hb.owned i
    have h₃ := h.owned i
    dsimp only
    omega
  taken i := by
    have h₁ := @tally_move sz (slotOf s.data) (slotOf d) s.pc t k i fun u hu =>
      (h.frame u hu).slotOf_eq (hb.points u)
    have h₂ := hb.taken i
    have h₃ := h.taken i
    dsimp only
    omega
  glass g := by
    have h₁ := @tally_move sz (glassOf s.data) (glassOf d) s.pc t k g fun u hu =>
      (h.frame u hu).glassOf_eq
    have h₂ := hb.glass g
    have h₃ := h.glass g
    dsimp only
    omega
  ready := by
    have h₁ := @tally_move_bool sz Pc.ordering s.pc t k
    have h₂ := hb.ready
    have h₃ := h.ready
    dsimp only
    omega
  empty := by
    have h₁ := @tally_move_bool sz Pc.refilling s.pc t k
    have h₂ := hb.empty
    have h₃ := h.empty
    dsimp only
    omega

/-! ## What the books say -/

namespace Books

variable {s : State sz} (hb : Books s) {t u : Thread sz}
include hb

theorem state_of_order {i : Nat} (h : orderOf s.data (s.pc t) = some i) :
    (s.data.orders i).state ≠ 0 := by
  intro h0
  have := hb.owned i
  rw [if_neg (by simpa using h0)] at this
  exact tally_eq_zero.mp this t (mem_univ t) h

theorem order_unique {i : Nat} (ht : orderOf s.data (s.pc t) = some i)
    (hu : orderOf s.data (s.pc u) = some i) : t = u := by
  refine tally_unique (p := fun t => orderOf s.data (s.pc t) = some i) ?_
    (mem_univ t) (mem_univ u) ht hu
  rw [hb.owned i]
  split <;> omega

theorem slot_state {i : Nat} (h : slotOf s.data (s.pc t) = some i) :
    2 ≤ (s.data.orders i).state ∧ s.count (.ordercomplete i) = 0 := by
  have hpos := tally_pos (p := fun t => slotOf s.data (s.pc t) = some i).mpr ⟨t, mem_univ t, h⟩
  have := hb.taken i
  split at this
  · exact ⟨‹_›, by omega⟩
  · omega

theorem slot_unique {i : Nat} (ht : slotOf s.data (s.pc t) = some i)
    (hu : slotOf s.data (s.pc u) = some i) : t = u := by
  refine tally_unique (p := fun t => slotOf s.data (s.pc t) = some i) ?_
    (mem_univ t) (mem_univ u) ht hu
  have := hb.taken i
  split at this <;> omega

theorem glass_state {g : Nat} (h : glassOf s.data (s.pc t) = some g) :
    (s.data.glasses g).state ≠ 0 := by
  intro h0
  have := hb.glass g
  rw [if_neg (by simpa using h0), Nat.add_eq_zero_iff] at this
  exact tally_eq_zero.mp this.1 t (mem_univ t) h

theorem glass_unique {g : Nat} (ht : glassOf s.data (s.pc t) = some g)
    (hu : glassOf s.data (s.pc u) = some g) : t = u := by
  refine tally_unique (p := fun t => glassOf s.data (s.pc t) = some g) ?_
    (mem_univ t) (mem_univ u) ht hu
  have := hb.glass g
  split at this <;> omega

end Books

/-! ## Steps that leave the books alone -/

/-- Data with the same orders and glasses, as far as the books see them. -/
structure SameBooks (d d' : Data) : Prop where
  order : ∀ i, (d'.orders i).state = (d.orders i).state ∧
    (d'.orders i).ordernumber = (d.orders i).ordernumber ∧
    (d'.orders i).glass = (d.orders i).glass
  glass : ∀ g, (d'.glasses g).state = (d.glasses g).state ∧
    (d'.glasses g).ordernumber = (d.glasses g).ordernumber

theorem SameBooks.refl (d : Data) : SameBooks d d := ⟨fun _ => ⟨rfl, rfl, rfl⟩, fun _ => ⟨rfl, rfl⟩⟩

theorem SameBooks.frame {d d' : Data} (h : SameBooks d d') (k : Pc) : Frame d d' k :=
  ⟨fun _ i => (h.order i).1, fun _ g => (h.glass g).1, fun g _ => (h.glass g).2,
    fun i _ => (h.order i).2.2⟩

theorem SameBooks.contents (d : Data) (g : Nat) (f : Nat → Nat) :
    SameBooks d (d.setGlass g { d.glasses g with contents := f }) := by
  refine ⟨fun _ => ⟨rfl, rfl, rfl⟩, fun g' => ?_⟩
  by_cases h : g' = g
  · subst h
    simp [Data.setGlass]
  · simp [Data.setGlass, Function.update_of_ne h]

theorem SameBooks.trans {d d' d'' : Data} (h : SameBooks d d') (h' : SameBooks d' d'') :
    SameBooks d d'' := by
  refine ⟨fun i => ?_, fun g => ?_⟩
  · obtain ⟨h₁, h₂, h₃⟩ := h.order i
    obtain ⟨h₁', h₂', h₃'⟩ := h'.order i
    exact ⟨h₁'.trans h₁, h₂'.trans h₂, h₃'.trans h₃⟩
  · obtain ⟨h₁, h₂⟩ := h.glass g
    obtain ⟨h₁', h₂'⟩ := h'.glass g
    exact ⟨h₁'.trans h₁, h₂'.trans h₂⟩

theorem SameBooks.pourOne (g : Nat) (p : Data × Nat) (ing : Nat) :
    SameBooks p.1 (Data.pourOne g p ing).1 := by
  simp only [Data.pourOne]
  split
  · have := SameBooks.contents p.1 g (Function.update (p.1.glasses g).contents p.2 ing)
    exact ⟨this.order, this.glass⟩
  · exact SameBooks.refl _

theorem SameBooks.pour (d : Data) (g : Nat) (ing : Nat × Nat × Nat) : SameBooks d (d.pour g ing) :=
  ((pourOne g (d, 0) ing.1).trans (pourOne g _ ing.2.1)).trans (pourOne g _ ing.2.2)

theorem Books.quiet {s : State sz} (hb : Books s) {t : Thread sz} {k : Pc} {d : Data}
    {c : Sem → Nat} {o : Lock → Option (Thread sz)} (hd : SameBooks s.data d)
    (hc : ∀ x, x ≠ .alldone → c x = s.count x) (hl : Local d k)
    (ho : orderOf d k = orderOf s.data (s.pc t)) (hs : slotOf d k = slotOf s.data (s.pc t))
    (hg : glassOf d k = glassOf s.data (s.pc t)) (hr : k.ordering = (s.pc t).ordering)
    (he : k.refilling = (s.pc t).refilling) : Books ⟨Function.update s.pc t k, o, c, d⟩ := by
  refine hb.balance ⟨fun u _ => hd.frame _, hl, fun i hi => ?_, fun g hg => ?_, fun i => ?_,
    fun i => ?_, fun g => ?_, ?_, ?_⟩
  · rw [(hd.order i).1] at hi
    rw [(hd.order i).2.1]
    exact hb.number i hi
  · rw [(hd.glass g).1] at hg
    exact hb.bound g hg
  · rw [(hd.order i).1, ho]
  · rw [(hd.order i).1, hs, hc _ (by simp)]
  · simp only [(hd.glass g).1, hg, hc (.ordercomplete _) (by simp), (hd.order _).2.2]
  · simp only [(hd.order _).1, hr, hc .ordersready (by simp)]
  · simp only [(hd.glass _).1, he, hc .emptyglasses (by simp)]

end Os161.Bar
