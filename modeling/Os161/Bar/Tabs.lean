import Os161.Bar.Service

/-! # Tabs

What every step does to the number of drinkers, to the empty orders of the last customer
and to `alldone`. -/
namespace Os161.Bar
open Os161.Lib Finset

variable {sz : Sizes}

/-! ## Counting at the end -/

/-- The call of `submit_order` or `return_glass` a customer is in. -/
def Pc.call : Pc → Option Call
  | .submitLock u | .submitScan u _ | .submitUnlock u _ | .submitReady u _ | .submitWait u _
  | .submitGlass u _ | .submitNumber u _ _ | .servedLock u _ _ | .servedSet u _ _
  | .servedUnlock u _ | .drink u _ | .returnLock u _ | .returnEmpty u _ | .returnNumber u _
  | .returnUnlock u _ | .returnReady u _ | .resetLock u _ | .resetSet u _ | .resetUnlock u => some u
  | _ => none

/-- A customer that has not left yet. -/
def Pc.drinking (k : Pc) : Bool :=
  match k with
  | .crawlLock | .crawlDec | .fault (.noSlot (.drink _ _)) => true
  | k => match k.call with
    | some (.drink _ _) => true
    | _ => false

/-- Between the slot and `ordersready`. -/
def Pc.placing : Pc → Bool
  | .submitUnlock _ _ | .submitReady _ _ => true
  | _ => false

/-- The empty orders submitted so far by the customer that holds `ndrinkerslock`. -/
def Pc.empties (n : Nat) : Pc → Nat
  | .crawlDec | .crawlTest => 0
  | .crawlLoop i | .submitLock (.empty i) | .submitScan (.empty i) _ => i
  | .fault (.noSlot (.empty i)) => i
  | k => match k.call with
    | some (.empty i) => i + 1
    | _ => n

/-- How often `createbar` has waited on `alldone`. -/
def Pc.waited : Pc → Nat
  | .closing i => i
  | _ => 0

/-- The loop of `crawl_home` stays within its bound. -/
def Pc.Within (n : Nat) (k : Pc) : Prop :=
  (∀ i, k = .crawlLoop i → i ≤ n) ∧ ∀ i, k.call = some (.empty i) → i < n

theorem within_next (_ : Thread sz) (c : Pc) (d : Data) (k : Pc) (h : c.Within sz.nbartenders)
    (hk : (code sz c).next d = some k) : k.Within sz.nbartenders := by
  obtain ⟨h₁, h₂⟩ := h
  have hcall {u : Call} (hu : ∀ i, u = .empty i → i < sz.nbartenders) {k : Pc}
    (hk : k.call = some u)
      (hl : ∀ i, k ≠ .crawlLoop i) : k.Within sz.nbartenders :=
    ⟨fun i hi => absurd hi (hl i), fun i hi => hu i (Option.some.inj (hk.symm.trans hi))⟩
  cases c
  case servedUnlock u g =>
    cases hk
    cases u <;> exact hcall (fun i hi => h₂ i (congrArg some hi)) rfl (by simp [Call.served])
  case resetUnlock u =>
    cases hk
    cases u with
    | empty i =>
      have := h₂ i rfl
      refine ⟨fun j hj => ?_, by simp [Call.returned, Pc.call]⟩
      cases hj
      omega
    | drink c i =>
      simp only [Call.returned]
      split <;> exact ⟨by simp, by simp [Pc.call]⟩
  case crawlLoop i =>
    cases hk
    dsimp only
    split
    · refine ⟨by simp, fun j hj => ?_⟩
      cases hj
      assumption
    · exact ⟨by simp, by simp [Pc.call]⟩
  case submitScan u i =>
    cases hk
    dsimp only
    repeat' split
    · exact hcall (fun i hi => h₂ i (congrArg some hi)) rfl (by simp)
    · exact hcall (fun i hi => h₂ i (congrArg some hi)) rfl (by simp)
    · exact ⟨by simp, by simp [Pc.call]⟩
  case closing i =>
    simp only [code] at hk
    split at hk <;> cases hk
    exact ⟨by simp, by simp [Pc.call]⟩
  case home | fault => cases hk
  case submitLock u | submitUnlock u _ | submitReady u _ | submitWait u _ | submitGlass u _
      | submitNumber u _ _ | servedLock u _ _ | servedSet u _ _ | drink u _ | returnLock u _
      | returnEmpty u _ | returnNumber u _ | returnUnlock u _ | returnReady u _ | resetLock u _
      | resetSet u _ =>
    cases hk
    exact hcall (fun i hi => h₂ i (congrArg some hi)) rfl (by simp)
  case crawlTest | drinkers | takeScan | fillScan =>
    cases hk
    dsimp only
    repeat' split
    all_goals exact ⟨by simp, by simp [Pc.call]⟩
  all_goals
    cases hk
    exact ⟨by simp, by simp [Pc.call]⟩

/-- What one step of `t` to `k` does to the counts. The last equation is about empty
orders, when there are no others any more. -/
structure Tab (s : State sz) (t : Thread sz) (k : Pc) (s' : State sz) : Prop where
  pc : s'.pc = Function.update s.pc t k
  drinkers : s'.data.ndrinkers + (if (s.pc t).drinking = true then 1 else 0) =
    s.data.ndrinkers + if k.drinking = true then 1 else 0
  alldone : s'.count .alldone + k.waited + (if s.pc t = .home then 1 else 0) =
    s.count .alldone + (s.pc t).waited + if k = .home then 1 else 0
  drinking : k.drinking = (s.pc t).drinking ∨ s.pc t = .crawlDec
  left : k = .goHome ∨ k = .home →
    s.pc t = .crawlUnlock ∨ s.pc t = .goHome ∨ s.data.ndrinkers = 0
  orders : s.data.ndrinkers = 0 → (s.pc t).drinking = false → (s.pc t).Within sz.nbartenders →
    (if k = .takeWait then 1 else 0) + k.empties sz.nbartenders + s.count .ordersready +
        (if (s.pc t).placing = true then 1 else 0) =
      (if s.pc t = .takeWait then 1 else 0) + (s.pc t).empties sz.nbartenders +
        s'.count .ordersready + if k.placing = true then 1 else 0

/-- `Tab` for explicit program points. -/
theorem Tab.of {s s' : State sz} {t : Thread sz} {c k : Pc} (hpc : s.pc t = c)
    (hs : s'.pc = Function.update s.pc t k)
    (hd : s'.data.ndrinkers + (if c.drinking = true then 1 else 0) =
      s.data.ndrinkers + if k.drinking = true then 1 else 0)
    (ha : s'.count .alldone + k.waited + (if c = .home then 1 else 0) =
      s.count .alldone + c.waited + if k = .home then 1 else 0)
    (hdr : k.drinking = c.drinking ∨ c = .crawlDec)
    (hl : k = .goHome ∨ k = .home → c = .crawlUnlock ∨ c = .goHome ∨ s.data.ndrinkers = 0)
    (ho : s.data.ndrinkers = 0 → c.drinking = false → c.Within sz.nbartenders →
      (if k = .takeWait then 1 else 0) + k.empties sz.nbartenders + s.count .ordersready +
          (if c.placing = true then 1 else 0) =
        (if c = .takeWait then 1 else 0) + c.empties sz.nbartenders +
          s'.count .ordersready + if k.placing = true then 1 else 0) : Tab s t k s' := by
  subst hpc
  exact ⟨hs, hd, ha, hdr, hl, ho⟩

/-- A step that leaves the counts of orders ready and of threads that are done. -/
theorem Tab.still {s s' : State sz} {t : Thread sz} {c k : Pc} (hpc : s.pc t = c)
    (hs : s'.pc = Function.update s.pc t k) (hn : s'.data.ndrinkers = s.data.ndrinkers)
    (hr : s'.count .ordersready = s.count .ordersready)
    (ha : s'.count .alldone = s.count .alldone)
    (hd : k.drinking = c.drinking) (hw : k.waited = c.waited) (hh : c ≠ .home) (hh' : k ≠ .home)
    (hl : k = .goHome → c = .crawlUnlock ∨ s.data.ndrinkers = 0)
    (ht : s.data.ndrinkers = 0 → (k = .takeWait ↔ c = .takeWait))
    (ho : s.data.ndrinkers = 0 → c.drinking = false → c.Within sz.nbartenders →
      k.empties sz.nbartenders + (if c.placing = true then 1 else 0) =
        c.empties sz.nbartenders + if k.placing = true then 1 else 0) : Tab s t k s' := by
  refine Tab.of hpc hs (by rw [hn, hd]) (by rw [ha, hw, if_neg hh, if_neg hh'])
    (.inl hd) (fun h => ?_) ?_
  · exact (hl (h.resolve_right hh')).imp_right .inr
  intro h0 hc hwithin
  have := ho h0 hc hwithin
  simp only [ht h0, hr]
  omega

theorem Data.ndrinkers_pour (d : Data) (g : Nat) (ing : Nat × Nat × Nat) :
    (d.pour g ing).ndrinkers = d.ndrinkers := by
  have hone (p : Data × Nat) (i : Nat) : (Data.pourOne g p i).1.ndrinkers = p.1.ndrinkers := by
    simp only [Data.pourOne]
    split <;> rfl
  simp only [Data.pour, hone]

theorem tab {s s' : State sz} {t : Thread sz} (hs : s.step (code sz) t = some s') :
    ∃ k, (code sz (s.pc t)).next s.data = some k ∧ Tab s t k s' := by
  unfold Config.step at hs
  cases hpc : s.pc t <;> simp only [hpc, code] at hs ⊢
  case submitLock u | servedLock u _ _ | returnLock u _ | resetLock u _ | submitUnlock u _
      | returnUnlock u _ =>
    split at hs <;> cases hs
    refine ⟨_, rfl, .still hpc rfl rfl rfl rfl ?_ rfl ?_ ?_ ?_ ?_ ?_⟩ <;> cases u <;>
      simp [Pc.drinking, Pc.empties, Pc.placing, Pc.call]
  case submitWait u _ =>
    split at hs <;> cases hs
    refine ⟨_, rfl, .still hpc rfl rfl (by simp) (by simp) ?_ rfl ?_ ?_ ?_ ?_ ?_⟩ <;> cases u <;>
      simp [Pc.drinking, Pc.empties, Pc.placing, Pc.call]
  case servedUnlock u g =>
    split at hs <;> cases hs
    refine ⟨_, rfl, .still hpc rfl rfl rfl rfl ?_ ?_ ?_ ?_ ?_ ?_ ?_⟩ <;> cases u <;>
      simp [Call.served, Pc.drinking, Pc.waited, Pc.empties, Pc.placing, Pc.call]
  case resetUnlock u =>
    split at hs <;> cases hs
    cases u with
    | empty i =>
      refine ⟨_, rfl, .still hpc rfl rfl rfl rfl rfl rfl ?_ ?_ ?_ ?_ ?_⟩ <;>
        simp [Call.returned, Pc.empties, Pc.placing, Pc.call]
    | drink c i =>
      simp only [Call.returned]
      split <;> refine ⟨_, rfl, .still hpc rfl rfl rfl rfl rfl rfl ?_ ?_ ?_ ?_ ?_⟩ <;>
        simp [Pc.empties, Pc.placing, Pc.call]
  case submitGlass u _ | submitNumber u _ _ | servedSet u _ _ | drink u _ | returnEmpty u _
      | returnNumber u _ | resetSet u _ =>
    cases hs
    refine ⟨_, rfl, .still hpc rfl rfl rfl rfl ?_ rfl ?_ ?_ ?_ ?_ ?_⟩ <;> cases u <;>
      simp [Pc.drinking, Pc.empties, Pc.placing, Pc.call]
  case returnReady u _ =>
    cases hs
    refine ⟨_, rfl, .still hpc rfl rfl (by simp) (by simp) ?_ rfl ?_ ?_ ?_ ?_ ?_⟩ <;> cases u <;>
      simp [Pc.drinking, Pc.empties, Pc.placing, Pc.call]
  case submitReady u _ =>
    cases hs
    refine ⟨_, rfl, .of hpc rfl ?_ ?_ ?_ ?_ ?_⟩ <;> cases u <;>
      simp [Pc.drinking, Pc.waited, Pc.empties, Pc.placing, Pc.call, Nat.add_assoc]
  case submitScan u i =>
    by_cases hi : i < sz.ncustomers
    · by_cases h0 : (s.data.orders i).state = 0
      · simp only [Instr.next, if_pos hi, if_pos h0] at hs ⊢
        cases hs
        refine ⟨_, rfl, .still hpc rfl rfl rfl rfl ?_ rfl ?_ ?_ ?_ ?_ ?_⟩ <;> cases u <;>
          simp [Pc.drinking, Pc.empties, Pc.placing, Pc.call]
      · simp only [Instr.next, if_pos hi, if_neg h0] at hs ⊢
        cases hs
        refine ⟨_, rfl, .still hpc rfl rfl rfl rfl ?_ rfl ?_ ?_ ?_ ?_ ?_⟩ <;> cases u <;>
          simp [Pc.drinking, Pc.empties, Pc.placing, Pc.call]
    · simp only [Instr.next, if_neg hi] at hs ⊢
      cases hs
      refine ⟨_, rfl, .still hpc rfl rfl rfl rfl ?_ rfl ?_ ?_ ?_ ?_ ?_⟩ <;> cases u <;>
        simp [Pc.drinking, Pc.empties, Pc.placing, Pc.call]
  case takeScan i =>
    by_cases hi : i < sz.ncustomers
    · by_cases h1 : (s.data.orders i).state = 1
      · simp only [Instr.next, if_pos hi, if_pos h1] at hs ⊢
        cases hs
        refine ⟨_, rfl, .still hpc rfl rfl rfl rfl rfl rfl ?_ ?_ ?_ ?_ ?_⟩ <;>
          simp [Pc.empties, Pc.placing, Pc.call]
      · simp only [Instr.next, if_pos hi, if_neg h1] at hs ⊢
        cases hs
        refine ⟨_, rfl, .still hpc rfl rfl rfl rfl rfl rfl ?_ ?_ ?_ ?_ ?_⟩ <;>
          simp [Pc.empties, Pc.placing, Pc.call]
    · simp only [Instr.next, if_neg hi] at hs ⊢
      cases hs
      refine ⟨_, rfl, .still hpc rfl rfl rfl rfl rfl rfl ?_ ?_ ?_ ?_ ?_⟩ <;>
        simp [Pc.empties, Pc.placing, Pc.call]
  case fillScan o i =>
    by_cases hi : i < sz.nglasses
    · by_cases h0 : (s.data.glasses i).state = 0
      · simp only [Instr.next, if_pos hi, if_pos h0] at hs ⊢
        cases hs
        refine ⟨_, rfl, .still hpc rfl rfl rfl rfl rfl rfl ?_ ?_ ?_ ?_ ?_⟩ <;>
          simp [Pc.empties, Pc.placing, Pc.call]
      · simp only [Instr.next, if_pos hi, if_neg h0] at hs ⊢
        cases hs
        refine ⟨_, rfl, .still hpc rfl rfl rfl rfl rfl rfl ?_ ?_ ?_ ?_ ?_⟩ <;>
          simp [Pc.empties, Pc.placing, Pc.call]
    · simp only [Instr.next, if_neg hi] at hs ⊢
      cases hs
      refine ⟨_, rfl, .still hpc rfl rfl rfl rfl rfl rfl ?_ ?_ ?_ ?_ ?_⟩ <;>
        simp [Pc.empties, Pc.placing, Pc.call]
  case crawlLock =>
    split at hs <;> cases hs
    refine ⟨_, rfl, .still hpc rfl rfl rfl rfl rfl rfl ?_ ?_ ?_ ?_ ?_⟩ <;> simp [Pc.drinking]
  case crawlUnlock =>
    split at hs <;> cases hs
    refine ⟨_, rfl, .still hpc rfl rfl rfl rfl rfl rfl ?_ ?_ ?_ ?_ ?_⟩ <;>
      simp [Pc.empties, Pc.placing, Pc.call]
  case takeLock | takeUnlock | fillLock | fillUnlock | bottlesLock | bottlesUnlock =>
    split at hs <;> cases hs
    refine ⟨_, rfl, .still hpc rfl rfl rfl rfl rfl rfl ?_ ?_ ?_ ?_ ?_⟩ <;>
      simp [Pc.empties, Pc.placing, Pc.call]
  case crawlDec =>
    cases hs
    refine ⟨_, rfl, .of hpc rfl ?_ ?_ ?_ ?_ ?_⟩ <;> simp [Pc.drinking, Pc.waited, Pc.call]
  case crawlTest =>
    cases hs
    by_cases h0 : s.data.ndrinkers = 0
    · simp only [Instr.next, if_pos h0]
      refine ⟨_, rfl, .still hpc rfl rfl rfl rfl rfl rfl ?_ ?_ ?_ ?_ ?_⟩ <;>
        simp [Pc.empties, Pc.placing]
    · simp only [Instr.next, if_neg h0]
      refine ⟨_, rfl, .still hpc rfl rfl rfl rfl rfl rfl ?_ ?_ ?_ ?_ ?_⟩ <;> simp [h0]
  case crawlLoop i =>
    cases hs
    by_cases hi : i < sz.nbartenders
    · simp only [Instr.next, if_pos hi]
      refine ⟨_, rfl, .still hpc rfl rfl rfl rfl rfl rfl ?_ ?_ ?_ ?_ ?_⟩ <;>
        simp [Pc.empties, Pc.placing]
    · simp only [Instr.next, if_neg hi]
      refine ⟨_, rfl, .still hpc rfl rfl rfl rfl rfl rfl ?_ ?_ ?_ ?_ ?_⟩ <;>
        simp [Pc.empties, Pc.placing, Pc.call]
      -- the loop ends at its bound
      intro _ _ hwithin
      have := hwithin.1 i rfl
      omega
  case drinkers =>
    cases hs
    by_cases h0 : s.data.ndrinkers = 0
    · simp only [Instr.next, h0, ne_eq, not_true_eq_false, if_false]
      refine ⟨_, rfl, .still hpc rfl rfl rfl rfl rfl rfl ?_ ?_ ?_ ?_ ?_⟩ <;>
        simp [h0, Pc.empties, Pc.placing, Pc.call]
    · simp only [Instr.next, ne_eq, h0, not_false_eq_true, if_true]
      refine ⟨_, rfl, .still hpc rfl rfl rfl rfl rfl rfl ?_ ?_ ?_ ?_ ?_⟩ <;> simp [h0]
  case takeWait =>
    split at hs <;> cases hs
    refine ⟨_, rfl, .of hpc rfl ?_ ?_ ?_ ?_ ?_⟩ <;>
      simp [Pc.drinking, Pc.waited, Pc.empties, Pc.placing, Pc.call]
    omega
  case fillWait =>
    split at hs <;> cases hs
    refine ⟨_, rfl, .still hpc rfl rfl (by simp) (by simp) rfl rfl ?_ ?_ ?_ ?_ ?_⟩ <;>
      simp [Pc.empties, Pc.placing, Pc.call]
  case fillGlass | serve =>
    cases hs
    refine ⟨_, rfl, .still hpc rfl rfl rfl rfl rfl rfl ?_ ?_ ?_ ?_ ?_⟩ <;>
      simp [Pc.empties, Pc.placing, Pc.call]
  case pour o g =>
    cases hs
    refine ⟨_, rfl, .still hpc rfl (Data.ndrinkers_pour _ _ _) rfl rfl rfl rfl ?_ ?_ ?_ ?_ ?_⟩ <;>
      simp [Pc.empties, Pc.placing, Pc.call]
  case serveReady =>
    cases hs
    refine ⟨_, rfl, .still hpc rfl rfl (by simp) (by simp) rfl rfl ?_ ?_ ?_ ?_ ?_⟩ <;>
      simp [Pc.empties, Pc.placing, Pc.call]
  case goHome =>
    cases hs
    refine ⟨_, rfl, .of hpc rfl ?_ ?_ ?_ ?_ ?_⟩ <;>
      simp [Pc.drinking, Pc.waited, Pc.empties, Pc.placing, Pc.call]
  case closing i =>
    by_cases hi : i < sz.ncustomers + sz.nbartenders
    · simp only [if_pos hi] at hs ⊢
      split at hs <;> cases hs
      refine ⟨_, rfl, .of hpc rfl ?_ ?_ ?_ ?_ ?_⟩ <;>
        simp [Pc.drinking, Pc.waited, Pc.empties, Pc.placing, Pc.call]
      omega
    · simp only [if_neg hi] at hs
      cases hs
  case home | fault => cases hs

end Os161.Bar
