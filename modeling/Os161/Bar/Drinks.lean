import Os161.Bar.Service

/-! # The drinks

The customers of `bar_driver.c` order B52s. Here the `i`th order of a customer is any drink
of a menu; the orders of `crawl_home` are for an empty glass. -/
namespace Os161.Bar
open Os161.Lib Finset

variable {sz : Sizes}

/-- Three ingredients for every customer and every round. -/
abbrev Menu := Nat → Nat → Nat × Nat × Nat

def Menu.order (menu : Menu) : Call → Nat × Nat × Nat
  | .drink customernum i => menu customernum i
  | .empty _ => (nothing, nothing, nothing)

/-- The bar with the orders of a menu. -/
def codeFor (sz : Sizes) (menu : Menu) : Pc → Instr Lock Sem Data Pc
  | .submitScan u i => .exec fun d =>
      if i < sz.ncustomers then
        if (d.orders i).state = 0 then
          (d.setOrder i { d.orders i with ing := menu.order u, state := 1, ordernumber := i },
            .submitUnlock u i)
        else (d, .submitScan u (i + 1))
      else (d, .fault (.noSlot u))
  | k => code sz k

/-! ## The books of any menu -/

theorem Kept.same {s s' : State sz} (hk : Kept s) (hpc : s'.pc = s.pc)
    (ho : s'.owner = s.owner) (hc : s'.count = s.count) (hd : SameBooks s.data s'.data) :
    Kept s' := by
  obtain ⟨pc, owner, count, data⟩ := s'
  obtain rfl : pc = s.pc := hpc
  obtain rfl : owner = s.owner := ho
  obtain rfl : count = s.count := hc
  refine ⟨hk.at', hk.mutex, ?_⟩
  have hb := hk.books
  have hstay := hb.quiet (t := Thread.createbar) (k := s.pc .createbar) (c := s.count)
    (o := s.owner) hd (fun _ _ => rfl) ((hd.frame _).local' (hb.points _))
    ((hd.frame _).orderOf_eq (hb.points _)) ((hd.frame _).slotOf_eq (hb.points _))
    (hd.frame _).glassOf_eq rfl rfl
  rwa [Function.update_eq_self] at hstay

/-- Only what is ordered differs from a step of the bar for B52s. -/
theorem step_codeFor {menu : Menu} {s s' : State sz} {t : Thread sz}
    (h : s.step (codeFor sz menu) t = some s') :
    ∃ s'', s.step (code sz) t = some s'' ∧ s'.pc = s''.pc ∧ s'.owner = s''.owner ∧
      s'.count = s''.count ∧ SameBooks s''.data s'.data := by
  by_cases hscan : ∃ u i, s.pc t = .submitScan u i
  · obtain ⟨u, i, hpc⟩ := hscan
    simp only [Config.step, hpc, codeFor, code] at h ⊢
    obtain rfl := Option.some.inj h
    refine ⟨_, rfl, ?_, rfl, rfl, ?_⟩
    · dsimp only
      split_ifs <;> rfl
    · dsimp only
      split_ifs
      · refine ⟨fun j => ?_, fun g => ⟨rfl, rfl⟩⟩
        by_cases hj : j = i
        · subst hj
          simp [Data.setOrder]
        · simp [Data.setOrder, Function.update_of_ne hj]
      · exact SameBooks.refl _
      · exact SameBooks.refl _
  · have hsame : codeFor sz menu (s.pc t) = code sz (s.pc t) := by
      cases hpc : s.pc t
      case submitScan u i => exact absurd ⟨u, i, hpc⟩ hscan
      all_goals rfl
    refine ⟨s', ?_, rfl, rfl, rfl, SameBooks.refl _⟩
    unfold Config.step at h ⊢
    rwa [hsame] at h

theorem Kept.stepFor {menu : Menu} {s s' : State sz} (hk : Kept s) {t : Thread sz}
    (hs : s.step (codeFor sz menu) t = some s') : Kept s' := by
  obtain ⟨s'', hs'', hpc, ho, hc, hd⟩ := step_codeFor hs
  exact (hk.step hs'').same hpc ho hc hd

/-! ## Contents of a glass -/

/-- The ingredients that are poured. -/
def packed (ing : Nat × Nat × Nat) : List Nat :=
  [ing.1, ing.2.1, ing.2.2].filter (· ≠ nothing)

/-- The three contents are the ingredients of the list from position 0 on, then 0. -/
def Glass.Has (x : Glass) (l : List Nat) : Prop := ∀ j < 3, x.contents j = l.getD j 0

theorem Glass.Has.contents {x y : Glass} {l : List Nat} (h : x.Has l)
    (hxy : y.contents = x.contents) : y.Has l := by
  intro j hj
  rw [hxy]
  exact h j hj

section Pour

variable {d : Data} {g : Nat}

theorem pourOne_has {l : List Nat} (ing : Nat) (h : (d.glasses g).Has l) :
    ((Data.pourOne g (d, l.length) ing).1.glasses g).Has
        (l ++ [ing].filter (· ≠ nothing)) ∧
      (Data.pourOne g (d, l.length) ing).2 = (l ++ [ing].filter (· ≠ nothing)).length := by
  by_cases hing : ing = nothing
  · simpa [Data.pourOne, hing] using h
  · refine ⟨fun j hj => ?_, by simp [Data.pourOne, hing]⟩
    simp only [Data.pourOne, ne_eq, hing, not_false_eq_true, if_true, Data.setGlass,
      Function.update_self, decide_true, List.filter_cons_of_pos, List.filter_nil,
      List.getD_eq_getElem?_getD]
    rcases lt_trichotomy j l.length with hlt | rfl | hgt
    · rw [Function.update_of_ne (Nat.ne_of_lt hlt), List.getElem?_append_left hlt, h j hj,
        List.getD_eq_getElem?_getD]
    · simp
    · have hnone : l[j]? = none := List.getElem?_eq_none (Nat.le_of_lt hgt)
      have hlen : (l ++ [ing])[j]? = none :=
        List.getElem?_eq_none (by rw [List.length_append]; exact hgt)
      rw [Function.update_of_ne (Nat.ne_of_gt hgt), h j hj, hlen,
        List.getD_eq_getElem?_getD, hnone]

theorem pour_has {ing : Nat × Nat × Nat} (h : (d.glasses g).Has []) :
    ((d.pour g ing).glasses g).Has (packed ing) := by
  obtain ⟨h₁, hn₁⟩ := pourOne_has ing.1 h
  have hpair (p : Data × Nat) {n : Nat} (hn : p.2 = n) : p = (p.1, n) := by rw [← hn]
  obtain ⟨h₂, hn₂⟩ := pourOne_has ing.2.1 h₁
  rw [← hpair _ hn₁] at h₂ hn₂
  obtain ⟨h₃, -⟩ := pourOne_has ing.2.2 h₂
  rw [← hpair _ hn₂] at h₃
  have hall : packed ing = (([] ++ [ing.1].filter (· ≠ nothing)) ++
      [ing.2.1].filter (· ≠ nothing)) ++ [ing.2.2].filter (· ≠ nothing) := by
    rw [List.nil_append, ← List.filter_append, ← List.filter_append]
    rfl
  rw [hall]
  exact h₃

theorem pourOne_rest (p : Data × Nat) (ing : Nat) :
    (Data.pourOne g p ing).1.orders = p.1.orders ∧
      ∀ g', g' ≠ g → (Data.pourOne g p ing).1.glasses g' = p.1.glasses g' := by
  obtain ⟨d, i⟩ := p
  by_cases hing : ing = nothing
  · simp [Data.pourOne, hing]
  · exact ⟨by simp [Data.pourOne, hing, Data.setGlass], fun g' hg' => by
      simp [Data.pourOne, hing, Data.setGlass, hg']⟩

theorem pour_rest (d : Data) (g : Nat) (ing : Nat × Nat × Nat) :
    (d.pour g ing).orders = d.orders ∧
      ∀ g', g' ≠ g → (d.pour g ing).glasses g' = d.glasses g' := by
  obtain ⟨h₁, h₁'⟩ := pourOne_rest (g := g) (d, 0) ing.1
  obtain ⟨h₂, h₂'⟩ := pourOne_rest (g := g) (Data.pourOne g (d, 0) ing.1) ing.2.1
  obtain ⟨h₃, h₃'⟩ := pourOne_rest (g := g)
    (Data.pourOne g (Data.pourOne g (d, 0) ing.1) ing.2.1) ing.2.2
  exact ⟨h₃.trans (h₂.trans h₁), fun g' hg' =>
    (h₃' g' hg').trans ((h₂' g' hg').trans (h₁' g' hg'))⟩

end Pour

/-! ## What a thread knows of its drink -/

/-- A customer's order is the drink of the menu until it is ready; a glass is empty until it
is poured and after it is drunk, and holds the order in between. -/
def Knows (menu : Menu) (d : Data) : Pc → Prop
  | .submitUnlock u i | .submitReady u i | .submitWait u i => (d.orders i).ing = menu.order u
  | .fillUnlock _ g | .fillGlass _ g | .returnLock _ g | .returnEmpty _ g =>
    (d.glasses g).Has []
  | .bottlesLock o g | .pour o g => (d.orders o).glass = g ∧ (d.glasses g).Has []
  | .bottlesUnlock o | .serve o | .serveReady o =>
    (d.glasses (d.orders o).glass).Has (packed (d.orders o).ing)
  | .submitGlass u i => (d.glasses (d.orders i).glass).Has (packed (menu.order u))
  | .submitNumber u _ g | .servedLock u _ g | .servedSet u _ g | .servedUnlock u g
  | .drink u g => (d.glasses g).Has (packed (menu.order u))
  | _ => True

/-- Every drink on its way is the one ordered, and a free glass is empty. -/
structure Drinks (menu : Menu) (s : State sz) : Prop where
  knows : ∀ t, Knows menu s.data (s.pc t)
  counter : ∀ i, 0 < s.count (.ordercomplete i) →
    (s.data.glasses (s.data.orders i).glass).Has (packed (s.data.orders i).ing)
  free : ∀ g, (s.data.glasses g).state = 0 → (s.data.glasses g).Has []

theorem Knows.frame {menu : Menu} {d d' : Data} {k : Pc}
    (hing : ∀ i, orderOf d k = some i ∨ slotOf d k = some i →
      (d'.orders i).ing = (d.orders i).ing)
    (hglass : ∀ i, slotOf d k = some i → (d'.orders i).glass = (d.orders i).glass)
    (hcont : ∀ g, glassOf d k = some g → (d'.glasses g).contents = (d.glasses g).contents)
    (h : Knows menu d k) : Knows menu d' k := by
  cases k <;> simp only [Knows] at h ⊢
  case submitUnlock | submitReady | submitWait =>
    rw [hing _ (.inl rfl)]
    exact h
  case fillUnlock | fillGlass | returnLock | returnEmpty => exact h.contents (hcont _ rfl)
  case bottlesLock o g | pour o g =>
    rw [hglass o rfl]
    exact ⟨h.1, h.2.contents (hcont g (congrArg some h.1))⟩
  case bottlesUnlock | serve | serveReady =>
    rw [hglass _ rfl, hing _ (.inr rfl)]
    exact h.contents (hcont _ rfl)
  case submitGlass =>
    rw [hglass _ rfl]
    exact h.contents (hcont _ rfl)
  case submitNumber | servedLock | servedSet | servedUnlock | drink =>
    exact h.contents (hcont _ rfl)

/-- A drink at the counter is in nobody's hands. -/
theorem Books.counter_glass {s : State sz} (hb : Books s) {t : Thread sz} {i : Nat}
    (hi : 0 < s.count (.ordercomplete i)) :
    glassOf s.data (s.pc t) ≠ some (s.data.orders i).glass := by
  intro ht
  have htaken := hb.taken i
  have hlt : i < sz.ncustomers := by
    refine (hb.number i ?_).1
    split at htaken <;> omega
  have hglass := hb.glass (s.data.orders i).glass
  have h₁ := tally_pos (p := fun t => glassOf s.data (s.pc t) = some (s.data.orders i).glass).mpr
    ⟨t, mem_univ t, ht⟩
  have h₂ := tally_pos (p := fun j => 0 < s.count (.ordercomplete j) ∧
    (s.data.orders j).glass = (s.data.orders i).glass).mpr ⟨i, mem_range.mpr hlt, hi, rfl⟩
  split at hglass <;> omega

/-- One step of thread `t`, which may touch its own slot and its own glass and give an
order at a free slot. -/
theorem Drinks.move {menu : Menu} {s : State sz} (hD : Drinks menu s) (hb : Books s)
    {t : Thread sz} {k : Pc} {d : Data} {c : Sem → Nat} {o : Lock → Option (Thread sz)}
    (hing : ∀ i, (s.data.orders i).state ≠ 0 → (d.orders i).ing = (s.data.orders i).ing)
    (hglass : ∀ i, slotOf s.data (s.pc t) ≠ some i →
      (d.orders i).glass = (s.data.orders i).glass)
    (hcont : ∀ g, glassOf s.data (s.pc t) ≠ some g →
      (d.glasses g).contents = (s.data.glasses g).contents)
    (hpoint : Knows menu d k)
    (hcounter : ∀ i, 0 < c (.ordercomplete i) → 0 < s.count (.ordercomplete i) ∨
      (d.glasses (d.orders i).glass).Has (packed (d.orders i).ing))
    (hfree : ∀ g, (d.glasses g).state = 0 →
      (s.data.glasses g).state = 0 ∨ (d.glasses g).Has []) :
    Drinks menu ⟨Function.update s.pc t k, o, c, d⟩ where
  knows u := by
    dsimp only
    by_cases hu : u = t
    · rw [hu, Function.update_self]
      exact hpoint
    · rw [Function.update_of_ne hu]
      refine (hD.knows u).frame (fun i hi => hing i ?_) (fun i hi => hglass i ?_)
        fun g hg => hcont g ?_
      · rcases hi with hi | hi
        · exact hb.state_of_order hi
        · have := (hb.slot_state hi).1
          omega
      · intro ht
        exact hu (hb.slot_unique hi ht)
      · intro ht
        exact hu (hb.glass_unique hg ht)
  counter i hi := by
    rcases hcounter i hi with hold | hnew
    · have htaken := hb.taken i
      have hstate : (s.data.orders i).state ≠ 0 := by
        split at htaken <;> omega
      have hslot : slotOf s.data (s.pc t) ≠ some i := fun ht => by
        have := (hb.slot_state ht).2
        omega
      dsimp only
      rw [hing i hstate, hglass i hslot]
      exact (hD.counter i hold).contents (hcont _ (hb.counter_glass hold))
    · exact hnew
  free g hg := by
    rcases hfree g hg with hold | hnew
    · exact (hD.free g hold).contents (hcont g fun ht => hb.glass_state ht hold)
    · exact hnew

/-! ## One instruction -/

section Instructions

variable {menu : Menu} {d : Data} {c k : Pc}

theorem Knows.acquire {l : Lock} (hc : codeFor sz menu c = .acquire l k)
    (h : Knows menu d c) : Knows menu d k := by
  cases c <;> simp only [codeFor, code, Instr.acquire.injEq, reduceCtorEq] at hc
  case closing => split at hc <;> cases hc
  all_goals obtain ⟨rfl, rfl⟩ := hc
  all_goals exact h

theorem Knows.release {l : Lock} (hc : codeFor sz menu c = .release l k)
    (h : Knows menu d c) : Knows menu d k := by
  cases c <;> simp only [codeFor, code, Instr.release.injEq, reduceCtorEq] at hc
  case closing => split at hc <;> cases hc
  all_goals obtain ⟨rfl, rfl⟩ := hc
  case servedUnlock u g =>
    cases u with
    | drink c i => exact h
    | empty i =>
      -- nothing was ordered
      exact h
  case resetUnlock u =>
    cases u with
    | drink c i =>
      simp only [Call.returned]
      split <;> trivial
    | empty i => trivial
  all_goals exact h

theorem Knows.p {x : Sem} (hc : codeFor sz menu c = .p x k) (h : Knows menu d c)
    (hready : ∀ i, x = .ordercomplete i →
      (d.glasses (d.orders i).glass).Has (packed (d.orders i).ing)) : Knows menu d k := by
  cases c <;> simp only [codeFor, code, Instr.p.injEq, reduceCtorEq] at hc
  case closing =>
    split at hc <;> cases hc
    trivial
  all_goals obtain ⟨rfl, rfl⟩ := hc
  case submitWait u i =>
    have hdrink := hready i rfl
    rwa [show (d.orders i).ing = menu.order u from h] at hdrink
  all_goals trivial

theorem Knows.v {x : Sem} (hc : codeFor sz menu c = .v x k) (h : Knows menu d c) :
    Knows menu d k ∧ ∀ i, x = .ordercomplete i →
      (d.glasses (d.orders i).glass).Has (packed (d.orders i).ing) := by
  cases c <;> simp only [codeFor, code, Instr.v.injEq, reduceCtorEq] at hc
  case closing => split at hc <;> cases hc
  all_goals obtain ⟨rfl, rfl⟩ := hc
  case serveReady j =>
    refine ⟨trivial, fun i hi => ?_⟩
    obtain rfl := Sem.ordercomplete.inj hi
    exact h
  all_goals exact ⟨h, fun i hi => by cases hi⟩

end Instructions

section Accesses

variable {menu : Menu} {s : State sz} {t : Thread sz}

/-- An access to the data that leaves orders, glasses and drinks alone. -/
theorem Drinks.look (hD : Drinks menu s) (hb : Books s) {k : Pc} {d : Data}
    {o : Lock → Option (Thread sz)}
    (hing : ∀ i, (d.orders i).ing = (s.data.orders i).ing)
    (hglass : ∀ i, (d.orders i).glass = (s.data.orders i).glass)
    (hcont : ∀ g, (d.glasses g).contents = (s.data.glasses g).contents)
    (hstate : ∀ g, (d.glasses g).state = 0 →
      (s.data.glasses g).state = 0 ∨ (s.data.glasses g).Has [])
    (hpoint : Knows menu d k) :
    Drinks menu ⟨Function.update s.pc t k, o, s.count, d⟩ := by
  refine hD.move hb (fun i _ => hing i) (fun i _ => hglass i) (fun g _ => hcont g) hpoint
    (fun i hi => .inl hi) fun g hg => ?_
  rcases hstate g hg with h | h
  · exact .inl h
  · exact .inr (h.contents (hcont g))

theorem Drinks.fillGlass {o g : Nat} (hD : Drinks menu s) (hb : Books s)
    (hpc : s.pc t = .fillGlass o g) : Drinks menu ⟨Function.update s.pc t (.bottlesLock o g),
      s.owner, s.count, s.data.setOrder o { s.data.orders o with glass := g }⟩ := by
  have hslot : slotOf s.data (s.pc t) = some o := by rw [hpc]; rfl
  have hempty : (s.data.glasses g).Has [] := by simpa [hpc, Knows] using hD.knows t
  refine hD.move hb (fun i _ => ?_) (fun i hi => ?_) (fun _ _ => rfl) ?_ (fun i hi => .inl hi)
    fun g' hg' => .inl hg'
  · by_cases hio : i = o
    · simp [Data.setOrder, hio]
    · simp [Data.setOrder, hio]
  · have hio : i ≠ o := fun he => hi (he ▸ hslot)
    simp [Data.setOrder, hio]
  · exact ⟨by simp [Data.setOrder], hempty⟩

theorem Drinks.pour {o g : Nat} (hD : Drinks menu s) (hb : Books s)
    (hpc : s.pc t = .pour o g) : Drinks menu ⟨Function.update s.pc t (.bottlesUnlock o),
      s.owner, s.count, s.data.pour g (s.data.orders o).ing⟩ := by
  obtain ⟨hglass, hempty⟩ : (s.data.orders o).glass = g ∧ (s.data.glasses g).Has [] := by
    simpa [hpc, Knows] using hD.knows t
  have hmine : glassOf s.data (s.pc t) = some g := by
    rw [hpc]
    exact congrArg some hglass
  obtain ⟨horders, hrest⟩ := pour_rest s.data g (s.data.orders o).ing
  have hsame := SameBooks.pour s.data g (s.data.orders o).ing
  refine hD.move hb (fun i _ => by rw [horders]) (fun i _ => by rw [horders]) (fun g' hg' => ?_)
    ?_ (fun i hi => .inl hi) fun g' hg' => .inl ((hsame.glass g').1 ▸ hg')
  · rw [hrest g' fun he => hg' (he ▸ hmine)]
  · simp only [Knows, horders, hglass]
    exact pour_has hempty

theorem Drinks.drink {u : Call} {g : Nat} (hD : Drinks menu s) (hb : Books s)
    (hpc : s.pc t = .drink u g) : Drinks menu ⟨Function.update s.pc t (.returnLock u g),
      s.owner, s.count, s.data.setGlass g { s.data.glasses g with
        contents := fun j => if j < 3 then 0 else (s.data.glasses g).contents j }⟩ := by
  have hmine : glassOf s.data (s.pc t) = some g := by rw [hpc]; rfl
  refine hD.move hb (fun _ _ => rfl) (fun _ _ => rfl) (fun g' hg' => ?_) ?_
    (fun i hi => .inl hi) fun g' hg' => .inl ?_
  · have hne : g' ≠ g := fun he => hg' (he ▸ hmine)
    simp [Data.setGlass, hne]
  · intro j hj
    simp [Data.setGlass, hj]
  · by_cases hne : g' = g
    · simpa [Data.setGlass, hne] using hg'
    · simpa [Data.setGlass, hne] using hg'

theorem Drinks.submitScan {u : Call} {i : Nat} (hD : Drinks menu s) (hb : Books s)
    (h0 : (s.data.orders i).state = 0) :
    Drinks menu ⟨Function.update s.pc t (.submitUnlock u i), s.owner, s.count,
      s.data.setOrder i { s.data.orders i with
        ing := menu.order u, state := 1, ordernumber := i }⟩ := by
  refine hD.move hb (fun j hj => ?_) (fun j _ => ?_) (fun _ _ => rfl) ?_ (fun j hj => .inl hj)
    fun g hg => .inl hg
  · have hne : j ≠ i := fun he => hj (he ▸ h0)
    simp [Data.setOrder, hne]
  · by_cases hne : j = i
    · simp [Data.setOrder, hne]
    · simp [Data.setOrder, hne]
  · simp [Knows, Data.setOrder]

end Accesses

theorem setOrder_fields {d : Data} {i : Nat} {o : Order} (hing : o.ing = (d.orders i).ing)
    (hglass : o.glass = (d.orders i).glass) (j : Nat) :
    ((d.setOrder i o).orders j).ing = (d.orders j).ing ∧
      ((d.setOrder i o).orders j).glass = (d.orders j).glass := by
  by_cases hj : j = i
  · subst hj
    simp [Data.setOrder, hing, hglass]
  · simp [Data.setOrder, hj]

theorem setGlass_contents {d : Data} {g : Nat} {x : Glass}
    (hx : x.contents = (d.glasses g).contents) (g' : Nat) :
    ((d.setGlass g x).glasses g').contents = (d.glasses g').contents := by
  by_cases hg : g' = g
  · subst hg
    simp [Data.setGlass, hx]
  · simp [Data.setGlass, hg]

theorem setGlass_state {d : Data} {g : Nat} {x : Glass} (hx : x.state = 0 →
    (d.glasses g).state = 0 ∨ (d.glasses g).Has []) (g' : Nat)
    (h : ((d.setGlass g x).glasses g').state = 0) :
    (d.glasses g').state = 0 ∨ (d.glasses g').Has [] := by
  by_cases hg : g' = g
  · subst hg
    exact hx (by simpa [Data.setGlass] using h)
  · exact .inl (by simpa [Data.setGlass, hg] using h)

/-- One access to the data. -/
theorem Drinks.exec {menu : Menu} {s : State sz} (hD : Drinks menu s) (hk : Kept s)
    {t : Thread sz} {f : Data → Data × Pc} (hc : codeFor sz menu (s.pc t) = .exec f) :
    Drinks menu ⟨Function.update s.pc t (f s.data).2, s.owner, s.count, (f s.data).1⟩ := by
  have hb := hk.books
  have hknow := hD.knows t
  have hstill {k : Pc} (h : Knows menu s.data k) :
      Drinks menu ⟨Function.update s.pc t k, s.owner, s.count, s.data⟩ :=
    hD.look hb (fun _ => rfl) (fun _ => rfl) (fun _ => rfl) (fun _ hg => .inl hg) h
  cases hpc : s.pc t <;> rw [hpc] at hknow <;>
    simp only [hpc, codeFor, code, Instr.exec.injEq, reduceCtorEq] at hc
  case closing => split at hc <;> cases hc
  all_goals subst hc
  case submitScan u i =>
    dsimp only
    split_ifs with hi h0
    · exact hD.submitScan hb h0
    · exact hstill trivial
    · exact hstill trivial
  case submitGlass u i => exact hstill hknow
  case submitNumber u i g =>
    have hfields := setGlass_contents (d := s.data) (g := g)
      (x := { s.data.glasses g with ordernumber := i }) rfl
    exact hD.look hb (fun _ => rfl) (fun _ => rfl) hfields
      (setGlass_state fun h => .inl h) (Glass.Has.contents hknow (hfields g))
  case servedSet u i g =>
    have hfields := setOrder_fields (d := s.data) (i := i)
      (o := { s.data.orders i with state := 3 }) rfl rfl
    exact hD.look hb (fun j => (hfields j).1) (fun j => (hfields j).2) (fun _ => rfl)
      (fun _ hg => .inl hg) hknow
  case drink u g => exact hD.drink hb hpc
  case returnEmpty u g =>
    have hfields := setGlass_contents (d := s.data) (g := g)
      (x := { s.data.glasses g with state := 0 }) rfl
    exact hD.look hb (fun _ => rfl) (fun _ => rfl) hfields
      (setGlass_state fun _ => .inr hknow) trivial
  case returnNumber u g => exact hstill trivial
  case resetSet u i =>
    have hfields := setOrder_fields (d := s.data) (i := i)
      (o := { s.data.orders i with state := 0 }) rfl rfl
    exact hD.look hb (fun j => (hfields j).1) (fun j => (hfields j).2) (fun _ => rfl)
      (fun _ hg => .inl hg) trivial
  case crawlDec =>
    exact hD.look hb (fun _ => rfl) (fun _ => rfl) (fun _ => rfl) (fun _ hg => .inl hg) trivial
  case crawlTest | crawlLoop | drinkers =>
    dsimp only
    split_ifs <;> exact hstill trivial
  case takeScan i =>
    have hfields := setOrder_fields (d := s.data) (i := i)
      (o := { s.data.orders i with state := 2 }) rfl rfl
    dsimp only
    split_ifs
    · exact hD.look hb (fun j => (hfields j).1) (fun j => (hfields j).2) (fun _ => rfl)
        (fun _ hg => .inl hg) trivial
    · exact hstill trivial
    · exact hstill trivial
  case fillScan o i =>
    have hfields := setGlass_contents (d := s.data) (g := i)
      (x := { s.data.glasses i with state := 1 }) rfl
    dsimp only
    split_ifs with hi h0
    · -- a free glass is empty
      exact hD.look hb (fun _ => rfl) (fun _ => rfl) hfields
        (setGlass_state fun h => .inl h0) ((hD.free i h0).contents (hfields i))
    · exact hstill trivial
    · exact hstill trivial
  case fillGlass o g => exact hD.fillGlass hb hpc
  case pour o g => exact hD.pour hb hpc
  case serve o =>
    have hstate := (hb.slot_state (t := t) (i := o) (by rw [hpc]; rfl)).1
    dsimp only
    rw [(hb.number o (by omega)).2]
    exact hstill hknow

theorem Drinks.step {menu : Menu} {s s' : State sz} (hD : Drinks menu s) (hk : Kept s)
    {t : Thread sz} (hs : s.step (codeFor sz menu) t = some s') : Drinks menu s' := by
  have hb := hk.books
  have hknow := hD.knows t
  rcases Config.step_cases hs with ⟨l, k, hc, -, rfl⟩ | ⟨l, k, hc, -, rfl⟩ |
    ⟨x, k, hc, hx, rfl⟩ | ⟨x, k, hc, rfl⟩ | ⟨f, hc, rfl⟩
  · exact hD.look hb (fun _ => rfl) (fun _ => rfl) (fun _ => rfl) (fun _ hg => .inl hg)
      (hknow.acquire hc)
  · exact hD.look hb (fun _ => rfl) (fun _ => rfl) (fun _ => rfl) (fun _ hg => .inl hg)
      (hknow.release hc)
  · refine hD.move hb (fun _ _ => rfl) (fun _ _ => rfl) (fun _ _ => rfl)
      (hknow.p hc fun i hi => hD.counter i (hi ▸ hx)) (fun i hi => .inl ?_)
      fun g hg => .inl hg
    by_cases hix : Sem.ordercomplete i = x
    · rw [hix]
      exact hx
    · rwa [Function.update_of_ne hix] at hi
  · obtain ⟨hpoint, hready⟩ := hknow.v hc
    refine hD.move hb (fun _ _ => rfl) (fun _ _ => rfl) (fun _ _ => rfl) hpoint
      (fun i hi => ?_) fun g hg => .inl hg
    by_cases hix : Sem.ordercomplete i = x
    · exact .inr (hready i hix.symm)
    · rw [Function.update_of_ne hix] at hi
      exact .inl hi
  · exact hD.exec hk hc

/-! ## Every run -/

/-- The glasses are empty when the bar opens, as in memory that was never written. -/
def Washed (d : Data) : Prop := ∀ g, (d.glasses g).Has []

theorem Drinks.barOpen {menu : Menu} {d : Data} (hd : Washed d) :
    Drinks menu (barOpen sz d) where
  knows t := by cases t <;> trivial
  counter i hi := absurd hi (Nat.lt_irrefl 0)
  free g _ := hd g

theorem Drinks.run {menu : Menu} {d : Data} (hd : Washed d) {s : State sz}
    (hr : Reach (codeFor sz menu) (Bar.barOpen sz d) s) : Kept s ∧ Drinks menu s :=
  Run.invariant (I := fun s => Kept s ∧ Drinks menu s) ⟨Kept.barOpen d, Drinks.barOpen hd⟩
    (fun _ _ _ h _ hs => ⟨h.1.stepFor hs, h.2.step h.1 hs⟩) hr

/-- The order and the glass of a customer from the return of `submit_order` until
`return_glass` frees the glass. -/
def Pc.returned : Pc → Option (Call × Nat)
  | .servedUnlock u g | .drink u g | .returnLock u g | .returnEmpty u g => some (u, g)
  | _ => none

/-- The glass that the next instruction uses. The search of `fill_order` takes a free glass
and passes over the others. -/
def touches (d : Data) : Pc → Option Nat
  | .submitNumber _ _ g | .drink _ g | .returnEmpty _ g | .returnNumber _ g | .pour _ g => some g
  | .fillScan _ i => if (d.glasses i).state = 0 then some i else none
  | _ => none

/-- Until it is returned nobody else touches the glass of a customer, and when
`submit_order` returns it the glass holds what was ordered. -/
structure AsOrdered (menu : Menu) (s : State sz) : Prop where
  alone : ∀ t v u g, (s.pc t).returned = some (u, g) → v ≠ t →
    touches s.data (s.pc v) ≠ some g
  contents : ∀ t u g, s.pc t = .servedUnlock u g ∨ s.pc t = .drink u g →
    (s.data.glasses g).Has (packed (menu.order u))

theorem glassOf_returned {d : Data} {k : Pc} {u : Call} {g : Nat}
    (h : k.returned = some (u, g)) : glassOf d k = some g := by
  cases k <;> simp only [Pc.returned, Option.some.injEq, Prod.mk.injEq, reduceCtorEq] at h
  all_goals exact congrArg some h.2

/-- Who touches a glass has it, or the glass is free. -/
theorem Drinks.touches {menu : Menu} {s : State sz} (hD : Drinks menu s) (hb : Books s)
    {v : Thread sz} {g : Nat} (h : Bar.touches s.data (s.pc v) = some g) :
    glassOf s.data (s.pc v) = some g ∨ (s.data.glasses g).state = 0 := by
  have hknow := hD.knows v
  have hpoint := hb.points v
  cases hpc : s.pc v <;> rw [hpc] at h hknow hpoint <;>
    simp only [Bar.touches, Option.some.injEq, reduceCtorEq] at h
  case submitNumber | drink | returnEmpty => exact .inl (congrArg some h)
  case returnNumber =>
    subst h
    exact .inr hpoint
  case pour => exact .inl (congrArg some (hknow.1.trans h))
  case fillScan =>
    split_ifs at h with h0
    exact .inr (Option.some.inj h ▸ h0)

theorem Drinks.asOrdered {menu : Menu} {s : State sz} (hD : Drinks menu s) (hb : Books s) :
    AsOrdered menu s where
  alone t v u g ht hne hv := by
    have hmine := glassOf_returned (d := s.data) ht
    rcases hD.touches hb hv with hother | hfree
    · exact hne (hb.glass_unique hother hmine)
    · exact hb.glass_state hmine hfree
  contents t u g ht := by
    have hknow := hD.knows t
    rcases ht with hpc | hpc <;> rw [hpc] at hknow <;> exact hknow

/-- Every customer gets the drink ordered, in every interleaving. -/
theorem drinks_as_ordered (sz : Sizes) (menu : Menu) (d : Data) (hd : Washed d) (s : State sz)
    (hr : Reach (codeFor sz menu) (barOpen sz d) s) : AsOrdered menu s :=
  (Drinks.run hd hr).2.asOrdered (Drinks.run hd hr).1.books

/-- When everybody has gone home the glasses are empty again. -/
theorem Drinks.washed {menu : Menu} {s : State sz} (hD : Drinks menu s) (hb : Books s)
    (hend : ∀ t, (s.pc t).Ended sz) : Washed s.data := by
  have hidle (t : Thread sz) : orderOf s.data (s.pc t) = none ∧
      glassOf s.data (s.pc t) = none := by
    have ht := hend t
    unfold Pc.Ended at ht
    cases hpc : s.pc t <;> simp only [hpc, code, reduceCtorEq] at ht
    all_goals exact ⟨rfl, rfl⟩
  have hcount (i : Nat) : s.count (.ordercomplete i) = 0 := by
    have howned := hb.owned i
    rw [tally_eq_zero.mpr fun t _ => by simp [(hidle t).1]] at howned
    have htaken := hb.taken i
    split at howned
    · cases howned
    · split at htaken <;> omega
  intro g
  refine hD.free g ?_
  have hglass := hb.glass g
  rw [tally_eq_zero.mpr fun t _ => by simp [(hidle t).2],
    tally_eq_zero.mpr fun i _ => by simp [hcount i]] at hglass
  by_contra hne
  rw [if_pos hne] at hglass
  cases hglass

/-- A drink of two ingredients is handed over. -/
theorem drinks_as_ordered_two : ∃ s : State ⟨1, 1, 1⟩,
    (barOpen ⟨1, 1, 1⟩ emptyBar).steps
      (codeFor ⟨1, 1, 1⟩ fun _ _ => (kahlua, nothing, baileys))
      (List.replicate 4 (.customer 0) ++ List.replicate 15 (.bartender 0) ++
        List.replicate 5 (.customer 0)) = some s ∧
      AsOrdered (fun _ _ => (kahlua, nothing, baileys)) s ∧
      s.pc (.customer 0) = .servedUnlock (.drink 0 0) 0 ∧
      (s.data.glasses 0).contents 0 = kahlua ∧ (s.data.glasses 0).contents 1 = baileys ∧
      (s.data.glasses 0).contents 2 = 0 := by
  obtain ⟨s, hs⟩ := Option.isSome_iff_exists.mp (by decide +kernel :
    ((barOpen ⟨1, 1, 1⟩ emptyBar).steps
      (codeFor ⟨1, 1, 1⟩ fun _ _ => (kahlua, nothing, baileys))
      (List.replicate 4 (.customer 0) ++ List.replicate 15 (.bartender 0) ++
        List.replicate 5 (.customer 0))).isSome = true)
  have hpc : ((barOpen ⟨1, 1, 1⟩ emptyBar).steps
      (codeFor ⟨1, 1, 1⟩ fun _ _ => (kahlua, nothing, baileys))
      (List.replicate 4 (.customer 0) ++ List.replicate 15 (.bartender 0) ++
        List.replicate 5 (.customer 0))).map (fun s => s.pc (.customer 0)) =
      some (.servedUnlock (.drink 0 0) 0) := by
    decide +kernel
  rw [hs] at hpc
  have hserved := Option.some.inj hpc
  have hordered := drinks_as_ordered _ _ emptyBar (fun g j hj => by simp [emptyBar]) s
    (.of_steps .start hs)
  have hglass := hordered.contents (.customer 0) _ _ (.inl hserved)
  exact ⟨s, hs, hordered, hserved, hglass 0 (by decide), hglass 1 (by decide),
    hglass 2 (by decide)⟩

end Os161.Bar
