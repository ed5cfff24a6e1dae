import Os161.Files.OpenTable

/-! # Who holds the entries of the table

Every entry in use has one holder: a descriptor, or an open in progress. Only the
destruction of a thread loses a holder without telling the table. -/
namespace Os161.Files

inductive Holder (T : Type) where
  | slot (t : T) (fd : Nat)
  | opener (t : T)
  deriving DecidableEq

def Holder.thread {T : Type} : Holder T → T
  | .slot t _ | .opener t => t

/-- Whether an entry is in use shows in its count and in its vnode. -/
def Ofte.Free {V : Type} (e : Ofte V) : Prop := e.count = 0 ∧ e.vn = .null

def Ofte.Used {V : Type} (e : Ofte V) : Prop := e.count = 1 ∧ e.vn ≠ .null

def Ofte.Open {V : Type} (e : Ofte V) : Prop :=
  e.count = 1 ∧ (∃ v k, e.vn = .node v k) ∧ accmode e.flags ≠ 3

/-- Two entries that differ in the file position at most. -/
structure Ofte.Same {V : Type} (e e' : Ofte V) : Prop where
  flags : e.flags = e'.flags
  count : e.count = e'.count
  vn : e.vn = e'.vn

theorem Ofte.Same.refl {V : Type} (e : Ofte V) : e.Same e := ⟨rfl, rfl, rfl⟩

theorem Ofte.Open.used {V : Type} {e : Ofte V} (h : e.Open) : e.Used := by
  obtain ⟨hc, ⟨v, k, hv⟩, _⟩ := h
  exact ⟨hc, by rw [hv]; exact nofun⟩

namespace State

variable {T V : Type}

/-- A descriptor is no holder any more once `sys_close` has freed its entry. -/
def Holds (s : State T V) : Holder T → Nat → Prop
  | .slot t fd, i => t ∈ s.threads ∧ fd < MAX_FD ∧ s.fdt t fd = some i ∧ s.phase t ≠ .closing fd
  | .opener t, i => t ∈ s.threads ∧ ∃ fd flags, s.phase t = .opening fd flags i

structure Inv (s : State T V) : Prop where
  unique : ∀ h h' i, s.Holds h i → s.Holds h' i → h = h'
  slot : ∀ t fd i, s.Holds (.slot t fd) i → i < MAX_OPEN_FILES ∧ (s.oft i).Open
  opener : ∀ t i, s.Holds (.opener t) i →
    i < MAX_OPEN_FILES ∧ (s.oft i).count = 1 ∧ (s.oft i).vn = .busy
  entry : ∀ i, (s.oft i).Free ∨ (s.oft i).Used
  opening : ∀ t fd flags i, t ∈ s.threads → s.phase t = .opening fd flags i →
    fd < MAX_FD ∧ s.fdt t fd = none
  ticket : ∀ i v k, (s.oft i).vn = .node v k → i < MAX_OPEN_FILES ∧ k < s.opened ∧ k ∉ s.closed
  distinct : ∀ i j v w k, (s.oft i).vn = .node v k → (s.oft j).vn = .node w k → i = j
  kept : ∀ k < s.opened, k ∉ s.closed → ∃ i v, (s.oft i).vn = .node v k
  once : s.closed.Nodup
  matched : ∀ k ∈ s.closed, k < s.opened

/-- Only thread `t` has moved. -/
structure Local (t : T) (s s' : State T V) : Prop where
  threads : s'.threads = s.threads
  fdt : ∀ u, u ≠ t → s'.fdt u = s.fdt u
  phase : ∀ u, u ≠ t → s'.phase u = s.phase u

theorem Local.symm {t : T} {s s' : State T V} (h : Local t s s') : Local t s' s :=
  ⟨h.threads.symm, fun u hu => (h.fdt u hu).symm, fun u hu => (h.phase u hu).symm⟩

theorem Local.holds {t : T} {s s' : State T V} {o : Holder T} {i : Nat} (h : Local t s s')
    (ho : s'.Holds o i) (ht : o.thread ≠ t) : s.Holds o i := by
  cases o with
  | slot u fd =>
    obtain ⟨hu, hfd, hslot, hp⟩ := ho
    rw [h.threads] at hu
    rw [h.fdt u ht] at hslot
    rw [h.phase u ht] at hp
    exact ⟨hu, hfd, hslot, hp⟩
  | opener u =>
    obtain ⟨hu, hp⟩ := ho
    rw [h.threads] at hu
    rw [h.phase u ht] at hp
    exact ⟨hu, hp⟩

theorem Local.opening {t : T} {s s' : State T V} (h : Local t s s')
    (hs : ∀ u fd flags i, u ∈ s.threads → s.phase u = .opening fd flags i →
      fd < MAX_FD ∧ s.fdt u fd = none)
    (ht : ∀ fd flags i, s'.phase t = .opening fd flags i → fd < MAX_FD ∧ s'.fdt t fd = none)
    (u : T) (fd : Nat) (flags : Int) (i : Nat) (hu : u ∈ s'.threads)
    (hp : s'.phase u = .opening fd flags i) : fd < MAX_FD ∧ s'.fdt u fd = none := by
  by_cases hut : u = t
  · subst hut
    exact ht fd flags i hp
  · rw [h.threads] at hu
    rw [h.phase u hut] at hp
    rw [h.fdt u hut]
    exact hs u fd flags i hu hp

namespace Inv

variable {s s' : State T V}

theorem held (h : s.Inv) {o : Holder T} {i : Nat} (ho : s.Holds o i) :
    i < MAX_OPEN_FILES ∧ (s.oft i).Used := by
  cases o with
  | slot t fd => exact ⟨(h.slot t fd i ho).1, (h.slot t fd i ho).2.used⟩
  | opener t =>
    obtain ⟨hi, hc, hv⟩ := h.opener t i ho
    exact ⟨hi, hc, by rw [hv]; exact nofun⟩

theorem free_not_held (h : s.Inv) {o : Holder T} {i : Nat} (hi : (s.oft i).vn = .null) :
    ¬ s.Holds o i :=
  fun ho => (h.held ho).2.2 hi

/-- The table stays, file positions apart, and so do the holders it has. -/
theorem keep (h : s.Inv) (hoft : ∀ i, (s'.oft i).Same (s.oft i)) (hopened : s'.opened = s.opened)
    (hclosed : s'.closed = s.closed) (hholds : ∀ o i, s'.Holds o i → s.Holds o i)
    (hopening : ∀ t fd flags i, t ∈ s'.threads → s'.phase t = .opening fd flags i →
      fd < MAX_FD ∧ s'.fdt t fd = none) : s'.Inv where
  unique := fun o o' i ho ho' => h.unique o o' i (hholds o i ho) (hholds o' i ho')
  slot := fun t fd i ho => by
    obtain ⟨hi, hc, hv, hf⟩ := h.slot t fd i (hholds _ i ho)
    rw [Ofte.Open, (hoft i).count, (hoft i).vn, (hoft i).flags]
    exact ⟨hi, hc, hv, hf⟩
  opener := fun t i ho => by
    rw [(hoft i).count, (hoft i).vn]
    exact h.opener t i (hholds _ i ho)
  entry := fun i => by
    rw [Ofte.Free, Ofte.Used, (hoft i).count, (hoft i).vn]
    exact h.entry i
  opening := hopening
  ticket := fun i v k hv => by
    rw [(hoft i).vn] at hv
    rw [hopened, hclosed]
    exact h.ticket i v k hv
  distinct := fun i j v w k hv hw => by
    rw [(hoft i).vn] at hv
    rw [(hoft j).vn] at hw
    exact h.distinct i j v w k hv hw
  kept := fun k hk hc => by
    rw [hopened] at hk
    rw [hclosed] at hc
    obtain ⟨i, v, hv⟩ := h.kept k hk hc
    exact ⟨i, v, (hoft i).vn.trans hv⟩
  once := hclosed ▸ h.once
  matched := by
    rw [hopened, hclosed]
    exact h.matched

/-- A free entry goes to an open that begins. -/
theorem claim {i : Nat} {e : Ofte V} {u : T} (h : s.Inv) (hfree : (s.oft i).vn = .null)
    (hi : i < MAX_OPEN_FILES) (he : e.count = 1 ∧ e.vn = .busy)
    (hoft : s'.oft = Function.update s.oft i e) (hopened : s'.opened = s.opened)
    (hclosed : s'.closed = s.closed)
    (hholds : ∀ o j, s'.Holds o j → s.Holds o j ∨ o = .opener u ∧ j = i)
    (hopening : ∀ t fd flags j, t ∈ s'.threads → s'.phase t = .opening fd flags j →
      fd < MAX_FD ∧ s'.fdt t fd = none) : s'.Inv := by
  have hself : s'.oft i = e := by rw [hoft, Function.update_self]
  have hne {j : Nat} (hj : j ≠ i) : s'.oft j = s.oft j := by
    rw [hoft, Function.update_of_ne hj]
  have hother {o : Holder T} {j : Nat} (ho : s.Holds o j) : j ≠ i := by
    intro hx
    obtain rfl := hx
    exact h.free_not_held hfree ho
  have hnode {j : Nat} {v : V} {k : Nat} (hv : (s'.oft j).vn = .node v k) :
      (s.oft j).vn = .node v k := by
    by_cases hj : j = i
    · rw [hj, hself, he.2] at hv
      cases hv
    · rwa [hne hj] at hv
  exact {
    unique := fun o o' j ho ho' => by
      rcases hholds o j ho with ho | ⟨rfl, rfl⟩ <;> rcases hholds o' j ho' with ho' | ⟨rfl, hj⟩
      · exact h.unique o o' j ho ho'
      · exact absurd hj (hother ho)
      · exact absurd rfl (hother ho')
      · rfl
    slot := fun t fd j ho => by
      rcases hholds _ j ho with ho | ⟨heq, _⟩
      · rw [hne (hother ho)]
        exact h.slot t fd j ho
      · cases heq
    opener := fun t j ho => by
      rcases hholds _ j ho with ho | ⟨_, rfl⟩
      · rw [hne (hother ho)]
        exact h.opener t j ho
      · rw [hself]
        exact ⟨hi, he⟩
    entry := fun j => by
      by_cases hj : j = i
      · rw [hj, hself]
        exact .inr ⟨he.1, by rw [he.2]; exact nofun⟩
      · rw [hne hj]
        exact h.entry j
    opening := hopening
    ticket := fun j v k hv => by
      rw [hopened, hclosed]
      exact h.ticket j v k (hnode hv)
    distinct := fun j j' v w k hv hw => h.distinct j j' v w k (hnode hv) (hnode hw)
    kept := fun k hk hc => by
      rw [hopened] at hk
      rw [hclosed] at hc
      obtain ⟨j, v, hv⟩ := h.kept k hk hc
      have hj : j ≠ i := by
        intro hx
        obtain rfl := hx
        rw [hfree] at hv
        cases hv
      exact ⟨j, v, by rw [hne hj, hv]⟩
    once := hclosed ▸ h.once
    matched := by
      rw [hopened, hclosed]
      exact h.matched }

/-- The open of an entry ends in a descriptor. -/
theorem fill {i : Nat} {e : Ofte V} {u : T} {v : V} (h : s.Inv) (fd : Nat)
    (hu : s.Holds (.opener u) i)
    (he : e.Open) (hv : e.vn = .node v s.opened)
    (hoft : s'.oft = Function.update s.oft i e) (hopened : s'.opened = s.opened + 1)
    (hclosed : s'.closed = s.closed)
    (hholds : ∀ o j, s'.Holds o j → s.Holds o j ∧ o ≠ .opener u ∨ o = .slot u fd ∧ j = i)
    (hopening : ∀ t fd flags j, t ∈ s'.threads → s'.phase t = .opening fd flags j →
      fd < MAX_FD ∧ s'.fdt t fd = none) : s'.Inv := by
  have hself : s'.oft i = e := by rw [hoft, Function.update_self]
  have hne {j : Nat} (hj : j ≠ i) : s'.oft j = s.oft j := by
    rw [hoft, Function.update_of_ne hj]
  have hother {o : Holder T} {j : Nat} (ho : s.Holds o j) (hou : o ≠ .opener u) : j ≠ i := by
    intro hx
    obtain rfl := hx
    exact hou (h.unique _ _ _ ho hu)
  obtain ⟨hi, _, hbusy⟩ := h.opener u i hu
  have hfresh {j : Nat} {w : V} (hw : (s.oft j).vn = .node w s.opened) : False :=
    Nat.lt_irrefl _ (h.ticket j w _ hw).2.1
  exact {
    unique := fun o o' j ho ho' => by
      rcases hholds o j ho with ⟨ho, hou⟩ | ⟨rfl, rfl⟩ <;>
        rcases hholds o' j ho' with ⟨ho', hou'⟩ | ⟨rfl, hj⟩
      · exact h.unique o o' j ho ho'
      · exact absurd hj (hother ho hou)
      · exact absurd rfl (hother ho' hou')
      · rfl
    slot := fun t fd' j ho => by
      rcases hholds _ j ho with ⟨ho, hou⟩ | ⟨_, rfl⟩
      · rw [hne (hother ho hou)]
        exact h.slot t fd' j ho
      · rw [hself]
        exact ⟨hi, he⟩
    opener := fun t j ho => by
      rcases hholds _ j ho with ⟨ho, hou⟩ | ⟨heq, _⟩
      · rw [hne (hother ho hou)]
        exact h.opener t j ho
      · cases heq
    entry := fun j => by
      by_cases hj : j = i
      · rw [hj, hself]
        exact .inr he.used
      · rw [hne hj]
        exact h.entry j
    opening := hopening
    ticket := fun j w k hw => by
      rw [hopened, hclosed]
      by_cases hj : j = i
      · rw [hj, hself, hv] at hw
        cases hw
        exact ⟨hj ▸ hi, Nat.lt_succ_self _, fun hmem => Nat.lt_irrefl _ (h.matched _ hmem)⟩
      · rw [hne hj] at hw
        obtain ⟨h1, h2, h3⟩ := h.ticket j w k hw
        exact ⟨h1, Nat.lt_succ_of_lt h2, h3⟩
    distinct := fun j j' w w' k hw hw' => by
      by_cases hj : j = i <;> by_cases hj' : j' = i
      · rw [hj, hj']
      · rw [hj, hself, hv] at hw
        cases hw
        rw [hne hj'] at hw'
        exact (hfresh hw').elim
      · rw [hj', hself, hv] at hw'
        cases hw'
        rw [hne hj] at hw
        exact (hfresh hw).elim
      · rw [hne hj] at hw
        rw [hne hj'] at hw'
        exact h.distinct j j' w w' k hw hw'
    kept := fun k hk hc => by
      rw [hopened] at hk
      rw [hclosed] at hc
      rcases Nat.lt_succ_iff_lt_or_eq.mp hk with hk | rfl
      · obtain ⟨j, w, hw⟩ := h.kept k hk hc
        have hj : j ≠ i := by
          intro hx
          obtain rfl := hx
          rw [hbusy] at hw
          cases hw
        exact ⟨j, w, by rw [hne hj, hw]⟩
      · exact ⟨i, v, by rw [hself, hv]⟩
    once := hclosed ▸ h.once
    matched := fun k hk => by
      rw [hopened]
      rw [hclosed] at hk
      exact Nat.lt_succ_of_lt (h.matched k hk) }

theorem oftFree_self {oft : Nat → Ofte V} {i : Nat} (hc : (oft i).count = 1) :
    (oftFree oft i i).Free := by
  simp [oftFree, Ofte.Free, hc]

theorem oftFree_of_ne {oft : Nat → Ofte V} {i j : Nat} (hj : j ≠ i) : oftFree oft i j = oft j :=
  Function.update_of_ne hj _ _

/-- The only holder lets go of its entry; a vnode is closed. -/
theorem free {i : Nat} {o : Holder T} (h : s.Inv) (ho : s.Holds o i)
    (hoft : s'.oft = oftFree s.oft i) (hopened : s'.opened = s.opened)
    (hclosed : (∃ v k, (s.oft i).vn = .node v k ∧ s'.closed = k :: s.closed) ∨
      (s.oft i).vn = .busy ∧ s'.closed = s.closed)
    (hholds : ∀ o' j, s'.Holds o' j → s.Holds o' j ∧ o' ≠ o)
    (hopening : ∀ t fd flags j, t ∈ s'.threads → s'.phase t = .opening fd flags j →
      fd < MAX_FD ∧ s'.fdt t fd = none) : s'.Inv := by
  obtain ⟨hi, hused⟩ := h.held ho
  have hself : (s'.oft i).Free := hoft ▸ oftFree_self hused.1
  have hne {j : Nat} (hj : j ≠ i) : s'.oft j = s.oft j := by
    rw [hoft, oftFree_of_ne hj]
  have hother {o' : Holder T} {j : Nat} (ho' : s.Holds o' j) (hoo : o' ≠ o) : j ≠ i := by
    intro hx
    obtain rfl := hx
    exact hoo (h.unique _ _ _ ho' ho)
  have hnode {j : Nat} {v : V} {k : Nat} (hv : (s'.oft j).vn = .node v k) :
      j ≠ i ∧ (s.oft j).vn = .node v k := by
    by_cases hj : j = i
    · rw [hj, hself.2] at hv
      cases hv
    · rw [hne hj] at hv
      exact ⟨hj, hv⟩
  have hmem {k : Nat} : k ∈ s'.closed ↔ k ∈ s.closed ∨ ∃ v, (s.oft i).vn = .node v k := by
    rcases hclosed with ⟨v, k', hv, hc⟩ | ⟨hb, hc⟩
    · rw [hc, List.mem_cons, hv]
      constructor
      · intro hx
        rcases hx with rfl | hk
        · exact .inr ⟨v, rfl⟩
        · exact .inl hk
      · intro hx
        rcases hx with hk | ⟨w, hw⟩
        · exact .inr hk
        · cases hw
          exact .inl rfl
    · rw [hc, hb]
      exact ⟨.inl, fun hk => hk.elim id fun ⟨w, hw⟩ => by cases hw⟩
  exact {
    unique := fun o₁ o₂ j h₁ h₂ => h.unique o₁ o₂ j (hholds o₁ j h₁).1 (hholds o₂ j h₂).1
    slot := fun t fd j hs => by
      obtain ⟨hs, hso⟩ := hholds _ j hs
      rw [hne (hother hs hso)]
      exact h.slot t fd j hs
    opener := fun t j hs => by
      obtain ⟨hs, hso⟩ := hholds _ j hs
      rw [hne (hother hs hso)]
      exact h.opener t j hs
    entry := fun j => by
      by_cases hj : j = i
      · exact hj ▸ .inl hself
      · rw [hne hj]
        exact h.entry j
    opening := hopening
    ticket := fun j v k hv => by
      obtain ⟨hj, hv⟩ := hnode hv
      obtain ⟨h1, h2, h3⟩ := h.ticket j v k hv
      rw [hopened]
      refine ⟨h1, h2, fun hk => ?_⟩
      rcases hmem.mp hk with hk | ⟨w, hw⟩
      · exact h3 hk
      · exact hj (h.distinct j i v w k hv hw)
    distinct := fun j j' v w k hv hw => h.distinct j j' v w k (hnode hv).2 (hnode hw).2
    kept := fun k hk hc => by
      rw [hopened] at hk
      rw [hmem, not_or] at hc
      obtain ⟨j, v, hv⟩ := h.kept k hk hc.1
      have hj : j ≠ i := by
        intro hx
        obtain rfl := hx
        exact hc.2 ⟨v, hv⟩
      exact ⟨j, v, by rw [hne hj, hv]⟩
    once := by
      rcases hclosed with ⟨v, k, hv, hc⟩ | ⟨_, hc⟩
      · rw [hc]
        exact List.nodup_cons.mpr ⟨(h.ticket i v k hv).2.2, h.once⟩
      · rw [hc]
        exact h.once
    matched := fun k hk => by
      rw [hopened]
      rcases hmem.mp hk with hk | ⟨v, hv⟩
      · exact h.matched k hk
      · exact (h.ticket i v k hv).2.1 }

end Inv

end State

end Os161.Files
