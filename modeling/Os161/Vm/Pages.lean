import Os161.Vm.Ram

/-! # Whether page allocations are sound

Sizes are rounded up to pages and added to `firstpaddr` without a check for overflow. A run is
sound as long as neither wraps around. -/
namespace Os161.Vm
open Os161.Runs

/-- A range handed out: its address, its pages, and the bytes that were asked for. -/
structure Grant where
  paddr : UInt32
  npages : UInt32
  bytes : UInt32
  deriving DecidableEq

def Grant.extent (g : Grant) : Nat := g.npages.toNat * 4096

def Grant.Disjoint (g g' : Grant) : Prop :=
  g.paddr.toNat + g.extent ≤ g'.paddr.toNat ∨ g'.paddr.toNat + g'.extent ≤ g.paddr.toNat

/-- The counters with the history of a run, newest first: what was handed out and the values of
`firstpaddr`. `due` are the sizes that the page counts still to come are derived from. -/
structure Memory where
  ram : Ram
  granted : List Grant
  marks : List UInt32
  due : List UInt32
  deriving DecidableEq

/-- `getppages`, with the history. -/
def Memory.getppages (npages : UInt32) (m : Memory) : UInt32 × Memory :=
  let (paddr, ram) := ramStealmem npages m.ram
  (paddr,
    { ram
      granted := if paddr = 0 then m.granted
        else ⟨paddr, npages, m.due.headD 0⟩ :: m.granted
      marks := ram.firstpaddr :: m.marks
      due := m.due.tail })

def Memory.boot (ram : Ram) : Memory := ⟨ram, [], [ram.firstpaddr], []⟩

/-- Requests by the sizes they are made for: `kmalloc` of a large size, `getppages` of the pages
for a size, and `as_prepare_load` of a space with regions of two sizes. -/
inductive Request where
  | kmalloc (sz : UInt32) (large : largestSubpageSize ≤ sz)
  | getppages (sz : UInt32)
  | asPrepareLoad (sz1 sz2 : UInt32)

/-- The sizes a request allocates pages for, in order. -/
def Request.sizes : Request → List UInt32
  | .kmalloc sz _ => [sz]
  | .getppages sz => [sz]
  | .asPrepareLoad sz1 sz2 => [sz1, sz2, dumbvmStackpages * pageSize]

/-- A space before its memory is prepared, with regions of two sizes. -/
def regions (sz1 sz2 : UInt32) : Addrspace :=
  { asCreate with asNpages1 := regionPages sz1, asNpages2 := regionPages sz2 }

def serve (m : Memory) : Request → Option Memory
  | .kmalloc sz _ => some (kmalloc Memory.getppages (fun _ m => (0, m)) sz m).2
  | .getppages sz => some (m.getppages (regionPages sz)).2
  | .asPrepareLoad sz1 sz2 =>
    (asPrepareLoad Memory.getppages (regions sz1 sz2) m).map fun x => x.2.2

def step (m : Memory) (q : Request) : Option Memory := serve { m with due := q.sizes } q

/-- Every range has the bytes asked for, is in memory and apart from the others, and `firstpaddr`
has never gone down or beyond `lastpaddr`. -/
structure Sound (m : Memory) : Prop where
  large : ∀ g ∈ m.granted, g.bytes.toNat ≤ g.extent
  inside : ∀ g ∈ m.granted, g.paddr.toNat + g.extent ≤ m.ram.lastpaddr.toNat
  disjoint : m.granted.Pairwise Grant.Disjoint
  order : m.marks.Pairwise (· ≥ ·)
  bound : ∀ f ∈ m.marks, f ≤ m.ram.lastpaddr

/-- Rounded up one after the other from `first` on, the sizes wrap around nowhere. An allocation
that does not fit below `last` is the last one. -/
def FitsFrom (first last : Nat) : List UInt32 → Prop
  | [] => True
  | sz :: rest =>
    sz.toNat + 4095 < 4294967296 ∧ first + roundup sz.toNat < 4294967296 ∧
      (first + roundup sz.toNat ≤ last → FitsFrom (first + roundup sz.toNat) last rest)

def Fits (m : Memory) (q : Request) : Prop :=
  FitsFrom m.ram.firstpaddr.toNat m.ram.lastpaddr.toNat q.sizes

/-- What was handed out ends where the free memory begins. -/
structure Tight (m : Memory) : Prop where
  positive : 0 < m.ram.firstpaddr.toNat
  free : m.ram.firstpaddr.toNat ≤ m.ram.lastpaddr.toNat
  small : m.ram.lastpaddr.toNat ≤ 532676608
  below : ∀ g ∈ m.granted, g.paddr.toNat + g.extent ≤ m.ram.firstpaddr.toNat
  above : ∀ f ∈ m.marks, f ≤ m.ram.firstpaddr

section Steps

variable {m m' : Memory} {sz : UInt32} {sizes : List UInt32}

/-! ## One allocation -/

/-- The three ways an allocation can end. -/
inductive Outcome (m : Memory) (npages : UInt32) : UInt32 × Memory → Prop
  | full (h : m.ram.lastpaddr.toNat <
      (m.ram.firstpaddr.toNat + npages.toNat * 4096 % 4294967296) % 4294967296) :
    Outcome m npages (0, { m with marks := m.ram.firstpaddr :: m.marks, due := m.due.tail })
  | given (first : UInt32) (hfirst : first.toNat =
      (m.ram.firstpaddr.toNat + npages.toNat * 4096 % 4294967296) % 4294967296)
      (h : first.toNat ≤ m.ram.lastpaddr.toNat) :
    Outcome m npages (m.ram.firstpaddr,
      { ram := { m.ram with firstpaddr := first }
        granted := ⟨m.ram.firstpaddr, npages, m.due.headD 0⟩ :: m.granted
        marks := first :: m.marks
        due := m.due.tail })

theorem getppages_outcome (npages : UInt32) (h : Tight m) :
    Outcome m npages (m.getppages npages) := by
  have hsum : (m.ram.firstpaddr + npages * pageSize).toNat =
      (m.ram.firstpaddr.toNat + npages.toNat * 4096 % 4294967296) % 4294967296 := by
    rw [UInt32.toNat_add, UInt32.toNat_mul, pageSize_toNat]
  have hne : m.ram.firstpaddr ≠ 0 := by
    intro h0
    have := h.positive
    rw [h0] at this
    exact absurd this (by decide)
  by_cases hfit : m.ram.firstpaddr + npages * pageSize > m.ram.lastpaddr
  · have hfull := UInt32.lt_iff_toNat_lt.mp hfit
    rw [hsum] at hfull
    have he : m.getppages npages =
        (0, { m with marks := m.ram.firstpaddr :: m.marks, due := m.due.tail }) := by
      simp only [Memory.getppages, ramStealmem, if_pos hfit, if_true]
    rw [he]
    exact .full hfull
  · have hgiven := UInt32.le_iff_toNat_le.mp (UInt32.not_lt.mp hfit)
    have he : m.getppages npages = (m.ram.firstpaddr,
        { ram := { m.ram with firstpaddr := m.ram.firstpaddr + npages * pageSize }
          granted := ⟨m.ram.firstpaddr, npages, m.due.headD 0⟩ :: m.granted
          marks := (m.ram.firstpaddr + npages * pageSize) :: m.marks
          due := m.due.tail }) := by
      simp only [Memory.getppages, ramStealmem, if_neg hfit, if_neg hne]
    rw [he]
    exact .given _ hsum hgiven

/-- The history of one memory goes on in another. -/
structure Extends (m m' : Memory) : Prop where
  granted : m.granted <:+ m'.granted
  marks : m.marks <:+ m'.marks
  last : m'.ram.lastpaddr = m.ram.lastpaddr

theorem Extends.refl (m : Memory) : Extends m m :=
  ⟨List.suffix_refl _, List.suffix_refl _, rfl⟩

theorem Extends.trans {a b c : Memory} (h : Extends a b) (h' : Extends b c) : Extends a c :=
  ⟨h.granted.trans h'.granted, h.marks.trans h'.marks, h'.last.trans h.last⟩

theorem getppages_extends (npages : UInt32) (m : Memory) : Extends m (m.getppages npages).2 := by
  refine ⟨?_, List.suffix_cons _ _, ?_⟩
  · simp only [Memory.getppages]
    split
    · exact List.suffix_refl _
    · exact List.suffix_cons _ _
  · simp only [Memory.getppages, ramStealmem]
    split <;> rfl

/-- What is sound was sound before. -/
theorem Sound.of_extends (hs : Sound m') (h : Extends m m') : Sound m where
  large g hg := hs.large g (h.granted.mem hg)
  inside g hg := h.last ▸ hs.inside g (h.granted.mem hg)
  disjoint := hs.disjoint.sublist h.granted.sublist
  order := hs.order.sublist h.marks.sublist
  bound f hf := h.last ▸ hs.bound f (h.marks.mem hf)

theorem le_roundup (n : Nat) : n ≤ roundup n := by
  unfold roundup
  omega

/-- An allocation that wraps nowhere. -/
theorem getppages_fits (h : Tight m) (hs : Sound m) (hdue : m.due.headD 0 = sz)
    (hsz : sz.toNat + 4095 < 4294967296)
    (hsum : m.ram.firstpaddr.toNat + roundup sz.toNat < 4294967296) :
    let r := m.getppages (regionPages sz)
    Sound r.2 ∧ Tight r.2 ∧
      (r.1 = 0 ↔ m.ram.lastpaddr.toNat < m.ram.firstpaddr.toNat + roundup sz.toNat) ∧
      (r.1 ≠ 0 → r.2.ram.firstpaddr.toNat = m.ram.firstpaddr.toNat + roundup sz.toNat) ∧
      r.2.ram.lastpaddr = m.ram.lastpaddr ∧ r.2.due = m.due.tail := by
  have hpages := regionPages_toNat hsz
  have hmod : (m.ram.firstpaddr.toNat + (regionPages sz).toNat * 4096 % 4294967296) % 4294967296 =
      m.ram.firstpaddr.toNat + roundup sz.toNat := by
    rw [hpages, Nat.mod_eq_of_lt (by omega : roundup sz.toNat < 4294967296), Nat.mod_eq_of_lt hsum]
  dsimp only
  cases hr : m.getppages (regionPages sz) with | mk paddr m' =>
  have ho := getppages_outcome (regionPages sz) h
  rw [hr] at ho
  cases ho with
  | full hfull =>
    rw [hmod] at hfull
    refine ⟨⟨hs.large, hs.inside, hs.disjoint, ?_, ?_⟩, ⟨h.positive, h.free, h.small, h.below, ?_⟩,
      iff_of_true rfl hfull, fun h0 => absurd rfl h0, rfl, rfl⟩
    · exact List.pairwise_cons.mpr ⟨h.above, hs.order⟩
    · intro f hf
      rcases List.mem_cons.mp hf with rfl | hf
      · exact UInt32.le_iff_toNat_le.mpr h.free
      · exact hs.bound f hf
    · intro f hf
      rcases List.mem_cons.mp hf with rfl | hf
      · exact UInt32.le_refl _
      · exact h.above f hf
  | given first hfirst hle =>
    rw [hmod] at hfirst
    have hup : m.ram.firstpaddr ≤ first := by
      rw [UInt32.le_iff_toNat_le]
      omega
    have hend : m.ram.firstpaddr.toNat +
        Grant.extent ⟨m.ram.firstpaddr, regionPages sz, m.due.headD 0⟩ = first.toNat := by
      rw [Grant.extent, hpages, hfirst]
    have hne : ¬ m.ram.firstpaddr = 0 := by
      intro h0
      have := h.positive
      rw [h0] at this
      exact absurd this (by decide)
    refine ⟨⟨?_, ?_, ?_, ?_, ?_⟩, ⟨?_, hle, h.small, ?_, ?_⟩, ?_, fun _ => hfirst, rfl, rfl⟩
    · intro g hg
      rcases List.mem_cons.mp hg with rfl | hg
      · rw [Grant.extent, hpages, hdue]
        exact le_roundup _
      · exact hs.large g hg
    · intro g hg
      rcases List.mem_cons.mp hg with rfl | hg
      · rw [hend]
        exact hle
      · exact hs.inside g hg
    · exact List.pairwise_cons.mpr ⟨fun g hg => .inr (h.below g hg), hs.disjoint⟩
    · exact List.pairwise_cons.mpr ⟨fun f hf => UInt32.le_trans (h.above f hf) hup, hs.order⟩
    · intro f hf
      rcases List.mem_cons.mp hf with rfl | hf
      · exact UInt32.le_iff_toNat_le.mpr hle
      · exact hs.bound f hf
    · have := h.positive
      change 0 < first.toNat
      omega
    · intro g hg
      rcases List.mem_cons.mp hg with rfl | hg
      · exact Nat.le_of_eq hend
      · exact Nat.le_trans (h.below g hg) (UInt32.le_iff_toNat_le.mp hup)
    · intro f hf
      rcases List.mem_cons.mp hf with rfl | hf
      · exact UInt32.le_refl _
      · exact UInt32.le_trans (h.above f hf) hup
    · refine iff_of_false hne ?_
      omega

/-- An allocation that wraps around succeeds, with a range that is too short or ends outside. -/
theorem getppages_wraps (h : Tight m) (hdue : m.due.headD 0 = sz)
    (hwrap : ¬ (sz.toNat + 4095 < 4294967296 ∧
      m.ram.firstpaddr.toNat + roundup sz.toNat < 4294967296)) :
    ¬ Sound (m.getppages (regionPages sz)).2 := by
  have hfree := h.free
  have hsmall := h.small
  intro hs
  cases hr : m.getppages (regionPages sz) with | mk paddr m' =>
  have ho := getppages_outcome (regionPages sz) h
  rw [hr] at ho hs
  by_cases hsz : sz.toNat + 4095 < 4294967296
  · have hpages := regionPages_toNat hsz
    have hsum : ¬ m.ram.firstpaddr.toNat + roundup sz.toNat < 4294967296 := fun hlt =>
      hwrap ⟨hsz, hlt⟩
    have hsmallsize : roundup sz.toNat < 4294967296 := by
      unfold roundup
      omega
    cases ho with
    | full hfull =>
      rw [hpages] at hfull
      omega
    | given first hfirst hle =>
      have hin := hs.inside _ List.mem_cons_self
      rw [Grant.extent] at hin
      dsimp only at hin
      omega
  · have hzero := regionPages_wrap hsz
    rw [hzero] at ho
    cases ho with
    | full hfull =>
      change _ < (_ + 0 * 4096 % 4294967296) % 4294967296 at hfull
      omega
    | given first hfirst hle =>
      have hlarge := hs.large _ List.mem_cons_self
      rw [Grant.extent] at hlarge
      dsimp only at hlarge
      rw [hdue] at hlarge
      change sz.toNat ≤ 0 * 4096 at hlarge
      omega

/-! ## One request -/

/-- Allocations for sizes in order, until one finds no room. -/
def takeAll : List UInt32 → Memory → Memory
  | [], m => m
  | sz :: rest, m =>
    let r := m.getppages (regionPages sz)
    if r.1 = 0 then r.2 else takeAll rest r.2

theorem stackpages_eq : dumbvmStackpages = regionPages (dumbvmStackpages * pageSize) := by decide

theorem takeAll_extends (sizes : List UInt32) (m : Memory) : Extends m (takeAll sizes m) := by
  induction sizes generalizing m with
  | nil => exact .refl m
  | cons sz rest ih =>
    have hfirst := getppages_extends (regionPages sz) m
    simp only [takeAll]
    split
    · exact hfirst
    · exact hfirst.trans (ih _)

theorem asPrepareLoad_memory {R : Type} (getppages : UInt32 → R → UInt32 × R) (as : Addrspace)
    (h : as.asPbase1 = 0 ∧ as.asPbase2 = 0 ∧ as.asStackpbase = 0) (r : R) :
    (asPrepareLoad getppages as r).map (fun x => x.2.2) =
      let r1 := getppages as.asNpages1 r
      let r2 := getppages as.asNpages2 r1.2
      let r3 := getppages dumbvmStackpages r2.2
      some (if r1.1 = 0 then r1.2 else if r2.1 = 0 then r2.2 else r3.2) := by
  unfold asPrepareLoad
  rw [if_pos h]
  dsimp only
  split
  · rfl
  · split
    · rfl
    · split <;> rfl

theorem asPrepareLoad_eq (sz1 sz2 : UInt32) {size : UInt32}
    (hsize : dumbvmStackpages = regionPages size) (m : Memory) :
    (asPrepareLoad Memory.getppages (regions sz1 sz2) m).map (fun x => x.2.2) =
      some (takeAll [sz1, sz2, size] m) := by
  have h1 : (regions sz1 sz2).asNpages1 = regionPages sz1 := rfl
  have h2 : (regions sz1 sz2).asNpages2 = regionPages sz2 := rfl
  rw [asPrepareLoad_memory _ _ ⟨rfl, rfl, rfl⟩, h1, h2, hsize]
  simp only [takeAll, ite_self]

theorem step_eq (m : Memory) (q : Request) :
    step m q = some (takeAll q.sizes { m with due := q.sizes }) := by
  cases q with
  | kmalloc sz large =>
    have hlarge : sz ≥ largestSubpageSize := large
    simp only [step, serve, Request.sizes, kmalloc, if_pos hlarge, allocKpages, takeAll,
      ← regionPages_eq]
    split
    · simp
    · simp
  | getppages sz => simp [step, serve, Request.sizes, takeAll]
  | asPrepareLoad sz1 sz2 => exact asPrepareLoad_eq sz1 sz2 stackpages_eq _

/-- What one request does, allocation by allocation. -/
theorem takeAll_sound (h : Tight m) (hs : Sound m) (hdue : m.due = sizes) :
    (Sound (takeAll sizes m) → Tight (takeAll sizes m)) ∧
      (Sound (takeAll sizes m) ↔
        FitsFrom m.ram.firstpaddr.toNat m.ram.lastpaddr.toNat sizes) := by
  induction sizes generalizing m with
  | nil => exact ⟨fun _ => h, iff_of_true hs trivial⟩
  | cons sz rest ih =>
    have hhead : m.due.headD 0 = sz := by
      rw [hdue]
      rfl
    have hback (hall : Sound (takeAll (sz :: rest) m)) :
        Sound (m.getppages (regionPages sz)).2 := by
      simp only [takeAll] at hall
      split at hall
      · exact hall
      · exact hall.of_extends (takeAll_extends _ _)
    by_cases hfit : sz.toNat + 4095 < 4294967296 ∧
        m.ram.firstpaddr.toNat + roundup sz.toNat < 4294967296
    · obtain ⟨hs', ht', hzero, hfirst, hlast, hdue'⟩ := getppages_fits h hs hhead hfit.1 hfit.2
      rw [takeAll, FitsFrom]
      cases hr : m.getppages (regionPages sz) with | mk paddr m' =>
      rw [hr] at hs' ht' hzero hfirst hlast hdue'
      dsimp only at hs' ht' hzero hfirst hlast hdue' ⊢
      by_cases hp : paddr = 0
      · rw [if_pos hp]
        refine ⟨fun _ => ht', iff_of_true hs' ⟨hfit.1, hfit.2, fun hle => ?_⟩⟩
        have := hzero.mp hp
        omega
      · rw [if_neg hp]
        obtain ⟨ihtight, ihiff⟩ := ih ht' hs' (by rw [hdue', hdue, List.tail_cons])
        rw [hfirst hp, hlast] at ihiff
        refine ⟨ihtight, ihiff.trans
          ⟨fun hrest => ⟨hfit.1, hfit.2, fun _ => hrest⟩, fun hall => ?_⟩⟩
        refine hall.2.2 (Nat.not_lt.mp fun hlt => hp (hzero.mpr hlt))
    · have hbad := getppages_wraps h hhead hfit
      refine ⟨fun hall => absurd (hback hall) hbad, iff_of_false (fun hall => hbad (hback hall)) ?_⟩
      intro hx
      obtain ⟨h1, h2, -⟩ := hx
      exact hfit ⟨h1, h2⟩

theorem Sound.congr (h : Sound m) (due : List UInt32) : Sound { m with due } :=
  ⟨h.large, h.inside, h.disjoint, h.order, h.bound⟩

theorem Tight.congr (h : Tight m) (due : List UInt32) : Tight { m with due } :=
  ⟨h.positive, h.free, h.small, h.below, h.above⟩

/-- A memory that is sound is tight as well. -/
def Kept (m : Memory) : Prop := Sound m → Tight m

theorem step_kept {q : Request} (h : Kept m) (hstep : step m q = some m') : Kept m' := by
  rw [step_eq] at hstep
  cases hstep
  intro hs'
  have hs := hs'.of_extends (takeAll_extends _ _)
  have ht : Tight { m with due := q.sizes } := (h (hs.congr m.due)).congr _
  exact (takeAll_sound ht hs rfl).1 hs'

theorem step_sound {q : Request} (h : Kept m) (hs : Sound m) (hstep : step m q = some m') :
    Sound m' ↔ Fits m q := by
  rw [step_eq] at hstep
  cases hstep
  exact (takeAll_sound ((h hs).congr _) (hs.congr _) rfl).2

end Steps

/-- There is memory between the kernel and the end of physical memory. -/
def HasRoom (r : Ram) : Prop := 0 < r.firstpaddr.toNat ∧ r.firstpaddr ≤ r.lastpaddr

theorem boot_sound {ram : Ram} (h : HasRoom ram) : Sound (Memory.boot ram) where
  large g hg := by cases hg
  inside g hg := by cases hg
  disjoint := .nil
  order := List.pairwise_singleton ..
  bound f hf := by
    rw [List.mem_singleton.mp hf]
    exact h.2

theorem boot_tight {mipsRamsize firstfree : UInt32}
    (h : HasRoom (ramBootstrap mipsRamsize firstfree)) :
    Tight (Memory.boot (ramBootstrap mipsRamsize firstfree)) where
  positive := h.1
  free := UInt32.le_iff_toNat_le.mp h.2
  small := by
    change (if mipsRamsize > 508 * 1024 * 1024 then 508 * 1024 * 1024 else mipsRamsize).toNat ≤ _
    split
    · decide
    · next hle => exact UInt32.le_iff_toNat_le.mp (UInt32.not_lt.mp hle)
  below g hg := by cases hg
  above f hf := by
    rw [List.mem_singleton.mp hf]
    exact UInt32.le_refl _

/-- From the bootstrap on, a run of requests of any sizes is sound throughout exactly as long as
no rounding and no sum wraps around. -/
theorem pages_sound_iff {mipsRamsize firstfree : UInt32}
    (h : HasRoom (ramBootstrap mipsRamsize firstfree)) (qs : List Request) :
    Throughout step Sound (Memory.boot (ramBootstrap mipsRamsize firstfree)) qs ↔
      EachStep step Fits (Memory.boot (ramBootstrap mipsRamsize firstfree)) qs :=
  throughout_iff (fun _ _ _ => step_kept) (fun _ _ _ => step_sound) (fun _ => boot_tight h)
    (boot_sound h) qs

instance decidableFitsFrom : ∀ first last sizes, Decidable (FitsFrom first last sizes)
  | _, _, [] => inferInstanceAs (Decidable True)
  | first, last, sz :: rest =>
    have := decidableFitsFrom (first + roundup sz.toNat) last rest
    inferInstanceAs (Decidable (sz.toNat + 4095 < 4294967296 ∧
      first + roundup sz.toNat < 4294967296 ∧
      (first + roundup sz.toNat ≤ last → FitsFrom (first + roundup sz.toNat) last rest)))

instance (m : Memory) (q : Request) : Decidable (Fits m q) := decidableFitsFrom ..

/-- An allocation, a space and one more page; the last request is too large for what is left. -/
def smallRequests : List Request :=
  [.kmalloc 5000 (by decide), .asPrepareLoad 300000 8192, .getppages 100, .getppages 24576]

/-- With 512 kilobytes, and the kernel in the first 128 of them. -/
theorem pages_sound_iff_small :
    HasRoom (ramBootstrap 0x80000 0x80020000) ∧
      EachStep step Fits (Memory.boot (ramBootstrap 0x80000 0x80020000)) smallRequests ∧
      Throughout step Sound (Memory.boot (ramBootstrap 0x80000 0x80020000)) smallRequests :=
  have h : HasRoom (ramBootstrap 0x80000 0x80020000) := ⟨by decide, by decide⟩
  have hfits : EachStep step Fits (Memory.boot (ramBootstrap 0x80000 0x80020000)) smallRequests :=
    by decide +kernel
  ⟨h, hfits, (pages_sound_iff h smallRequests).mpr hfits⟩

/-- `kmalloc(0xfffff000)` succeeds there, and `firstpaddr` goes down; so does
`kmalloc(0xffffffff)`, with no page at all. -/
theorem pages_wrap_small :
    let m := Memory.boot (ramBootstrap 0x80000 0x80020000)
    (∃ m', step m (.kmalloc 0xfffff000 (by decide)) = some m' ∧
      m'.ram.firstpaddr < m.ram.firstpaddr ∧
      m'.granted = [⟨0x20000, 0xfffff, 0xfffff000⟩] ∧ ¬ Sound m') ∧
    (∃ m', step m (.kmalloc 0xffffffff (by decide)) = some m' ∧
      m'.granted = [⟨0x20000, 0, 0xffffffff⟩] ∧ ¬ Sound m') ∧
    ¬ Throughout step Sound m [.kmalloc 0xfffff000 (by decide)] := by
  have hdown : ¬ Sound ⟨⟨0x1f000, 0x80000⟩, [⟨0x20000, 0xfffff, 0xfffff000⟩],
      [0x1f000, 0x20000], []⟩ := by
    intro h
    have := h.inside _ List.mem_cons_self
    exact absurd this (by decide)
  have hnone : ¬ Sound ⟨⟨0x20000, 0x80000⟩, [⟨0x20000, 0, 0xffffffff⟩],
      [0x20000, 0x20000], []⟩ := by
    intro h
    have := h.large _ List.mem_cons_self
    exact absurd this (by decide)
  refine ⟨⟨_, by decide, by decide, rfl, hdown⟩, ⟨_, by decide, rfl, hnone⟩, fun h => ?_⟩
  exact hdown (h.2 _ (by decide))

end Os161.Vm
