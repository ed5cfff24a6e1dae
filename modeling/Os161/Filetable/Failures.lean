import Os161.Filetable.Vnodes

/-! # Opens that fail

`open` takes its slot before it calls `vfs_open`, and gives it back to nobody. -/
namespace Os161.Filetable

open Os161.Runs

variable {V : Type}

/-- The same descriptors are open, the same slots can be taken, and no call accepts a slot
that `open` may have tried. -/
structure SameDescriptors (t t' : Table V) : Prop where
  opened : ∀ fd, IsOpen t' fd ↔ IsOpen t fd
  slots : ∀ i, IsFree t' i ↔ IsFree t i
  write : ∀ i, IsFree t i → ∀ k nbytes, Rejected t' (write k t' i nbytes)
  read : ∀ i, IsFree t i → ∀ k buflen, Rejected t' (read k t' i buflen)
  close : ∀ i, IsFree t i → ∀ k, Rejected t' (close k t' i)

/-- A call of `open` that returns -1. -/
def failingOpen (t : Table V) (k : Kernel V) : Option (Table V) :=
  match (openFile k t).result with
  | .ret r _ => if r = -1 then some (openFile k t).table else none
  | _ => none

/-- There is no slot to take, or no memory for the slot. -/
def LeavesSlot (t : Table V) (k : Kernel V) : Prop := (∃ i, IsFree t i) → k.kmalloc = false

theorem IsFree.not_isOpen {t : Table V} {i : Int} (h : IsFree t i) : ¬ IsOpen t i := by
  intro hopen
  rw [IsOpen, h.2.2.1] at hopen
  cases hopen.2

/-- A slot that is no descriptor is refused. -/
theorem sameDescriptors_of {t t' : Table V} (hs : Sound t')
    (hopened : ∀ fd, IsOpen t' fd ↔ IsOpen t fd) (hslots : ∀ i, IsFree t' i ↔ IsFree t i) :
    SameDescriptors t t' where
  opened := hopened
  slots := hslots
  write i hi k nbytes := ((write_contained hs i nbytes).mpr hi.2.1).2
    (mt (hopened i).mp hi.not_isOpen)
  read i hi k buflen := ((read_contained hs i buflen).mpr hi.2.1).2
    (mt (hopened i).mp hi.not_isOpen)
  close i hi k := by
    have hclosed : ¬ Closes t' i := fun hc => hi.not_isOpen ((hopened i).mp hc.2.1)
    obtain ⟨log, hclose, -⟩ := close_rejects k hi.2.1 hclosed
    rw [hclose]
    exact rejected_fail t' log

theorem SameDescriptors.refl {t : Table V} (hs : Sound t) : SameDescriptors t t :=
  sameDescriptors_of hs (fun _ => Iff.rfl) fun _ => Iff.rfl

/-- How a failing `open` leaves the table. -/
theorem failingOpen_cases {k : Kernel V} {t t' : Table V} (h : failingOpen t k = some t') :
    (freeSlot t = none ∧ t' = { t with errno := Errno.EMFILE.code }) ∨
    (∃ i e, freeSlot t = some i ∧ t' = { prepare k t i with errno := e }) := by
  unfold failingOpen at h
  cases hslot : freeSlot t with
  | none =>
    refine .inl ⟨rfl, ?_⟩
    unfold openFile at h
    by_cases hstray : k.strayNull FILETABLESIZE ∧ k.strayIsdup FILETABLESIZE = 0
    · simp only [hslot, if_pos hstray] at h
      cases h
    · simp only [hslot, if_neg hstray, fail_result, fail_table, if_true] at h
      exact (Option.some.inj h).symm
  | some i =>
    refine .inr ⟨i, ?_⟩
    unfold openFile at h
    cases hv : k.vfsOpen with
    | error e =>
      refine ⟨e.code, rfl, ?_⟩
      simp only [hslot, hv, fail_result, fail_table, if_true] at h
      exact (Option.some.inj h).symm
    | ok v =>
      have hge := (freeSlot_mem hslot).1
      have hne : i ≠ -1 := by omega
      simp only [hslot, hv, if_neg hne] at h
      cases h

theorem failingOpen_stepOn {k : Kernel V} {t t' : Table V} (h : failingOpen t k = some t') :
    stepOn t (k, .openFile) = some t' := by
  unfold failingOpen at h
  unfold stepOn step perform
  cases hr : (openFile k t).result with
  | ret r b =>
    rw [hr] at h
    dsimp only at h ⊢
    split_ifs at h
    exact h
  | _ =>
    rw [hr] at h
    cases h

theorem isOpen_prepared (k : Kernel V) {t : Table V} {i : Int} (hi : IsFree t i) (e fd : Int) :
    IsOpen { prepare k t i with errno := e } fd ↔
      IsOpen t fd ∨ (fd = i ∧ k.kmalloc = true) := by
  by_cases hfd : fd = i
  · subst hfd
    have hclosed := hi.not_isOpen
    cases hk : k.kmalloc <;> simp [hclosed] <;> simp [IsOpen, prepare, hk, hi.2.1, Vn.isNull]
  · simp [IsOpen, prepare, hfd]

theorem isFree_prepared {k : Kernel V} {t : Table V} {i : Int} (hi : IsFree t i)
    (hk : k.kmalloc = false) (e j : Int) :
    IsFree { prepare k t i with errno := e } j ↔ IsFree t j := by
  by_cases hj : j = i
  · subst hj
    refine iff_of_true ⟨hi.1, hi.2.1, ?_, ?_⟩ hi
    · simp [prepare, hk, Vn.isNull]
    · simp [prepare]
  · simp [IsFree, prepare, hj]

theorem failingOpen_sameDescriptors {t s s' : Table V} {k : Kernel V} (hs' : Sound s')
    (h : SameDescriptors t s) (hstep : failingOpen s k = some s') :
    SameDescriptors t s' ↔ LeavesSlot s k := by
  obtain ⟨hslot, rfl⟩ | ⟨i, e, hslot, rfl⟩ := failingOpen_cases hstep
  · refine iff_of_true (sameDescriptors_of hs' h.opened h.slots) ?_
    intro hx
    obtain ⟨i, hi⟩ := hx
    obtain ⟨j, hj⟩ := freeSlot_of_isFree hi
    rw [hslot] at hj
    cases hj
  · have hi := isFree_of_freeSlot hslot
    constructor
    · intro h' _
      by_contra hk
      have hopen := (isOpen_prepared k hi e i).mpr (.inr ⟨rfl, by simpa using hk⟩)
      exact hi.not_isOpen ((h.opened i).mpr ((h'.opened i).mp hopen))
    · intro hleaves
      have hk := hleaves ⟨i, hi⟩
      refine sameDescriptors_of hs' (fun fd => ?_) fun j => ?_
      · rw [isOpen_prepared k hi, ← h.opened fd, hk]
        simp
      · rw [isFree_prepared hi hk, h.slots j]

/-- Any number of failing opens leaves the descriptors as they were exactly if each of them
finds no slot or no memory. -/
theorem failing_opens_iff {con : Option V} {t : Table V} (ht : Reach con t)
    (ks : List (Kernel V)) :
    Throughout failingOpen (SameDescriptors t) t ks ↔ EachStep failingOpen LeavesSlot t ks := by
  have hreach (s : Table V) (k : Kernel V) (s' : Table V) (hs : Reach con s)
      (hstep : failingOpen s k = some s') : Reach con s' :=
    Reach.stepOn s (k, .openFile) s' hs (failingOpen_stepOn hstep)
  exact throughout_iff (G := Reach con) hreach
    (fun s k s' hs h hstep =>
      failingOpen_sameDescriptors (hreach s k s' hs hstep).sound h hstep)
    ht (.refl ht.sound) ks

/-- A kernel in which no file can be opened. -/
def missing : Kernel Unit := { calm with vfsOpen := .error (.other 16) }

theorem failing_opens_iff_boot :
    Throughout failingOpen (SameDescriptors (boot (some ()))) (boot (some ())) [missing] ↔
      EachStep failingOpen LeavesSlot (boot (some ())) [missing] :=
  failing_opens_iff (Reach.boot : Reach (some ()) _) [missing]

/-- The slot of an `open` that failed looks open. -/
theorem slot_lost :
    ¬ ∀ t, Reach (some ()) t → ∀ ks : List (Kernel Unit),
      Throughout failingOpen (SameDescriptors t) t ks := by
  intro h
  have hrun := h _ .boot [missing]
  obtain ⟨t, ht⟩ : ∃ t, failingOpen (boot (some ())) missing = some t := ⟨_, rfl⟩
  have hsame := (hrun.2 t ht).head
  obtain rfl := Option.some.inj ht
  exact absurd ((hsame.opened 3).mp (by decide)) (by decide)

end Os161.Filetable
