import Os161.Filetable.Changes

/-! # The indices of the five arrays

`close` and the search of `open` run to the index 18, and no call but `dup2` tests the range
of a descriptor. -/
namespace Os161.Filetable

variable {V : Type}

/-- What holds in every reachable state. -/
structure Sound (t : Table V) : Prop where
  dup_lt : ∀ i, t.dup i < FILETABLESIZE
  held : ∀ i, (t.filetable i).isNull = false → InArrays i
  parent : ∀ i, t.isdup i = 0 → t.parent i = 0

theorem Sound.boot (con : Option V) : Sound (boot con) where
  dup_lt i := by simp [Filetable.boot, FILETABLESIZE]
  held i hi := by
    cases con with
    | none => simp [Filetable.boot, Vn.isNull] at hi
    | some v =>
      by_cases h : i = 1 ∨ i = 2
      · rcases h with rfl | rfl <;> decide
      · simp [Filetable.boot, h, Vn.isNull] at hi
  parent i _ := rfl

section Walk

variable {dup : Int → Int}

theorem visits_inArrays (hdup : ∀ i, dup i < FILETABLESIZE) (org : Int) (n : Nat) {fd : Int}
    (hfd : InArrays fd) : ∀ i ∈ visits dup org n fd, InArrays i := by
  induction n generalizing fd with
  | zero => intro i hi; simp [visits] at hi
  | succ n ih =>
    intro i hi
    unfold visits at hi
    split_ifs at hi with hnext
    · rcases List.mem_cons.mp hi with rfl | hi
      · exact hfd
      · exact ih ⟨by omega, hdup fd⟩ i hi
    · rw [List.mem_singleton.mp hi]
      exact hfd

theorem walkend_inArrays (hdup : ∀ i, dup i < FILETABLESIZE) {org : Int} {n : Nat}
    {fd last : Int} (hfd : InArrays fd) (h : walkend dup org n fd = some last) :
    InArrays last := by
  induction n generalizing fd with
  | zero => simp [walkend] at h
  | succ n ih =>
    unfold walkend at h
    split_ifs at h with hnext
    · exact ih ⟨by omega, hdup fd⟩ h
    · rw [← Option.some.inj h]
      exact hfd

theorem updateLog_inArrays (hdup : ∀ i, dup i < FILETABLESIZE) {fd : Int}
    (hfd : InArrays fd) : ∀ i ∈ updateLog dup fd, InArrays i := by
  intro i hi
  obtain ⟨j, hj, hij⟩ := List.mem_flatMap.mp hi
  have hin := visits_inArrays hdup fd fuel hfd j hj
  split_ifs at hij with hpos
  · rcases List.mem_pair.mp hij with rfl | rfl
    · exact hin
    · exact ⟨by omega, hdup j⟩
  · rw [List.mem_singleton.mp hij]
    exact hin

end Walk

/-- A slot as `open` leaves it, whatever it holds. -/
theorem Sound.slot {t t' : Table V} (hs : Sound t) (k : Kernel V) {i : Int} {x : Vn V}
    (hin : InArrays i) (hf : t'.filetable = Function.update t.filetable i x)
    (hd : t'.dup = (prepare k t i).dup) (hi : t'.isdup = (prepare k t i).isdup)
    (hp : t'.parent = (prepare k t i).parent) : Sound t' := by
  constructor
  · intro j
    rw [hd]
    by_cases hj : j = i
    · simp [prepare, hj, FILETABLESIZE]
    · simpa [prepare, hj] using hs.dup_lt j
  · intro j hnull
    rw [hf] at hnull
    by_cases hj : j = i
    · exact hj ▸ hin
    · exact hs.held j (by simpa [hj] using hnull)
  · intro j hdup
    rw [hi] at hdup
    rw [hp]
    by_cases hj : j = i
    · simp [prepare, hj]
    · simpa [prepare, hj] using hs.parent j (by simpa [prepare, hj] using hdup)

theorem Sound.change {t t' : Table V} (hs : Sound t) (h : Change t t') : Sound t' := by
  cases h with
  | errno e => exact ⟨hs.dup_lt, hs.held, hs.parent⟩
  | offset offset hfd => exact ⟨hs.dup_lt, hs.held, hs.parent⟩
  | @prepared i k hslot => exact hs.slot k (freeSlot_mem hslot).2.1 rfl rfl rfl rfl
  | @opened i k v hslot =>
    exact hs.slot k (freeSlot_mem hslot).2.1 (Function.update_idem ..) rfl rfl rfl
  | @vacated fd v ticket hin hge hdup hpar hnode =>
    constructor
    · intro j
      by_cases hj : j = fd
      · simp [vacate, hj, FILETABLESIZE]
      · simpa [vacate, closeDups_eq, hj] using hs.dup_lt j
    · intro j hnull
      by_cases hj : j = fd
      · exact hj ▸ hin
      · by_cases hp : InArrays j ∧ t.parent j = fd
        · exact hp.1
        · exact hs.held j (by simpa [vacate, closeDups_eq, hj, hp] using hnull)
    · intro j hzero
      by_cases hp : InArrays j ∧ t.parent j = fd
      · simp [vacate, closeDups_eq, hp]
      · simpa [vacate, closeDups_eq, hp] using
          hs.parent j (by simpa [vacate, closeDups_eq, hp] using hzero)
  | @linked oldfd last newfd hold hnew hopen hw =>
    have hlast := walkend_inArrays hs.dup_lt hold hw
    constructor
    · intro j
      by_cases hj : j = last
      · simpa [linkDup, hj] using hnew.2
      · by_cases hj' : j = newfd
        · subst hj'
          simpa [linkDup, Function.update_of_ne hj] using hold.2
        · simpa [linkDup, hj, hj'] using hs.dup_lt j
    · intro j hnull
      by_cases hj : j = newfd
      · exact hj ▸ hnew
      · exact hs.held j (by simpa [linkDup, hj] using hnull)
    · intro j hzero
      by_cases hj : j = newfd
      · simp [linkDup, hj] at hzero
      · simpa [linkDup, hj] using hs.parent j (by simpa [linkDup, hj] using hzero)

theorem Reach.sound {con : Option V} {t : Table V} (ht : Reach con t) : Sound t :=
  ht.induct Sound (Sound.boot con) fun _ _ hs h => hs.change h

/-! ## Access and rejection -/

def IsOpen (t : Table V) (fd : Int) : Prop := InArrays fd ∧ (t.filetable fd).isNull = false

instance (t : Table V) (fd : Int) : Decidable (IsOpen t fd) :=
  inferInstanceAs (Decidable (InArrays fd ∧ (t.filetable fd).isNull = false))

/-- A descriptor of the call is out of range or not open; `dup2` opens `newfd` itself. -/
def BadDescriptor (t : Table V) : Call → Prop
  | .write fd _ => ¬ IsOpen t fd
  | .openFile => False
  | .close fd => ¬ IsOpen t fd
  | .read fd _ => ¬ IsOpen t fd
  | .lseek fd _ _ => ¬ IsOpen t fd
  | .dup2 oldfd newfd => ¬ IsOpen t oldfd ∨ ¬ InArrays newfd

def SameArrays (t t' : Table V) : Prop :=
  t'.filetable = t.filetable ∧ t'.offset = t.offset ∧ t'.dup = t.dup ∧ t'.isdup = t.isdup ∧
    t'.parent = t.parent

def Rejected (t : Table V) (o : Out V) : Prop :=
  o.result = .ret (-1) true ∧ o.table.errno = Errno.EBADF.code ∧ SameArrays t o.table

/-- The call stays in the arrays and rejects a bad descriptor. -/
def Contained (k : Kernel V) (t : Table V) (c : Call) : Prop :=
  (∀ i ∈ (perform k t c).log, InArrays i) ∧
    (BadDescriptor t c → Rejected t (perform k t c))

/-- A slot that `open` may take. -/
def IsFree (t : Table V) (i : Int) : Prop :=
  3 ≤ i ∧ InArrays i ∧ (t.filetable i).isNull = true ∧ t.isdup i = 0

/-- `close(fd)` goes through the table. -/
def Closes (t : Table V) (fd : Int) : Prop := 3 ≤ fd ∧ IsOpen t fd ∧ t.isdup fd = 0

/-- The calls that stay in the arrays. -/
def StaysInside (t : Table V) : Call → Prop
  | .write fd _ => InArrays fd
  | .openFile => ∃ i, IsFree t i
  | .close fd => InArrays fd ∧ ¬ Closes t fd
  | .read fd _ => InArrays fd
  | .lseek fd _ _ => InArrays fd ∧ (fd < 3 → IsOpen t fd)
  | .dup2 oldfd newfd =>
    ((oldfd < 0 ∨ oldfd > FILETABLESIZE) ∨ (newfd < 0 ∨ newfd > FILETABLESIZE)) ∨
      (InArrays oldfd ∧ InArrays newfd ∧ ¬ Closes t newfd ∧
        (IsOpen t newfd → IsOpen t oldfd))

theorem rejected_fail (t : Table V) (log : List Int) : Rejected t (fail t log .EBADF) :=
  ⟨rfl, rfl, rfl, rfl, rfl, rfl, rfl⟩

theorem isNull_inArrays (k : Kernel V) (t : Table V) {fd : Int} (h : InArrays fd) :
    isNull k t fd = (t.filetable fd).isNull := by simp [isNull, h]

theorem isOpen_iff (k : Kernel V) (t : Table V) {fd : Int} (h : InArrays fd) :
    IsOpen t fd ↔ isNull k t fd = false := by simp [IsOpen, isNull, h]

theorem transferred_log (t : Table V) (log : List Int) (fd n : Int) :
    (transferred t log fd n).log = log ++ fd :: updateLog t.dup fd := by
  unfold transferred
  split <;> rfl

theorem not_inArrays_size : ¬ InArrays FILETABLESIZE := by decide

theorem isFree_of_freeSlot {t : Table V} {i : Int} (h : freeSlot t = some i) : IsFree t i :=
  freeSlot_mem h

theorem freeSlot_of_isFree {t : Table V} {i : Int} (h : IsFree t i) :
    ∃ j, freeSlot t = some j := by
  have hmem : i ∈ (List.range' 3 15).map Int.ofNat := by
    have h3 := h.1
    have h18 := h.2.1.2
    simp only [FILETABLESIZE] at h18
    simp only [List.mem_map, List.mem_range']
    refine ⟨i.toNat, ⟨i.toNat - 3, by omega, by omega⟩, Int.toNat_of_nonneg (by omega)⟩
  rw [← Option.isSome_iff_exists]
  refine List.find?_isSome.mpr ⟨i, hmem, ?_⟩
  simp [h.2.2.1, h.2.2.2]

theorem mem_scanned {i j : Int} (hi : 3 ≤ i) : j ∈ scanned i ↔ 3 ≤ j ∧ j ≤ i := by
  simp only [scanned, List.mem_map, List.mem_range']
  constructor
  · intro hx
    obtain ⟨n, ⟨m, hm, rfl⟩, rfl⟩ := hx
    simp only [Int.ofNat_eq_natCast]
    omega
  · intro hx
    obtain ⟨h3, hj⟩ := hx
    exact ⟨j.toNat, ⟨j.toNat - 3, by omega, by omega⟩, Int.toNat_of_nonneg (by omega)⟩

/-! ## Call by call -/

theorem transferred_contained {t : Table V} (hs : Sound t) {fd : Int} (hfd : InArrays fd)
    (n : Int) : ∀ i ∈ (transferred t [fd] fd n).log, InArrays i := by
  intro i hi
  rw [transferred_log] at hi
  simp only [List.singleton_append, List.mem_cons] at hi
  rcases hi with rfl | rfl | hi
  · exact hfd
  · exact hfd
  · exact updateLog_inArrays hs.dup_lt hfd i hi

theorem write_log (k : Kernel V) (t : Table V) {fd : Int} (h0 : fd ≠ 0) (nbytes : Nat) :
    fd ∈ (write k t fd nbytes).log := by
  unfold write
  rw [if_neg h0]
  split_ifs
  · simp
  · cases hc : k.copyin with
    | some e => simp
    | none => cases hw : k.vopWrite <;> simp [transferred_log]
  · cases hc : k.copyin <;> simp

theorem write_contained {k : Kernel V} {t : Table V} (hs : Sound t) (fd : Int)
    (nbytes : Nat) : Contained k t (.write fd nbytes) ↔ InArrays fd := by
  constructor
  · intro h
    by_cases h0 : fd = 0
    · subst h0
      decide
    · exact h.1 fd (write_log k t h0 nbytes)
  · intro hfd
    by_cases h0 : fd = 0
    · have hw : write k t fd nbytes = fail t [] .EBADF := if_pos h0
      exact ⟨by simp [perform, hw], fun _ => by simpa [perform, hw] using rejected_fail t []⟩
    · cases hnull : isNull k t fd with
      | true =>
        have hw : write k t fd nbytes = fail t [fd] .EBADF := by simp [write, h0, hnull]
        exact ⟨by simp [perform, hw, hfd], fun _ => by
          simpa [perform, hw] using rejected_fail t [fd]⟩
      | false =>
        refine ⟨?_, fun hbad => absurd ((isOpen_iff k t hfd).mpr hnull) hbad⟩
        simp only [perform, write, h0, hnull, if_false, Bool.false_eq_true]
        cases hc : k.copyin with
        | some e => simp [hfd]
        | none =>
          by_cases hh : Holds t fd
          · cases hw : k.vopWrite with
            | some e => simp [hh, hfd]
            | none => simpa only [hh, if_true] using transferred_contained hs hfd nbytes
          · simp [hh, hfd]

theorem read_log (k : Kernel V) (t : Table V) (fd : Int) (buflen : Nat) :
    fd ∈ (read k t fd buflen).log := by
  unfold read
  split_ifs
  · simp
  · simp
  · cases hr : k.vopRead <;> simp [transferred_log]
  · simp
  · simp

theorem read_contained {k : Kernel V} {t : Table V} (hs : Sound t) (fd : Int)
    (buflen : Nat) : Contained k t (.read fd buflen) ↔ InArrays fd := by
  constructor
  · intro h
    exact h.1 fd (read_log k t fd buflen)
  · intro hfd
    cases hnull : isNull k t fd with
    | true =>
      have hr : read k t fd buflen = fail t [fd] .EBADF := by simp [read, hnull]
      exact ⟨by simp [perform, hr, hfd], fun _ => by
        simpa [perform, hr] using rejected_fail t [fd]⟩
    | false =>
      refine ⟨?_, fun hbad => absurd ((isOpen_iff k t hfd).mpr hnull) hbad⟩
      simp only [perform, read, hnull, if_false, Bool.false_eq_true]
      split_ifs
      · simp [hfd]
      · cases hr : k.vopRead with
        | some e => simp [hfd]
        | none => exact transferred_contained hs hfd _
      · simp [hfd]
      · simp [hfd]

theorem close_rejects (k : Kernel V) {t : Table V} {fd : Int} (hfd : InArrays fd)
    (h : ¬ Closes t fd) : ∃ log, close k t fd = fail t log .EBADF ∧ ∀ i ∈ log, i = fd := by
  by_cases hstd : fd = 0 ∨ fd = 1 ∨ fd = 2
  · exact ⟨[], if_pos hstd, by simp⟩
  · by_cases hnull : isNull k t fd = true
    · exact ⟨[fd], by simp [close, hstd, hnull], by simp⟩
    · have hdup : isdupAt k t fd ≠ 0 := by
        intro hzero
        have hge := hfd.1
        exact h ⟨by omega, (isOpen_iff k t hfd).mpr (by simpa using hnull),
          by simpa [isdupAt, hfd] using hzero⟩
      exact ⟨[fd], by simp [close, hstd, hnull, hdup], by simp⟩

theorem close_log (k : Kernel V) (t : Table V) {fd : Int}
    (hstd : ¬ (fd = 0 ∨ fd = 1 ∨ fd = 2)) : fd ∈ (close k t fd).log := by
  unfold close
  rw [if_neg hstd]
  split_ifs
  · simp
  · simp
  · cases (closeDups t fd).filetable fd <;> simp
  · simp

theorem close_log_size (k : Kernel V) {t : Table V} {fd : Int} (h : Closes t fd) :
    FILETABLESIZE ∈ (close k t fd).log := by
  have hstd : ¬ (fd = 0 ∨ fd = 1 ∨ fd = 2) := by
    have := h.1
    omega
  have hnull : isNull k t fd = false := (isOpen_iff k t h.2.1.1).mp h.2.1
  have hdup : isdupAt k t fd = 0 := by simpa [isdupAt, h.2.1.1] using h.2.2
  have hmem : FILETABLESIZE ∈ fd :: (List.range 19).map Int.ofNat :=
    List.mem_cons_of_mem _ (by decide)
  simp only [close, if_neg hstd, hnull, hdup, ne_eq, not_true_eq_false, if_false,
    Bool.false_eq_true]
  split_ifs
  · cases (closeDups t fd).filetable fd <;> exact hmem
  · exact hmem

theorem close_contained (k : Kernel V) (t : Table V) (fd : Int) :
    Contained k t (.close fd) ↔ InArrays fd ∧ ¬ Closes t fd := by
  constructor
  · intro h
    refine ⟨?_, fun hc => not_inArrays_size (h.1 _ (close_log_size k hc))⟩
    by_cases hstd : fd = 0 ∨ fd = 1 ∨ fd = 2
    · rcases hstd with rfl | rfl | rfl <;> decide
    · exact h.1 fd (close_log k t hstd)
  · intro hx
    obtain ⟨hfd, hc⟩ := hx
    obtain ⟨log, hclose, hlog⟩ := close_rejects k hfd hc
    constructor
    · intro i hi
      simp only [perform, hclose, fail_log] at hi
      exact (hlog i hi) ▸ hfd
    · intro _
      simpa only [perform, hclose] using rejected_fail t log

theorem lseek_log (k : Kernel V) (t : Table V) {fd : Int}
    (hstd : ¬ (fd = 0 ∨ fd = 1 ∨ fd = 2)) (pos whence : Int) :
    (lseek k t fd pos whence).log = [fd] := by
  unfold lseek
  rw [if_neg hstd]
  split_ifs
  · rfl
  · cases k.vopTryseek with
    | some e => rfl
    | none =>
      cases seekTo k.stSize (t.offset fd) pos whence with
      | none => rfl
      | some p =>
        by_cases hp : p < 0
        · simp [hp]
        · simp [hp]
  · rfl

theorem lseek_contained (k : Kernel V) (t : Table V) (fd pos whence : Int) :
    Contained k t (.lseek fd pos whence) ↔ InArrays fd ∧ (fd < 3 → IsOpen t fd) := by
  by_cases hstd : fd = 0 ∨ fd = 1 ∨ fd = 2
  · have hl : lseek k t fd pos whence = fail t [] .ESPIPE := if_pos hstd
    have hfd : InArrays fd := by rcases hstd with rfl | rfl | rfl <;> decide
    constructor
    · intro h
      refine ⟨hfd, fun _ => ?_⟩
      by_contra hbad
      have herr := (h.2 hbad).2.1
      simp only [perform, hl, fail_table] at herr
      exact absurd herr (by decide)
    · intro hx
      obtain ⟨-, hopen⟩ := hx
      exact ⟨by simp [perform, hl], fun hbad => absurd (hopen (by omega)) hbad⟩
  · constructor
    · intro h
      have hfd := h.1 fd (by simp [perform, lseek_log k t hstd])
      have hge := hfd.1
      exact ⟨hfd, fun hlt => by omega⟩
    · intro hx
      obtain ⟨hfd, -⟩ := hx
      refine ⟨by simp [perform, lseek_log k t hstd, hfd], fun hbad => ?_⟩
      have hnull : isNull k t fd = true := by
        by_contra hn
        exact hbad ((isOpen_iff k t hfd).mpr (by simpa using hn))
      simpa [perform, lseek, hstd, hnull] using rejected_fail t [fd]

theorem openFile_contained (k : Kernel V) (t : Table V) :
    Contained k t .openFile ↔ ∃ i, IsFree t i := by
  cases hslot : freeSlot t with
  | none =>
    constructor
    · intro h
      have hlog : (openFile k t).log = scanned FILETABLESIZE := by
        unfold openFile
        rw [hslot]
        dsimp only
        split_ifs <;> rfl
      refine absurd (h.1 FILETABLESIZE ?_) not_inArrays_size
      rw [perform, hlog]
      decide
    · intro hx
      obtain ⟨i, hi⟩ := hx
      obtain ⟨j, hj⟩ := freeSlot_of_isFree hi
      rw [hslot] at hj
      cases hj
  | some i =>
    have hi := isFree_of_freeSlot hslot
    have hlog : (openFile k t).log = scanned i := by
      unfold openFile
      rw [hslot]
      cases k.vfsOpen <;> rfl
    refine ⟨fun _ => ⟨i, hi⟩, fun _ => ⟨fun j hj => ?_, False.elim⟩⟩
    rw [perform, hlog, mem_scanned hi.1] at hj
    have hlt := hi.2.1.2
    exact ⟨by omega, by omega⟩

theorem duplicate_log (k : Kernel V) (t : Table V) (log : List Int) (oldfd newfd : Int) :
    log ⊆ (duplicate k t log oldfd newfd).log ∧
      oldfd ∈ (duplicate k t log oldfd newfd).log := by
  unfold duplicate
  split_ifs
  · simp
  · cases walkend t.dup oldfd fuel oldfd <;> simp
  · cases walkend t.dup oldfd fuel oldfd <;> simp
  · simp

theorem duplicate_contained {k : Kernel V} {t : Table V} (hs : Sound t) {oldfd newfd : Int}
    (hold : InArrays oldfd) (hnew : InArrays newfd) :
    (∀ i ∈ (duplicate k t [newfd] oldfd newfd).log, InArrays i) ∧
      (¬ IsOpen t oldfd → Rejected t (duplicate k t [newfd] oldfd newfd)) := by
  cases hnull : isNull k t oldfd with
  | true =>
    have hd : duplicate k t [newfd] oldfd newfd = fail t [newfd, oldfd] .EBADF := by
      simp [duplicate, hnull]
    rw [hd]
    exact ⟨by simp [hold, hnew], fun _ => rejected_fail t _⟩
  | false =>
    have hopen : IsOpen t oldfd := (isOpen_iff k t hold).mpr hnull
    refine ⟨?_, fun hbad => absurd hopen hbad⟩
    have hvisits := visits_inArrays hs.dup_lt oldfd fuel hold
    intro i hi
    have hmem : i = newfd ∨ i = oldfd ∨ i ∈ visits t.dup oldfd fuel oldfd := by
      simp only [duplicate, hnull, if_false, hold, hnew, if_true, Bool.false_eq_true] at hi
      cases hw : walkend t.dup oldfd fuel oldfd <;> simp [hw] at hi <;> tauto
    rcases hmem with rfl | rfl | hi
    · exact hnew
    · exact hold
    · exact hvisits i hi

theorem dup2_log (k : Kernel V) (t : Table V) {oldfd newfd : Int}
    (hrange : ¬ ((oldfd < 0 ∨ oldfd > FILETABLESIZE) ∨ (newfd < 0 ∨ newfd > FILETABLESIZE))) :
    newfd ∈ (dup2 k t oldfd newfd).log ∧
      (isNull k t newfd = false → (close k t newfd).log ⊆ (dup2 k t oldfd newfd).log) := by
  unfold dup2
  rw [if_neg hrange]
  cases hnull : isNull k t newfd with
  | true =>
    simp only [if_true]
    exact ⟨(duplicate_log k t _ oldfd newfd).1 (by simp), fun h => by cases h⟩
  | false =>
    simp only [if_false, Bool.false_eq_true]
    cases hc : (close k t newfd).result with
    | ret r b =>
      dsimp only
      split_ifs with hr
      · simp
      · have hlog := (duplicate_log k { (close k t newfd).table with errno := r }
          (newfd :: (close k t newfd).log) oldfd newfd).1
        exact ⟨hlog (by simp), fun _ i hi => hlog (List.mem_cons_of_mem _ hi)⟩
    | undefined => simp
    | diverges => simp
    | halts => simp

theorem dup2_contained {k : Kernel V} {t : Table V} (hs : Sound t) (oldfd newfd : Int) :
    Contained k t (.dup2 oldfd newfd) ↔ StaysInside t (.dup2 oldfd newfd) := by
  by_cases hrange :
      (oldfd < 0 ∨ oldfd > FILETABLESIZE) ∨ (newfd < 0 ∨ newfd > FILETABLESIZE)
  · have hd : dup2 k t oldfd newfd = fail t [] .EBADF := if_pos hrange
    exact ⟨fun _ => .inl hrange, fun _ => ⟨by simp [perform, hd], fun _ => by
      simpa [perform, hd] using rejected_fail t []⟩⟩
  · have hlog := dup2_log k t hrange
    -- outside of `Closes`, an open `newfd` makes `close` fail
    have hfails (hnew : InArrays newfd) (hc : ¬ Closes t newfd)
        (hnull : isNull k t newfd = false) :
        ∃ log, dup2 k t oldfd newfd =
          { log := newfd :: log, table := { t with errno := -1 }, result := .ret (-1) true } ∧
          ∀ i ∈ log, i = newfd := by
      obtain ⟨log, hclose, hmem⟩ := close_rejects k hnew hc
      exact ⟨log, by simp [dup2, if_neg hrange, hnull, hclose], hmem⟩
    constructor
    · intro h
      refine .inr ?_
      have hnew := h.1 newfd hlog.1
      cases hnull : isNull k t newfd with
      | true =>
        have hd : dup2 k t oldfd newfd = duplicate k t [newfd] oldfd newfd := by
          simp [dup2, if_neg hrange, hnull]
        have hclosed : ¬ IsOpen t newfd := by
          rw [isOpen_iff k t hnew, hnull]
          decide
        refine ⟨h.1 oldfd ?_, hnew, fun hc => hclosed hc.2.1, fun ho => absurd ho hclosed⟩
        rw [perform, hd]
        exact (duplicate_log k t _ oldfd newfd).2
      | false =>
        have hc : ¬ Closes t newfd := fun hc =>
          not_inArrays_size (h.1 _ (hlog.2 hnull (close_log_size k hc)))
        obtain ⟨log, hd, -⟩ := hfails hnew hc hnull
        have hopen : IsOpen t oldfd := by
          by_contra hbad
          have herr := (h.2 (.inl hbad)).2.1
          simp only [perform, hd] at herr
          exact absurd herr (by decide)
        exact ⟨hopen.1, hnew, hc, fun _ => hopen⟩
    · intro hx
      rcases hx with hout | ⟨hold, hnew, hc, himp⟩
      · exact absurd hout hrange
      · cases hnull : isNull k t newfd with
        | true =>
          have hd : dup2 k t oldfd newfd = duplicate k t [newfd] oldfd newfd := by
            simp [dup2, if_neg hrange, hnull]
          have hdup := duplicate_contained (k := k) hs hold hnew
          refine ⟨by simpa only [perform, hd] using hdup.1, ?_⟩
          intro hx
          rcases hx with hbad | hbad
          · simpa only [perform, hd] using hdup.2 hbad
          · exact absurd hnew hbad
        | false =>
          obtain ⟨log, hd, hmem⟩ := hfails hnew hc hnull
          constructor
          · intro i hi
            simp only [perform, hd, List.mem_cons] at hi
            rcases hi with rfl | hi
            · exact hnew
            · exact hmem i hi ▸ hnew
          · intro hx
            rcases hx with hbad | hbad
            · exact absurd (himp ((isOpen_iff k t hnew).mpr hnull)) hbad
            · exact absurd hnew hbad

/-- The calls that touch the arrays at their indices only and turn away every bad
descriptor. -/
theorem contained_iff {con : Option V} {t : Table V} (ht : Reach con t) (k : Kernel V)
    (c : Call) : Contained k t c ↔ StaysInside t c := by
  have hs := ht.sound
  cases c with
  | write fd nbytes => exact write_contained hs fd nbytes
  | openFile => exact openFile_contained k t
  | close fd => exact close_contained k t fd
  | read fd buflen => exact read_contained hs fd buflen
  | lseek fd pos whence => exact lseek_contained k t fd pos whence
  | dup2 oldfd newfd => exact dup2_contained hs oldfd newfd

/-- A kernel in which every call succeeds on files of 100 bytes and every stray word
is 0. -/
def calm : Kernel Unit :=
  { kmalloc := true
    copyin := none
    vopWrite := none
    vopRead := none
    vopTryseek := none
    stSize := 100
    vfsOpen := .ok ()
    vfsChdir := none
    vfsGetcwd := .ok 0
    strayNull := fun _ => true
    strayIsdup := fun _ => 0
    strayParent := fun _ => 0 }

/-- After one `open`, which gives the descriptor 3. -/
def oneFile : Table Unit := (openFile calm (boot (some ()))).table

theorem oneFile_reach : Reach (some ()) oneFile := .step .boot (k := calm) (c := .openFile) rfl

theorem contained_iff_oneFile :
    (Contained calm oneFile (.write 3 10) ↔ StaysInside oneFile (.write 3 10)) ∧
      (Contained calm oneFile (.close 3) ↔ StaysInside oneFile (.close 3)) :=
  ⟨contained_iff oneFile_reach calm (.write 3 10), contained_iff oneFile_reach calm (.close 3)⟩

/-- `close` of an opened descriptor reads `filetable_parent[18]`. -/
theorem close_outside :
    ¬ ∀ t, Reach (some ()) t → ∀ (k : Kernel Unit) (c : Call), Contained k t c := by
  intro h
  have hc := h oneFile oneFile_reach calm (.close 3)
  rw [close_contained] at hc
  exact hc.2 ⟨by decide, ⟨by decide, by decide⟩, by decide⟩

end Os161.Filetable
