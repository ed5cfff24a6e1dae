import Os161.Filetable.Traps
import Mathlib.Combinatorics.Pigeonhole
import Mathlib.Logic.Function.Iterate
import Mathlib.Order.Interval.Finset.Basic
import Mathlib.Data.Int.Interval

/-! # What a system call reports

An error of a call is a return value -1 with the number in `file_errno`. -/
namespace Os161.Filetable

variable {V : Type}

/-! ## The end of the list of duplicates -/

section Walk

variable {dup : Int → Int}

/-- The loop over the duplicates of `fd` ends. -/
def Ends (dup : Int → Int) (fd : Int) : Prop := ∃ n, walkend dup fd n fd ≠ none

theorem walkend_eq_none {org : Int} {n : Nat} {fd : Int} :
    walkend dup org n fd = none ↔
      ∀ j < n, 0 < dup^[j + 1] fd ∧ dup^[j + 1] fd ≠ org := by
  induction n generalizing fd with
  | zero => simp [walkend]
  | succ n ih =>
    unfold walkend
    split_ifs with hnext
    · rw [ih]
      constructor
      · intro h j hj
        cases j with
        | zero => exact hnext
        | succ j => exact h j (by omega)
      · intro h j hj
        exact h (j + 1) (by omega)
    · constructor
      · intro h
        cases h
      · intro h
        exact absurd (h 0 (Nat.succ_pos n)) hnext

/-- A walk of `fuel` steps has met some descriptor twice and goes round for ever. -/
theorem walkend_of_fuel (hdup : ∀ i, dup i < FILETABLESIZE) {org fd : Int}
    (h : walkend dup org fuel fd = none) (n : Nat) : walkend dup org n fd = none := by
  rw [walkend_eq_none] at h ⊢
  have hrange (j : Nat) (hj : j < fuel) : dup^[j + 1] fd ∈ Finset.Icc (1 : Int) 17 := by
    have hpos := (h j hj).1
    have hlt := hdup (dup^[j] fd)
    rw [← Function.iterate_succ_apply' dup j fd, FILETABLESIZE] at hlt
    rw [Finset.mem_Icc]
    change dup^[j + 1] fd < 18 at hlt
    omega
  obtain ⟨a, ha, b, hb, hne, hab⟩ :=
    Finset.exists_ne_map_eq_of_card_lt_of_maps_to (s := Finset.range fuel)
      (t := Finset.Icc (1 : Int) 17) (f := fun j => dup^[j + 1] fd) (by decide)
      (fun j hj => hrange j (Finset.mem_range.mp hj))
  -- the walk repeats with the period `q - p`
  obtain ⟨p, q, hpq, hq, hrep⟩ : ∃ p q, p < q ∧ q < fuel ∧ dup^[p + 1] fd = dup^[q + 1] fd := by
    rcases lt_or_gt_of_ne hne with hlt | hlt
    · exact ⟨a, b, hlt, Finset.mem_range.mp hb, hab⟩
    · exact ⟨b, a, hlt, Finset.mem_range.mp ha, hab.symm⟩
  have hall : ∀ m, 0 < dup^[m + 1] fd ∧ dup^[m + 1] fd ≠ org := by
    intro m
    induction m using Nat.strong_induction_on with
    | _ m ih =>
      by_cases hm : m < fuel
      · exact h m hm
      · have hback : dup^[m + 1] fd = dup^[(m - (q - p)) + 1] fd := by
          have hq' : m + 1 = (m - q) + (q + 1) := by omega
          have hp' : (m - (q - p)) + 1 = (m - q) + (p + 1) := by omega
          rw [hq', hp', Function.iterate_add_apply, ← hrep, ← Function.iterate_add_apply]
        rw [hback]
        exact ih _ (by omega)
  exact fun j _ => hall j

theorem ends_iff (hdup : ∀ i, dup i < FILETABLESIZE) (fd : Int) :
    Ends dup fd ↔ walkend dup fd fuel fd ≠ none :=
  ⟨fun ⟨n, hn⟩ h => hn (walkend_of_fuel hdup h n), fun h => ⟨fuel, h⟩⟩

/-- `updateoffset` makes the same steps as the loop of `dup2`. -/
theorem updateoffset_eq_none (dup : Int → Int) (org : Int) (n : Nat) (fd : Int)
    (offset : Int → Int) :
    updateoffset dup org n fd offset = none ↔ walkend dup org n fd = none := by
  induction n generalizing fd offset with
  | zero => simp [updateoffset, walkend]
  | succ n ih =>
    unfold updateoffset walkend
    by_cases hpos : dup fd > 0
    · by_cases horg : org = dup fd
      · subst horg
        simp [hpos]
      · have hne : dup fd ≠ org := fun h => horg h.symm
        simp only [hpos, horg, hne, if_true, if_false, ne_eq, not_false_eq_true, and_self]
        exact ih _ _
    · simp [hpos]

end Walk

/-! ## What is delivered -/

/-- The program sees a failure as one, with a positive number, and a success as its
value. -/
def Delivered (o : Out V) (tf : Option Trapframe) : Prop :=
  match o.result with
  | .ret _ true => ∃ r, tf = some r ∧ r.a3 = 1 ∧ 0 < r.v0
  | .ret retval false => ∃ r, tf = some r ∧ r.a3 = 0 ∧ r.v0 = retval
  | .halts => True
  | .undefined => False
  | .diverges => False

theorem delivered_fail (t : Table V) (log : List Int) (e : Errno) :
    Delivered (fail t log e) (trap (fail t log e, 0)) := by
  have he := e.code_pos
  refine ⟨{ v0 := e.code, a3 := 1 }, ?_, rfl, he⟩
  simp only [trap, fail_result, fail_table, deliver, if_true]
  rw [if_pos (by omega)]

theorem delivered_ret {o : Out V} {retval : Int} (hret : o.result = .ret retval false)
    (h : retval ≠ -1 ∨ o.table.errno = 0) : Delivered o (trap (o, 0)) := by
  have hnone : (if retval = -1 then o.table.errno else 0) = 0 := by
    rcases h with h | h
    · rw [if_neg h]
    · rw [h, ite_self]
  simp only [Delivered, hret]
  refine ⟨{ v0 := retval, a3 := 0 }, ?_, rfl, rfl⟩
  simp [trap, hret, deliver, hnone]

theorem not_delivered {o : Out V} {p : Option Trapframe}
    (h : o.result = .undefined ∨ o.result = .diverges) : ¬ Delivered o p := by
  rcases h with h | h <;> simp [Delivered, h]

/-! ## The calls that report rightly -/

/-- `filetable` without the file of `fd`. -/
def emptied (t : Table V) (fd : Int) : Table V := vacate (closeDups t fd) fd 0

/-- `close(fd)` closes a file. -/
def CloseWorks (k : Kernel V) (t : Table V) (fd : Int) : Prop :=
  3 ≤ fd ∧ Holds t fd ∧ t.isdup fd = 0 ∧ k.strayParent FILETABLESIZE ≠ fd

/-- `dup2` comes back from the test of `filetable[oldfd]` on. -/
def DuplicateWorks (k : Kernel V) (t : Table V) (oldfd newfd : Int) : Prop :=
  isNull k t oldfd = true ∨ (InArrays oldfd ∧ InArrays newfd ∧ Ends t.dup oldfd)

/-- A lookup comes back without a fault: the string ends, or `getdevice` has an answer before. -/
def Outside.Looks (o : Outside V) (path : Int) : Prop :=
  (o.string path).ends = true ∨ ((o.string path).splits = true ∧ o.getdevice ≠ none)

/-- The same for `vfs_open`, which first looks at the access mode. -/
def Outside.Opens (o : Outside V) (filename flags : Int) : Prop :=
  flags % 4 = 3 ∨ o.Looks filename

/-- No byte is stored through `NULL`. -/
def Outside.Stores (o : Outside V) : Prop := o.kbuffer = true ∨ o.touched = false

/-- The call comes back, is neither `lseek` with a bad `whence` on an open file nor `dup2` onto an
open descriptor that `close` refuses, and no error of `VOP_STAT` or `copyout` is lost. -/
def Request.ReportsRight (o : Outside V) (t : Table V) : Request → Prop
  | .openFile filename flags =>
    ((∃ i, IsFree t i) ∧ o.Opens filename flags) ∨
      (¬ (∃ i, IsFree t i) ∧ ¬ (o.strayNull FILETABLESIZE ∧ o.strayIsdup FILETABLESIZE = 0))
  | .read fd buf buflen =>
    isNull o.toKernel t fd = true ∨ (fd = 1 ∨ fd = 2) ∨
      (Holds t fd ∧ o.stSize ≤ t.offset fd ∧ o.vopStat = none) ∨
      (Holds t fd ∧ t.offset fd < o.stSize ∧ o.Stores ∧
        (o.vopRead ≠ none ∨
          (Ends t.dup fd ∧ o.vopStat = none ∧ copyoutTo o buf buflen = none)))
  | .write fd buf nbytes =>
    fd = 0 ∨ isNull o.toKernel t fd = true ∨ copyinFrom o buf nbytes ≠ none ∨
      (Holds t fd ∧ (o.vopWrite ≠ none ∨ Ends t.dup fd))
  | .close fd =>
    (fd = 0 ∨ fd = 1 ∨ fd = 2) ∨ isNull o.toKernel t fd = true ∨ isdupAt o.toKernel t fd ≠ 0 ∨
      CloseWorks o.toKernel t fd
  | .lseek fd pos whence =>
    (fd = 0 ∨ fd = 1 ∨ fd = 2) ∨ isNull o.toKernel t fd = true ∨
      (Holds t fd ∧ (o.vopTryseek ≠ none ∨ whence = 0 ∨ whence = 1 ∨
        (whence = 2 ∧ (o.vopStat = none ∨ toInt32 (o.stSize - 1 + pos) < 0))))
  | .chdir pathname => o.Looks pathname
  | .getcwd buf buflen =>
    o.Stores ∧ (o.vfsGetcwd.isOk = false ∨ copyoutTo o buf buflen = none)
  | .dup2 oldfd newfd =>
    ((oldfd < 0 ∨ oldfd > FILETABLESIZE) ∨ (newfd < 0 ∨ newfd > FILETABLESIZE)) ∨
      (isNull o.toKernel t newfd = true ∧ DuplicateWorks o.toKernel t oldfd newfd) ∨
      (CloseWorks o.toKernel t newfd ∧
        DuplicateWorks o.toKernel (emptied t newfd) oldfd newfd)
  | .reboot _ | .unknown => True

/-- A success with errors that nobody looked at is delivered as the success it is not. -/
theorem delivered_missed {o : Out V} {retval : Int} (hret : o.result = .ret retval false)
    (h : retval ≠ -1 ∨ o.table.errno = 0) (b : Bool) :
    Delivered (o.missed b) (trap (o.missed b, 0)) ↔ b = false := by
  have hmissed : (o.missed b).result = .ret retval b := by simp [Out.missed, hret]
  cases b with
  | false => exact iff_of_true (delivered_ret hmissed h) rfl
  | true =>
    have hnone : (if retval = -1 then o.table.errno else 0) = 0 := by
      rcases h with h | h
      · rw [if_neg h]
      · rw [h, ite_self]
    refine iff_of_false ?_ Bool.true_eq_false.mp
    simp only [Delivered, trap, hmissed, deliver]
    intro hx
    obtain ⟨r, hr, ha3, -⟩ := hx
    have htable : (o.missed true).table = o.table := rfl
    rw [htable, hnone] at hr
    cases hr
    cases ha3

theorem lookupAt_eq_none {α : Type} {o : Outside V} {path : Int} {result : Except Errno α} :
    lookupAt o path result = none ↔ ¬ o.Looks path := by
  unfold lookupAt Outside.Looks
  cases hsplits : (o.string path).splits with
  | false =>
    have hends : (o.string path).ends = false := by
      unfold RawString.splits at hsplits
      exact (Bool.or_eq_false_iff.mp hsplits).1
    simp [hends]
  | true =>
    cases o.getdevice with
    | some e => simp
    | none => cases (o.string path).ends <;> simp

theorem vfsOpenAt_eq_none {o : Outside V} {path flags : Int} :
    vfsOpenAt o path flags = none ↔ ¬ o.Opens path flags := by
  unfold vfsOpenAt Outside.Opens
  split_ifs with hmode
  · exact iff_of_false nofun fun h => h (.inl hmode)
  · rw [lookupAt_eq_none, not_or, and_iff_right hmode]

theorem delivered_transferred {t : Table V} (hs : Sound t) (log : List Int) (fd n : Int) :
    Delivered (transferred t log fd n) (trap (transferred t log fd n, 0)) ↔
      Ends t.dup fd := by
  rw [ends_iff hs.dup_lt]
  have hnone := updateoffset_eq_none t.dup fd fuel fd
    (Function.update t.offset fd (toInt32 (t.offset fd + n)))
  unfold transferred
  cases hu : updateoffset t.dup fd fuel fd
      (Function.update t.offset fd (toInt32 (t.offset fd + n))) with
  | none =>
    exact iff_of_false (not_delivered (.inr rfl)) (fun h => h (hnone.mp hu))
  | some offset =>
    refine iff_of_true (delivered_ret rfl (.inr rfl)) (fun h => ?_)
    rw [hnone.mpr h] at hu
    cases hu

theorem write_delivered {k : Kernel V} {t : Table V} (hs : Sound t) (fd : Int)
    (nbytes : Nat) :
    Delivered (write k t fd nbytes) (trap (write k t fd nbytes, 0)) ↔
      fd = 0 ∨ isNull k t fd = true ∨ k.copyin ≠ none ∨
        (Holds t fd ∧ (k.vopWrite ≠ none ∨ Ends t.dup fd)) := by
  unfold write
  by_cases h0 : fd = 0
  · simp only [h0, if_true, true_or, iff_true]
    exact delivered_fail t _ _
  cases hnull : isNull k t fd with
  | true =>
    simp only [h0, if_false, if_true]
    exact iff_of_true (delivered_fail t _ _) (.inr (.inl trivial))
  | false =>
    cases hc : k.copyin with
    | some e =>
      simp only [h0, if_false, Bool.false_eq_true]
      exact iff_of_true (delivered_fail t _ _) (by simp)
    | none =>
      by_cases hh : Holds t fd
      · cases hw : k.vopWrite with
        | some e =>
          simp only [h0, if_false, Bool.false_eq_true, hh, if_true]
          exact iff_of_true (delivered_fail t _ _) (by simp)
        | none =>
          simp only [h0, if_false, Bool.false_eq_true, hh, if_true]
          rw [delivered_transferred hs]
          simp
      · simp only [h0, if_false, Bool.false_eq_true, hh]
        exact iff_of_false (not_delivered (.inl rfl)) (by simp)

/-- A transfer whose errors are looked at or not. -/
theorem delivered_transferred_missed {t : Table V} (hs : Sound t) (log : List Int) (fd n : Int)
    (b : Bool) :
    Delivered ((transferred t log fd n).missed b) (trap ((transferred t log fd n).missed b, 0)) ↔
      Ends t.dup fd ∧ b = false := by
  rw [← delivered_transferred hs log fd n]
  unfold transferred
  cases updateoffset t.dup fd fuel fd
      (Function.update t.offset fd (toInt32 (t.offset fd + n))) with
  | none =>
    exact iff_of_false (not_delivered (.inr rfl)) fun h => not_delivered (.inr rfl) h.1
  | some offset =>
    rw [delivered_missed rfl (.inr rfl)]
    exact (and_iff_right (delivered_ret rfl (.inr rfl))).symm

theorem readTo_delivered {o : Outside V} {t : Table V} (hs : Sound t) (fd buf : Int)
    (buflen : Nat) :
    Delivered (readTo o t fd buf buflen) (trap (readTo o t fd buf buflen, 0)) ↔
      (Request.read fd buf buflen).ReportsRight o t := by
  unfold readTo Request.ReportsRight Outside.Stores
  dsimp only
  by_cases hnull : isNull o.toKernel t fd = true
  · rw [if_pos hnull]
    exact iff_of_true (delivered_fail t _ _) (.inl hnull)
  by_cases hout : fd = 1 ∨ fd = 2
  · rw [if_neg hnull, if_pos hout]
    exact iff_of_true (delivered_fail t _ _) (.inr (.inl hout))
  rw [if_neg hnull, if_neg hout, or_iff_right hnull, or_iff_right hout]
  by_cases hh : Holds t fd
  · rw [if_pos hh]
    by_cases hsize : t.offset fd < o.stSize
    · rw [if_pos hsize]
      have hle : ¬ o.stSize ≤ t.offset fd := by omega
      simp only [hh, hsize, hle, false_and, and_false, true_and, false_or]
      by_cases hfault : o.kbuffer = false ∧ o.touched = true
      · rw [if_pos hfault]
        exact iff_of_false (not_delivered (.inl rfl)) (by simp [hfault.1, hfault.2])
      · have hstores : o.kbuffer = true ∨ o.touched = false := by
          rw [not_and_or, Bool.not_eq_false, Bool.not_eq_true] at hfault
          exact hfault
        rw [if_neg hfault, and_iff_right hstores]
        cases hr : o.vopRead with
        | some e => exact iff_of_true (delivered_fail t _ _) (.inl (Option.some_ne_none e))
        | none =>
          dsimp only
          rw [delivered_transferred_missed hs, Bool.or_eq_false_iff]
          simp
    · rw [if_neg hsize]
      have hle : o.stSize ≤ t.offset fd := by omega
      have hret := delivered_missed (o := { log := [fd], table := t, result := .ret 0 false })
        rfl (.inl (by decide)) o.vopStat.isSome
      simp only [hh, hsize, hle, false_and, and_false, true_and, or_false]
      rw [Option.isSome_eq_false_iff, Option.isNone_iff_eq_none] at hret
      exact hret
  · rw [if_neg hh]
    exact iff_of_false (not_delivered (.inl rfl)) (by simp [hh])

/-- `lseek` itself: an open file and a bad `whence` do not go together. -/
theorem lseek_delivered (k : Kernel V) (t : Table V) (fd pos whence : Int) (b : Bool) :
    Delivered ((lseek k t fd pos whence).missed (whence = 2 && b))
        (trap ((lseek k t fd pos whence).missed (whence = 2 && b), 0)) ↔
      (fd = 0 ∨ fd = 1 ∨ fd = 2) ∨ isNull k t fd = true ∨
        (Holds t fd ∧ (k.vopTryseek ≠ none ∨ whence = 0 ∨ whence = 1 ∨
          (whence = 2 ∧ (b = false ∨ toInt32 (k.stSize - 1 + pos) < 0)))) := by
  unfold lseek
  by_cases hstd : fd = 0 ∨ fd = 1 ∨ fd = 2
  · rw [if_pos hstd]
    exact iff_of_true (delivered_fail t _ _) (.inl hstd)
  rw [if_neg hstd, or_iff_right hstd]
  by_cases hnull : isNull k t fd = true
  · rw [if_pos hnull]
    exact iff_of_true (delivered_fail t _ _) (.inl hnull)
  rw [if_neg hnull, or_iff_right hnull]
  by_cases hh : Holds t fd
  · rw [if_pos hh, and_iff_right hh]
    cases hv : k.vopTryseek with
    | some e => exact iff_of_true (delivered_fail t _ _) (.inl (Option.some_ne_none e))
    | none =>
      rw [or_iff_right (not_not.mpr rfl)]
      dsimp only
      unfold seekTo
      by_cases h0 : whence = 0
      · subst h0
        refine iff_of_true ?_ (.inl rfl)
        simp only [if_true]
        split_ifs
        · exact delivered_fail t _ _
        · exact (delivered_missed rfl (.inr rfl) _).mpr (by simp)
      by_cases h1 : whence = 1
      · subst h1
        refine iff_of_true ?_ (.inr (.inl rfl))
        simp only [h0, if_false, if_true]
        split_ifs
        · exact delivered_fail t _ _
        · exact (delivered_missed rfl (.inr rfl) _).mpr (by simp)
      rw [or_iff_right h0, or_iff_right h1]
      by_cases h2 : whence = 2
      · subst h2
        rw [if_neg h0, if_neg h1, if_pos rfl, and_iff_right rfl]
        dsimp only
        split_ifs with hneg
        · exact iff_of_true (delivered_fail t _ _) (.inr hneg)
        · rw [or_iff_left hneg, delivered_missed rfl (.inr rfl)]
          simp
      · -- the number of the error is 0
        rw [if_neg h0, if_neg h1, if_neg h2]
        refine iff_of_false ?_ fun h => h2 h.1
        simp [Delivered, Out.missed, trap, deliver]
  · rw [if_neg hh]
    exact iff_of_false (not_delivered (.inl rfl)) fun h => hh h.1

theorem openFile_delivered {k : Kernel V} {t : Table V} {i : Int} (hslot : freeSlot t = some i) :
    Delivered (openFile k t) (trap (openFile k t, 0)) := by
  unfold openFile
  rw [hslot]
  dsimp only
  cases k.vfsOpen with
  | error e => exact delivered_fail _ _ _
  | ok v => exact delivered_ret rfl (.inr rfl)

theorem openFile_full {k : Kernel V} {t : Table V} (hslot : freeSlot t = none) :
    Delivered (openFile k t) (trap (openFile k t, 0)) ↔
      ¬ (k.strayNull FILETABLESIZE ∧ k.strayIsdup FILETABLESIZE = 0) := by
  unfold openFile
  rw [hslot]
  dsimp only
  by_cases hstray : k.strayNull FILETABLESIZE ∧ k.strayIsdup FILETABLESIZE = 0
  · rw [if_pos hstray]
    exact iff_of_false (not_delivered (.inl rfl)) (not_not.mpr hstray)
  · rw [if_neg hstray]
    exact iff_of_true (delivered_fail t _ _) hstray

theorem openPath_delivered (o : Outside V) (t : Table V) (filename flags : Int) :
    Delivered (openPath o t filename flags) (trap (openPath o t filename flags, 0)) ↔
      (Request.openFile filename flags).ReportsRight o t := by
  unfold openPath Request.ReportsRight
  dsimp only
  cases hslot : freeSlot t with
  | none =>
    have hfull : ¬ ∃ i, IsFree t i := by
      intro hx
      obtain ⟨i, hi⟩ := hx
      obtain ⟨j, hj⟩ := freeSlot_of_isFree hi
      rw [hslot] at hj
      cases hj
    rw [or_iff_right fun h => hfull h.1, and_iff_right hfull]
    cases vfsOpenAt o filename flags with
    | some result => exact openFile_full hslot
    | none => exact openFile_full hslot
  | some i =>
    have hfree : ∃ i, IsFree t i := ⟨i, isFree_of_freeSlot hslot⟩
    rw [or_iff_left fun h => h.1 hfree, and_iff_right hfree]
    cases hv : vfsOpenAt o filename flags with
    | none => exact iff_of_false (not_delivered (.inl rfl)) (vfsOpenAt_eq_none.mp hv)
    | some result =>
      refine iff_of_true (openFile_delivered hslot) ?_
      by_contra hnot
      rw [vfsOpenAt_eq_none.mpr hnot] at hv
      cases hv

/-- The three ways out of `close`. -/
theorem close_outcome (k : Kernel V) {t : Table V} (hs : Sound t) (fd : Int) :
    (CloseWorks k t fd ∧ ∃ ticket, (close k t fd).result = .ret 0 false ∧
      (close k t fd).table = vacate (closeDups t fd) fd ticket) ∨
    (¬ CloseWorks k t fd ∧ (∃ log, close k t fd = fail t log .EBADF) ∧
      ((fd = 0 ∨ fd = 1 ∨ fd = 2) ∨ isNull k t fd = true ∨ isdupAt k t fd ≠ 0)) ∨
    (¬ CloseWorks k t fd ∧ (close k t fd).result = .undefined ∧
      ¬ ((fd = 0 ∨ fd = 1 ∨ fd = 2) ∨ isNull k t fd = true ∨ isdupAt k t fd ≠ 0)) := by
  have hnode (h : CloseWorks k t fd) : isNull k t fd = false := by
    have hn := h.2.1.2
    rw [isNull_inArrays k t h.2.1.1]
    cases hv : t.filetable fd <;> simp_all [Vn.isNull, Vn.isNode]
  by_cases hstd : fd = 0 ∨ fd = 1 ∨ fd = 2
  · refine .inr (.inl ⟨fun h => ?_, ⟨[], if_pos hstd⟩, .inl hstd⟩)
    have := h.1
    omega
  cases hnull : isNull k t fd with
  | true =>
    refine .inr (.inl ⟨fun h => ?_, ⟨[fd], by simp [close, hstd, hnull]⟩, .inr (.inl rfl)⟩)
    rw [hnode h] at hnull
    cases hnull
  | false =>
    by_cases hdup : isdupAt k t fd = 0
    · by_cases hin : InArrays fd ∧ k.strayParent FILETABLESIZE ≠ fd
      · have hzero : t.isdup fd = 0 := by simpa [isdupAt, hin.1] using hdup
        have hpar : t.parent fd ≠ fd := by
          rw [hs.parent fd hzero]
          omega
        have hkeep : (closeDups t fd).filetable fd = t.filetable fd := by
          simp [closeDups_eq, hpar]
        cases hv : t.filetable fd with
        | node v ticket =>
          have hge := hin.1.1
          refine .inl ⟨⟨by omega, ⟨hin.1, by simp [hv, Vn.isNode]⟩, hzero, hin.2⟩, ticket, ?_⟩
          simp [close, hstd, hnull, hdup, hin.1, hin.2, hkeep, hv]
        | _ =>
          refine .inr (.inr ⟨fun h => ?_, ?_, by simp [hstd, hdup]⟩)
          · have hn := h.2.1.2
            simp [hv, Vn.isNode] at hn
          · simp [close, hstd, hnull, hdup, hin.1, hin.2, hkeep, hv]
      · refine .inr (.inr ⟨fun h => hin ⟨h.2.1.1, h.2.2.2⟩, ?_, by simp [hstd, hdup]⟩)
        simp [close, hstd, hnull, hdup, hin]
    · refine .inr (.inl ⟨fun h => hdup ?_, ⟨[fd], by simp [close, hstd, hnull, hdup]⟩,
        .inr (.inr hdup)⟩)
      simpa [isdupAt, h.2.1.1] using h.2.2.1

theorem close_delivered {k : Kernel V} {t : Table V} (hs : Sound t) (fd : Int) :
    Delivered (close k t fd) (trap (close k t fd, 0)) ↔
      (fd = 0 ∨ fd = 1 ∨ fd = 2) ∨ isNull k t fd = true ∨ isdupAt k t fd ≠ 0 ∨
        CloseWorks k t fd := by
  obtain ⟨hw, ticket, hr, -⟩ | ⟨-, ⟨log, hclose⟩, hcause⟩ | ⟨hw, hr, hcause⟩ :=
    close_outcome k hs fd
  · exact iff_of_true (delivered_ret hr (.inl (by decide))) (.inr (.inr (.inr hw)))
  · rw [hclose]
    refine iff_of_true (delivered_fail t _ _) ?_
    rcases hcause with h | h | h
    · exact .inl h
    · exact .inr (.inl h)
    · exact .inr (.inr (.inl h))
  · refine iff_of_false (not_delivered (.inl hr)) ?_
    intro hx
    rcases hx with h | h | h | h
    · exact hcause (.inl h)
    · exact hcause (.inr (.inl h))
    · exact hcause (.inr (.inr h))
    · exact hw h

theorem duplicate_delivered (k : Kernel V) {t : Table V}
    (hdup : ∀ i, t.dup i < FILETABLESIZE) (log : List Int) (oldfd newfd : Int) :
    Delivered (duplicate k t log oldfd newfd) (trap (duplicate k t log oldfd newfd, 0)) ↔
      DuplicateWorks k t oldfd newfd := by
  unfold duplicate DuplicateWorks
  rw [ends_iff hdup]
  cases hnull : isNull k t oldfd with
  | true =>
    simp only [if_true]
    exact iff_of_true (delivered_fail t _ _) (by simp)
  | false =>
    by_cases hold : InArrays oldfd
    · cases hw : walkend t.dup oldfd fuel oldfd with
      | none =>
        simp only [Bool.false_eq_true, if_false, hold, if_true]
        exact iff_of_false (not_delivered (.inr rfl)) (by simp)
      | some last =>
        by_cases hnew : InArrays newfd
        · simp only [Bool.false_eq_true, if_false, hold, hnew, if_true]
          exact iff_of_true (delivered_ret rfl (.inl (by decide))) (by simp)
        · simp only [Bool.false_eq_true, if_false, hold, hnew, if_true]
          exact iff_of_false (not_delivered (.inl rfl)) (by simp)
    · simp only [Bool.false_eq_true, if_false, hold]
      exact iff_of_false (not_delivered (.inl rfl)) (by simp)

theorem dup2_delivered {k : Kernel V} {t : Table V} (hs : Sound t) (oldfd newfd : Int) :
    Delivered (dup2 k t oldfd newfd) (trap (dup2 k t oldfd newfd, 0)) ↔
      ((oldfd < 0 ∨ oldfd > FILETABLESIZE) ∨ (newfd < 0 ∨ newfd > FILETABLESIZE)) ∨
        (isNull k t newfd = true ∧ DuplicateWorks k t oldfd newfd) ∨
        (CloseWorks k t newfd ∧ DuplicateWorks k (emptied t newfd) oldfd newfd) := by
  unfold dup2
  by_cases hrange :
      (oldfd < 0 ∨ oldfd > FILETABLESIZE) ∨ (newfd < 0 ∨ newfd > FILETABLESIZE)
  · rw [if_pos hrange]
    exact iff_of_true (delivered_fail t _ _) (.inl hrange)
  rw [if_neg hrange]
  cases hnull : isNull k t newfd with
  | true =>
    have hw : ¬ CloseWorks k t newfd := by
      intro hx
      obtain ⟨-, ⟨hin, hn⟩, -⟩ := hx
      rw [isNull_inArrays k t hin] at hnull
      cases hv : t.filetable newfd <;> simp_all [Vn.isNull, Vn.isNode]
    simp only [if_true]
    rw [duplicate_delivered k hs.dup_lt]
    simp [hrange, hw]
  | false =>
    simp only [Bool.false_eq_true, if_false]
    obtain ⟨hw, ticket, hr, htable⟩ | ⟨hw, ⟨log, hclose⟩, -⟩ | ⟨hw, hr, -⟩ :=
      close_outcome k hs newfd
    · have hdup : ∀ i, (vacate (closeDups t newfd) newfd ticket).dup i < FILETABLESIZE := by
        intro i
        by_cases hi : i = newfd
        · simp [vacate, hi, FILETABLESIZE]
        · simpa [vacate, closeDups_eq, hi] using hs.dup_lt i
      simp only [hr, ne_eq, not_true_eq_false, if_false]
      rw [duplicate_delivered k (by simpa [htable] using hdup), htable]
      -- the ticket and the error number play no part
      change DuplicateWorks k (emptied t newfd) oldfd newfd ↔ _
      simp [hrange, hw]
    · -- what is reported is the number -1
      rw [hclose]
      refine iff_of_false ?_ (by simp [hrange, hw])
      simp [Delivered, trap, deliver]
    · simp only [hr]
      exact iff_of_false (not_delivered (.inl rfl)) (by simp [hrange, hw])

theorem chdir_delivered (o : Outside V) (t : Table V) (pathname : Int) :
    Delivered (chdir o t pathname) (trap (chdir o t pathname, 0)) ↔ o.Looks pathname := by
  unfold chdir
  cases hv : lookupAt o pathname (ofCode o.vfsChdir) with
  | none => exact iff_of_false (not_delivered (.inl rfl)) (lookupAt_eq_none.mp hv)
  | some result =>
    have hlooks : o.Looks pathname := by
      by_contra hnot
      rw [lookupAt_eq_none.mpr hnot] at hv
      cases hv
    cases result with
    | error e => exact iff_of_true (delivered_fail t _ e) hlooks
    | ok u => exact iff_of_true (delivered_ret rfl (.inr rfl)) hlooks

theorem getcwd_delivered (o : Outside V) (t : Table V) (buf : Int) (buflen : Nat) :
    Delivered (getcwd o t buf buflen) (trap (getcwd o t buf buflen, 0)) ↔
      (Request.getcwd buf buflen).ReportsRight o t := by
  unfold getcwd Request.ReportsRight Outside.Stores
  dsimp only
  by_cases hfault : o.kbuffer = false ∧ o.touched = true
  · rw [if_pos hfault]
    exact iff_of_false (not_delivered (.inl rfl)) (by simp [hfault.1, hfault.2])
  · have hstores : o.kbuffer = true ∨ o.touched = false := by
      rw [not_and_or, Bool.not_eq_false, Bool.not_eq_true] at hfault
      exact hfault
    rw [if_neg hfault, and_iff_right hstores]
    cases o.vfsGetcwd with
    | error e => exact iff_of_true (delivered_fail t _ e) (.inl rfl)
    | ok used =>
      have hret := delivered_missed
        (o := ⟨[], { t with errno := 0 }, .ret (toInt32 (buflen - used)) false⟩) rfl (.inr rfl)
        (copyoutTo o buf buflen).isSome
      rw [Option.isSome_eq_false_iff, Option.isNone_iff_eq_none] at hret
      exact hret.trans (or_iff_right Bool.true_eq_false.mp).symm

/-- The system calls whose outcome reaches the program as it is. -/
theorem delivered_iff {con : Option V} {t : Table V} (ht : Reached con t) (o : Outside V)
    (callno a0 a1 a2 : Int) :
    Delivered ((dispatch callno a0 a1 a2).perform o t).1
        (mipsSyscall o t callno a0 a1 a2) ↔
      (dispatch callno a0 a1 a2).ReportsRight o t := by
  have hs := ht.sound
  unfold mipsSyscall
  cases dispatch callno a0 a1 a2 with
  | openFile filename flags => exact openPath_delivered o t filename flags
  | read fd buf buflen => exact readTo_delivered hs fd buf buflen
  | write fd buf nbytes =>
    exact write_delivered (k := { o.toKernel with copyin := copyinFrom o buf nbytes }) hs fd nbytes
  | close fd => exact close_delivered hs fd
  | lseek fd pos whence =>
    have hlseek := lseek_delivered o.toKernel t fd pos whence o.vopStat.isSome
    rw [Option.isSome_eq_false_iff, Option.isNone_iff_eq_none] at hlseek
    exact hlseek
  | chdir pathname => exact chdir_delivered o t pathname
  | getcwd buf buflen => exact getcwd_delivered o t buf buflen
  | dup2 oldfd newfd => exact dup2_delivered hs oldfd newfd
  | reboot code =>
    refine iff_of_true ?_ trivial
    simp only [Request.perform]
    by_cases hcode : code = 0 ∨ code = 1 ∨ code = 2
    · rw [if_pos hcode]
      trivial
    · rw [if_neg hcode]
      exact ⟨{ v0 := 1, a3 := 1 }, rfl, rfl, by decide⟩
  | unknown => exact iff_of_true ⟨{ v0 := 23, a3 := 1 }, rfl, rfl, by decide⟩ trivial

/-! ## Failures that are lost -/

/-- The memory of a program whose pages are at 0x1000, with the string `f` at every pointer into
them. -/
def calmOutside : Outside Unit where
  toKernel := calm
  string := fun p => if 0x1000 ≤ p then ⟨[102], true⟩ else ⟨[], false⟩
  mapped := fun a => 0x1000 ≤ a
  getdevice := none
  vopStat := none
  kbuffer := true
  touched := true

theorem oneFile_reached : Reached (some ()) oneFile :=
  .call (t := boot (some ())) (o := calmOutside) (q := .openFile 0x1000 0) .boot
    (show _ = Result.ret 3 false from rfl)

/-- A `read` of descriptor 3 into the pages of the program. -/
theorem delivered_iff_read :
    Delivered ((dispatch 5 3 0x2000 10).perform calmOutside oneFile).1
        (mipsSyscall calmOutside oneFile 5 3 0x2000 10) ↔
      (dispatch 5 3 0x2000 10).ReportsRight calmOutside oneFile :=
  delivered_iff oneFile_reached calmOutside 5 3 0x2000 10

/-- The call `lseek(fd, 5, 180876)` of `asst2.c` hands -1 to the program as a success. -/
theorem whence_lost :
    ¬ ∀ t, Reached (some ()) t → ∀ (o : Outside Unit) (callno a0 a1 a2 : Int),
      Delivered ((dispatch callno a0 a1 a2).perform o t).1
        (mipsSyscall o t callno a0 a1 a2) := by
  intro h
  have hright := (lseek_delivered calm oneFile 3 5 180876 false).mp
    (h oneFile oneFile_reached calmOutside 13 3 5 180876)
  rcases hright with hstd | hnull | hwhence
  · exact absurd hstd (by decide)
  · exact absurd hnull (by decide)
  · exact absurd hwhence.2 (by decide)

/-- `chdir((char *)1)` makes the kernel fault, and a `read` to address 1 reports the bytes it did
not deliver. -/
example : (chdir calmOutside oneFile 1).result = .undefined ∧
    mipsSyscall calmOutside oneFile 5 3 1 10 = some ⟨10, 0⟩ ∧
    (readTo calmOutside oneFile 3 1 10).result = .ret 10 true := by
  decide +kernel

end Os161.Filetable
