import Os161.Filetable.Bounds
import Os161.Filetable.Offsets
import Os161.Files.Access

/-! # Seeking in both file tables

`lseek` of assignment 2 and `sys_lseek` of assignment 3, on a file whose position can be
changed, against the manual page. -/
namespace Os161.Filetable

/-- An open file: its position, `st_size`, and what `VOP_TRYSEEK` answers for each position. -/
structure Seekable where
  position : Int
  stSize : Int
  tryseek : Int → Option Errno
  position_low : 0 ≤ position
  position_high : position < 2147483648
  stSize_low : 0 ≤ stSize
  stSize_high : stSize < 2147483648

namespace Seekable

variable (f : Seekable) (pos whence : Int)

/-- The position the manual page asks for; none for another `whence`. -/
def target : Option Int :=
  if whence = 0 then some pos
  else if whence = 1 then some (f.position + pos)
  else if whence = 2 then some (f.stSize + pos)
  else none

/-- An offset a file can have. -/
def IsOffset (v : Int) : Prop := 0 ≤ v ∧ v < 2147483648

instance (v : Int) : Decidable (IsOffset v) :=
  inferInstanceAs (Decidable (0 ≤ v ∧ v < 2147483648))

/-- The new position; none where the call has to fail. -/
def documented : Option Int :=
  match f.target pos whence with
  | none => none
  | some v => if IsOffset v ∧ f.tryseek v = none then some v else none

end Seekable

section Both

variable {V : Type} (f : Seekable) (pos whence : Int)

/-- The kernel as `lseek` finds it: `VOP_TRYSEEK` is asked about the position it tries, the old
one for an unknown `whence`. -/
def seekKernel (k : Kernel V) : Kernel V :=
  { k with
    stSize := f.stSize
    vopTryseek := f.tryseek ((seekTo f.stSize f.position pos whence).getD f.position) }

/-- `lseek` of assignment 2. -/
def lseekOf (k : Kernel V) (t : Table V) (fd : Int) : Out V :=
  lseek (seekKernel f pos whence k) t fd pos whence

/-- It does what is documented: where it fails, it has set `file_errno`. -/
def LseekRight (k : Kernel V) (t : Table V) (fd : Int) : Prop :=
  match f.documented pos whence with
  | some p => (lseekOf f pos whence k t fd).result = .ret p false ∧
      (lseekOf f pos whence k t fd).table.offset fd = p
  | none => (lseekOf f pos whence k t fd).result = .ret (-1) true ∧
      (lseekOf f pos whence k t fd).table.errno ≠ 0 ∧
      (lseekOf f pos whence k t fd).table.offset fd = f.position

variable {T W : Type} [DecidableEq T] [DecidableEq W]

def whenceOf (whence : Int) : Files.Whence :=
  if whence = 0 then .SEEK_SET else if whence = 1 then .SEEK_CUR
  else if whence = 2 then .SEEK_END else .other

/-- `VOP_TRYSEEK` returns an error number of `kern/errno.h`. -/
def seekAnswers : Files.SeekAnswers where
  stat := .ok f.stSize
  tryseek := (((f.target pos whence).bind f.tryseek).map Errno.code).getD 0

/-- `sys_lseek` of assignment 3, with the state it leaves behind. -/
def sysLseekOf (s : Files.State T W) (u : T) (fh : Int) : Files.Effect × Files.State T W :=
  s.call (fun _ => true) u (.lseek fh pos (whenceOf whence) (seekAnswers f pos whence))

/-- The position of the file a descriptor is open on. -/
def positionOf (s : Files.State T W) (u : T) (fh : Int) : Option Int :=
  (s.fdt u fh.toNat).map fun i => (s.oft i).fp

/-- A call that returns `p` and stores it, or that fails and leaves the position where it was. -/
def SeekEnds (r : Files.Effect × Files.State T W) (u : T) (fh : Int) : Option Int → Prop
  | some p => r.1.outcome = .done (.ok p) ∧ positionOf r.2 u fh = some p
  | none => (∃ e, r.1.outcome = .done (.error e)) ∧ positionOf r.2 u fh = some f.position

/-- It does what is documented. -/
def SysLseekRight (s : Files.State T W) (u : T) (fh : Int) : Prop :=
  SeekEnds f (sysLseekOf f pos whence s u fh) u fh (f.documented pos whence)

/-- Both are right, succeed in the same calls with the same result, and leave the same position
behind. -/
structure SeeksAsDocumented (k : Kernel V) (t : Table V) (fd : Int) (s : Files.State T W) (u : T)
    (fh : Int) : Prop where
  lseek : LseekRight f pos whence k t fd
  sysLseek : SysLseekRight f pos whence s u fh
  agree : ∀ p, (lseekOf f pos whence k t fd).result = .ret p false ↔
    (sysLseekOf f pos whence s u fh).1.outcome = .done (.ok p)
  position : positionOf (sysLseekOf f pos whence s u fh).2 u fh =
    some ((lseekOf f pos whence k t fd).table.offset fd)

/-- What goes right. `SEEK_END` of assignment 2 is one off, so that nothing but a failure can be
right, and that only if the position before the end fails as well. -/
def SeekCondition (fd : Int) : Prop :=
  match f.target pos whence with
  | none => fd < 3 ∨ f.tryseek f.position ≠ none
  | some v =>
    if Seekable.IsOffset v then f.tryseek v = none ∧ whence ≠ 2 ∧ 3 ≤ fd
    else fd < 3 ∨ whence ≠ 2 ∨ (v ≠ 2147483648 ∧ v ≠ -2147483648) ∨ f.tryseek 2147483647 ≠ none

end Both

section Proofs

variable {V T W : Type} [DecidableEq T] [DecidableEq W] {f : Seekable} {pos whence : Int}
  {k : Kernel V} {t : Table V} {fd : Int} {s : Files.State T W} {u : T} {fh : Int} {i : Nat}

/-! ## Offsets of 32 bits -/

theorem toInt32_of_isOffset {v : Int} (h : Seekable.IsOffset v) : toInt32 v = v := by
  obtain ⟨h0, h1⟩ := h
  rw [toInt32, wordSize, Int.bmod_def]
  omega

/-- A sum that is no offset wraps around to a negative one. -/
theorem toInt32_neg {v : Int} (h : ¬ Seekable.IsOffset v) (h0 : -2147483648 ≤ v)
    (h1 : v < 4294967296) : toInt32 v < 0 := by
  unfold Seekable.IsOffset at h
  rw [toInt32, wordSize, Int.bmod_def]
  omega

/-! ## Assignment 3 -/

/-- A descriptor that is open on the entry `i`. -/
structure OpenOn (s : Files.State T W) (u : T) (fh : Int) (i : Nat) : Prop where
  low : 0 ≤ fh
  high : fh < Files.MAX_FD
  slot : s.fdt u fh.toNat = some i
  mode : Files.accmode (s.oft i).flags ≠ 3

omit [DecidableEq T] [DecidableEq W] in
theorem OpenOn.check (h : OpenOn s u fh i) :
    Files.checkFdAccess s.oft (s.fdt u) fh .F_ANY = .ok i := by
  have hmod : 0 ≤ Files.accmode (s.oft i).flags ∧ Files.accmode (s.oft i).flags < 4 := by
    unfold Files.accmode
    omega
  have hmode := h.mode
  have hrange : ¬ (fh < 0 ∨ fh ≥ Files.MAX_FD) := by
    have := h.low
    have := h.high
    omega
  rw [Files.checkFdAccess, if_neg hrange, h.slot]
  dsimp only
  by_cases h0 : Files.accmode (s.oft i).flags = 0
  · rw [if_pos h0, if_neg (by decide)]
  · by_cases h1 : Files.accmode (s.oft i).flags = 1
    · rw [if_neg h0, if_pos h1, if_neg (by decide)]
    · rw [if_neg h0, if_neg h1, if_pos (by omega)]

/-- The descriptor's check comes before the seek, and changes nothing. -/
theorem sysLseek_ends (h : OpenOn s u fh i) (o : Option Int) :
    SeekEnds f (sysLseekOf f pos whence s u fh) u fh o ↔
      SeekEnds f (s.seek pos (seekAnswers f pos whence) (whenceOf whence) i) u fh o := by
  rw [sysLseekOf, Files.State.call, Files.State.checked, h.check]
  cases o <;> exact Iff.rfl

omit [DecidableEq T] [DecidableEq W] in
/-- The descriptor is still open on the entry whose position was stored. -/
theorem positionOf_setFp (h : OpenOn s u fh i) (fp : Int) :
    positionOf (s.setFp i fp) u fh = some fp := by
  rw [positionOf, show (s.setFp i fp).fdt = s.fdt from rfl, h.slot, Option.map_some]
  simp [Files.State.setFp]

omit [DecidableEq T] [DecidableEq W] in
theorem SeekEnds.fails (h : OpenOn s u fh i) (hfp : (s.oft i).fp = f.position)
    (log : List Files.Access) (e : Files.Errno) :
    SeekEnds f (⟨log, .done (.error e)⟩, s) u fh none := by
  refine ⟨⟨e, rfl⟩, ?_⟩
  rw [positionOf, h.slot, Option.map_some, hfp]

omit [DecidableEq T] [DecidableEq W] in
/-- The test of `newfp` and the store of it. -/
theorem SeekEnds.store (h : OpenOn s u fh i) (hfp : (s.oft i).fp = f.position) (newfp : Int) :
    SeekEnds f (if newfp < 0 then (⟨[], .done (.error .EINVAL)⟩, s)
      else (⟨[], .done (.ok newfp)⟩, s.setFp i newfp)) u fh
      (if newfp < 0 then none else some newfp) := by
  split
  · exact .fails h hfp [] .EINVAL
  · exact ⟨rfl, positionOf_setFp h newfp⟩

omit [DecidableEq T] [DecidableEq W] in
/-- A call ends in one way. -/
theorem SeekEnds.unique {r : Files.Effect × Files.State T W} {o o' : Option Int}
    (h : SeekEnds f r u fh o) (h' : SeekEnds f r u fh o') : o = o' := by
  cases o with
  | some p =>
    cases o' with
    | some p' =>
      have := h.1.symm.trans h'.1
      cases this
      rfl
    | none =>
      obtain ⟨e, he⟩ := h'.1
      have := h.1.symm.trans he
      cases this
  | none =>
    obtain ⟨e, he⟩ := h.1
    cases o' with
    | some p' =>
      have := he.symm.trans h'.1
      cases this
    | none => rfl

/-- An error of `VOP_TRYSEEK` is positive, and `sys_lseek` looks for negative ones. -/
theorem seekAnswers_tryseek : ¬ (seekAnswers f pos whence).tryseek < 0 := by
  unfold seekAnswers
  dsimp only
  cases (f.target pos whence).bind f.tryseek with
  | none => exact Int.lt_irrefl 0
  | some e =>
    have := e.code_pos
    simp only [Option.map_some, Option.getD_some]
    omega

/-- `pos` is an `off_t`. -/
def OffT (pos : Int) : Prop := -2147483648 ≤ pos ∧ pos < 2147483648

theorem toInt32_of_offT (h : OffT pos) : toInt32 pos = pos := by
  obtain ⟨h0, h1⟩ := h
  rw [toInt32, wordSize, Int.bmod_def]
  omega

/-- `sys_lseek` returns the target and stores it, unless it is negative in 32 bits. -/
theorem sysLseek_target (h : OpenOn s u fh i) (hfp : (s.oft i).fp = f.position) (hpos : OffT pos) :
    SeekEnds f (sysLseekOf f pos whence s u fh) u fh
      ((f.target pos whence).bind fun v => if toInt32 v < 0 then none else some (toInt32 v)) := by
  have htry : ¬ (seekAnswers f pos whence).tryseek < 0 := seekAnswers_tryseek
  rw [sysLseek_ends h, Seekable.target]
  by_cases h0 : whence = 0
  · rw [whenceOf, if_pos h0, if_pos h0, Option.bind_some, toInt32_of_offT hpos]
    simp only [Files.State.seek, if_neg htry]
    exact .store h hfp pos
  · by_cases h1 : whence = 1
    · rw [whenceOf, if_neg h0, if_pos h1, if_neg h0, if_pos h1, Option.bind_some]
      simp only [Files.State.seek, if_neg htry, hfp]
      exact .store h hfp (toInt32 (f.position + pos))
    · by_cases h2 : whence = 2
      · rw [whenceOf, if_neg h0, if_neg h1, if_pos h2, if_neg h0, if_neg h1, if_pos h2,
          Option.bind_some]
        have hstat : (seekAnswers f pos whence).stat = .ok f.stSize := rfl
        simp only [Files.State.seek, if_neg htry, hstat, Except.map]
        exact .store h hfp (toInt32 (f.stSize + pos))
      · rw [whenceOf, if_neg h0, if_neg h1, if_neg h2, if_neg h0, if_neg h1, if_neg h2]
        exact .fails h hfp [] .EINVAL

/-- A target is within what two offsets sum up to. -/
theorem target_bounds (hpos : OffT pos) {v : Int} (h : f.target pos whence = some v) :
    -2147483648 ≤ v ∧ v < 4294967295 := by
  have h1 := f.position_low
  have h2 := f.position_high
  have h3 := f.stSize_low
  have h4 := f.stSize_high
  obtain ⟨h5, h6⟩ := hpos
  unfold Seekable.target at h
  split_ifs at h <;> cases h <;> omega

/-- `sys_lseek` is wrong only where `VOP_TRYSEEK` refuses an offset. -/
theorem sysLseekRight_iff (h : OpenOn s u fh i) (hfp : (s.oft i).fp = f.position)
    (hpos : OffT pos) : SysLseekRight f pos whence s u fh ↔
      ∀ v, f.target pos whence = some v → Seekable.IsOffset v → f.tryseek v = none := by
  have hends : SeekEnds f (sysLseekOf f pos whence s u fh) u fh _ :=
    sysLseek_target h hfp hpos
  rw [SysLseekRight]
  suffices f.documented pos whence = (f.target pos whence).bind
      (fun v => if toInt32 v < 0 then none else some (toInt32 v)) ↔ _ from
    ⟨fun hr => this.mp (hr.unique hends), fun hall => by rw [this.mpr hall]; exact hends⟩
  rw [Seekable.documented]
  cases ht : f.target pos whence with
  | none => exact iff_of_true rfl fun v hv => nomatch hv
  | some v =>
    obtain ⟨hlow, hhigh⟩ := target_bounds hpos ht
    dsimp only
    rw [Option.bind_some]
    by_cases hv : Seekable.IsOffset v
    · have hnn : ¬ toInt32 v < 0 := by
        rw [toInt32_of_isOffset hv]
        exact Int.not_lt.mpr hv.1
      rw [if_neg hnn, toInt32_of_isOffset hv]
      by_cases htry : f.tryseek v = none
      · rw [if_pos ⟨hv, htry⟩]
        refine iff_of_true rfl fun v' hv' _ => ?_
        cases hv'
        exact htry
      · rw [if_neg fun hc => htry hc.2]
        exact iff_of_false nofun fun hall => htry (hall v rfl hv)
    · rw [if_pos (toInt32_neg hv hlow (by omega)), if_neg fun hc => hv hc.1]
      refine iff_of_true rfl fun v' hv' hoff => ?_
      cases hv'
      exact absurd hoff hv

/-! ## Assignment 2 -/

theorem lseek_std (hstd : fd < 3) (hfd : Holds t fd) :
    lseekOf f pos whence k t fd = fail t [] .ESPIPE := by
  have h0 := hfd.1.1
  have hfd' : fd = 0 ∨ fd = 1 ∨ fd = 2 := by omega
  rw [lseekOf, lseek, if_pos hfd']

/-- From `VOP_TRYSEEK` on. -/
theorem lseek_tries (hstd : ¬ fd < 3) (hfd : Holds t fd) (hoff : t.offset fd = f.position) :
    lseekOf f pos whence k t fd =
      match f.tryseek ((seekTo f.stSize f.position pos whence).getD f.position) with
      | some e => fail t [fd] e
      | none =>
        match seekTo f.stSize f.position pos whence with
        | none => { log := [fd], table := { t with errno := 0 }, result := .ret (-1) true }
        | some p =>
          if p < 0 then fail t [fd] .EINVAL
          else
            { log := [fd]
              table := { t with errno := 0, offset := Function.update t.offset fd p }
              result := .ret p false } := by
  have hfd' : ¬ (fd = 0 ∨ fd = 1 ∨ fd = 2) := by omega
  have hnull : ¬ isNull (seekKernel f pos whence k) t fd = true := by
    rw [hfd.not_isNull]
    exact Bool.false_ne_true
  rw [lseekOf, lseek, if_neg hfd', if_neg hnull, if_pos hfd, hoff]
  rfl

/-- What `lseek` tries: the target, or one before it for `SEEK_END`. -/
theorem seekTo_eq (hpos : OffT pos) : seekTo f.stSize f.position pos whence =
    (f.target pos whence).map fun v => toInt32 (if whence = 2 then v - 1 else v) := by
  unfold seekTo Seekable.target
  by_cases h0 : whence = 0
  · subst h0
    simp only [if_true, Option.map_some]
    rw [if_neg (by decide), toInt32_of_offT hpos]
  · by_cases h1 : whence = 1
    · subst h1
      rfl
    · by_cases h2 : whence = 2
      · subst h2
        have hsum : f.stSize - 1 + pos = f.stSize + pos - 1 := by omega
        simp [hsum]
      · simp only [if_neg h0, if_neg h1, if_neg h2, Option.map_none]

/-- A call that has to fail does so on 0, 1 and 2, and where the position tried is refused. -/
theorem lseekRight_of_none (hfd : Holds t fd) (hoff : t.offset fd = f.position) (hpos : OffT pos)
    (hd : f.documented pos whence = none) : LseekRight f pos whence k t fd ↔
      fd < 3 ∨ match f.target pos whence with
        | none => f.tryseek f.position ≠ none
        | some v => toInt32 (if whence = 2 then v - 1 else v) < 0 ∨
            f.tryseek (toInt32 (if whence = 2 then v - 1 else v)) ≠ none := by
  have hfail (log : List Int) (e : Errno) : (fail t log e).result = .ret (-1) true ∧
      (fail t log e).table.errno ≠ 0 ∧ (fail t log e).table.offset fd = f.position := by
    have := e.code_pos
    exact ⟨rfl, by simp only [fail]; omega, hoff⟩
  rw [LseekRight, hd]
  dsimp only
  by_cases hstd : fd < 3
  · rw [lseek_std hstd hfd]
    exact iff_of_true (hfail _ _) (.inl hstd)
  · rw [lseek_tries hstd hfd hoff, seekTo_eq hpos, or_iff_right hstd]
    cases f.target pos whence with
    | none =>
      rw [Option.map_none, Option.getD_none]
      cases f.tryseek f.position with
      | none => exact iff_of_false (fun h => h.2.1 rfl) fun h => h rfl
      | some e => exact iff_of_true (hfail _ _) fun h => nomatch h
    | some v =>
      rw [Option.map_some, Option.getD_some]
      dsimp only
      cases f.tryseek (toInt32 (if whence = 2 then v - 1 else v)) with
      | none =>
        dsimp only
        by_cases hneg : toInt32 (if whence = 2 then v - 1 else v) < 0
        · rw [if_pos hneg]
          exact iff_of_true (hfail _ _) (.inl hneg)
        · rw [if_neg hneg]
          refine iff_of_false (fun h => h.2.1 rfl) ?_
          intro hx
          rcases hx with h | h
          · exact hneg h
          · exact h rfl
      | some e => exact iff_of_true (hfail _ _) (.inr fun h => nomatch h)

/-- A call that has to succeed does so except on 0, 1 and 2 and for `SEEK_END`. -/
theorem lseekRight_of_some (hfd : Holds t fd) (hoff : t.offset fd = f.position) (hpos : OffT pos)
    {v : Int} (ht : f.target pos whence = some v) (hv : Seekable.IsOffset v)
    (htry : f.tryseek v = none) : LseekRight f pos whence k t fd ↔ whence ≠ 2 ∧ 3 ≤ fd := by
  have hd : f.documented pos whence = some v := by
    rw [Seekable.documented, ht]
    dsimp only
    rw [if_pos ⟨hv, htry⟩]
  rw [LseekRight, hd]
  dsimp only
  by_cases hstd : fd < 3
  · rw [lseek_std hstd hfd]
    exact iff_of_false (fun h => nomatch h.1) fun h => absurd hstd (Int.not_lt.mpr h.2)
  · rw [lseek_tries hstd hfd hoff, seekTo_eq hpos, ht, Option.map_some, Option.getD_some]
    dsimp only
    by_cases h2 : whence = 2
    · rw [if_pos h2]
      refine iff_of_false ?_ fun h => h.1 h2
      have hne : toInt32 (v - 1) ≠ v := by
        obtain ⟨h0, h1⟩ := hv
        rw [toInt32, wordSize, Int.bmod_def]
        omega
      cases f.tryseek (toInt32 (v - 1)) with
      | some e => exact fun h => nomatch h.1
      | none =>
        dsimp only
        split
        · exact fun h => nomatch h.1
        · intro h
          exact hne (Result.ret.inj h.1).1
    · rw [if_neg h2, toInt32_of_isOffset hv, htry]
      dsimp only
      rw [if_neg (Int.not_lt.mpr hv.1)]
      exact iff_of_true ⟨rfl, Function.update_self ..⟩ ⟨h2, Int.not_lt.mp hstd⟩

/-! ## Both -/

theorem SeeksAsDocumented.of (h2 : LseekRight f pos whence k t fd)
    (h3 : SysLseekRight f pos whence s u fh) : SeeksAsDocumented f pos whence k t fd s u fh := by
  refine ⟨h2, h3, ?_, ?_⟩
  · intro p
    rw [LseekRight] at h2
    rw [SysLseekRight] at h3
    cases hd : f.documented pos whence with
    | none =>
      rw [hd] at h2 h3
      obtain ⟨⟨e, he⟩, -⟩ := h3
      rw [h2.1, he]
      exact iff_of_false (fun hc => nomatch hc) fun hc => nomatch hc
    | some q =>
      rw [hd] at h2 h3
      rw [h2.1, h3.1]
      constructor
      · intro he
        rw [(Result.ret.inj he).1]
      · intro he
        cases he
        rfl
  · rw [LseekRight] at h2
    rw [SysLseekRight] at h3
    cases hd : f.documented pos whence with
    | none =>
      rw [hd] at h2 h3
      rw [h2.2.2, h3.2]
    | some q =>
      rw [hd] at h2 h3
      rw [h2.2, h3.2]

/-- Seeking does what the manual page says, in both assignments and alike, under exactly the
`SeekCondition`. -/
theorem seeksAsDocumented_iff (f : Seekable) (pos whence : Int) (hpos : OffT pos) (k : Kernel V)
    (t : Table V) (fd : Int) (hfd : Holds t fd) (hoff : t.offset fd = f.position)
    (s : Files.State T W) (u : T) (fh : Int) (i : Nat) (h : OpenOn s u fh i)
    (hfp : (s.oft i).fp = f.position) :
    SeeksAsDocumented f pos whence k t fd s u fh ↔ SeekCondition f pos whence fd := by
  have h3 : SysLseekRight f pos whence s u fh ↔ _ := sysLseekRight_iff h hfp hpos
  suffices LseekRight f pos whence k t fd ∧ SysLseekRight f pos whence s u fh ↔
      SeekCondition f pos whence fd from
    ⟨fun hs => this.mp ⟨hs.lseek, hs.sysLseek⟩, fun hc => .of (this.mpr hc).1 (this.mpr hc).2⟩
  rw [h3, SeekCondition]
  cases ht : f.target pos whence with
  | none =>
    have hd : f.documented pos whence = none := by rw [Seekable.documented, ht]
    have h2 := lseekRight_of_none (k := k) hfd hoff hpos hd
    rw [ht] at h2
    rw [h2]
    exact and_iff_left fun v hv => nomatch hv
  | some v =>
    obtain ⟨hlow, hhigh⟩ := target_bounds hpos ht
    dsimp only
    by_cases hv : Seekable.IsOffset v
    · rw [if_pos hv]
      by_cases htry : f.tryseek v = none
      · rw [lseekRight_of_some hfd hoff hpos ht hv htry]
        constructor
        · exact fun hc => ⟨htry, hc.1⟩
        · refine fun hc => ⟨hc.2, fun v' hv' _ => ?_⟩
          cases hv'
          exact htry
      · exact iff_of_false (fun hc => htry (hc.2 v rfl hv)) fun hc => htry hc.1
    · have hd : f.documented pos whence = none := by
        rw [Seekable.documented, ht]
        dsimp only
        rw [if_neg fun hc => hv hc.1]
      have h2 := lseekRight_of_none (k := k) hfd hoff hpos hd
      rw [ht] at h2
      dsimp only at h2
      have hall : ∀ v', some v = some v' → Seekable.IsOffset v' → f.tryseek v' = none := by
        intro v' hv' hoff'
        cases hv'
        exact absurd hoff' hv
      rw [if_neg hv, h2, and_iff_left hall]
      refine or_congr_right ?_
      by_cases hw : whence = 2
      · rw [if_pos hw]
        have hw' : ¬ whence ≠ 2 := not_not.mpr hw
        rw [or_iff_right hw']
        by_cases hedge : v ≠ 2147483648 ∧ v ≠ -2147483648
        · refine iff_of_true (.inl (toInt32_neg ?_ (by omega) (by omega))) (.inl hedge)
          unfold Seekable.IsOffset at hv ⊢
          omega
        · have hmax : toInt32 (v - 1) = 2147483647 := by
            rw [toInt32, wordSize, Int.bmod_def]
            omega
          rw [hmax, or_iff_right hedge]
          exact or_iff_right (by decide)
      · rw [if_neg hw]
        exact iff_of_true (.inl (toInt32_neg hv hlow (by omega))) (.inl hw)

end Proofs

/-! ## A file of ten bytes -/

/-- Open on descriptor 3, at the front. -/
def tenBytes : Seekable :=
  ⟨0, 10, fun _ => none, by decide, by decide, by decide, by decide⟩

def tableOn3 : Table Unit :=
  { boot (some ()) with filetable := fun i => if i = 3 then .node () 1 else .null }

def entryOn3 : Files.State Unit Unit where
  oft := fun _ => ⟨0, 2, 1, .node () 0⟩
  threads := {()}
  fdt := fun _ fd => if fd = 3 then some 0 else none
  phase := fun _ => .running
  reply := fun _ => .ok 0
  opened := 1
  closed := []
  panic := false

theorem entryOn3_open : OpenOn entryOn3 () 3 0 := ⟨by decide, by decide, rfl, by decide⟩

theorem seeksAsDocumented_iff_tenBytes :
    SeeksAsDocumented tenBytes 4 1 calm tableOn3 3 entryOn3 () 3 ↔
      SeekCondition tenBytes 4 1 3 :=
  seeksAsDocumented_iff tenBytes 4 1 ⟨by decide, by decide⟩ calm tableOn3 3
    ⟨by decide, rfl⟩ rfl entryOn3 () 3 0 entryOn3_open rfl

/-- `lseek(fd, 0, SEEK_END)` returns 9 in assignment 2 and 10 in assignment 3. An unknown `whence`
leaves `file_errno` at 0. -/
theorem seek_end_off_by_one :
    (lseekOf tenBytes 0 2 calm tableOn3 3).result = .ret 9 false ∧
      (sysLseekOf tenBytes 0 2 entryOn3 () 3).1.outcome = .done (.ok 10) ∧
      (lseekOf tenBytes 0 7 calm tableOn3 3).table.errno = 0 ∧
      ¬ SeeksAsDocumented tenBytes 0 2 calm tableOn3 3 entryOn3 () 3 := by
  have h2 : (lseekOf tenBytes 0 2 calm tableOn3 3).result = .ret 9 false := by decide
  have h3 : (sysLseekOf tenBytes 0 2 entryOn3 () 3).1.outcome = .done (.ok 10) := by decide
  refine ⟨h2, h3, by decide, fun h => ?_⟩
  have := (h.agree 9).mp h2
  rw [h3] at this
  cases this

end Os161.Filetable
