import Mathlib.Tactic.ByContra

/-! # The system call dispatcher of assignment 3

`mips_syscall` with everything that lies on its stack when it starts. The handlers are those of the
rest of the kernel, but for the two that are written in `file.c` around a single call. -/
namespace Os161.Files.Syscalls

/-- The registers the dispatcher uses. -/
structure Trapframe where
  v0 : UInt32
  a0 : UInt32
  a1 : UInt32
  a2 : UInt32
  a3 : UInt32
  epc : UInt32
  deriving DecidableEq

/-- What the local variables hold before they are assigned. -/
structure Locals where
  callno : UInt32
  retval : Int32
  err : Int32

def ENOSYS : Int32 := 23
def SYS_sync : UInt32 := 9

/-- The kernel behind the dispatcher, on states `S`. A handler may not come back; `retval` goes in
and out of those that get a pointer to it. -/
structure Kernel (S : Type) where
  curspl : S → Int
  sysReboot : UInt32 → S → Option (Int32 × S)
  sysOpen : UInt32 → UInt32 → UInt32 → Int32 → S → Option (Int32 × Int32 × S)
  sysRead : UInt32 → UInt32 → UInt32 → Int32 → S → Option (Int32 × Int32 × S)
  sysWrite : UInt32 → UInt32 → UInt32 → Int32 → S → Option (Int32 × Int32 × S)
  sysClose : UInt32 → S → Option (Int32 × S)
  sysLseek : UInt32 → UInt32 → UInt32 → Int32 → S → Option (Int32 × Int32 × S)
  vopStat : UInt32 → UInt32 → S → Option (Int32 × S)
  vfsSync : S → Option S

section Dispatch

variable {S : Type} (k : Kernel S)

/-- Both branches of `sys_fstat` return the same. -/
def sysFstat (fd statbuf : UInt32) (s : S) : Option (Int32 × S) :=
  (k.vopStat fd statbuf s).map fun x => if x.1 < 0 then (x.1, x.2) else (x.1, x.2)

/-- It returns nothing. -/
def sysSync (s : S) : Option S := k.vfsSync s

/-- The `switch`, from `retval` and `err`. -/
def dispatch (tf : Trapframe) (callno : UInt32) (retval err : Int32) (s : S) :
    Option (Int32 × Int32 × S) :=
  if callno = 8 then (k.sysReboot tf.a0 s).map fun x => (x.1, retval, x.2)
  else if callno = 4 then k.sysOpen tf.a0 tf.a1 tf.a2 retval s
  else if callno = 5 then k.sysRead tf.a0 tf.a1 tf.a2 retval s
  else if callno = 6 then k.sysWrite tf.a0 tf.a1 tf.a2 retval s
  else if callno = 7 then (k.sysClose tf.a0 s).map fun x => (x.1, retval, x.2)
  else if callno = 13 then k.sysLseek tf.a0 tf.a1 tf.a2 retval s
  else if callno = 16 then (sysFstat k tf.a0 tf.a1 s).map fun x => (x.1, retval, x.2)
  else if callno = SYS_sync then (sysSync k s).map fun s => (err, retval, s)
  else some (ENOSYS, retval, s)

/-- The registers on the way back. -/
def deliver (tf : Trapframe) (err retval : Int32) : Trapframe :=
  if err ≠ 0 then { tf with v0 := err.toUInt32, a3 := 1, epc := tf.epc + 4 }
  else { tf with v0 := retval.toUInt32, a3 := 0, epc := tf.epc + 4 }

/-- No result where a handler does not come back or an assertion fails. -/
def mipsSyscall (locals : Locals) (tf : Trapframe) (s : S) : Option (Trapframe × S) :=
  if k.curspl s ≠ 0 then none
  else
    let locals := { locals with callno := tf.v0, retval := 0 }
    match dispatch k tf locals.callno locals.retval locals.err s with
    | none => none
    | some (err, retval, s) =>
      if k.curspl s ≠ 0 then none else some (deliver tf err retval, s)

/-! ## Results depend on the call only -/

/-- The error a handler reports; `sys_sync` reports none. -/
def reported (tf : Trapframe) (s : S) : Option Int32 := (dispatch k tf tf.v0 0 0 s).map (·.1)

/-- Whatever was on the stack, the call ends alike, and its error register says whether the handler
reported an error. -/
structure DependsOnCall (tf : Trapframe) (s : S) : Prop where
  alike : ∀ locals locals', mipsSyscall k locals tf s = mipsSyscall k locals' tf s
  error : ∀ locals tf' s', mipsSyscall k locals tf s = some (tf', s') →
    ∃ err, reported k tf s = some err ∧ (tf'.a3 = 1 ↔ err ≠ 0)

/-- `sync` comes back, with both assertions on the interrupt level met. -/
def SyncReturns (s : S) : Prop := k.curspl s = 0 ∧ ∃ s', k.vfsSync s = some s' ∧ k.curspl s' = 0

end Dispatch

section Proofs

variable {S : Type} {k : Kernel S} {tf : Trapframe} {s : S}

/-- Only the branch of `sync` leaves `err` as it was. -/
theorem dispatch_err (h : tf.v0 ≠ SYS_sync) (err err' : Int32) :
    dispatch k tf tf.v0 0 err s = dispatch k tf tf.v0 0 err' s := by
  unfold dispatch
  rw [if_neg h, if_neg h]

theorem dispatch_sync (h : tf.v0 = SYS_sync) (err : Int32) :
    dispatch k tf tf.v0 0 err s = (k.vfsSync s).map fun s => (err, 0, s) := by
  rw [h]
  rfl

theorem deliver_a3 (tf : Trapframe) (err retval : Int32) :
    (deliver tf err retval).a3 = 1 ↔ err ≠ 0 := by
  unfold deliver
  split
  · next h => exact iff_of_true rfl h
  · next h => exact iff_of_false (by simp) h

/-- What a call that comes back has gone through. -/
theorem mipsSyscall_some {locals : Locals} {tf' : Trapframe} {s' : S}
    (h : mipsSyscall k locals tf s = some (tf', s')) : ∃ err retval,
      dispatch k tf tf.v0 0 locals.err s = some (err, retval, s') ∧
        tf' = deliver tf err retval := by
  unfold mipsSyscall at h
  split at h
  · cases h
  · dsimp only at h
    split at h
    · cases h
    · next err retval s₁ hd =>
      split at h
      · cases h
      · cases h
        exact ⟨err, retval, hd, rfl⟩

theorem mipsSyscall_sync (h : tf.v0 = SYS_sync) (hs : SyncReturns k s) (locals : Locals) :
    ∃ s', mipsSyscall k locals tf s = some (deliver tf locals.err 0, s') := by
  obtain ⟨h0, s', hsync, h1⟩ := hs
  refine ⟨s', ?_⟩
  unfold mipsSyscall
  rw [if_neg (not_not.mpr h0)]
  dsimp only
  rw [dispatch_sync h, hsync]
  dsimp only [Option.map_some]
  rw [if_neg (not_not.mpr h1)]

theorem dependsOnCall_of_ne (h : tf.v0 ≠ SYS_sync) : DependsOnCall k tf s where
  alike locals locals' := by
    unfold mipsSyscall
    dsimp only
    rw [dispatch_err h locals.err locals'.err]
  error locals tf' s' hr := by
    obtain ⟨err, retval, hd, rfl⟩ := mipsSyscall_some hr
    rw [dispatch_err h locals.err 0] at hd
    exact ⟨err, by rw [reported, hd, Option.map_some], deliver_a3 tf err retval⟩

theorem dependsOnCall_of_stuck (hv : tf.v0 = SYS_sync) (h : ¬ SyncReturns k s) :
    DependsOnCall k tf s := by
  have hnone (locals : Locals) : mipsSyscall k locals tf s = none := by
    unfold mipsSyscall
    split
    · rfl
    · next h0 =>
      dsimp only
      rw [dispatch_sync hv]
      cases hsync : k.vfsSync s with
      | none => rfl
      | some s' =>
        dsimp only [Option.map_some]
        rw [if_pos fun h1 => h ⟨not_not.mp h0, s', hsync, h1⟩]
  refine ⟨fun locals locals' => (hnone locals).trans (hnone locals').symm,
    fun locals tf' s' hr => ?_⟩
  rw [hnone] at hr
  cases hr

/-- The result of a system call depends only on the call, unless it is a `sync` that comes back. -/
theorem dependsOnCall_iff (k : Kernel S) (tf : Trapframe) (s : S) :
    DependsOnCall k tf s ↔ tf.v0 ≠ SYS_sync ∨ ¬ SyncReturns k s := by
  constructor
  · intro h
    by_contra hno
    obtain ⟨hv, hs⟩ := not_or.mp hno
    obtain ⟨s', hr⟩ := mipsSyscall_sync (not_not.mp hv) (not_not.mp hs) ⟨0, 0, 0⟩
    obtain ⟨s'', hr'⟩ := mipsSyscall_sync (not_not.mp hv) (not_not.mp hs) ⟨0, 0, 1⟩
    have ha := h.alike ⟨0, 0, 0⟩ ⟨0, 0, 1⟩
    rw [hr, hr'] at ha
    have := congrArg (fun x : Option (Trapframe × S) => x.map (·.1.a3)) ha
    exact absurd this (by simp [deliver])
  · intro hx
    rcases hx with h | h
    · exact dependsOnCall_of_ne h
    · by_cases hv : tf.v0 = SYS_sync
      · exact dependsOnCall_of_stuck hv h
      · exact dependsOnCall_of_ne hv

end Proofs

/-- A kernel of one state in which nothing fails. -/
def plain : Kernel Unit where
  curspl _ := 0
  sysReboot _ _ := none
  sysOpen _ _ _ _ _ := some (0, 3, ())
  sysRead _ _ _ _ _ := some (0, 0, ())
  sysWrite _ _ _ _ _ := some (0, 0, ())
  sysClose _ _ := some (0, ())
  sysLseek _ _ _ _ _ := some (0, 0, ())
  vopStat _ _ _ := some (0, ())
  vfsSync _ := some ()

/-- `sync` succeeds or fails with what was on the stack. -/
theorem sync_undefined :
    mipsSyscall plain ⟨0, 0, 0⟩ ⟨9, 0, 0, 0, 0, 0⟩ () = some (⟨0, 0, 0, 0, 0, 4⟩, ()) ∧
      mipsSyscall plain ⟨0, 0, 5⟩ ⟨9, 0, 0, 0, 0, 0⟩ () = some (⟨5, 0, 0, 0, 1, 4⟩, ()) ∧
      ¬ DependsOnCall plain ⟨9, 0, 0, 0, 0, 0⟩ () := by
  have h0 : mipsSyscall plain ⟨0, 0, 0⟩ ⟨9, 0, 0, 0, 0, 0⟩ () =
    some (⟨0, 0, 0, 0, 0, 4⟩, ()) := by decide
  have h5 : mipsSyscall plain ⟨0, 0, 5⟩ ⟨9, 0, 0, 0, 0, 0⟩ () =
    some (⟨5, 0, 0, 0, 1, 4⟩, ()) := by decide
  refine ⟨h0, h5, fun h => ?_⟩
  have ha := h.alike ⟨0, 0, 0⟩ ⟨0, 0, 5⟩
  rw [h0, h5] at ha
  exact absurd ha (by decide)

end Os161.Files.Syscalls
