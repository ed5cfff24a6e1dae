import Os161.Files.Access
import Os161.Filetable.Bounds
import Os161.Vfs.Paths

/-! # `mips_syscall` of assignment 2

The calls on the file table with what they do to the memory of the program. A path is read where
the program says it is, as by the kernel itself; `read`, `write` and `__getcwd` copy by way of a
buffer of `kmalloc` that nobody looks at. -/
namespace Os161.Filetable

/-- What the kernel reads at a pointer that it takes for a string: the bytes up to the first 0, or
up to where it faults. -/
structure RawString where
  bytes : List UInt8
  ends : Bool

/-- What a system call meets beside the table. `getdevice` is what keeps a lookup from a directory
to start at, `kbuffer` whether `kmalloc` had a buffer, and `touched` whether `VOP_READ` or
`vfs_getcwd` gets as far as storing a byte in it. -/
structure Outside (V : Type) extends Kernel V where
  string : Int → RawString
  mapped : Nat → Bool
  getdevice : Option Errno
  vopStat : Option Errno
  kbuffer : Bool
  touched : Bool

/-- The number in a register where the code takes a `size_t` or a pointer. -/
def toSize (a : Int) : Nat := (a % wordSize).toNat

/-- `getdevice` gets to its answer. It reads up to the first colon or slash, and behind the name of
a device over the slashes. -/
def RawString.splits (s : RawString) : Bool :=
  s.ends ||
    match Vfs.firstSeparator s.bytes 0 with
    | none => false
    | some (i, c) => !(c = 58 && 0 < i) || (s.bytes.drop (i + 1)).any (· ≠ 47)

/-- Errors that a function gets from a call and does not look at. -/
def Out.missed {V : Type} (o : Out V) (b : Bool) : Out V :=
  { o with result :=
      match o.result with
      | .ret retval failed => .ret retval (failed || b)
      | r => r }

section Calls

variable {V : Type} (o : Outside V) (t : Table V)

/-- `vfs_open` and `vfs_chdir` from `getdevice` on; none is a fault of the kernel. -/
def lookupAt {α : Type} (path : Int) (result : Except Errno α) : Option (Except Errno α) :=
  if (o.string path).splits then
    match o.getdevice with
    | some e => some (.error e)
    | none =>
      -- `strlen` of the subpath
      if (o.string path).ends then some result else none
  else none

def vfsOpenAt (path openflags : Int) : Option (Except Errno V) :=
  -- `O_ACCMODE` is no access mode
  if openflags % 4 = 3 then some (.error .EINVAL) else lookupAt o path o.vfsOpen

/-- `open`, on a path of the program. -/
def openPath (filename flags : Int) : Out V :=
  match vfsOpenAt o filename flags with
  | some result => openFile { o.toKernel with vfsOpen := result } t
  | none =>
    match freeSlot t with
    | some i => { log := scanned i, table := prepare o.toKernel t i, result := .undefined }
    | none => openFile o.toKernel t

/-- `copyout` of the whole buffer; at `NULL` it faults as at an address of the program. -/
def copyoutTo (buf : Int) (len : Nat) : Option Errno :=
  if o.kbuffer && (Files.copyout o.mapped (toSize buf) len).2 then none else some EFAULT

def copyinFrom (buf : Int) (len : Nat) : Option Errno :=
  if o.kbuffer && (Files.copyin o.mapped (toSize buf) len).2 then none else some EFAULT

/-- `write`, from the memory of the program. -/
def writeFrom (fd buf : Int) (nbytes : Nat) : Out V :=
  write { o.toKernel with copyin := copyinFrom o buf nbytes } t fd nbytes

/-- `read`, to the memory of the program. The results of `VOP_STAT` and `copyout` are not looked
at. -/
def readTo (fd buf : Int) (buflen : Nat) : Out V :=
  if isNull o.toKernel t fd then fail t [fd] .EBADF
  else if fd = 1 ∨ fd = 2 then fail t [fd] .EBADF
  else if Holds t fd then
    if t.offset fd < o.stSize then
      if o.kbuffer = false ∧ o.touched = true then { log := [fd], table := t, result := .undefined }
      else
        match o.vopRead with
        | some e => fail t [fd] e
        | none =>
          (transferred t [fd] fd (readLength o.stSize (t.offset fd) buflen)).missed
            (o.vopStat.isSome || (copyoutTo o buf buflen).isSome)
    else { log := [fd], table := t, result := .ret 0 o.vopStat.isSome }
  else { log := [fd], table := t, result := .undefined }

/-- `lseek`, which does not look at the result of `VOP_STAT` either. -/
def lseekStat (fd pos whence : Int) : Out V :=
  (lseek o.toKernel t fd pos whence).missed (whence = 2 && o.vopStat.isSome)

/-- The result of a call that returns a result code only. -/
def ofCode : Option Errno → Except Errno Unit
  | some e => .error e
  | none => .ok ()

def chdir (pathname : Int) : Out V :=
  match lookupAt o pathname (ofCode o.vfsChdir) with
  | none => { log := [], table := t, result := .undefined }
  | some (.error e) => fail t [] e
  | some (.ok ()) => { log := [], table := { t with errno := 0 }, result := .ret 0 false }

/-- `__getcwd`; `vfs_getcwd` leaves in `iov_len` the bytes it did not use. -/
def getcwd (buf : Int) (buflen : Nat) : Out V :=
  if o.kbuffer = false ∧ o.touched = true then { log := [], table := t, result := .undefined }
  else
    match o.vfsGetcwd with
    | .error e => fail t [] e
    | .ok used =>
      { log := []
        table := { t with errno := 0 }
        result := .ret (toInt32 (buflen - used)) (copyoutTo o buf buflen).isSome }

/-! ## The dispatcher -/

/-- The registers `tf_v0` and `tf_a3` on the way back to the program. -/
structure Trapframe where
  v0 : Int
  a3 : Int
  deriving DecidableEq

/-- From the value of `retval` on; `err` is what `sys_reboot` or the default case left. -/
def deliver (retval err errno : Int) : Trapframe :=
  if (if retval = -1 then errno else err) ≠ 0 then
    { v0 := if retval = -1 then errno else err, a3 := 1 }
  else { v0 := retval, a3 := 0 }

/-- The call that a system call number makes, on the registers. -/
inductive Request where
  | openFile (filename flags : Int)
  | read (fd buf : Int) (buflen : Nat)
  | write (fd buf : Int) (nbytes : Nat)
  | close (fd : Int)
  | lseek (fd pos whence : Int)
  | chdir (pathname : Int)
  | getcwd (buf : Int) (buflen : Nat)
  | dup2 (oldfd newfd : Int)
  | reboot (code : Int)
  | unknown

def dispatch (callno a0 a1 a2 : Int) : Request :=
  if callno = 8 then .reboot a0
  else if callno = 4 then .openFile a0 a1
  else if callno = 5 then .read a0 a1 (toSize a2)
  else if callno = 6 then .write a0 a1 (toSize a2)
  else if callno = 7 then .close a0
  else if callno = 13 then .lseek a0 a1 a2
  else if callno = 22 then .chdir a0
  else if callno = 29 then .getcwd a0 (toSize a1)
  else if callno = 26 then .dup2 a0 a1
  else .unknown

/-- The operation and the value of `err` after the `switch`. -/
def Request.perform : Request → Out V × Int
  | .openFile filename flags => (openPath o t filename flags, 0)
  | .read fd buf buflen => (readTo o t fd buf buflen, 0)
  | .write fd buf nbytes => (writeFrom o t fd buf nbytes, 0)
  | .close fd => (Filetable.close o.toKernel t fd, 0)
  | .lseek fd pos whence => (lseekStat o t fd pos whence, 0)
  | .chdir pathname => (Filetable.chdir o t pathname, 0)
  | .getcwd buf buflen => (Filetable.getcwd o t buf buflen, 0)
  | .dup2 oldfd newfd => (Filetable.dup2 o.toKernel t oldfd newfd, 0)
  | .reboot code =>
    if code = 0 ∨ code = 1 ∨ code = 2 then ({ log := [], table := t, result := .halts }, 0)
    else ({ log := [], table := t, result := .ret 0 true }, Errno.EINVAL.code)
  | .unknown => ({ log := [], table := t, result := .ret 0 true }, Errno.ENOSYS.code)

/-- `mips_syscall` after the `switch`; none where it does not come back. -/
def trap (p : Out V × Int) : Option Trapframe :=
  match p.1.result with
  | .ret retval _ => some (deliver retval p.2 p.1.table.errno)
  | _ => none

/-- What `mips_syscall` hands back. -/
def mipsSyscall (callno a0 a1 a2 : Int) : Option Trapframe :=
  trap ((dispatch callno a0 a1 a2).perform o t)

/-- The tables between system calls. -/
inductive Reached (con : Option V) : Table V → Prop where
  | boot : Reached con (boot con)
  | call {t : Table V} {o : Outside V} {q : Request} {retval : Int} {failed : Bool} :
      Reached con t → (q.perform o t).1.result = .ret retval failed →
        Reached con (q.perform o t).1.table

end Calls

/-! ## Tables between system calls -/

section Tables

variable {V : Type} {o : Outside V} {t : Table V} {r : Int} {b : Bool}

theorem Out.missed_ret {out : Out V} {b' : Bool} (h : (out.missed b).result = .ret r b') :
    ∃ b'', out.result = .ret r b'' := by
  unfold Out.missed at h
  cases hout : out.result with
  | ret r' b'' =>
    simp only [hout, Result.ret.injEq] at h
    exact ⟨b'', by rw [h.1]⟩
  | undefined => simp [hout] at h
  | diverges => simp [hout] at h
  | halts => simp [hout] at h

/-- Where nothing goes wrong with its memory, `readTo` is `read`. -/
theorem readTo_eq {fd buf : Int} {buflen : Nat} (hk : o.kbuffer = true) (hstat : o.vopStat = none)
    (hcopy : copyoutTo o buf buflen = none) :
    readTo o t fd buf buflen = read o.toKernel t fd buflen := by
  have hmissed (out : Out V) : out.missed false = out := by
    obtain ⟨log, table, result⟩ := out
    cases result <;> simp [Out.missed]
  rw [readTo, read]
  by_cases hnull : isNull o.toKernel t fd = true
  · rw [if_pos hnull, if_pos hnull]
  rw [if_neg hnull, if_neg hnull]
  by_cases hout : fd = 1 ∨ fd = 2
  · rw [if_pos hout, if_pos hout]
  rw [if_neg hout, if_neg hout]
  by_cases hholds : Holds t fd
  · rw [if_pos hholds, if_pos hholds]
    by_cases hsize : t.offset fd < o.stSize
    · rw [if_pos hsize, if_pos hsize, if_neg (by simp [hk]), hstat, hcopy]
      cases o.vopRead with
      | some e => rfl
      | none => exact hmissed _
    · rw [if_neg hsize, if_neg hsize, hstat]
      rfl
  · rw [if_neg hholds, if_neg hholds]

theorem openPath_changes {filename flags : Int}
    (h : (openPath o t filename flags).result = .ret r b) :
    Changes t (openPath o t filename flags).table := by
  unfold openPath at h ⊢
  cases hv : vfsOpenAt o filename flags with
  | some result =>
    simp only [hv] at h ⊢
    exact openFile_changes h
  | none =>
    cases hslot : freeSlot t with
    | some i => simp [hv, hslot] at h
    | none =>
      simp only [hv, hslot] at h ⊢
      exact openFile_changes h

theorem readTo_changes {fd buf : Int} {buflen : Nat}
    (h : (readTo o t fd buf buflen).result = .ret r b) :
    Changes t (readTo o t fd buf buflen).table := by
  unfold readTo at h ⊢
  split_ifs at h ⊢ with hnull hout hfd hsize hfault
  · exact Changes.one (.errno t _)
  · exact Changes.one (.errno t _)
  · cases hr : o.vopRead with
    | some e => exact Changes.one (.errno t _)
    | none => exact transferred_changes _ _ hfd
  · exact Relation.ReflTransGen.refl

/-- A system call that comes back makes the changes of the calls on the table. -/
theorem Request.perform_changes {q : Request} (h : (q.perform o t).1.result = .ret r b) :
    Changes t (q.perform o t).1.table := by
  cases q with
  | openFile filename flags => exact openPath_changes h
  | read fd buf buflen => exact readTo_changes h
  | write fd buf nbytes => exact write_changes h
  | close fd => exact close_changes h
  | lseek fd pos whence =>
    obtain ⟨b', hr⟩ := Out.missed_ret h
    exact lseek_changes hr
  | chdir pathname =>
    simp only [Request.perform, Filetable.chdir] at h ⊢
    split at h
    · cases h
    · exact Changes.one (.errno t _)
    · exact Changes.one (.errno t 0)
  | getcwd buf buflen =>
    simp only [Request.perform, Filetable.getcwd] at h ⊢
    split_ifs at h ⊢ with hfault
    cases o.vfsGetcwd with
    | error e => exact Changes.one (.errno t _)
    | ok used => exact Changes.one (.errno t 0)
  | dup2 oldfd newfd => exact dup2_changes h
  | reboot code =>
    simp only [Request.perform] at h ⊢
    split_ifs at h ⊢
    exact Relation.ReflTransGen.refl
  | unknown => exact Relation.ReflTransGen.refl

theorem Reached.sound {con : Option V} (ht : Reached con t) : Sound t := by
  induction ht with
  | boot => exact Sound.boot con
  | call _ hr ih => exact (Request.perform_changes hr).keeps (fun _ _ hs h => hs.change h) ih

end Tables

end Os161.Filetable
