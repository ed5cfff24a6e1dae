import Os161.Files.Accounts

/-! # Descriptors and user buffers

What the calls on an open file touch: slots of the descriptor table, entries of the table
of open files, and memory at the address the caller passed. -/
namespace Os161.Files

def USERTOP : Nat := 0x80000000

/-- `sizeof(struct stat)`. -/
def statSize : Nat := 16

inductive Access where
  /-- a read of `fd[index]` -/
  | slot (index : Int)
  /-- a pointer from the descriptor table that is followed -/
  | entry (ofte : Option Nat)
  /-- a byte stored through the address from the user -/
  | store (addr : Nat)
  deriving DecidableEq

/-- How a call ends: with its result, in a panic of its own, in a fault of the kernel, or
somewhere the code does not determine. -/
inductive Outcome where
  | done (r : Except Errno Int)
  | panic
  | fault
  | undefined
  deriving DecidableEq

structure Effect where
  log : List Access
  outcome : Outcome
  deriving DecidableEq

/-! ## Copying -/

/-- `copycheck`: `stoplen`, or none for `EFAULT`. -/
def copycheck (bot len : Nat) : Option Nat :=
  let top := (bot + len + (2 ^ 32 - 1)) % 2 ^ 32
  if top < bot then none
  else if bot ≥ USERTOP then none
  else if top ≥ USERTOP then some (USERTOP - bot)
  else some len

/-- The bytes of a block that a store reaches before the first page that is not there. -/
def stored (mapped : Nat → Bool) (base len : Nat) : List Nat :=
  ((List.range len).map fun k => (base + k) % 2 ^ 32).takeWhile mapped

/-- `copyout`: the bytes stored, and whether it returned 0. -/
def copyout (mapped : Nat → Bool) (userdest len : Nat) : List Access × Bool :=
  if copycheck userdest len = some len then
    let bytes := stored mapped userdest len
    (bytes.map .store, bytes.length = len)
  else ([], false)

/-- `copyin` stores nothing at the user's address. -/
def copyin (mapped : Nat → Bool) (usersrc len : Nat) : List Access × Bool :=
  if copycheck usersrc len = some len then ([], (stored mapped usersrc len).length = len)
  else ([], false)

inductive UioRw where
  | UIO_READ | UIO_WRITE
  deriving DecidableEq

/-- `mk_uio`: `iov_len` and `uio_resid` stay equal. -/
structure Uio where
  ubase : Nat
  resid : Nat
  offset : Int
  rw : UioRw

def copy (mapped : Nat → Bool) : UioRw → Nat → Nat → List Access × Bool
  | .UIO_READ => copyout mapped
  | .UIO_WRITE => copyin mapped

/-- `uiomove(ptr, n, uio)` into user space; one turn of its loop is enough. -/
def uiomove (mapped : Nat → Bool) (n : Nat) (u : Uio) : List Access × Bool × Uio :=
  let size := min u.resid n
  if size = 0 then ([], true, u)
  else
    let (log, ok) := copy mapped u.rw u.ubase size
    if ok then
      (log, true, { u with
        ubase := (u.ubase + size) % 2 ^ 32
        resid := u.resid - size
        offset := u.offset + size })
    else (log, false, u)

/-- `VOP_READ` and `VOP_WRITE` reach the buffer through `uiomove` only: `moves` are the
sizes of its calls, and `result` is what the operation returns if none of them fails. -/
structure VnodeIo where
  moves : List Nat
  result : Option Errno

def VnodeIo.run (mapped : Nat → Bool) (io : VnodeIo) :
    List Nat → Uio → List Access × Option Errno × Uio
  | [], u => ([], io.result, u)
  | n :: ns, u =>
    match uiomove mapped n u with
    | (log, true, u) =>
      let (log', r, u) := io.run mapped ns u
      (log ++ log', r, u)
    | (log, false, u) => (log, some .EFAULT, u)

/-! ## The calls -/

/-- What `VOP_STAT` leaves in `st_size`, and what `VOP_TRYSEEK` returns (negative is an
error, as `sys_lseek` reads it). -/
structure SeekAnswers where
  stat : Except Errno Int
  tryseek : Int

/-- The value of an expression of type `off_t`. -/
def offT (x : Int) : Int := x.bmod 4294967296

inductive Whence where
  | SEEK_SET | SEEK_CUR | SEEK_END | other
  deriving DecidableEq

inductive FileCall where
  | read (filehandle : Int) (buf : BitVec 32) (size : BitVec 32) (io : VnodeIo)
  | write (filehandle : Int) (buf : BitVec 32) (size : BitVec 32) (io : VnodeIo)
  | close (filehandle : Int)
  | lseek (filehandle : Int) (pos : Int) (code : Whence) (answers : SeekAnswers)
  | fstat (filehandle : Int) (statbuf : BitVec 32) (result : Option Errno)

def FileCall.filehandle : FileCall → Int
  | .read fh _ _ _ | .write fh _ _ _ | .close fh | .lseek fh _ _ _ | .fstat fh _ _ => fh

/-- The first block a call moves to or from the user. -/
def FileCall.block : FileCall → Option (Nat × Nat)
  | .read _ buf size io | .write _ buf size io =>
    ((io.moves.map (min size.toNat)).find? (0 < ·)).map fun n => (buf.toNat, n)
  | .fstat _ statbuf _ => some (statbuf.toNat, statSize)
  | .close _ | .lseek _ _ _ _ => none

/-- What `check_fd_access` reads. -/
def checkLog (fdt : Nat → Option Nat) (filehandle : Int) : List Access :=
  if filehandle < 0 ∨ filehandle ≥ MAX_FD then []
  else
    match fdt filehandle.toNat with
    | none => [.slot filehandle]
    | some i => [.slot filehandle, .entry (some i)]

namespace State

variable {T V : Type}

/-- The part of a call after `check_fd_access`, where that returned 0. -/
def checked (s : State T V) (t : T) (filehandle : Int) (acc : FdAccess)
    (k : Nat → Effect × State T V) : Effect × State T V :=
  let log := checkLog (s.fdt t) filehandle
  match checkFdAccess s.oft (s.fdt t) filehandle acc with
  | .ebadf => (⟨log, .done (.error .EBADF)⟩, s)
  | .panic => (⟨log, .panic⟩, s)
  | .ok i =>
    (⟨log ++ [.slot filehandle, .entry (some i)] ++ (k i).1.log, (k i).1.outcome⟩, (k i).2)

/-- `curthread->t_fdt->fd[filehandle]->fp = fp`. -/
def setFp (s : State T V) (i : Nat) (fp : Int) : State T V :=
  { s with oft := Function.update s.oft i { s.oft i with fp := fp } }

def transfer (s : State T V) (mapped : Nat → Bool) (rw : UioRw) (buf size : Nat) (io : VnodeIo)
    (i : Nat) : Effect × State T V :=
  let (log, r, u) := io.run mapped io.moves ⟨buf, size, (s.oft i).fp, rw⟩
  match r with
  | some e => (⟨log, .done (.error e)⟩, s)
  | none => (⟨log, .done (.ok (u.offset - (s.oft i).fp))⟩, s.setFp i u.offset)

def seek (s : State T V) (pos : Int) (answers : SeekAnswers) (code : Whence) (i : Nat) :
    Effect × State T V :=
  let newfp : Except Errno Int :=
    match code with
    | .SEEK_SET => .ok pos
    | .SEEK_CUR => .ok (offT ((s.oft i).fp + pos))
    | .SEEK_END => answers.stat.map fun size => offT (size + pos)
    | .other => .error .EINVAL
  match newfp with
  | .error e => (⟨[], .done (.error e)⟩, s)
  | .ok newfp =>
    if newfp < 0 then (⟨[], .done (.error .EINVAL)⟩, s)
    else if answers.tryseek < 0 then (⟨[], .done (.error (.other answers.tryseek))⟩, s)
    else (⟨[], .done (.ok newfp)⟩, s.setFp i newfp)

def statOutcome : Option Errno → Outcome
  | some e => .done (.error e)
  | none => .done (.ok 0)

/-- `sys_fstat` hands descriptor and address to `VOP_STAT` as they are, which clears the
buffer first. -/
def sysFstat (s : State T V) (mapped : Nat → Bool) (t : T) (fd : Int) (statbuf : Nat)
    (result : Option Errno) : Effect :=
  if fd < 0 ∨ fd ≥ MAX_FD then ⟨[.slot fd], .undefined⟩
  else
    match s.fdt t fd.toNat with
    | none => ⟨[.slot fd, .entry none], .undefined⟩
    | some i =>
      let bytes := stored mapped statbuf statSize
      ⟨[.slot fd, .entry (some i)] ++ bytes.map .store,
        if bytes.length < statSize then .fault else statOutcome result⟩

/-- What a call does, and the state it leaves behind. -/
def call [DecidableEq T] [DecidableEq V] (s : State T V) (mapped : Nat → Bool) (t : T) :
    FileCall → Effect × State T V
  | .read fh buf size io =>
    s.checked t fh .F_READ (s.transfer mapped .UIO_READ buf.toNat size.toNat io)
  | .write fh buf size io =>
    s.checked t fh .F_WRITE (s.transfer mapped .UIO_WRITE buf.toNat size.toNat io)
  | .close fh =>
    s.checked t fh .F_ANY fun i => (⟨[], .done (.ok 0)⟩, (s.closeEntry i).setSlot t fh.toNat none)
  | .lseek fh pos code answers => s.checked t fh .F_ANY (s.seek pos answers code)
  | .fstat fh statbuf result => (s.sysFstat mapped t fh statbuf.toNat result, s)

/-! ## Validation -/

def OpenFd (s : State T V) (t : T) (fh : Int) : Prop :=
  0 ≤ fh ∧ fh < MAX_FD ∧ s.fdt t fh.toNat ≠ none

/-- A call that looks before it touches anything. -/
structure Validated (s : State T V) (t : T) (c : FileCall) (e : Effect) : Prop where
  ebadf : ¬ s.OpenFd t c.filehandle → e.outcome = .done (.error .EBADF)
  slot : ∀ k : Int, .slot k ∈ e.log → 0 ≤ k ∧ k < MAX_FD
  entry : .entry none ∉ e.log
  store : ∀ a, .store a ∈ e.log → a < USERTOP
  efault : ∀ base len, c.block = some (base, len) → USERTOP < base + len → s.OpenFd t c.filehandle →
    e.outcome = .done (.error .EFAULT) ∨ e.outcome = .done (.error .EBADF)
  panic : e.outcome ≠ .panic

end State

/-! ## Copying stays below `USERTOP` -/

theorem copycheck_some {bot len : Nat} (hbot : bot < 2 ^ 32) (hlen : 0 < len) (hmax : len < 2 ^ 32)
    (h : copycheck bot len = some len) : bot + len ≤ USERTOP := by
  unfold copycheck at h
  dsimp only at h
  split_ifs at h with h1 h2 h3
  · simp only [Option.some.injEq] at h
    simp only [USERTOP] at *
    omega
  · simp only [USERTOP] at *
    omega

theorem stored_lt {mapped : Nat → Bool} {base len a : Nat} (h : base + len ≤ USERTOP)
    (ha : a ∈ stored mapped base len) : a < USERTOP := by
  obtain ⟨k, hk, rfl⟩ := List.mem_map.mp ((List.takeWhile_sublist _).subset ha)
  have hlt := List.mem_range.mp hk
  simp only [USERTOP] at h ⊢
  omega

theorem copy_store {mapped : Nat → Bool} {rw : UioRw} {base len a : Nat} (hbase : base < 2 ^ 32)
    (hlen : 0 < len) (hmax : len < 2 ^ 32) (ha : .store a ∈ (copy mapped rw base len).1) :
    a < USERTOP := by
  cases rw with
  | UIO_READ =>
    simp only [copy, copyout] at ha
    split at ha
    · next hck =>
      obtain ⟨b, hb, heq⟩ := List.mem_map.mp ha
      cases heq
      exact stored_lt (copycheck_some hbase hlen hmax hck) hb
    · exact absurd ha List.not_mem_nil
  | UIO_WRITE =>
    simp only [copy, copyin] at ha
    split at ha <;> exact absurd ha List.not_mem_nil

/-- Only stores go through the address. -/
theorem copy_log {mapped : Nat → Bool} {rw : UioRw} {base len : Nat} {x : Access}
    (hx : x ∈ (copy mapped rw base len).1) : ∃ a, x = .store a := by
  cases rw with
  | UIO_READ =>
    simp only [copy, copyout] at hx
    split at hx
    · obtain ⟨b, _, rfl⟩ := List.mem_map.mp hx
      exact ⟨b, rfl⟩
    · exact absurd hx List.not_mem_nil
  | UIO_WRITE =>
    simp only [copy, copyin] at hx
    split at hx <;> exact absurd hx List.not_mem_nil

theorem copy_above {mapped : Nat → Bool} {rw : UioRw} {base len : Nat} (hbase : base < 2 ^ 32)
    (hlen : 0 < len) (hmax : len < 2 ^ 32) (h : USERTOP < base + len) :
    copy mapped rw base len = ([], false) := by
  have hck : ¬ copycheck base len = some len := fun hc => by
    have := copycheck_some hbase hlen hmax hc
    omega
  cases rw with
  | UIO_READ => rw [copy, copyout, if_neg hck]
  | UIO_WRITE => rw [copy, copyin, if_neg hck]

/-- Base and length are 32-bit values. -/
structure Uio.Small (u : Uio) : Prop where
  ubase : u.ubase < 2 ^ 32
  resid : u.resid < 2 ^ 32

theorem uiomove_spec (mapped : Nat → Bool) (n : Nat) {u : Uio} (h : u.Small) :
    (uiomove mapped n u).2.2.Small ∧
    ∀ x ∈ (uiomove mapped n u).1, ∃ a, x = .store a ∧ a < USERTOP := by
  unfold uiomove
  dsimp only
  have hresid := h.resid
  split
  · exact ⟨h, fun x hx => absurd hx List.not_mem_nil⟩
  · next hsize =>
    have hlog : ∀ x ∈ (copy mapped u.rw u.ubase (min u.resid n)).1,
        ∃ a, x = .store a ∧ a < USERTOP := by
      intro x hx
      obtain ⟨a, rfl⟩ := copy_log hx
      exact ⟨a, rfl, copy_store h.ubase (by omega) (by omega) hx⟩
    split
    · exact ⟨⟨Nat.mod_lt _ (by decide), by dsimp only; omega⟩, hlog⟩
    · exact ⟨h, hlog⟩

theorem VnodeIo.run_spec (mapped : Nat → Bool) (io : VnodeIo) (ns : List Nat) {u : Uio}
    (h : u.Small) : ∀ x ∈ (io.run mapped ns u).1, ∃ a, x = .store a ∧ a < USERTOP := by
  induction ns generalizing u with
  | nil => exact fun x hx => absurd hx List.not_mem_nil
  | cons n ns ih =>
    have hspec := uiomove_spec mapped n h
    intro x hx
    unfold VnodeIo.run at hx
    split at hx
    · next log u' heq =>
      rw [heq] at hspec
      rcases List.mem_append.mp hx with hx | hx
      · exact hspec.2 x hx
      · exact ih hspec.1 x hx
    · next log u' heq =>
      rw [heq] at hspec
      exact hspec.2 x hx

/-- The first block that reaches the kernel is refused. -/
theorem VnodeIo.run_efault (mapped : Nat → Bool) (io : VnodeIo) (ns : List Nat)
    (len : Nat) {u : Uio}
    (h : u.Small) (hf : (ns.map (min u.resid)).find? (0 < ·) = some len)
    (habove : USERTOP < u.ubase + len) : (io.run mapped ns u).2.1 = some .EFAULT := by
  have hresid := h.resid
  induction ns with
  | nil => cases hf
  | cons n ns ih =>
    by_cases hn : 0 < min u.resid n
    · rw [List.map_cons, List.find?_cons_of_pos (by simpa using hn)] at hf
      cases hf
      have hno : ¬ min u.resid n = 0 := by omega
      have hmove : uiomove mapped n u = ([], false, u) := by
        unfold uiomove
        dsimp only
        rw [if_neg hno, copy_above h.ubase hn (by omega) habove]
        rfl
      rw [VnodeIo.run, hmove]
    · rw [List.map_cons, List.find?_cons_of_neg (by simpa using hn)] at hf
      have hmove : uiomove mapped n u = ([], true, u) := by
        unfold uiomove
        dsimp only
        rw [if_pos (by omega)]
      rw [VnodeIo.run, hmove]
      exact ih hf

namespace State

variable {T V : Type} {s : State T V} {t : T}

theorem checkLog_mem {fdt : Nat → Option Nat} {fh : Int} {x : Access} (hx : x ∈ checkLog fdt fh) :
    (x = .slot fh ∧ 0 ≤ fh ∧ fh < MAX_FD) ∨ ∃ i, x = .entry (some i) := by
  unfold checkLog at hx
  split at hx
  · exact absurd hx List.not_mem_nil
  · next hrange =>
    split at hx
    · obtain rfl := List.mem_singleton.mp hx
      exact .inl ⟨rfl, by omega, by omega⟩
    · next i _ =>
      rcases List.mem_cons.mp hx with rfl | hx
      · exact .inl ⟨rfl, by omega, by omega⟩
      · obtain rfl := List.mem_singleton.mp hx
        exact .inr ⟨i, rfl⟩

/-- A call that starts with `check_fd_access` is validated if what follows it stores in
user space only and refuses a block that reaches the kernel. -/
theorem Inv.checked {c : FileCall} {acc : FdAccess} {k : Nat → Effect × State T V} (h : s.Inv)
    (ht : t ∈ s.threads) (hp : s.phase t = .running)
    (hlog : ∀ i, ∀ x ∈ (k i).1.log, ∃ a, x = .store a ∧ a < USERTOP)
    (hefault : ∀ i base len, c.block = some (base, len) → USERTOP < base + len →
      (k i).1.outcome = .done (.error .EFAULT))
    (hpanic : ∀ i, (k i).1.outcome ≠ .panic) :
    s.Validated t c (s.checked t c.filehandle acc k).1 := by
  unfold State.checked
  rcases h.check c.filehandle acc ht hp with hck | ⟨i, hck, hge, hi⟩
  · rw [hck]
    exact {
      ebadf := fun _ => rfl
      slot := fun j hj => by
        rcases checkLog_mem hj with ⟨heq, h0, h1⟩ | ⟨i, heq⟩
        · rw [Access.slot.inj heq]
          exact ⟨h0, h1⟩
        · cases heq
      entry := fun hj => by
        rcases checkLog_mem hj with ⟨heq, _⟩ | ⟨i, heq⟩ <;> cases heq
      store := fun a ha => by
        rcases checkLog_mem ha with ⟨heq, _⟩ | ⟨i, heq⟩ <;> cases heq
      efault := fun _ _ _ _ _ => .inr rfl
      panic := nofun }
  · rw [hck]
    have hrange : c.filehandle < MAX_FD := by
      have := hi.2.1
      omega
    have hmem {x : Access} (hx : x ∈ checkLog (s.fdt t) c.filehandle ++
        [.slot c.filehandle, .entry (some i)] ++ (k i).1.log) :
        x = .slot c.filehandle ∨ (∃ i, x = .entry (some i)) ∨ ∃ a, x = .store a ∧ a < USERTOP := by
      rcases List.mem_append.mp hx with hx | hx
      · rcases List.mem_append.mp hx with hx | hx
        · rcases checkLog_mem hx with ⟨rfl, _⟩ | hx
          · exact .inl rfl
          · exact .inr (.inl hx)
        · rcases List.mem_cons.mp hx with rfl | hx
          · exact .inl rfl
          · exact .inr (.inl ⟨i, List.mem_singleton.mp hx⟩)
      · exact .inr (.inr (hlog i x hx))
    exact {
      ebadf := fun hno => absurd ⟨hge, hrange, by rw [hi.2.2.1]; exact nofun⟩ hno
      slot := fun j hj => by
        rcases hmem hj with heq | ⟨_, heq⟩ | ⟨_, heq, _⟩
        · rw [Access.slot.inj heq]
          exact ⟨hge, hrange⟩
        · cases heq
        · cases heq
      entry := fun hj => by
        rcases hmem hj with heq | ⟨_, heq⟩ | ⟨_, heq, _⟩ <;> cases heq
      store := fun a ha => by
        rcases hmem ha with heq | ⟨_, heq⟩ | ⟨b, heq, hb⟩
        · cases heq
        · cases heq
        · cases heq
          exact hb
      efault := fun base len hb hab _ => .inl (hefault i base len hb hab)
      panic := hpanic i }

theorem transfer_spec {mapped : Nat → Bool} {rw : UioRw} {buf size : BitVec 32} {io : VnodeIo}
    {i : Nat} :
    (∀ x ∈ (s.transfer mapped rw buf.toNat size.toNat io i).1.log,
      ∃ a, x = .store a ∧ a < USERTOP) ∧
    (∀ len, (io.moves.map (min size.toNat)).find? (0 < ·) = some len → USERTOP < buf.toNat + len →
      (s.transfer mapped rw buf.toNat size.toNat io i).1.outcome = .done (.error .EFAULT)) ∧
    (s.transfer mapped rw buf.toNat size.toNat io i).1.outcome ≠ .panic := by
  have hsmall : (⟨buf.toNat, size.toNat, (s.oft i).fp, rw⟩ : Uio).Small := ⟨buf.isLt, size.isLt⟩
  have hlog := VnodeIo.run_spec mapped io io.moves hsmall
  have hefault := fun len => VnodeIo.run_efault mapped io io.moves len hsmall
  unfold transfer
  generalize io.run mapped io.moves ⟨buf.toNat, size.toNat, (s.oft i).fp, rw⟩ =
    res at hlog hefault ⊢
  obtain ⟨log, r, u⟩ := res
  cases r with
  | some e =>
    refine ⟨hlog, fun len hf hab => ?_, nofun⟩
    have heq := hefault len hf hab
    cases heq
    rfl
  | none =>
    refine ⟨hlog, fun len hf hab => ?_, nofun⟩
    cases hefault len hf hab

theorem seek_spec {pos : Int} {code : Whence} {answers : SeekAnswers} {i : Nat} :
    (s.seek pos answers code i).1.log = [] ∧ (s.seek pos answers code i).1.outcome ≠ .panic := by
  unfold seek
  dsimp only
  split
  · exact ⟨rfl, nofun⟩
  · split
    · exact ⟨rfl, nofun⟩
    · split <;> exact ⟨rfl, nofun⟩

theorem mem_stored {mapped : Nat → Bool} {base len k : Nat}
    (hall : ¬ (stored mapped base len).length < len)
    (hk : k < len) : (base + k) % 2 ^ 32 ∈ stored mapped base len := by
  have hsub := List.takeWhile_prefix mapped (l := (List.range len).map fun k => (base + k) % 2 ^ 32)
  have hlen : (stored mapped base len).length =
      ((List.range len).map fun k => (base + k) % 2 ^ 32).length := by
    have := hsub.length_le
    rw [List.length_map, List.length_range] at this ⊢
    exact Nat.le_antisymm this (Nat.le_of_not_lt hall)
  rw [stored, hsub.eq_of_length hlen]
  exact List.mem_map.mpr ⟨k, List.mem_range.mpr hk, rfl⟩

theorem sysFstat_open {fd : Int} {i : Nat} (mapped : Nat → Bool) (statbuf : Nat)
    (r : Option Errno) (h0 : 0 ≤ fd) (h1 : fd < MAX_FD) (hi : s.fdt t fd.toNat = some i) :
    s.sysFstat mapped t fd statbuf r =
      ⟨[.slot fd, .entry (some i)] ++ (stored mapped statbuf statSize).map .store,
        if (stored mapped statbuf statSize).length < statSize then .fault else statOutcome r⟩ := by
  have hr : ¬ (fd < 0 ∨ fd ≥ MAX_FD) := by omega
  unfold sysFstat
  rw [if_neg hr, hi]

theorem sysFstat_validated {mapped : Nat → Bool} {fd : Int} {statbuf : BitVec 32}
    {r : Option Errno} (hfd : s.OpenFd t fd) (hbuf : statbuf.toNat + statSize ≤ USERTOP) :
    s.Validated t (.fstat fd statbuf r) (s.sysFstat mapped t fd statbuf.toNat r) := by
  obtain ⟨h0, h1, hsome⟩ := hfd
  obtain ⟨i, hi⟩ := Option.ne_none_iff_exists'.mp hsome
  have heq := sysFstat_open mapped statbuf.toNat r h0 h1 hi
  have hmem {x : Access} (hx : x ∈ (s.sysFstat mapped t fd statbuf.toNat r).log) :
      x = .slot fd ∨ x = .entry (some i) ∨ ∃ a, x = .store a ∧ a < USERTOP := by
    rw [heq] at hx
    rcases List.mem_append.mp hx with hx | hx
    · rcases List.mem_cons.mp hx with rfl | hx
      · exact .inl rfl
      · exact .inr (.inl (List.mem_singleton.mp hx))
    · obtain ⟨a, ha, rfl⟩ := List.mem_map.mp hx
      exact .inr (.inr ⟨a, rfl, stored_lt hbuf ha⟩)
  exact {
    ebadf := fun hno => absurd ⟨h0, h1, hsome⟩ hno
    slot := fun j hj => by
      rcases hmem hj with heq | heq | ⟨_, heq, _⟩ <;> cases heq
      exact ⟨h0, h1⟩
    entry := fun hj => by
      rcases hmem hj with heq | heq | ⟨_, heq, _⟩ <;> cases heq
    store := fun a ha => by
      rcases hmem ha with heq | heq | ⟨b, heq, hb⟩ <;> cases heq
      exact hb
    efault := fun base len hb hab _ => by
      cases hb
      omega
    panic := by
      rw [heq]
      dsimp only
      split
      · exact nofun
      · cases r <;> exact nofun }

theorem Validated.fstat {mapped : Nat → Bool} {fd : Int} {statbuf : BitVec 32} {r : Option Errno}
    (h : s.Validated t (.fstat fd statbuf r) (s.sysFstat mapped t fd statbuf.toNat r)) :
    s.OpenFd t fd ∧ statbuf.toNat + statSize ≤ USERTOP := by
  have hopen : s.OpenFd t fd := by
    by_contra hno
    have hbad := h.ebadf hno
    unfold sysFstat at hbad
    split at hbad
    · cases hbad
    · next hrange =>
      split at hbad
      · cases hbad
      · next i hi => exact hno ⟨by omega, by omega, by rw [hi]; exact nofun⟩
  refine ⟨hopen, ?_⟩
  by_contra habove
  have hefault := h.efault _ _ rfl (Nat.lt_of_not_le habove) hopen
  have hstore := h.store
  obtain ⟨h0, h1, hsome⟩ := hopen
  obtain ⟨i, hi⟩ := Option.ne_none_iff_exists'.mp hsome
  rw [sysFstat_open mapped statbuf.toNat r h0 h1 hi] at hefault hstore
  dsimp only at hefault hstore
  by_cases hall : (stored mapped statbuf.toNat statSize).length < statSize
  · rw [if_pos hall] at hefault
    rcases hefault with hefault | hefault <;> cases hefault
  · -- every byte is stored, one of them in the kernel
    have hbyte (k : Nat) (hk : k < statSize) : (statbuf.toNat + k) % 2 ^ 32 < USERTOP :=
      hstore _ (List.mem_append_right _ (List.mem_map_of_mem (mem_stored hall hk)))
    have hfirst := hbyte 0 (by decide)
    have hlast := hbyte 15 (by decide)
    have hlt := statbuf.isLt
    simp only [USERTOP, statSize] at *
    omega

variable [DecidableEq T] [DecidableEq V]

/-! ## Calls are steps of the open-file table -/

omit [DecidableEq T] [DecidableEq V] in
/-- A check that asks for more than any descriptor does finds no other entry. -/
theorem checkFdAccess_any {fh : Int} {acc : FdAccess} {i : Nat}
    (h : checkFdAccess s.oft (s.fdt t) fh acc = .ok i) :
    checkFdAccess s.oft (s.fdt t) fh .F_ANY = .ok i := by
  unfold checkFdAccess at h ⊢
  split at h
  · cases h
  · next hr =>
    rw [if_neg hr]
    cases hs : s.fdt t fh.toNat with
    | none =>
      rw [hs] at h
      cases h
    | some j =>
      rw [hs] at h
      dsimp only at h ⊢
      split_ifs at h ⊢ <;> simp_all

theorem checked_move {fh : Int} {acc : FdAccess} {k : Nat → Effect × State T V}
    (hk : ∀ i, (k i).2 = s ∨ ∃ fp, (k i).2 = s.setFp i fp) (hno : s.panic = false)
    (ht : t ∈ s.threads) (hp : s.phase t = .running) :
    (s.checked t fh acc k).2 = s ∨
      ∃ fp, s.step (.move t fh fp) = some (s.checked t fh acc k).2 := by
  rw [checked]
  cases hck : checkFdAccess s.oft (s.fdt t) fh acc with
  | ebadf => exact .inl rfl
  | panic => exact .inl rfl
  | ok i =>
    dsimp only
    rcases hk i with h | ⟨fp, h⟩
    · exact .inl h
    · refine .inr ⟨fp, ?_⟩
      rw [step, if_neg (by simp [hno]), if_pos ⟨ht, hp⟩, checkFdAccess_any hck, h]
      rfl

/-- A call other than `sys_close` moves the position of its file, or changes nothing. -/
theorem call_move {mapped : Nat → Bool} {c : FileCall} (hc : ∀ fh, c ≠ .close fh)
    (hno : s.panic = false) (ht : t ∈ s.threads) (hp : s.phase t = .running) :
    (s.call mapped t c).2 = s ∨
      ∃ fp, s.step (.move t c.filehandle fp) = some (s.call mapped t c).2 := by
  have htransfer (rw : UioRw) (buf size : Nat) (io : VnodeIo) (i : Nat) :
      (s.transfer mapped rw buf size io i).2 = s ∨
        ∃ fp, (s.transfer mapped rw buf size io i).2 = s.setFp i fp := by
    unfold transfer
    generalize io.run mapped io.moves ⟨buf, size, (s.oft i).fp, rw⟩ = r
    obtain ⟨log, r, u⟩ := r
    cases r with
    | some e => exact .inl rfl
    | none => exact .inr ⟨_, rfl⟩
  cases c with
  | read fh buf size io => exact checked_move (htransfer _ _ _ io) hno ht hp
  | write fh buf size io => exact checked_move (htransfer _ _ _ io) hno ht hp
  | close fh => exact absurd rfl (hc fh)
  | lseek fh pos code answers =>
    refine checked_move (fun i => ?_) hno ht hp
    unfold seek
    dsimp only
    split
    · exact .inl rfl
    · split
      · exact .inl rfl
      · split
        · exact .inl rfl
        · exact .inr ⟨_, rfl⟩
  | fstat fd statbuf r => exact .inl rfl

/-- `sys_close` without a thread switch is the step of the table. -/
theorem call_close {mapped : Nat → Bool} {fh : Int} {i : Nat} (hno : s.panic = false)
    (ht : t ∈ s.threads) (hp : s.phase t = .running)
    (hck : checkFdAccess s.oft (s.fdt t) fh .F_ANY = .ok i) :
    s.step (.close t fh) = some ((s.call mapped t (.close fh)).2.answer t (.ok 0)) := by
  rw [step, if_neg (by simp [hno]), if_pos ⟨ht, hp⟩, hck, call, checked, hck]

/-! ## Which calls are validated -/

/-- Descriptors and buffers are checked before they are used by every call but
`sys_fstat`, and by that one for an open descriptor and a buffer in user space. -/
theorem validated_iff {as : List (Act T V)} (hs : (boot : State T V).runs as = some s)
    (ht : t ∈ s.threads) (hp : s.phase t = .running) (mapped : Nat → Bool) (c : FileCall) :
    s.Validated t c (s.call mapped t c).1 ↔
      ∀ fd statbuf r, c = .fstat fd statbuf r →
        s.OpenFd t fd ∧ statbuf.toNat + statSize ≤ USERTOP := by
  have h := runs_inv hs
  cases c with
  | read fh buf size io =>
    refine iff_of_true (h.checked ht hp (fun i => transfer_spec.1) (fun i base len hb hab => ?_)
      fun i => transfer_spec.2.2) nofun
    obtain ⟨n, hn, heq⟩ := Option.map_eq_some_iff.mp hb
    cases heq
    exact transfer_spec.2.1 _ hn hab
  | write fh buf size io =>
    refine iff_of_true (h.checked ht hp (fun i => transfer_spec.1) (fun i base len hb hab => ?_)
      fun i => transfer_spec.2.2) nofun
    obtain ⟨n, hn, heq⟩ := Option.map_eq_some_iff.mp hb
    cases heq
    exact transfer_spec.2.1 _ hn hab
  | close fh =>
    exact iff_of_true (h.checked ht hp (fun i x hx => absurd hx List.not_mem_nil) nofun
      fun i => nofun) nofun
  | lseek fh pos code answers =>
    refine iff_of_true (h.checked ht hp (fun i x hx => ?_) nofun fun i => seek_spec.2) nofun
    rw [seek_spec.1] at hx
    exact absurd hx List.not_mem_nil
  | fstat fd statbuf r =>
    constructor
    · intro hv fd' statbuf' r' heq
      cases heq
      exact hv.fstat
    · intro hok
      obtain ⟨hfd, hbuf⟩ := hok fd statbuf r rfl
      exact sysFstat_validated hfd hbuf

/-- A thread that has opened nothing passes descriptor 3 to `sys_fstat`. -/
theorem fstat_unopened : ¬ ∀ (as : List (Act Nat Nat)) (s : State Nat Nat) (t : Nat)
    (mapped : Nat → Bool) (c : FileCall), (boot : State Nat Nat).runs as = some s →
    t ∈ s.threads → s.phase t = .running → s.Validated t c (s.call mapped t c).1 := by
  intro h
  have hv := h [.fork 0] _ 0 (fun _ => true) (.fstat 3 0x1000 none) rfl (by decide) rfl
  have hbad := hv.ebadf fun ho => ho.2.2 rfl
  cases hbad

/-- `sys_read` on a descriptor that is not open. -/
theorem validated_iff_read : ∃ s : State Nat Nat, s.Validated 0 (.read 3 0x1000 8 ⟨[8], none⟩)
    (s.call (fun _ => true) 0 (.read 3 0x1000 8 ⟨[8], none⟩)).1 := by
  have hs : (boot : State Nat Nat).runs [.fork 0] = some _ := rfl
  exact ⟨_, (validated_iff hs (by decide) rfl _ _).mpr nofun⟩

end State

end Os161.Files
