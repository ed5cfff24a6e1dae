import Mathlib.Data.List.TakeWhile
import Os161.Files.Access

/-! # Copies between kernel and user memory

`copyin` and `copyout`. A copy goes byte by byte; at the first page that is not there it ends in
`copyfail`. -/
namespace Os161.User
open Os161.Files (copycheck stored USERTOP)

/-- Memory as a process sees it. -/
abbrev Mem := UInt32 → UInt8

/-- The memory with the first `n` bytes of `src` at `dst`. -/
def store (mem : Mem) (dst : UInt32) (n : Nat) (src : Nat → UInt8) : Mem :=
  fun x => if (x - dst).toNat < n then src (x - dst).toNat else mem x

/-- A kernel buffer with the first `n` bytes at `src` in front. -/
def fetch (buf : Nat → UInt8) (n : Nat) (src : UInt32) (mem : Mem) : Nat → UInt8 :=
  fun i => if i < n then mem (src + UInt32.ofNat i) else buf i

/-- A buffer of `kmalloc` with `out` in front; behind it is what the heap held. -/
def kbuffer (out : List UInt8) (heap : Nat → UInt8) : Nat → UInt8 :=
  fun i => (out[i]?).getD (heap i)

/-- The result of a copy, the user addresses it accessed, also the one it failed at, and what it
wrote to. -/
structure Copied (M : Type) where
  result : Option Files.Errno
  touched : List Nat
  dest : M

/-- The addresses of a block. -/
def addresses (p len : Nat) : List Nat := (List.range len).map fun k => (p + k) % 2 ^ 32

section Copy

-- `move n` is the destination after `n` bytes
variable {M : Type} (mapped : Nat → Bool) (move : Nat → M)

/-- A block that reaches into the kernel is refused as one that `copycheck` does not take. -/
def copy (p len : Nat) : Copied M :=
  if copycheck p len = some len then
    ⟨if (stored mapped p len).length = len then none else some .EFAULT,
      (addresses p len).take ((stored mapped p len).length + 1),
      move (stored mapped p len).length⟩
  else ⟨some .EFAULT, [], move 0⟩

end Copy

def copyin (mapped : Nat → Bool) (mem : Mem) (usersrc : UInt32) (dest : Nat → UInt8)
    (len : UInt32) : Copied (Nat → UInt8) :=
  copy mapped (fun n => fetch dest n usersrc mem) usersrc.toNat len.toNat

def copyout (mapped : Nat → Bool) (mem : Mem) (src : Nat → UInt8) (userdest len : UInt32) :
    Copied Mem :=
  copy mapped (fun n => store mem userdest n src) userdest.toNat len.toNat

structure NulTerminated (mem : Mem) (p : UInt32) (s : List UInt8) : Prop where
  bytes : ∀ i (h : i < s.length), mem (p + UInt32.ofNat i) = s[i]
  nul : mem (p + UInt32.ofNat s.length) = 0

/-! ## Blocks of user memory -/

/-- All of the block lies below `USERTOP`. -/
def InUser (p len : UInt32) : Prop :=
  ∀ a, p.toNat ≤ a → a < p.toNat + len.toNat → a < USERTOP

/-- A block that is there. -/
structure Present (mapped : Nat → Bool) (p len : UInt32) : Prop where
  user : InUser p len
  mapped : ∀ a, p.toNat ≤ a → a < p.toNat + len.toNat → mapped a = true

theorem inUser_iff {p len : UInt32} (h : len ≠ 0) :
    InUser p len ↔ p.toNat + len.toNat ≤ USERTOP := by
  have hpos : 0 < len.toNat := Nat.pos_of_ne_zero fun h0 => h (UInt32.toNat_inj.mp h0)
  constructor
  · intro hu
    have := hu (p.toNat + len.toNat - 1) (by omega) (by omega)
    omega
  · exact fun hle a _ ha => Nat.lt_of_lt_of_le ha hle

theorem copycheck_inUser {p len : UInt32} (h : len ≠ 0) (hu : InUser p len) :
    copycheck p.toNat len.toNat = some len.toNat := by
  have hle := (inUser_iff h).mp hu
  have hpos : 0 < len.toNat := Nat.pos_of_ne_zero fun h0 => h (UInt32.toNat_inj.mp h0)
  have htop : (p.toNat + len.toNat + (2 ^ 32 - 1)) % 2 ^ 32 = p.toNat + len.toNat - 1 := by
    unfold USERTOP at hle
    omega
  unfold copycheck
  dsimp only
  rw [htop, if_neg (by omega), if_neg (by omega), if_neg (by omega)]

/-- The check on the last address takes an empty block for one that wraps around. -/
theorem copycheck_empty (p : UInt32) : copycheck p.toNat 0 ≠ some 0 := by
  have hlt := p.toNat_lt
  unfold copycheck USERTOP
  dsimp only
  by_cases h0 : p.toNat = 0
  · rw [h0]
    decide
  · rw [if_pos (by omega)]
    decide

theorem copy_of_check {M : Type} {mapped : Nat → Bool} {move : Nat → M} {p len : Nat}
    (hc : copycheck p len = some len) (hn : (stored mapped p len).length = len) :
    copy mapped move p len = ⟨none, addresses p len, move len⟩ := by
  have hlen : (addresses p len).length ≤ len + 1 := by
    rw [addresses, List.length_map, List.length_range]
    exact Nat.le_succ _
  simp only [copy, hc, hn, if_true, List.take_of_length_le hlen]

theorem stored_present {mapped : Nat → Bool} {p len : Nat} (hle : p + len ≤ USERTOP)
    (h : ∀ a, p ≤ a → a < p + len → mapped a = true) : (stored mapped p len).length = len := by
  have hall : ∀ a ∈ (List.range len).map fun k => (p + k) % 2 ^ 32, mapped a = true := by
    intro a ha
    obtain ⟨k, hk, rfl⟩ := List.mem_map.mp ha
    have hlt := List.mem_range.mp hk
    unfold USERTOP at hle
    exact h _ (by omega) (by omega)
  rw [stored, List.takeWhile_eq_self_iff.mpr hall, List.length_map, List.length_range]

theorem copy_present {M : Type} {mapped : Nat → Bool} {move : Nat → M} {p len : UInt32}
    (h : len ≠ 0) (hp : Present mapped p len) : copy mapped move p.toNat len.toNat =
      ⟨none, addresses p.toNat len.toNat, move len.toNat⟩ :=
  copy_of_check (copycheck_inUser h hp.user) (stored_present ((inUser_iff h).mp hp.user) hp.mapped)

theorem copy_refused {M : Type} {mapped : Nat → Bool} {move : Nat → M} {p len : Nat}
    (hc : copycheck p len ≠ some len) : copy mapped move p len = ⟨some .EFAULT, [], move 0⟩ := by
  rw [copy, if_neg hc]

theorem copy_empty {M : Type} {mapped : Nat → Bool} {move : Nat → M} (p : UInt32) :
    copy mapped move p.toNat 0 = ⟨some .EFAULT, [], move 0⟩ :=
  copy_refused (copycheck_empty p)

/-- What is not refused before the first byte is within user memory. -/
theorem copy_above {M : Type} {mapped : Nat → Bool} {move : Nat → M} {p len : UInt32}
    (h : ¬ InUser p len) : copy mapped move p.toNat len.toNat = ⟨some .EFAULT, [], move 0⟩ := by
  have hlen : len ≠ 0 := by
    intro hx
    obtain rfl := hx
    exact h fun a h1 h2 => absurd h2 (Nat.not_lt.mpr h1)
  have hpos : 0 < len.toNat := Nat.pos_of_ne_zero fun h0 => hlen (UInt32.toNat_inj.mp h0)
  exact copy_refused fun hc =>
    h ((inUser_iff hlen).mpr (Files.copycheck_some p.toNat_lt hpos len.toNat_lt hc))

/-! ## What a copy leaves in memory -/

theorem toNat_add_sub {p : UInt32} {i : Nat} (h : i < 2 ^ 32) :
    (p + UInt32.ofNat i - p).toNat = i := by
  rw [UInt32.add_comm, UInt32.add_sub_cancel, UInt32.toNat_ofNat', Nat.mod_eq_of_lt h]

theorem store_of_lt {mem : Mem} {dst : UInt32} {n i : Nat} {src : Nat → UInt8} (h : i < n)
    (hn : n ≤ 2 ^ 32) : store mem dst n src (dst + UInt32.ofNat i) = src i := by
  rw [store, toNat_add_sub (Nat.lt_of_lt_of_le h hn), if_pos h]

theorem store_of_not {mem : Mem} {dst x : UInt32} {n : Nat} {src : Nat → UInt8}
    (h : ¬ (x - dst).toNat < n) : store mem dst n src x = mem x := if_neg h

theorem store_one {p x : UInt32} {c : UInt8} :
    store mem p 1 (fun _ => c) x = if x = p then c else mem x := by
  have hiff : (x - p).toNat < 1 ↔ x = p := by
    rw [Nat.lt_one_iff, ← UInt32.toNat_zero, UInt32.toNat_inj, UInt32.sub_eq_iff_eq_add,
      UInt32.zero_add]
  simp only [store, hiff]

theorem add_ofNat_inj {p : UInt32} {i j : Nat} (hi : i < 2 ^ 32) (hj : j < 2 ^ 32) :
    p + UInt32.ofNat i = p + UInt32.ofNat j ↔ i = j := by
  refine ⟨fun h => ?_, fun h => by rw [h]⟩
  rw [← toNat_add_sub (p := p) hi, h, toNat_add_sub hj]

theorem kbuffer_of_lt {out : List UInt8} {heap : Nat → UInt8} {i : Nat} (h : i < out.length) :
    kbuffer out heap i = out[i] := by
  rw [kbuffer, List.getElem?_eq_getElem h, Option.getD_some]

theorem kbuffer_of_ge {out : List UInt8} {heap : Nat → UInt8} {i : Nat} (h : out.length ≤ i) :
    kbuffer out heap i = heap i := by
  rw [kbuffer, List.getElem?_eq_none h, Option.getD_none]

theorem copyout_present {mapped : Nat → Bool} {mem : Mem} {src : Nat → UInt8} {p len : UInt32}
    (h : Present mapped p len) :
    (copyout mapped mem src p len).dest = store mem p len.toNat src := by
  by_cases h0 : len = 0
  · subst h0
    rw [copyout, UInt32.toNat_zero, copy_empty]
  · rw [copyout, copy_present h0 h]

/-! ## Which blocks are accepted -/

/-- The copy takes just the blocks of user memory and touches nothing above. -/
structure Accepts {M : Type} (p len : UInt32) (c : Copied M) : Prop where
  accepted : c.result = none ↔ InUser p len
  refused : ¬ InUser p len → c.result = some .EFAULT
  touched : ∀ a ∈ c.touched, a < USERTOP

theorem accepts_copy_iff {M : Type} {mapped : Nat → Bool} (hm : ∀ a < USERTOP, mapped a = true)
    {move : Nat → M} {p len : UInt32} :
    Accepts p len (copy mapped move p.toNat len.toNat) ↔ len ≠ 0 := by
  constructor
  · intro h hx
    obtain rfl := hx
    have hu : InUser p 0 := fun a h1 h2 => absurd h2 (Nat.not_lt.mpr h1)
    have := h.accepted.mpr hu
    rw [UInt32.toNat_zero, copy_empty] at this
    cases this
  · intro h
    by_cases hu : InUser p len
    · have hle := (inUser_iff h).mp hu
      rw [copy_present h ⟨hu, fun a h1 h2 => hm a (hu a h1 h2)⟩]
      refine ⟨iff_of_true rfl hu, fun hn => absurd hu hn, fun a ha => ?_⟩
      obtain ⟨k, hk, rfl⟩ := List.mem_map.mp ha
      have := List.mem_range.mp hk
      unfold USERTOP at hle ⊢
      omega
    · rw [copy_above hu]
      exact ⟨iff_of_false (fun he => nomatch he) hu, fun _ => rfl, fun a ha => nomatch ha⟩

/-- With all of user memory mapped, `copyin` and `copyout` accept exactly the user ranges, unless
the range is empty. -/
theorem copies_accept_iff (mapped : Nat → Bool) (hm : ∀ a < USERTOP, mapped a = true) (mem : Mem)
    (buf : Nat → UInt8) (p len : UInt32) :
    (Accepts p len (copyin mapped mem p buf len) ∧ Accepts p len (copyout mapped mem buf p len)) ↔
      len ≠ 0 :=
  ⟨fun h => (accepts_copy_iff hm).mp h.1,
    fun h => ⟨(accepts_copy_iff hm).mpr h, (accepts_copy_iff hm).mpr h⟩⟩

theorem copies_accept_iff_page : (Accepts 0x1000 4
      (copyin (fun _ => true) (fun _ => 0) 0x1000 (fun _ => 0) 4) ∧
    Accepts 0x1000 4 (copyout (fun _ => true) (fun _ => 0) (fun _ => 0) 0x1000 4)) ↔
      (4 : UInt32) ≠ 0 :=
  copies_accept_iff (fun _ => true) (fun _ _ => rfl) (fun _ => 0) (fun _ => 0) 0x1000 4

/-- A write of no bytes from a good address is refused. -/
theorem copyin_refuses_empty : InUser 0x1000 0 ∧
    (copyin (fun _ => true) (fun _ => 0) 0x1000 (fun _ => 0) 0).result = some .EFAULT ∧
      ¬ Accepts 0x1000 0 (copyin (fun _ => true) (fun _ => 0) 0x1000 (fun _ => 0) 0) := by
  have hu : InUser 0x1000 0 := fun a h1 h2 => absurd h2 (Nat.not_lt.mpr h1)
  have hr : (copyin (fun _ => true) (fun _ => 0) 0x1000 (fun _ => 0) 0).result = some .EFAULT := by
    rw [copyin, UInt32.toNat_zero, copy_empty]
  refine ⟨hu, hr, fun h => ?_⟩
  rw [h.accepted.mpr hu] at hr
  cases hr

end Os161.User
