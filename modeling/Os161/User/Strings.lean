import Mathlib.Data.Nat.Find
import Mathlib.Logic.Function.Basic
import Os161.User.Copies

/-! # Strings out of and into user memory

`copystr`, and `copyinstr` and `copyoutstr` on it. The loop ends at the NUL, at the end of the
buffer or where user memory ends, whichever comes first. -/
namespace Os161.User
open Os161.Files (copycheck USERTOP)

/-- How the copy of a string ended: its result, what it stored through `gotlen`, the destination,
and the indexes it read and wrote, with the one it failed at. -/
structure CopiedString (M : Type) where
  result : Option Files.Errno
  gotlen : Option Nat
  dest : M
  reads : List Nat
  writes : List Nat

/-- The same, with a round at `i` before it. -/
def CopiedString.after {M : Type} (i : Nat) (c : CopiedString M) : CopiedString M :=
  { c with reads := i :: c.reads, writes := i :: c.writes }

section Code

variable {M : Type}

/-- `copystr` behind its loop: both limits are told apart. -/
def ranOut (maxlen stoplen : Nat) (dest : M) : CopiedString M :=
  ⟨if stoplen < maxlen then some .EFAULT else some .ENAMETOOLONG, none, dest, [], []⟩

section Loop

-- `none` is a fault, which ends the copy in `copyfail`
variable (read : Nat → Option UInt8) (write : Nat → UInt8 → M → Option M)

/-- The loop of `copystr` from `i` on, which is `n` below `maxlen`. `gotlen` says that the pointer
is not null. -/
def copystrFrom (maxlen stoplen : Nat) (gotlen : Bool) : Nat → Nat → M → CopiedString M
  | 0, _, dest => ranOut maxlen stoplen dest
  | n + 1, i, dest =>
    if i < maxlen ∧ i < stoplen then
      match read i with
      | none => ⟨some .EFAULT, none, dest, [i], []⟩
      | some c =>
        match write i c dest with
        | none => ⟨some .EFAULT, none, dest, [i], [i]⟩
        | some dest =>
          if c = 0 then ⟨none, if gotlen then some (i + 1) else none, dest, [i], [i]⟩
          else (copystrFrom maxlen stoplen gotlen n (i + 1) dest).after i
    else ranOut maxlen stoplen dest

def copystr (maxlen stoplen : Nat) (gotlen : Bool) (dest : M) : CopiedString M :=
  copystrFrom read write maxlen stoplen gotlen maxlen 0 dest

end Loop

/-- A copy behind `copycheck`, which gives it the `stoplen`. -/
def checked (check : Option Nat) (dest : M) (copy : Nat → CopiedString M) : CopiedString M :=
  match check with
  | none => ⟨some .EFAULT, none, dest, [], []⟩
  | some stoplen => copy stoplen

/-- A byte at a user address, if its page is there. -/
def userByte (mapped : Nat → Bool) (mem : Mem) (p : UInt32) (i : Nat) : Option UInt8 :=
  if mapped (p + UInt32.ofNat i).toNat then some (mem (p + UInt32.ofNat i)) else none

def copyinstr (mapped : Nat → Bool) (mem : Mem) (usersrc : UInt32) (dest : Nat → UInt8)
    (len : UInt32) (actual : Bool) : CopiedString (Nat → UInt8) :=
  checked (copycheck usersrc.toNat len.toNat) dest fun stoplen =>
    copystr (userByte mapped mem usersrc) (fun i c dest => some (Function.update dest i c))
      len.toNat stoplen actual dest

def copyoutstr (mapped : Nat → Bool) (mem : Mem) (src : Nat → UInt8) (userdest len : UInt32)
    (actual : Bool) : CopiedString Mem :=
  checked (copycheck userdest.toNat len.toNat) mem fun stoplen =>
    copystr (fun i => some (src i))
      (fun i c mem => if mapped (userdest + UInt32.ofNat i).toNat then
        some (store mem (userdest + UInt32.ofNat i) 1 fun _ => c) else none)
      len.toNat stoplen actual mem

end Code

/-! ## The loop -/

/-- The string ends at `k`. -/
structure EndsAt (b : Nat → UInt8) (k : Nat) : Prop where
  nul : b k = 0
  inside : ∀ j < k, b j ≠ 0

theorem EndsAt.unique {b : Nat → UInt8} {k l : Nat} (hk : EndsAt b k) (hl : EndsAt b l) :
    k = l := by
  refine Nat.le_antisymm (Nat.le_of_not_lt fun h => ?_) (Nat.le_of_not_lt fun h => ?_)
  · exact hk.inside l h hl.nul
  · exact hl.inside k h hk.nul

theorem endsAt_of_nul {b : Nat → UInt8} {k : Nat} (h : b k = 0) : ∃ l ≤ k, EndsAt b l := by
  have hex : ∃ j, b j = 0 := ⟨k, h⟩
  exact ⟨Nat.find hex, Nat.find_min' hex h, Nat.find_spec hex, fun _ hj => Nat.find_min hex hj⟩

section Loop

variable {M : Type} {read : Nat → Option UInt8} {write : Nat → UInt8 → M → Option M}
  {maxlen stoplen : Nat} {gotlen : Bool} {b : Nat → UInt8} {move : Nat → M}

/-- No byte up to the limits faults: `b` are the bytes and `move n` is the destination with `n` of
them. -/
structure Moves (read : Nat → Option UInt8) (write : Nat → UInt8 → M → Option M) (n : Nat)
    (b : Nat → UInt8) (move : Nat → M) : Prop where
  read : ∀ j < n, read j = some (b j)
  write : ∀ j < n, write j (b j) (move j) = some (move (j + 1))

/-- One round that goes on. -/
theorem copystrFrom_next (h : Moves read write (min maxlen stoplen) b move) {n i : Nat}
    (hi : i < min maxlen stoplen) (hb : b i ≠ 0) :
    copystrFrom read write maxlen stoplen gotlen (n + 1) i (move i) =
      (copystrFrom read write maxlen stoplen gotlen n (i + 1) (move (i + 1))).after i := by
  rw [copystrFrom, if_pos (by omega), h.read i hi]
  dsimp only
  rw [h.write i hi]
  dsimp only
  rw [if_neg hb]

/-- The NUL comes first. -/
theorem copystrFrom_string (h : Moves read write (min maxlen stoplen) b move) {k : Nat}
    (hk : EndsAt b k) (hlt : k < min maxlen stoplen) (n i : Nat) (hn : i + n = maxlen)
    (hi : i ≤ k) :
    copystrFrom read write maxlen stoplen gotlen n i (move i) =
      ⟨none, if gotlen then some (k + 1) else none, move (k + 1), List.range' i (k + 1 - i),
        List.range' i (k + 1 - i)⟩ := by
  induction n generalizing i with
  | zero => omega
  | succ n ih =>
    by_cases heq : i = k
    · subst heq
      rw [copystrFrom, if_pos (by omega), h.read i hlt]
      dsimp only
      rw [h.write i hlt]
      dsimp only
      rw [if_pos hk.nul, Nat.add_sub_cancel_left]
      rfl
    · have hlt' : i < k := Nat.lt_of_le_of_ne hi heq
      have hlen : k + 1 - i = k + 1 - (i + 1) + 1 := by omega
      rw [copystrFrom_next h (by omega) (hk.inside i hlt'), ih (i + 1) (by omega) hlt', hlen]
      rfl

/-- A limit comes first. -/
theorem copystrFrom_limit (h : Moves read write (min maxlen stoplen) b move)
    (hb : ∀ j < min maxlen stoplen, b j ≠ 0) (n i : Nat) (hn : i + n = maxlen)
    (hi : i ≤ min maxlen stoplen) :
    copystrFrom read write maxlen stoplen gotlen n i (move i) =
      ⟨if stoplen < maxlen then some .EFAULT else some .ENAMETOOLONG, none,
        move (min maxlen stoplen), List.range' i (min maxlen stoplen - i),
        List.range' i (min maxlen stoplen - i)⟩ := by
  induction n generalizing i with
  | zero =>
    have heq : i = min maxlen stoplen := by omega
    rw [copystrFrom, ranOut, ← heq, Nat.sub_self]
    rfl
  | succ n ih =>
    by_cases heq : i = min maxlen stoplen
    · rw [copystrFrom, if_neg (by omega), ranOut, ← heq, Nat.sub_self]
      rfl
    · have hlt : i < min maxlen stoplen := Nat.lt_of_le_of_ne hi heq
      have hlen : min maxlen stoplen - i = min maxlen stoplen - (i + 1) + 1 := by omega
      rw [copystrFrom_next h hlt (hb i hlt), ih (i + 1) (by omega) hlt, hlen]
      rfl

theorem copystr_string (h : Moves read write (min maxlen stoplen) b move) {k : Nat}
    (hk : EndsAt b k) (hlt : k < min maxlen stoplen) :
    copystr read write maxlen stoplen gotlen (move 0) =
      ⟨none, if gotlen then some (k + 1) else none, move (k + 1), List.range (k + 1),
        List.range (k + 1)⟩ := by
  rw [copystr, copystrFrom_string h hk hlt maxlen 0 (Nat.zero_add _) (Nat.zero_le _),
    List.range_eq_range']
  rfl

theorem copystr_limit (h : Moves read write (min maxlen stoplen) b move)
    (hb : ∀ j < min maxlen stoplen, b j ≠ 0) :
    copystr read write maxlen stoplen gotlen (move 0) =
      ⟨if stoplen < maxlen then some .EFAULT else some .ENAMETOOLONG, none,
        move (min maxlen stoplen), List.range (min maxlen stoplen),
        List.range (min maxlen stoplen)⟩ := by
  rw [copystr, copystrFrom_limit h hb maxlen 0 (Nat.zero_add _) (Nat.zero_le _),
    List.range_eq_range']
  rfl

end Loop

/-! ## Which strings are taken -/

section Strings

variable {M : Type} {mapped : Nat → Bool} {mem : Mem} {p len : UInt32} {b : Nat → UInt8}
  {move : Nat → M} {read : Nat → Option UInt8} {write : Nat → UInt8 → M → Option M}
  {actual : Bool}

/-- How far a string at `p` may go: `len` bytes, and not to `USERTOP`. -/
def reach (p len : UInt32) : Nat := min len.toNat (USERTOP - p.toNat)

/-- A NUL among the first `min(len, USERTOP - p)` bytes. -/
def HasString (b : Nat → UInt8) (p len : UInt32) : Prop := ∃ k < reach p len, b k = 0

/-- The block starts in the kernel, wraps around, or goes on behind `USERTOP`. -/
def MeetsTop (p len : UInt32) : Prop :=
  USERTOP ≤ p.toNat ∨ 2 ^ 32 ≤ p.toNat + len.toNat ∨ USERTOP - p.toNat < len.toNat

/-- What is said of a string with the bytes `b`, for a buffer of `len` bytes and the user address
`p`; `move n` is the destination with `n` bytes of it. -/
structure Classified (p len : UInt32) (b : Nat → UInt8) (move : Nat → M) (actual : Bool)
    (c : CopiedString M) : Prop where
  success : c.result = none ↔ HasString b p len
  copied : ∀ k, EndsAt b k → k < reach p len →
    c.dest = move (k + 1) ∧ c.gotlen = if actual then some (k + 1) else none
  efault : c.result = some .EFAULT ↔ ¬ HasString b p len ∧ MeetsTop p len
  toolong : c.result = some .ENAMETOOLONG ↔ ¬ HasString b p len ∧ ¬ MeetsTop p len
  reads : ∀ i ∈ c.reads, i < len.toNat ∧ (p + UInt32.ofNat i).toNat < USERTOP
  writes : ∀ i ∈ c.writes, i < len.toNat ∧ (p + UInt32.ofNat i).toNat < USERTOP
  moved : ∃ n ≤ reach p len, c.dest = move n

theorem toNat_pos (hlen : len ≠ 0) : 0 < len.toNat :=
  Nat.pos_of_ne_zero fun h0 => hlen (UInt32.toNat_inj.mp h0)

theorem copycheck_top (hp : USERTOP ≤ p.toNat) :
    copycheck p.toNat len.toNat = none := by
  unfold copycheck
  dsimp only
  split_ifs
  · rfl
  · rfl

theorem copycheck_stoplen (hlen : len ≠ 0) (hmax : len.toNat ≤ 2 ^ 31) (hp : p.toNat < USERTOP) :
    copycheck p.toNat len.toNat = some (reach p len) := by
  have hpos := toNat_pos hlen
  unfold USERTOP at hp
  have htop : (p.toNat + len.toNat + (2 ^ 32 - 1)) % 2 ^ 32 = p.toNat + len.toNat - 1 := by omega
  unfold copycheck reach USERTOP
  dsimp only
  rw [htop, if_neg (by omega), if_neg (by omega)]
  split_ifs with h
  · rw [Nat.min_eq_right (by omega)]
  · rw [Nat.min_eq_left (by omega)]

theorem toNat_below (hmax : len.toNat ≤ 2 ^ 31) {j : Nat} (hj : j < reach p len) :
    (p + UInt32.ofNat j).toNat = p.toNat + j := by
  unfold reach USERTOP at hj
  rw [UInt32.toNat_add, UInt32.toNat_ofNat', Nat.mod_eq_of_lt (a := j) (by omega),
    Nat.mod_eq_of_lt (by omega)]

theorem touched_below (hmax : len.toNat ≤ 2 ^ 31) {i n : Nat} (hn : n ≤ reach p len)
    (hi : i ∈ List.range n) : i < len.toNat ∧ (p + UInt32.ofNat i).toNat < USERTOP := by
  have hlt : i < reach p len := Nat.lt_of_lt_of_le (List.mem_range.mp hi) hn
  rw [toNat_below hmax hlt]
  unfold reach at hlt
  omega

/-- Below `USERTOP` the string is refused for the limit it meets first. -/
theorem classified_below (hmax : len.toNat ≤ 2 ^ 31) (hp : p.toNat < USERTOP)
    (hm : Moves read write (reach p len) b move) :
    Classified p len b move actual
      (copystr read write len.toNat (reach p len) actual (move 0)) := by
  have hmin : min len.toNat (reach p len) = reach p len :=
    Nat.min_eq_right (Nat.min_le_left _ _)
  rw [← hmin] at hm
  by_cases hs : HasString b p len
  · obtain ⟨j, hj, hnul⟩ := id hs
    obtain ⟨k, hkj, hk⟩ := endsAt_of_nul hnul
    have hle : k + 1 ≤ reach p len := by omega
    rw [copystr_string hm hk (by omega)]
    refine ⟨iff_of_true rfl hs, fun l hl _ => ?_, ?_, ?_, fun i => touched_below hmax hle,
      fun i => touched_below hmax hle, k + 1, hle, rfl⟩
    · rw [hl.unique hk]
      exact ⟨rfl, rfl⟩
    · exact iff_of_false (fun h => nomatch h) fun h => h.1 hs
    · exact iff_of_false (fun h => nomatch h) fun h => h.1 hs
  · have hb : ∀ j < min len.toNat (reach p len), b j ≠ 0 :=
      fun j hj h0 => hs ⟨j, by omega, h0⟩
    have hlimit : reach p len < len.toNat ↔ MeetsTop p len := by
      have htop : USERTOP = 2 ^ 31 := rfl
      unfold reach MeetsTop
      omega
    have hle : min len.toNat (reach p len) ≤ reach p len := Nat.le_of_eq hmin
    rw [copystr_limit hm hb]
    refine ⟨iff_of_false ?_ hs, fun k hk hlt => absurd ⟨k, hlt, hk.nul⟩ hs, ?_, ?_,
      fun i => touched_below hmax hle, fun i => touched_below hmax hle, _, hle, rfl⟩
    · split <;> exact fun h => nomatch h
    · rw [← hlimit, and_iff_right hs]
      split
      · next h => exact iff_of_true rfl h
      · next h => exact iff_of_false (fun h => nomatch h) h
    · rw [← hlimit, and_iff_right hs]
      split
      · next h => exact iff_of_false (fun h => nomatch h) (not_not_intro h)
      · next h => exact iff_of_true rfl h

/-- A copy that faults nowhere is classified, whichever side is user memory. -/
theorem classified (actual : Bool) (hlen : len ≠ 0) (hmax : len.toNat ≤ 2 ^ 31)
    (hm : Moves read write (reach p len) b move) :
    Classified p len b move actual (checked (copycheck p.toNat len.toNat) (move 0) fun stoplen =>
      copystr read write len.toNat stoplen actual (move 0)) := by
  by_cases hp : p.toNat < USERTOP
  · rw [copycheck_stoplen hlen hmax hp, checked]
    exact classified_below hmax hp hm
  · have htop : USERTOP ≤ p.toNat := Nat.le_of_not_lt hp
    have hreach (k : Nat) : ¬ k < reach p len := by
      unfold reach
      omega
    have hs : ¬ HasString b p len := fun ⟨k, hk, _⟩ => hreach k hk
    rw [copycheck_top htop, checked]
    exact ⟨iff_of_false (fun h => nomatch h) hs, fun k _ hk => absurd hk (hreach k),
      iff_of_true rfl ⟨hs, .inl htop⟩,
      iff_of_false (fun h => nomatch h) fun h => h.2 (.inl htop),
      fun _ hi => absurd hi List.not_mem_nil, fun _ hi => absurd hi List.not_mem_nil,
      0, Nat.zero_le _, rfl⟩

/-- The pages of a buffer are there as far as it lies in user memory. -/
def MappedBelow (mapped : Nat → Bool) (p len : UInt32) : Prop :=
  ∀ a, p.toNat ≤ a → a < p.toNat + len.toNat → a < USERTOP → mapped a = true

theorem MappedBelow.byte (hm : MappedBelow mapped p len) (hmax : len.toNat ≤ 2 ^ 31) {j : Nat}
    (hj : j < reach p len) : mapped (p + UInt32.ofNat j).toNat = true := by
  rw [toNat_below hmax hj]
  unfold reach at hj
  exact hm _ (Nat.le_add_right _ _) (by omega) (by omega)

/-- With its buffer mapped, `copyinstr` classifies every string. -/
theorem copyinstr_classified (mapped : Nat → Bool) (mem : Mem) (p len : UInt32)
    (dest : Nat → UInt8) (actual : Bool) (hlen : len ≠ 0) (hmax : len.toNat ≤ 2 ^ 31)
    (hm : MappedBelow mapped p len) :
    Classified p len (fun j => mem (p + UInt32.ofNat j)) (fun n => fetch dest n p mem) actual
      (copyinstr mapped mem p dest len actual) := by
  have hstart : fetch dest 0 p mem = dest := funext fun i => if_neg (Nat.not_lt_zero i)
  have hmoves : Moves (userByte mapped mem p) (fun i c dest => some (Function.update dest i c))
      (reach p len) (fun j => mem (p + UInt32.ofNat j)) (fun n => fetch dest n p mem) := by
    refine ⟨fun j hj => if_pos (hm.byte hmax hj), fun j _ => congrArg some (funext fun i => ?_)⟩
    unfold fetch
    by_cases hi : i = j
    · subst hi
      rw [Function.update_self, if_pos (Nat.lt_succ_self i)]
    · rw [Function.update_of_ne hi]
      exact if_congr (by omega) rfl rfl
  have hcopy := classified actual hlen hmax hmoves
  rwa [hstart] at hcopy

/-- Where the buffer ends just at `USERTOP`, the string is too long rather than a fault. -/
theorem copyinstr_classified_top :
    Classified 0x7ffffffc 4 (fun _ => 1) (fun n => fetch (fun _ => 0) n 0x7ffffffc fun _ => 1) true
      (copyinstr (fun _ => true) (fun _ => 1) 0x7ffffffc (fun _ => 0) 4 true) :=
  copyinstr_classified (fun _ => true) (fun _ => 1) 0x7ffffffc 4 (fun _ => 0) true (by decide)
    (by decide) fun _ _ _ _ => rfl

/-- The same of `copyoutstr`, with the string in the kernel. -/
theorem copyoutstr_spec (src : Nat → UInt8) (hlen : len ≠ 0) (hmax : len.toNat ≤ 2 ^ 31)
    (hm : MappedBelow mapped p len) :
    Classified p len src (fun n => store mem p n src) actual
      (copyoutstr mapped mem src p len actual) := by
  have hstart : store mem p 0 src = mem := funext fun x => if_neg (Nat.not_lt_zero _)
  have hmoves : Moves (fun i => some (src i))
      (fun i c mem => if mapped (p + UInt32.ofNat i).toNat then
        some (store mem (p + UInt32.ofNat i) 1 fun _ => c) else none)
      (reach p len) src (fun n => store mem p n src) := by
    refine ⟨fun _ _ => rfl, fun j hj => ?_⟩
    have hlt : j < 2 ^ 31 := by
      have : USERTOP = 2 ^ 31 := rfl
      unfold reach at hj
      omega
    rw [if_pos (hm.byte hmax hj)]
    refine congrArg some (funext fun x => ?_)
    rw [store_one]
    split_ifs with hx
    · subst hx
      exact (store_of_lt (Nat.lt_succ_self j) (by omega)).symm
    · have hne : (x - p).toNat ≠ j := fun h => hx (by
        rw [← h, UInt32.ofNat_toNat, UInt32.add_comm, UInt32.sub_add_cancel])
      unfold store
      exact if_congr (by omega) rfl rfl
  have hcopy := classified actual hlen hmax hmoves
  rwa [hstart] at hcopy

end Strings

end Os161.User
