import Mathlib.Algebra.Group.Nat.Defs
import Os161.Lib.Moves

/-! # memmove

`memmove.c` and `memcpy.c`. Memory is the bytes by address; a pointer is an address below 2^32,
and so is what an index makes of it. -/
namespace Os161.Libc
open Os161.Lib

abbrev Memory := Nat → UInt8

/-- `sizeof(long)`. -/
def sizeofLong : UInt32 := 4

/-- The `long` at an address, the high byte first. -/
def loadLong (mem : Memory) (p : UInt32) : UInt32 :=
  UInt32.ofNat ((((mem p.toNat).toNat * 2 ^ 8 + (mem (p.toNat + 1)).toNat) * 2 ^ 8 +
    (mem (p.toNat + 2)).toNat) * 2 ^ 8 + (mem (p.toNat + 3)).toNat)

/-- The bytes of a `long`. -/
def longBytes (v : UInt32) : List UInt8 :=
  [UInt8.ofNat (v.toNat / 2 ^ 24), UInt8.ofNat (v.toNat / 2 ^ 16), UInt8.ofNat (v.toNat / 2 ^ 8),
    UInt8.ofNat v.toNat]

def storeLong (mem : Memory) (p v : UInt32) : Memory := overlay mem p.toNat (longBytes v)

/-- `d[i] = s[i]` on `long`s. -/
def moveLong (d s : UInt32) (i : Nat) (mem : Memory) : Memory :=
  storeLong mem (d + sizeofLong * UInt32.ofNat i) (loadLong mem (s + sizeofLong * UInt32.ofNat i))

/-- `d[i] = s[i]` on `char`s. -/
def moveChar (d s : UInt32) (i : Nat) (mem : Memory) : Memory :=
  overlay mem (d + UInt32.ofNat i).toNat [mem (s + UInt32.ofNat i).toNat]

/-- Both pointers and the length are word-aligned. -/
def aligned (dst src len : UInt32) : Bool :=
  dst % sizeofLong = 0 && src % sizeofLong = 0 && len % sizeofLong = 0

/-- The pointer that is returned, and the memory. -/
def memcpy (mem : Memory) (dst src len : UInt32) : UInt32 × Memory :=
  if aligned dst src len then
    (dst, forUp (moveLong dst src) (len / sizeofLong).toNat mem)
  else (dst, forUp (moveChar dst src) len.toNat mem)

def memmove (mem : Memory) (dst src len : UInt32) : UInt32 × Memory :=
  if dst < src then memcpy mem dst src len
  else if aligned dst src len then
    (dst, forDown (moveLong dst src) (len / sizeofLong).toNat mem)
  else (dst, forDown (moveChar dst src) len.toNat mem)

/-! ## One element -/

section Elements

variable {mem : Memory} {d s p len : UInt32} {i : Nat}

/-- The bytes of a `long` that was loaded are those that were there. -/
theorem longBytes_loadLong (mem : Memory) (p : UInt32) :
    longBytes (loadLong mem p) = slice mem p.toNat 4 := by
  have h0 := (mem p.toNat).toNat_lt
  have h1 := (mem (p.toNat + 1)).toNat_lt
  have h2 := (mem (p.toNat + 2)).toNat_lt
  have h3 := (mem (p.toNat + 3)).toNat_lt
  have hslice : slice mem p.toNat 4 =
      [mem p.toNat, mem (p.toNat + 1), mem (p.toNat + 2), mem (p.toNat + 3)] := rfl
  have hload : (loadLong mem p).toNat = (((mem p.toNat).toNat * 2 ^ 8 +
      (mem (p.toNat + 1)).toNat) * 2 ^ 8 + (mem (p.toNat + 2)).toNat) * 2 ^ 8 +
      (mem (p.toNat + 3)).toNat := by
    rw [loadLong, UInt32.toNat_ofNat', Nat.mod_eq_of_lt (by omega)]
  rw [hslice, longBytes, hload]
  refine congrArg₂ List.cons ?_ (congrArg₂ List.cons ?_ (congrArg₂ List.cons ?_
    (congrArg (fun b => [b]) ?_))) <;>
  · apply UInt8.toNat_inj.mp
    rw [UInt8.toNat_ofNat']
    omega

/-- An index that stays below the end of memory. -/
theorem toNat_index {w : Nat} (hw : w * i < len.toNat) (hp : p.toNat + len.toNat ≤ 2 ^ 32) :
    (p + UInt32.ofNat (w * i)).toNat = p.toNat + w * i := by
  rw [UInt32.toNat_add, UInt32.toNat_ofNat', Nat.mod_eq_of_lt (a := w * i) (by omega),
    Nat.mod_eq_of_lt (by omega)]

theorem moveChar_eq (hd : d.toNat + len.toNat ≤ 2 ^ 32) (hs : s.toNat + len.toNat ≤ 2 ^ 32)
    (hi : i < len.toNat) : moveChar d s i = movePiece d.toNat s.toNat 1 i := by
  funext mem
  have hi' : 1 * i < len.toNat := by rwa [Nat.one_mul]
  have hdi := toNat_index hi' hd
  have hsi := toNat_index hi' hs
  rw [Nat.one_mul] at hdi hsi
  rw [moveChar, movePiece, hdi, hsi, Nat.one_mul]
  rfl

theorem moveLong_eq (hd : d.toNat + len.toNat ≤ 2 ^ 32) (hs : s.toNat + len.toNat ≤ 2 ^ 32)
    (hi : i < (len / sizeofLong).toNat) : moveLong d s i = movePiece d.toNat s.toNat 4 i := by
  funext mem
  have hdiv : (len / sizeofLong).toNat = len.toNat / 4 := UInt32.toNat_div _ _
  have hi' : 4 * i < len.toNat := by omega
  have hmul : sizeofLong * UInt32.ofNat i = UInt32.ofNat (4 * i) := (UInt32.ofNat_mul 4 i).symm
  rw [moveLong, storeLong, longBytes_loadLong, hmul, toNat_index hi' hd, toNat_index hi' hs,
    movePiece]

end Elements

/-! ## Whole blocks -/

section Blocks

variable {mem : Memory} {dst src len : UInt32}

theorem aligned_length (h : aligned dst src len = true) :
    4 * (len / sizeofLong).toNat = len.toNat := by
  simp only [aligned, Bool.and_eq_true, decide_eq_true_eq] at h
  have hmod : len.toNat % 4 = 0 := by
    have := congrArg UInt32.toNat h.2
    rwa [UInt32.toNat_mod] at this
  have hdiv : (len / sizeofLong).toNat = len.toNat / 4 := UInt32.toNat_div _ _
  omega

variable (hd : dst.toNat + len.toNat ≤ 2 ^ 32) (hs : src.toNat + len.toNat ≤ 2 ^ 32)
include hd hs

/-- `memcpy` goes forwards, so the blocks may overlap if the destination is the lower one. -/
theorem memcpy_eq (h : dst ≤ src) :
    memcpy mem dst src len = (dst, overlay mem dst.toNat (slice mem src.toNat len.toNat)) := by
  have hle : dst.toNat ≤ src.toNat := UInt32.le_iff_toNat_le.mp h
  unfold memcpy
  split
  · next ha =>
    rw [forUp_congr fun i hi => moveLong_eq hd hs hi, forUp_movePiece hle, aligned_length ha]
  · rw [forUp_congr fun i hi => moveChar_eq hd hs hi, forUp_movePiece hle, Nat.one_mul]

theorem memmove_eq :
    memmove mem dst src len = (dst, overlay mem dst.toNat (slice mem src.toNat len.toNat)) := by
  unfold memmove
  split
  · next hlt => exact memcpy_eq hd hs (UInt32.le_of_lt hlt)
  · next hnot =>
    have hle : src.toNat ≤ dst.toNat := UInt32.le_iff_toNat_le.mp (UInt32.not_lt.mp hnot)
    split
    · next ha =>
      rw [forDown_congr fun i hi => moveLong_eq hd hs hi, forDown_movePiece hle,
        aligned_length ha]
    · rw [forDown_congr fun i hi => moveChar_eq hd hs hi, forDown_movePiece hle, Nat.one_mul]

end Blocks

/-- A copy through a temporary: the destination holds what the source held, and nothing else has
changed. -/
structure CopiedThrough (mem mem' : Memory) (dst src len : UInt32) : Prop where
  copied : ∀ i < len.toNat, mem' (dst.toNat + i) = mem (src.toNat + i)
  frame : ∀ x, x < dst.toNat ∨ dst.toNat + len.toNat ≤ x → mem' x = mem x

/-- Whatever the overlap and the alignment, `memmove` is a copy through a temporary. -/
theorem memmove_copies (mem : Memory) (dst src len : UInt32)
    (hd : dst.toNat + len.toNat ≤ 2 ^ 32) (hs : src.toNat + len.toNat ≤ 2 ^ 32) :
    (memmove mem dst src len).1 = dst ∧
      CopiedThrough mem (memmove mem dst src len).2 dst src len := by
  rw [memmove_eq hd hs]
  refine ⟨rfl, fun i hi => ?_, fun x hx => ?_⟩
  · have hlen : dst.toNat + i - dst.toNat < (slice mem src.toNat len.toNat).length := by
      rw [length_slice]
      omega
    dsimp only
    rw [overlay_of_mem (Nat.le_add_right _ _) hlen, getElem_slice, Nat.add_sub_cancel_left]
  · rcases hx with hx | hx
    · exact overlay_of_lt _ hx
    · exact overlay_of_ge (by rwa [length_slice])

/-- Eight bytes move up by four, by words. -/
theorem memmove_copies_up : (memmove (fun a => UInt8.ofNat a) 0x1004 0x1000 8).1 = 0x1004 ∧
    CopiedThrough (fun a => UInt8.ofNat a) (memmove (fun a => UInt8.ofNat a) 0x1004 0x1000 8).2
      0x1004 0x1000 8 :=
  memmove_copies (fun a => UInt8.ofNat a) 0x1004 0x1000 8 (by decide) (by decide)

end Os161.Libc
