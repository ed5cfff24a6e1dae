import Mathlib.Tactic.Common
import Mathlib.Tactic.Ring
import Mathlib.Data.UInt
import Mathlib.Data.ZMod.Defs

/-! # The on-disk layout of SFS

Constants and structures of `sfs.h`. A sector is 512 bytes; the machine is
big-endian, so a pointer block is a sector read as 128 words with the most
significant byte first. -/
namespace Os161.Sfs

instance instNeZeroDbperidb : NeZero 128 := ⟨by decide⟩

@[reducible, simp] def sfsBlocksize : Nat := 512
@[reducible, simp] def sfsNdirect : Nat := 15
@[reducible, simp] def sfsDbperidb : Nat := 128
@[reducible, simp] def sfsNamelen : Nat := 60
@[reducible, simp] def sfsBlockbits : Nat := 4096

def sfsMagic : UInt32 := 0xabadf001
def sfsSbLocation : UInt32 := 0
def sfsRootLocation : UInt32 := 1
@[reducible, simp] def sfsMapLocation : Nat := 2
def sfsNoino : UInt32 := 0

def sfsTypeInval : UInt16 := 0
def sfsTypeFile : UInt16 := 1
def sfsTypeDir : UInt16 := 2

/-- `DIVROUNDUP` on unsigned operands; the sum wraps around. -/
def divRoundUp (a b : Nat) : Nat := (a + b - 1) % 2 ^ 32 / b

/-- Size of the free map in bits and in blocks. -/
def sfsBitmapsize (nblocks : Nat) : Nat := divRoundUp nblocks sfsBlockbits * sfsBlockbits
def sfsBitblocks (nblocks : Nat) : Nat := sfsBitmapsize nblocks / sfsBlockbits

abbrev Sector := Fin 512 → UInt8

/-- The words of a pointer block. -/
abbrev Words := Fin 128 → UInt32

/-! ## Bytes and words -/

def be32 (a b c d : UInt8) : UInt32 :=
  UInt32.ofNat (a.toNat * 2 ^ 24 + b.toNat * 2 ^ 16 + c.toNat * 2 ^ 8 + d.toNat)

/-- Byte `k` of a word in memory order. -/
def byteAt (x : UInt32) (k : Nat) : UInt8 := UInt8.ofNat (x.toNat / 2 ^ (8 * (3 - k)))

theorem be32_bytes (x : UInt32) : be32 (byteAt x 0) (byteAt x 1) (byteAt x 2) (byteAt x 3) = x := by
  apply UInt32.toNat_inj.mp
  have hx := x.toNat_lt
  simp only [be32, byteAt, UInt8.toNat_ofNat', UInt32.toNat_ofNat', Nat.reducePow, Nat.reduceMul,
    Nat.reduceSub] at *
  omega

namespace Sector

def zero : Sector := fun _ => 0

def word (s : Sector) (j : Fin 128) : UInt32 :=
  be32 (s ⟨4 * j, by omega⟩) (s ⟨4 * j + 1, by omega⟩) (s ⟨4 * j + 2, by omega⟩)
    (s ⟨4 * j + 3, by omega⟩)

def words (s : Sector) : Words := fun j => s.word j

def ofWords (f : Words) : Sector := fun i => byteAt (f ⟨i / 4, by omega⟩) (i % 4)

def bytes (s : Sector) : List UInt8 := List.ofFn s

def ofBytes (l : List UInt8) : Sector := fun i => l.getD i 0

@[simp] theorem words_apply (s : Sector) (j : Fin 128) : s.words j = s.word j := rfl

@[simp] theorem word_ofWords (f : Words) (j : Fin 128) : (ofWords f).word j = f j := by
  have h0 : (4 * (j : Nat)) / 4 = j := by omega
  have h1 : (4 * (j : Nat) + 1) / 4 = j := by omega
  have h2 : (4 * (j : Nat) + 2) / 4 = j := by omega
  have h3 : (4 * (j : Nat) + 3) / 4 = j := by omega
  have m0 : (4 * (j : Nat)) % 4 = 0 := by omega
  have m1 : (4 * (j : Nat) + 1) % 4 = 1 := by omega
  have m2 : (4 * (j : Nat) + 2) % 4 = 2 := by omega
  have m3 : (4 * (j : Nat) + 3) % 4 = 3 := by omega
  simpa only [word, ofWords, h0, h1, h2, h3, m0, m1, m2, m3] using be32_bytes (f j)

@[simp] theorem words_ofWords (f : Words) : (ofWords f).words = f := funext (word_ofWords f)

@[simp] theorem word_zero (j : Fin 128) : zero.word j = 0 := by
  simp [word, zero, be32]

@[simp] theorem words_zero : zero.words = fun _ => 0 := funext word_zero

@[simp] theorem length_bytes (s : Sector) : s.bytes.length = 512 := List.length_ofFn

theorem getElem?_bytes (s : Sector) (i : Nat) (h : i < 512) : s.bytes[i]? = some (s ⟨i, h⟩) := by
  rw [bytes, List.getElem?_ofFn, dif_pos h]

theorem getElem_bytes (s : Sector) (i : Nat) (h : i < s.bytes.length) :
    s.bytes[i] = s ⟨i, length_bytes s ▸ h⟩ := by
  have hb := getElem?_bytes s i (length_bytes s ▸ h)
  rw [List.getElem?_eq_getElem h] at hb
  exact Option.some.inj hb

@[simp] theorem ofBytes_bytes (s : Sector) : ofBytes s.bytes = s := by
  funext i
  rw [ofBytes, List.getD_eq_getElem?_getD, getElem?_bytes s i i.isLt, Option.getD_some]

end Sector

/-! ## Inodes -/

/-- The on-disk inode, all 128 words of it. -/
@[ext] structure SfsInode where
  sfiSize : UInt32
  sfiType : UInt16
  sfiLinkcount : UInt16
  sfiDirect : Fin 15 → UInt32
  sfiIndirect : UInt32
  sfiDoubleindirect : UInt32
  sfiTripleindirect : UInt32
  sfiWaste : Fin 107 → UInt32
  sfiBlocks : UInt32

namespace SfsInode

def ofWords (f : Words) : SfsInode where
  sfiSize := f 0
  sfiType := UInt16.ofNat ((f 1).toNat / 2 ^ 16)
  sfiLinkcount := UInt16.ofNat (f 1).toNat
  sfiDirect := fun i => f ⟨i + 2, by omega⟩
  sfiIndirect := f 17
  sfiDoubleindirect := f 18
  sfiTripleindirect := f 19
  sfiWaste := fun i => f ⟨i + 20, by omega⟩
  sfiBlocks := f 127

def toWords (n : SfsInode) : Words := fun j =>
  if j.val = 0 then n.sfiSize
  else if j.val = 1 then UInt32.ofNat (n.sfiType.toNat * 2 ^ 16 + n.sfiLinkcount.toNat)
  else if h : j.val < 17 then n.sfiDirect ⟨j - 2, by omega⟩
  else if j.val = 17 then n.sfiIndirect
  else if j.val = 18 then n.sfiDoubleindirect
  else if j.val = 19 then n.sfiTripleindirect
  else if h : j.val < 127 then n.sfiWaste ⟨j - 20, by omega⟩
  else n.sfiBlocks

def ofSector (s : Sector) : SfsInode := ofWords s.words
def toSector (n : SfsInode) : Sector := Sector.ofWords n.toWords

theorem ofWords_toWords (n : SfsInode) : ofWords n.toWords = n := by
  have ht := n.sfiType.toNat_lt
  have hl := n.sfiLinkcount.toNat_lt
  ext i
  · rfl
  · simp [ofWords, toWords]
    omega
  · simp [ofWords, toWords]
  · have h : (i : Nat) + 2 < 17 := by omega
    simp [ofWords, toWords, h]
  · rfl
  · rfl
  · rfl
  · have h : ¬ (i : Nat) + 20 < 17 := by omega
    have h' : (i : Nat) + 20 < 127 := by omega
    simp [ofWords, toWords, h, h']
  · rfl

@[simp] theorem ofSector_toSector (n : SfsInode) : ofSector n.toSector = n := by
  simp [ofSector, toSector, ofWords_toWords]

/-- The inode a zeroed block holds. -/
def blank : SfsInode where
  sfiSize := 0
  sfiType := sfsTypeInval
  sfiLinkcount := 0
  sfiDirect := fun _ => 0
  sfiIndirect := 0
  sfiDoubleindirect := 0
  sfiTripleindirect := 0
  sfiWaste := fun _ => 0
  sfiBlocks := 0

@[simp] theorem ofSector_zero : ofSector Sector.zero = blank := by
  simp [ofSector, ofWords, blank, sfsTypeInval]

end SfsInode

/-! ## Directory entries -/

/-- A C string: the bytes before the terminating NUL. -/
structure CString where
  bytes : List UInt8
  noNul : 0 ∉ bytes
  deriving DecidableEq

namespace CString

/-- The string at the front of a buffer. -/
def ofBuffer (l : List UInt8) : CString where
  bytes := l.takeWhile (· != 0)
  noNul h := by simpa using List.all_eq_true.mp (List.all_takeWhile (l := l)) 0 h

def length (s : CString) : Nat := s.bytes.length

theorem ofBuffer_append_zero (s : CString) (t : List UInt8) :
    ofBuffer (s.bytes ++ 0 :: t) = s := by
  obtain ⟨l, hl⟩ := s
  have h : (l ++ 0 :: t).takeWhile (· != 0) = l := by
    rw [List.takeWhile_append_of_pos]
    · simp
    · intro a ha
      simp only [bne_iff_ne, ne_eq]
      intro hx
      obtain rfl := hx
      exact hl ha
  simp [ofBuffer, h]

end CString

/-- The on-disk directory entry; the name field is 60 bytes long. -/
@[ext] structure SfsDir where
  sfdIno : UInt32
  sfdName : List UInt8

namespace SfsDir

@[reducible, simp] def size : Nat := 64

def toBytes (d : SfsDir) : List UInt8 :=
  [byteAt d.sfdIno 0, byteAt d.sfdIno 1, byteAt d.sfdIno 2, byteAt d.sfdIno 3] ++ d.sfdName

def ofBytes (l : List UInt8) : SfsDir where
  sfdIno := be32 (l.getD 0 0) (l.getD 1 0) (l.getD 2 0) (l.getD 3 0)
  sfdName := l.drop 4

@[simp] theorem ofBytes_toBytes (d : SfsDir) : ofBytes d.toBytes = d := by
  cases d
  simp [ofBytes, toBytes, be32_bytes]

/-- The name after its last byte was forced to NUL, as `sfs_dir_findname` does. -/
def name (d : SfsDir) : CString := CString.ofBuffer (d.sfdName.take (sfsNamelen - 1) ++ [0])

/-- The entry `sfs_dir_link` sets up: zeroed, then inode number and name stored. -/
def mk' (ino : UInt32) (s : CString) : SfsDir where
  sfdIno := ino
  sfdName := s.bytes ++ List.replicate (sfsNamelen - s.length) 0

/-- The entry `sfs_dir_unlink` writes. -/
def free : SfsDir where
  sfdIno := sfsNoino
  sfdName := List.replicate sfsNamelen 0

theorem name_mk' {s : CString} (ino : UInt32) (h : s.length + 1 ≤ sfsNamelen) :
    (mk' ino s).name = s := by
  have hl : s.bytes.length ≤ 59 := by simp only [CString.length, sfsNamelen] at h; omega
  have ht : (mk' ino s).sfdName.take 59 = s.bytes ++ List.replicate (59 - s.length) 0 := by
    simp [mk', List.take_append, List.take_of_length_le hl, CString.length]
    omega
  have hz : List.replicate (59 - s.length) (0 : UInt8) ++ [0] =
      0 :: List.replicate (59 - s.length) 0 := by
    rw [← List.replicate_succ', List.replicate_succ]
  simp only [name, sfsNamelen, Nat.reduceSub, ht, List.append_assoc, hz]
  exact CString.ofBuffer_append_zero s _

theorem length_toBytes_mk' {s : CString} (ino : UInt32) (h : s.length + 1 ≤ sfsNamelen) :
    (mk' ino s).toBytes.length = 64 := by
  simp only [CString.length, sfsNamelen] at h
  simp only [toBytes, mk', CString.length, List.length_append, List.length_replicate,
    List.length_cons, List.length_nil, sfsNamelen]
  omega

@[simp] theorem length_toBytes_free : free.toBytes.length = 64 := rfl

end SfsDir

/-! ## The superblock -/

@[ext] structure SfsSuper where
  spMagic : UInt32
  spNblocks : UInt32
  spVolname : Fin 32 → UInt8
  reserved : Fin 118 → UInt32

namespace SfsSuper

def ofSector (s : Sector) : SfsSuper where
  spMagic := s.word 0
  spNblocks := s.word 1
  spVolname := fun i => s ⟨i + 8, by omega⟩
  reserved := fun i => s.word ⟨i + 10, by omega⟩

def toSector (p : SfsSuper) : Sector := fun i =>
  if i.val < 4 then byteAt p.spMagic i
  else if i.val < 8 then byteAt p.spNblocks (i - 4)
  else if h : i.val < 40 then p.spVolname ⟨i - 8, by omega⟩
  else byteAt (p.reserved ⟨i / 4 - 10, by omega⟩) (i % 4)

@[simp] theorem ofSector_toSector (p : SfsSuper) : ofSector p.toSector = p := by
  ext i
  · exact congrArg UInt32.toNat (be32_bytes p.spMagic)
  · exact congrArg UInt32.toNat (be32_bytes p.spNblocks)
  · have h : ¬ (i : Nat) + 8 < 4 := by omega
    have h' : (i : Nat) + 8 < 40 := by omega
    simp [ofSector, toSector, h, h']
  · have h0 : (4 * ((i : Nat) + 10)) / 4 - 10 = i := by omega
    have h1 : (4 * ((i : Nat) + 10) + 1) / 4 - 10 = i := by omega
    have h2 : (4 * ((i : Nat) + 10) + 2) / 4 - 10 = i := by omega
    have h3 : (4 * ((i : Nat) + 10) + 3) / 4 - 10 = i := by omega
    have m0 : (4 * ((i : Nat) + 10)) % 4 = 0 := by omega
    have m1 : (4 * ((i : Nat) + 10) + 1) % 4 = 1 := by omega
    have m2 : (4 * ((i : Nat) + 10) + 2) % 4 = 2 := by omega
    have m3 : (4 * ((i : Nat) + 10) + 3) % 4 = 3 := by omega
    have := be32_bytes (p.reserved i)
    simp only [ofSector, Sector.word, toSector, h0, h1, h2, h3, m0, m1, m2, m3]
    rw [if_neg (by omega), if_neg (by omega), dif_neg (by omega), if_neg (by omega),
      if_neg (by omega), dif_neg (by omega), if_neg (by omega), if_neg (by omega),
      dif_neg (by omega), if_neg (by omega), if_neg (by omega), dif_neg (by omega), this]

end SfsSuper

end Os161.Sfs
