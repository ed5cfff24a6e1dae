import Os161.Sfs.ErrorReports

/-! # mksfs and the free map

`sbin/mksfs/mksfs.c` builds the free map in a buffer of its own, with its own
code for the bits; `sfs_domount` loads it into a kernel bitmap. Both compute its
size with 32-bit arithmetic. -/
namespace Os161.Sfs
open Os161.Lib Kern Bitmap

/-! ## The program -/

/-- The ways `mksfs` gives up; `bitbufIndex` is a subscript outside `bitbuf`. -/
inductive MksfsError where
  | volname | tooLarge | doallocbit | bitbufIndex
  deriving DecidableEq

def maxbitblocks : Nat := 32

/-- `bitbuf`. -/
abbrev Bitbuf := Nat → UInt8

def doallocbit (bitbuf : Bitbuf) (bit : Nat) : Except MksfsError Bitbuf :=
  let byte := bit / 8
  let mask := wordMask (bit % 8)
  if byte < maxbitblocks * sfsBlocksize then
    if bitbuf byte &&& mask = 0 then .ok fun j =>
      if j = byte then bitbuf byte ||| mask else bitbuf j
    else .error .doallocbit
  else .error .bitbufIndex

/-- The loops of `writebitmap` over `n` bits from `i` on. -/
def doallocbits (bitbuf : Bitbuf) : (n i : Nat) → Except MksfsError Bitbuf
  | 0, _ => .ok bitbuf
  | n + 1, i =>
    match doallocbit bitbuf i with
    | .error e => .error e
    | .ok bitbuf => doallocbits bitbuf n (i + 1)

/-- The last loop of `writebitmap`; `n` blocks remain. -/
def diskwriteMap (bitbuf : Bitbuf) : (n i : Nat) → (Nat → Sector) → Nat → Sector
  | 0, _, disk => disk
  | n + 1, i, disk => diskwriteMap bitbuf n (i + 1) fun b =>
      if b = sfsMapLocation + i then fun k => bitbuf (i * sfsBlocksize + k) else disk b

def writebitmap (fsblocks : UInt32) (disk : Nat → Sector) : Except MksfsError (Nat → Sector) :=
  let nbits := sfsBitmapsize fsblocks.toNat
  let nblocks := sfsBitblocks fsblocks.toNat
  if nblocks > maxbitblocks then .error .tooLarge
  else do
    let bitbuf ← doallocbit (fun _ => 0) sfsSbLocation.toNat
    let bitbuf ← doallocbit bitbuf sfsRootLocation.toNat
    let bitbuf ← doallocbits bitbuf nblocks sfsMapLocation
    let bitbuf ← doallocbits bitbuf (nbits - fsblocks.toNat) fsblocks.toNat
    return diskwriteMap bitbuf nblocks 0 disk

def writesuper (volname : List UInt8) (nblocks : UInt32) (disk : Nat → Sector) :
    Except MksfsError (Nat → Sector) :=
  let sp : SfsSuper := ⟨sfsMagic, nblocks, fun i => volname.getD i 0, fun _ => 0⟩
  if volname.length ≥ 32 then .error .volname
  else .ok fun b => if b = sfsSbLocation.toNat then sp.toSector else disk b

def writerootdir (disk : Nat → Sector) : Nat → Sector :=
  let sfi : SfsInode :=
    { SfsInode.ofSector Sector.zero with sfiType := sfsTypeDir, sfiLinkcount := 1 }
  fun b => if b = sfsRootLocation.toNat then sfi.toSector else disk b

/-- `main`, on a disk of `size` blocks. -/
def mksfs (volname : List UInt8) (size : UInt32) (disk : Nat → Sector) :
    Except MksfsError (Nat → Sector) := do
  let disk ← writesuper volname size disk
  writebitmap size (writerootdir disk)

/-! ## The bits of the buffer -/

/-- Bit `i` of the buffer, as the kernel's bitmap has it. -/
def Bitbuf.isset (bitbuf : Bitbuf) (i : Nat) : Bool := (bitbuf (i / 8)).toNat.testBit (i % 8)

theorem doallocbit_ok {bitbuf : Bitbuf} {bit : Nat} (hb : bit < maxbitblocks * sfsBlockbits)
    (hc : bitbuf.isset bit = false) : ∃ bitbuf' : Bitbuf, doallocbit bitbuf bit = .ok bitbuf' ∧
      ∀ j, bitbuf'.isset j = (bitbuf.isset j || decide (j = bit)) := by
  have hbyte : bit / 8 < maxbitblocks * sfsBlocksize := by
    simp only [maxbitblocks, sfsBlockbits, sfsBlocksize] at hb ⊢
    omega
  have hm : bitbuf (bit / 8) &&& wordMask (bit % 8) = 0 :=
    (and_wordMask_eq_zero _ (Nat.mod_lt _ (by decide))).mpr hc
  have h := isset_mark ⟨0, bitbuf⟩ bit
  refine ⟨((⟨0, bitbuf⟩ : Bitmap).mark bit).v, ?_, h⟩
  simp only [doallocbit, if_pos hbyte, if_pos hm]
  rfl

theorem doallocbits_ok {bitbuf : Bitbuf} {n i : Nat}
    (hb : ∀ j, i ≤ j → j < i + n → j < maxbitblocks * sfsBlockbits)
    (hc : ∀ j, i ≤ j → j < i + n → bitbuf.isset j = false) :
    ∃ bitbuf' : Bitbuf, doallocbits bitbuf n i = .ok bitbuf' ∧
      ∀ j, bitbuf'.isset j = (bitbuf.isset j || decide (i ≤ j ∧ j < i + n)) := by
  induction n generalizing bitbuf i with
  | zero =>
    refine ⟨bitbuf, rfl, fun j => ?_⟩
    rw [decide_eq_false (by omega), Bool.or_false]
  | succ n ih =>
    obtain ⟨b₁, h₁, hj₁⟩ := doallocbit_ok (hb i (Nat.le_refl i) (by omega))
      (hc i (Nat.le_refl i) (by omega))
    obtain ⟨b₂, h₂, hj₂⟩ := @ih b₁ (i + 1) (fun j hij hjn => hb j (by omega) (by omega))
      fun j hij hjn => by
      rw [hj₁, hc j (by omega) (by omega), decide_eq_false (by omega), Bool.or_false]
    refine ⟨b₂, by rw [doallocbits, h₁]; exact h₂, fun j => ?_⟩
    rw [hj₂, hj₁, Bool.or_assoc, ← Bool.decide_or]
    congr 1
    exact decide_eq_decide.mpr (by omega)

theorem diskwriteMap_eq (bitbuf : Bitbuf) (n i : Nat) (disk : Nat → Sector) (b : Nat) :
    diskwriteMap bitbuf n i disk b =
      if sfsMapLocation + i ≤ b ∧ b < sfsMapLocation + i + n then
        (fun k => bitbuf ((b - sfsMapLocation) * sfsBlocksize + k) : Sector)
      else disk b := by
  induction n generalizing i disk with
  | zero => rw [diskwriteMap, if_neg (by omega)]
  | succ n ih =>
    rw [diskwriteMap, ih]
    by_cases h : b = sfsMapLocation + i
    · subst h
      rw [if_neg (by omega), if_pos (by omega), if_pos (by omega)]
      simp only [Nat.add_sub_cancel_left]
    · rw [if_neg h]
      refine if_congr ?_ rfl rfl
      omega

/-! ## What the map says -/

/-- What is not available to files: the superblock, the root inode, the free map, and
whatever lies beyond the end. -/
def Reserved (fsblocks j : Nat) : Prop :=
  j = sfsSbLocation.toNat ∨ j = sfsRootLocation.toNat ∨
    sfsMapLocation ≤ j ∧ j < sfsMapLocation + sfsBitblocks fsblocks ∨ fsblocks ≤ j

/-- The buffer `writebitmap` writes has exactly the reserved bits set. -/
theorem writebitmap_ok {fsblocks : UInt32} (disk : Nat → Sector)
    (hfit : sfsMapLocation + sfsBitblocks fsblocks.toNat ≤ fsblocks.toNat)
    (hsize : sfsBitblocks fsblocks.toNat ≤ maxbitblocks) :
    ∃ bitbuf : Bitbuf, writebitmap fsblocks disk =
        .ok (diskwriteMap bitbuf (sfsBitblocks fsblocks.toNat) 0 disk) ∧
      ∀ j < sfsBitmapsize fsblocks.toNat,
        (bitbuf.isset j = true ↔ Reserved fsblocks.toNat j) := by
  have hbits : sfsBitmapsize fsblocks.toNat = sfsBitblocks fsblocks.toNat * sfsBlockbits := by
    simp only [sfsBitblocks, sfsBitmapsize, sfsBlockbits]
    omega
  have hmax : sfsBitmapsize fsblocks.toNat ≤ maxbitblocks * sfsBlockbits := by
    rw [hbits]
    exact Nat.mul_le_mul_right _ hsize
  have hs : sfsSbLocation.toNat = 0 := rfl
  have hr : sfsRootLocation.toNat = 1 := rfl
  simp only [sfsMapLocation, maxbitblocks, sfsBlockbits] at hfit hsize hmax hbits
  have hzero (j : Nat) : Bitbuf.isset (fun _ => 0) j = false := by simp [Bitbuf.isset]
  obtain ⟨b₁, h₁, hj₁⟩ := @doallocbit_ok (fun _ => 0) sfsSbLocation.toNat (by decide) (hzero _)
  obtain ⟨b₂, h₂, hj₂⟩ := @doallocbit_ok b₁ sfsRootLocation.toNat (by decide)
    (by rw [hj₁, hzero]; decide)
  obtain ⟨b₃, h₃, hj₃⟩ := @doallocbits_ok b₂ (sfsBitblocks fsblocks.toNat) sfsMapLocation
    (fun j _ hj => by simp only [sfsMapLocation, maxbitblocks, sfsBlockbits] at hj ⊢; omega)
    fun j hj _ => by
      rw [hj₂, hj₁, hzero]
      simp only [sfsMapLocation] at hj
      simp only [hs, hr, Bool.false_or, Bool.or_eq_false_iff, decide_eq_false_iff_not]
      omega
  obtain ⟨b₄, h₄, hj₄⟩ := @doallocbits_ok b₃ (sfsBitmapsize fsblocks.toNat - fsblocks.toNat)
    fsblocks.toNat (fun j _ hj => by simp only [maxbitblocks, sfsBlockbits]; omega)
    fun j hj _ => by
      rw [hj₃, hj₂, hj₁, hzero]
      simp only [hs, hr, sfsMapLocation, Bool.false_or, Bool.or_eq_false_iff,
        decide_eq_false_iff_not]
      omega
  refine ⟨b₄, ?_, fun j hj => ?_⟩
  · simp only [writebitmap]
    rw [if_neg (by simp only [maxbitblocks]; omega), h₁]
    simp only [bind, Except.bind, h₂, h₃, h₄]
    rfl
  · rw [hj₄, hj₃, hj₂, hj₁, hzero]
    simp only [Bool.false_or, Bool.or_eq_true, decide_eq_true_eq, Reserved]
    omega

/-! ## Mounting -/

/-- What `sfs_mapio` makes of a bitmap; `n` sectors remain. -/
def loadMap (disk : Nat → Sector) : (n j : Nat) → Bitmap → Bitmap
  | 0, _, b => b
  | n + 1, j, b => loadMap disk n (j + 1) (setMapSector b j (disk (sfsMapLocation + j)))

theorem nbits_loadMap (disk : Nat → Sector) (n j : Nat) (b : Bitmap) :
    (loadMap disk n j b).nbits = b.nbits := by
  induction n generalizing j b with
  | zero => rfl
  | succ n ih => exact ih (j + 1) _

theorem loadMap_v (disk : Nat → Sector) (n j : Nat) (b : Bitmap) (x : Nat) :
    (loadMap disk n j b).v x =
      if j * sfsBlocksize ≤ x ∧ x < (j + n) * sfsBlocksize then
        disk (sfsMapLocation + x / sfsBlocksize) ⟨x % sfsBlocksize, Nat.mod_lt _ (by decide)⟩
      else b.v x := by
  induction n generalizing j b with
  | zero =>
    rw [Nat.add_zero, if_neg (by omega)]
    rfl
  | succ n ih =>
    rw [loadMap, ih]
    by_cases h : j * 512 ≤ x ∧ x < j * 512 + 512
    · have hd : x / 512 = j := by omega
      have hm : x % 512 = x - j * 512 := by omega
      rw [if_neg (by simp only [sfsBlocksize]; omega),
        if_pos (by simp only [sfsBlocksize]; omega)]
      simp only [setMapSector, dif_pos h, sfsBlocksize, hd, hm]
    · rw [show (setMapSector b j (disk (sfsMapLocation + j))).v x = b.v x from dif_neg h]
      refine if_congr ?_ rfl rfl
      simp only [sfsBlocksize]
      omega

theorem wp_mapio_read {Q : Post machine Unit} (n : Nat) :
    ∀ (j : Nat) (w : World), sfsMapLocation + (j + n) ≤ w.st.fs.dBlocks →
      sfsMapLocation + (j + n) ≤ 2 ^ 22 →
      (∀ w', w'.st = { w.st with fs := { w.st.fs with
          sfsFreemap := loadMap w.env.disk n j w.st.fs.sfsFreemap } } →
        w'.env.disk = w.env.disk → Q.ok () w') →
      (w.env.readFaults ≠ [] → ∀ w', Q.err .eio w') → (sfsMapio.read n j).wp Q w := by
  induction n with
  | zero =>
    intro j w _ _ hok _
    rw [sfsMapio.read, Prog.wp_pure]
    exact hok w rfl rfl
  | succ n ih =>
    intro j w hj hlim hok herr
    have hb : (UInt32.ofNat (sfsMapLocation + j)).toNat = sfsMapLocation + j := by
      rw [UInt32.toNat_ofNat']
      exact Nat.mod_eq_of_lt (by omega)
    rw [sfsMapio.read, Prog.wp_bind]
    refine wp_sfsRblock_any (by rw [hb]; omega) (by rw [hb]; omega) ?_ herr
    intro w₁ hst hdisk _ hreads
    simp only [Prog.wp_bind, wp_modifyFs, hb]
    refine ih (j + 1) _ (by simp only [hst]; omega) (by omega) ?_ ?_
    · intro w' hst' hdisk'
      refine hok w' ?_ (hdisk'.trans hdisk)
      rw [hst']
      simp only [hst, hdisk, loadMap]
    · exact fun hr => herr fun h0 => hr (hreads h0)

/-- Mounting a volume of `n` blocks. -/
theorem wp_sfsDomount {Q : Post machine Unit} {w : World} {sp : SfsSuper}
    (hsuper : w.env.disk sfsSbLocation.toNat = sp.toSector) (hmagic : sp.spMagic = sfsMagic)
    (hfit : sfsMapLocation + sfsBitblocks sp.spNblocks.toNat ≤ w.st.fs.dBlocks)
    (hsize : sfsBitblocks sp.spNblocks.toNat ≤ maxbitblocks)
    (hok : ∀ w', w'.st.fs.sfsSuper = sp.terminated → w'.st.fs.dBlocks = w.st.fs.dBlocks →
      w'.st.fs.sfsFreemap = loadMap w.env.disk (sfsBitblocks sp.spNblocks.toNat) 0
        (bitmapCreate (sfsBitmapsize sp.spNblocks.toNat)) → Q.ok () w')
    (herr : ¬ (w.env.readFaults = [] ∧ w.env.memFaults = []) → ∀ e w', Q.err e w') :
    sfsDomount.wp Q w := by
  have hmax : sfsBitblocks sp.spNblocks.toNat ≤ 32 := hsize
  simp only [sfsMapLocation] at hfit
  -- an error needs a pending fault at the start
  have hmem {w' : World} (hq : w.env.memFaults = [] → w'.env.memFaults = [])
      (hm : w'.env.memFaults ≠ []) (e : Errno) (w'' : World) : Q.err e w'' :=
    herr (fun h0 => hm (hq h0.2)) e w''
  rw [sfsDomount, Prog.wp_bind]
  refine wp_kmalloc (fun w₁ h₁ => ?_) fun w₁ h₁ hm => ?_
  swap
  · simpa using hmem id hm _ _
  simp only [if_true, Prog.wp_bind]
  refine wp_kmalloc (fun w₂ h₂ => ?_) fun w₂ h₂ hm => ?_
  swap
  · simpa using hmem h₁.mem hm _ _
  have hq₂ := h₁.trans h₂
  simp only [if_true, Prog.wp_bind, wp_modifyFs]
  refine wp_sfsRblock_any (by decide) ?_ ?_ ?_
  · change 0 < w₂.st.fs.dBlocks
    rw [hq₂.st]
    omega
  · intro w₃ hst₃ hdisk₃ hmem₃ hreads₃
    have hs : SfsSuper.ofSector (w₂.env.disk sfsSbLocation.toNat) = sp := by
      rw [hq₂.disk, hsuper, SfsSuper.ofSector_toSector]
    have hm₃ (h0 : w.env.memFaults = []) : w₃.env.memFaults = [] := hmem₃.trans (hq₂.mem h0)
    have hr₃ (h0 : w.env.readFaults = []) : w₃.env.readFaults = [] := hreads₃ (hq₂.reads h0)
    have hd₃ : w₃.env.disk = w.env.disk := hdisk₃.trans hq₂.disk
    have hb₃ : w₃.st.fs.dBlocks = w.st.fs.dBlocks := by rw [hst₃, hq₂.st]
    simp only [hs, hmagic, ne_eq, not_true_eq_false, if_false, Prog.wp_bind, wp_modifyFs]
    refine wp_kmalloc (fun w₄ h₄ => ?_) fun w₄ h₄ hm => ?_
    swap
    · simpa using hmem hm₃ hm _ _
    simp only [if_true, Prog.wp_bind]
    refine wp_kmalloc (fun w₅ h₅ => ?_) fun w₅ h₅ hm => ?_
    swap
    · simpa using hmem (fun h0 => h₄.mem (hm₃ h0)) hm _ _
    have hq₅ := h₄.trans h₅
    simp only [if_true, Prog.wp_bind, wp_modifyFs, wp_getFs]
    generalize hb : SfsFs.bitblocks _ = nb
    obtain rfl : nb = sfsBitblocks sp.spNblocks.toNat := by
      rw [← hb]
      simp only [SfsFs.bitblocks, hq₅.st]
      rfl
    refine wp_mapio_read _ 0 _ ?_ ?_ ?_ ?_
    · simp only [hq₅.st, hb₃, sfsMapLocation]
      omega
    · simp only [sfsMapLocation]
      omega
    · intro w₆ hst₆ hdisk₆
      refine hok _ ?_ ?_ ?_
      · simp only [hst₆, hq₅.st]
      · simp only [hst₆, hq₅.st, hb₃]
      · simp only [hst₆, hq₅.disk, hd₃]
        rfl
    · exact fun hr w' => herr (fun h0 => hr (hq₅.reads (hr₃ h0.1))) _ _
  · exact fun hr w' => herr (fun h0 => hr (hq₂.reads h0.1)) _ _

/-! ## The mounted map -/

theorem nbits_bitmapCreate (n : Nat) : (bitmapCreate n).nbits = n := by
  have htail (b : Bitmap) (ix m j : Nat) : (bitmapCreate.tail b ix m j).nbits = b.nbits := by
    induction m generalizing b j with
    | zero => rfl
    | succ m ih => exact ih _ _
  simp only [bitmapCreate]
  split
  · exact htail _ _ _ _
  · rfl

theorem sfsBitmapsize_facts (n : Nat) : sfsBitmapsize n + 7 < 2 ^ 32 ∧ sfsBitmapsize n % 8 = 0 ∧
    sfsBitmapsize n = sfsBitblocks n * 4096 := by
  simp only [sfsBitblocks, sfsBitmapsize, divRoundUp, sfsBlockbits]
  omega

/-- What a mounted volume of `n` blocks made by `mksfs` is: its free map has exactly the
reserved blocks and the blocks `h` set. -/
structure MapState (n : UInt32) (h : List UInt32) (fs : SfsFs) : Prop where
  nblocks : fs.sfsSuper.spNblocks = n
  device : fs.dBlocks = n.toNat
  nbits : fs.sfsFreemap.nbits = sfsBitmapsize n.toNat
  bits : ∀ j < sfsBitmapsize n.toNat,
    (fs.sfsFreemap.isset j = true ↔ Reserved n.toNat j ∨ UInt32.ofNat j ∈ h)
  nodup : h.Nodup
  files : ∀ c ∈ h, ¬ Reserved n.toNat c.toNat

theorem mksfs_mount {volname : List UInt8} (hv : volname.length < 32) {n : UInt32}
    (disk : Nat → Sector) (hfit : sfsMapLocation + sfsBitblocks n.toNat ≤ n.toNat)
    (hsize : sfsBitblocks n.toNat ≤ maxbitblocks) :
    ∃ disk', mksfs volname n disk = .ok disk' ∧ ∀ (Q : Post machine Unit) (w : World),
      w.env.disk = disk' → w.st.fs.dBlocks = n.toNat →
      (∀ w', MapState n [] w'.st.fs → Q.ok () w') →
      (¬ (w.env.readFaults = [] ∧ w.env.memFaults = []) → ∀ e w', Q.err e w') →
      sfsDomount.wp Q w := by
  obtain ⟨sp, hmagic, hnb, hs⟩ : ∃ sp : SfsSuper, sp.spMagic = sfsMagic ∧ sp.spNblocks = n ∧
      writesuper volname n disk =
        .ok fun b => if b = sfsSbLocation.toNat then sp.toSector else disk b :=
    ⟨⟨sfsMagic, n, fun i => volname.getD i 0, fun _ => 0⟩, rfl, rfl,
      if_neg (Nat.not_le.mpr hv)⟩
  generalize hd₁ : (fun b => if b = sfsSbLocation.toNat then sp.toSector else disk b) = disk₁ at hs
  obtain ⟨bitbuf, hw, hbits⟩ := writebitmap_ok (writerootdir disk₁) hfit hsize
  refine ⟨diskwriteMap bitbuf (sfsBitblocks n.toNat) 0 (writerootdir disk₁), ?_,
    fun Q w hdisk hd hok herr => ?_⟩
  · simp only [mksfs, hs, bind, Except.bind, hw]
  · have hsuper : w.env.disk sfsSbLocation.toNat = sp.toSector := by
      rw [hdisk, diskwriteMap_eq, if_neg fun h => absurd h.1 (by decide), ← hd₁]
      rfl
    refine wp_sfsDomount hsuper hmagic (by rw [hnb, hd]; exact hfit) (by rw [hnb]; exact hsize)
      ?_ herr
    intro w' hsp hdb hmap
    rw [hnb] at hmap
    refine hok w' ⟨?_, hdb.trans hd, ?_, ?_, List.nodup_nil, by simp⟩
    · rw [hsp]
      exact hnb
    · rw [hmap, nbits_loadMap, nbits_bitmapCreate]
    · intro j hj
      obtain ⟨-, h8, hbb⟩ := sfsBitmapsize_facts n.toNat
      have hset : w'.st.fs.sfsFreemap.isset j = bitbuf.isset j := by
        rw [Bitmap.isset, Bitbuf.isset, hmap, loadMap_v,
          if_pos (by simp only [sfsBlocksize]; omega), hdisk, diskwriteMap_eq,
          if_pos (by simp only [sfsBlocksize, sfsMapLocation]; omega)]
        have hk : (sfsMapLocation + j / 8 / sfsBlocksize - sfsMapLocation) * sfsBlocksize +
            j / 8 % sfsBlocksize = j / 8 := by
          simp only [sfsBlocksize, sfsMapLocation]
          omega
        simp only [hk]
      rw [hset, hbits j hj]
      simp

/-! ## Allocating and freeing -/

/-- Blocks that are not reserved lie within the map. -/
theorem lt_sfsBitmapsize {n : UInt32} (hn : n.toNat + 4095 < 2 ^ 32) {j : Nat}
    (hj : ¬ Reserved n.toNat j) : j < sfsBitmapsize n.toNat := by
  have : j < n.toNat := by
    by_contra hge
    exact hj (.inr (.inr (.inr (by omega))))
  simp only [sfsBitmapsize, divRoundUp, sfsBlockbits]
  omega

namespace MapState

variable {n : UInt32} {h : List UInt32} {w : World} (hs : MapState n h w.st.fs)
include hs

theorem isset_iff {c : UInt32} (hc : c.toNat < sfsBitmapsize n.toNat) :
    w.st.fs.sfsFreemap.isset c.toNat = true ↔ Reserved n.toNat c.toNat ∨ c ∈ h := by
  rw [hs.bits _ hc, UInt32.ofNat_toNat]

/-- `sfs_balloc` takes a block that is neither reserved nor held; it finds none exactly
when all others are held. -/
theorem wp_sfsBalloc {Q : Post machine UInt32} (hn : n.toNat + 4095 < 2 ^ 32)
    (hsmall : n.toNat ≤ 2 ^ 17)
    (hok : ∀ c w', ¬ Reserved n.toNat c.toNat → c ∉ h → MapState n (c :: h) w'.st.fs → Q.ok c w')
    (herr : (∀ c : UInt32, ¬ Reserved n.toNat c.toNat → c ∈ h) → Q.err .enospc w) :
    sfsBalloc.wp Q w := by
  obtain ⟨hb7, hb8, -⟩ := sfsBitmapsize_facts n.toNat
  simp only [sfsBalloc, Prog.wp_bind, wp_getFs]
  have hspec : AllocSpec w.st.fs.sfsFreemap _ :=
    bitmapAlloc_spec (by rw [hs.nbits]; exact hb8) (by rw [hs.nbits]; exact hb7)
  cases hr : bitmapAlloc w.st.fs.sfsFreemap with
  | error m => rw [hr] at hspec; cases hspec
  | ok r =>
    rw [hr] at hspec
    cases hspec with
    | full hf =>
      simp only [wp_ofExcept_ok, Prog.wp_bind]
      rw [Prog.wp_mark]
      simp only [Prog.wp_fail]
      refine herr fun c hc => ?_
      have hlt := lt_sfsBitmapsize hn hc
      exact ((hs.isset_iff hlt).mp (hf _ (by rw [hs.nbits]; exact hlt))).resolve_left hc
    | got i hi hc _ =>
      rw [hs.nbits] at hi
      have hto : (UInt32.ofNat i).toNat = i := by
        rw [UInt32.toNat_ofNat']
        exact Nat.mod_eq_of_lt (by omega)
      have hfree : ¬ (Reserved n.toNat i ∨ UInt32.ofNat i ∈ h) := fun hx => by
        rw [← hs.bits i hi, hc] at hx
        cases hx
      obtain ⟨hres, hmem⟩ := not_or.mp hfree
      have hlt : i < n.toNat := by
        by_contra hge
        exact hres (.inr (.inr (.inr (by omega))))
      have hvalid : ¬ UInt32.ofNat i ≥ w.st.fs.sfsSuper.spNblocks := by
        rw [hs.nblocks, ge_iff_le, UInt32.le_iff_toNat_le, hto]
        omega
      simp only [wp_ofExcept_ok, Prog.wp_bind, wp_modifyFs, if_neg hvalid]
      refine wp_sfsWblock_any ?_ ?_ ?_
      · simp only [hto, hs.device]
        exact hlt
      · simp only [hs.device]
        omega
      · intro w' hst
        dsimp only
        rw [Prog.wp_pure]
        refine hok _ w' (by rw [hto]; exact hres) hmem ?_
        rw [hst]
        refine ⟨hs.nblocks, hs.device, hs.nbits, fun j hj => ?_,
          List.nodup_cons.mpr ⟨hmem, hs.nodup⟩, ?_⟩
        · have hij : UInt32.ofNat j = UInt32.ofNat i ↔ j = i := by
            refine ⟨fun he => ?_, fun he => by rw [he]⟩
            have := congrArg UInt32.toNat he
            rw [hto, UInt32.toNat_ofNat', Nat.mod_eq_of_lt (by omega)] at this
            exact this
          simp only [isset_mark, Bool.or_eq_true, decide_eq_true_eq, hs.bits j hj,
            List.mem_cons, hij]
          tauto
        · intro c hc'
          rcases List.mem_cons.mp hc' with rfl | hc'
          · rw [hto]
            exact hres
          · exact hs.files c hc'

/-- `sfs_bfree` gives back a held block. -/
theorem wp_sfsBfree {Q : Post machine Unit} (hn : n.toNat + 4095 < 2 ^ 32) {c : UInt32}
    (hc : c ∈ h) (hok : ∀ w', MapState n (h.erase c) w'.st.fs → Q.ok () w') :
    (sfsBfree c).wp Q w := by
  have hlt := lt_sfsBitmapsize hn (hs.files c hc)
  have hset : w.st.fs.sfsFreemap.isset c.toNat = true := (hs.isset_iff hlt).mpr (.inr hc)
  simp only [sfsBfree, Prog.wp_bind, wp_getFs,
    bitmapUnmark_eq (b := w.st.fs.sfsFreemap) (i := c.toNat) (by rw [hs.nbits]; exact hlt) hset,
    wp_ofExcept_ok, wp_modifyFs]
  refine hok _ ⟨hs.nblocks, hs.device, hs.nbits, fun j hj => ?_, hs.nodup.erase c, fun d hd =>
    hs.files d (List.mem_of_mem_erase hd)⟩
  obtain ⟨hb7, -, -⟩ := sfsBitmapsize_facts n.toNat
  have hjc : UInt32.ofNat j = c ↔ j = c.toNat := by
    refine ⟨fun he => ?_, fun he => by rw [he, UInt32.ofNat_toNat]⟩
    rw [← he, UInt32.toNat_ofNat', Nat.mod_eq_of_lt (by omega)]
  simp only [isset_unmark, Bool.and_eq_true, decide_eq_true_eq, hs.bits j hj,
    hs.nodup.mem_erase_iff, ne_eq, hjc]
  constructor
  · intro hy
    obtain ⟨hx | hx, hj⟩ := hy
    · exact .inl hx
    · exact .inr ⟨hj, hx⟩
  · intro hy
    rcases hy with hx | ⟨hj, hx⟩
    · refine ⟨.inl hx, ?_⟩
      intro hy
      obtain rfl := hy
      exact hs.files c hc hx
    · exact ⟨.inr hx, hj⟩

end MapState

/-- The runs of `sfs_balloc` and of `sfs_bfree` on blocks so obtained; `h` are the blocks
obtained and not freed. -/
inductive AllocRun (w₀ : World) : World → List UInt32 → Prop
  | start : AllocRun w₀ w₀ []
  | balloc {w w' : World} {h : List UInt32} {c : UInt32} (hr : AllocRun w₀ w h)
      (hrun : sfsBalloc.run machine w = (.ok c, w')) : AllocRun w₀ w' (c :: h)
  | nospace {w w' : World} {h : List UInt32} {e : Errno} (hr : AllocRun w₀ w h)
      (hrun : sfsBalloc.run machine w = (.err e, w')) : AllocRun w₀ w' h
  | bfree {w w' : World} {h : List UInt32} {c : UInt32} (hr : AllocRun w₀ w h) (hc : c ∈ h)
      (hrun : (sfsBfree c).run machine w = (.ok (), w')) : AllocRun w₀ w' (h.erase c)

/-- The mounted map has exactly the reserved blocks set, and every run allocates and
frees the others only: a full map is reported when there are no others left, and
nothing panics. -/
structure MapAgrees (n : UInt32) (w₀ : World) : Prop where
  exact' : ∀ j < w₀.st.fs.sfsFreemap.nbits,
    (w₀.st.fs.sfsFreemap.isset j = true ↔ Reserved n.toNat j)
  runs : ∀ w h, AllocRun w₀ w h →
    (∀ c w', sfsBalloc.run machine w = (.ok c, w') → ¬ Reserved n.toNat c.toNat ∧ c ∉ h) ∧
    ((∃ w', sfsBalloc.run machine w = (.err .enospc, w')) ↔
      ∀ c : UInt32, ¬ Reserved n.toNat c.toNat → c ∈ h) ∧
    (∀ m w', sfsBalloc.run machine w ≠ (.stopped m, w')) ∧
    ∀ c ∈ h, ∀ m w', (sfsBfree c).run machine w ≠ (.stopped m, w')

theorem MapState.balloc_run {n : UInt32} {h : List UInt32} {w : World}
    (hs : MapState n h w.st.fs) (hn : n.toNat + 4095 < 2 ^ 32) (hsmall : n.toNat ≤ 2 ^ 17) :
    (∃ c w', sfsBalloc.run machine w = (.ok c, w') ∧ ¬ Reserved n.toNat c.toNat ∧ c ∉ h ∧
      MapState n (c :: h) w'.st.fs) ∨
    sfsBalloc.run machine w = (.err .enospc, w) ∧
      ∀ c : UInt32, ¬ Reserved n.toNat c.toNat → c ∈ h := by
  have hwp : sfsBalloc.wp ⟨fun c w' => ¬ Reserved n.toNat c.toNat ∧ c ∉ h ∧
      MapState n (c :: h) w'.st.fs, fun e w' => e = .enospc ∧ w' = w ∧
      ∀ c : UInt32, ¬ Reserved n.toNat c.toNat → c ∈ h, fun _ _ => False⟩ w :=
    hs.wp_sfsBalloc hn hsmall (fun c w' h₁ h₂ h₃ => ⟨h₁, h₂, h₃⟩) fun hall => ⟨rfl, rfl, hall⟩
  rw [Prog.wp_iff] at hwp
  generalize sfsBalloc.run machine w = r at hwp
  obtain ⟨o, w'⟩ := r
  cases o with
  | ok c => exact .inl ⟨c, w', rfl, hwp⟩
  | err e =>
    obtain ⟨rfl, rfl, hall⟩ := hwp
    exact .inr ⟨rfl, hall⟩
  | stopped m => exact absurd hwp id

theorem MapState.bfree_run {n : UInt32} {h : List UInt32} {w : World} (hs : MapState n h w.st.fs)
    (hn : n.toNat + 4095 < 2 ^ 32) {c : UInt32} (hc : c ∈ h) :
    ∃ w', (sfsBfree c).run machine w = (.ok (), w') ∧ MapState n (h.erase c) w'.st.fs := by
  obtain ⟨a, w', hrun, hst⟩ := Prog.ok_of_wp (p := sfsBfree c) (w := w)
    (P := fun _ w' => MapState n (h.erase c) w'.st.fs) (hs.wp_sfsBfree hn hc fun _ h' => h')
  exact ⟨w', hrun, hst⟩

theorem MapState.run {n : UInt32} {w₀ w : World} {h : List UInt32} (hs : MapState n [] w₀.st.fs)
    (hn : n.toNat + 4095 < 2 ^ 32) (hsmall : n.toNat ≤ 2 ^ 17) (hr : AllocRun w₀ w h) :
    MapState n h w.st.fs := by
  induction hr with
  | start => exact hs
  | balloc _ hrun ih =>
    rcases ih.balloc_run hn hsmall with ⟨c, w', hrun', -, -, h'⟩ | ⟨hrun', -⟩
    · rw [hrun] at hrun'
      cases hrun'
      exact h'
    · rw [hrun] at hrun'
      cases hrun'
  | nospace _ hrun ih =>
    rcases ih.balloc_run hn hsmall with ⟨c, w', hrun', -⟩ | ⟨hrun', -⟩
    · rw [hrun] at hrun'
      cases hrun'
    · rw [hrun] at hrun'
      cases hrun'
      exact ih
  | bfree _ hc hrun ih =>
    obtain ⟨w', hrun', h'⟩ := ih.bfree_run hn hc
    rw [hrun] at hrun'
    cases hrun'
    exact h'

theorem MapState.agrees {n : UInt32} {w₀ : World} (hs : MapState n [] w₀.st.fs)
    (hn : n.toNat + 4095 < 2 ^ 32) (hsmall : n.toNat ≤ 2 ^ 17) : MapAgrees n w₀ where
  exact' j hj := by
    rw [hs.nbits] at hj
    rw [hs.bits j hj]
    simp
  runs w h hr := by
    have h' := hs.run hn hsmall hr
    refine ⟨?_, ⟨?_, ?_⟩, ?_, ?_⟩
    · intro c w' hrun
      rcases h'.balloc_run hn hsmall with ⟨c', w'', hrun', h₁, h₂, -⟩ | ⟨hrun', -⟩
      · rw [hrun] at hrun'
        cases hrun'
        exact ⟨h₁, h₂⟩
      · rw [hrun] at hrun'
        cases hrun'
    · intro hx
      obtain ⟨w', hrun⟩ := hx
      rcases h'.balloc_run hn hsmall with ⟨c', w'', hrun', -⟩ | ⟨-, hall⟩
      · rw [hrun] at hrun'
        cases hrun'
      · exact hall
    · intro hall
      rcases h'.balloc_run hn hsmall with ⟨c, w', -, h₁, h₂, -⟩ | ⟨hrun, -⟩
      · exact absurd (hall c h₁) h₂
      · exact ⟨w, hrun⟩
    · intro m w' hrun
      rcases h'.balloc_run hn hsmall with ⟨c', w'', hrun', -⟩ | ⟨hrun', -⟩ <;>
        · rw [hrun] at hrun'
          cases hrun'
    · intro c hc m w' hrun
      obtain ⟨w'', hrun', -⟩ := h'.bfree_run hn hc
      rw [hrun] at hrun'
      cases hrun'

/-- Where the rounding of the size wraps around, the map is empty and the first
`sfs_balloc` finds no space. -/
theorem MapState.wrapped {n : UInt32} {w₀ : World} (hs : MapState n [] w₀.st.fs)
    (hn : ¬ n.toNat + 4095 < 2 ^ 32) : ¬ MapAgrees n w₀ := by
  intro hm
  have hlt := n.toNat_lt
  have hsize : sfsBitmapsize n.toNat = 0 := by
    simp only [sfsBitmapsize, divRoundUp, sfsBlockbits]
    omega
  have hnil : bitmapAlloc w₀.st.fs.sfsFreemap = .ok none := by
    rw [bitmapAlloc, hs.nbits, hsize]
    rfl
  have hwp : sfsBalloc.wp (O := machine) ⟨fun _ _ => False, fun e _ => e = .enospc,
      fun _ _ => False⟩ w₀ := by
    simp only [sfsBalloc, Prog.wp_bind, wp_getFs, hnil, wp_ofExcept_ok]
    rw [Prog.wp_mark]
    simp only [Prog.wp_fail]
  have hrun : ∃ w', sfsBalloc.run machine w₀ = (.err .enospc, w') := by
    rw [Prog.wp_iff] at hwp
    generalize sfsBalloc.run machine w₀ = r at hwp
    obtain ⟨o, w'⟩ := r
    cases o with
    | ok c => exact absurd hwp id
    | err e =>
      obtain rfl : e = .enospc := hwp
      exact ⟨w', rfl⟩
    | stopped m => exact absurd hwp id
  have hfree : ¬ Reserved n.toNat (2 : UInt32).toNat := by
    have h2 : (2 : UInt32).toNat = 2 := rfl
    have h0 : sfsSbLocation.toNat = 0 := rfl
    have h1 : sfsRootLocation.toNat = 1 := rfl
    simp only [Reserved, h0, h1, h2, sfsBitblocks, hsize, sfsMapLocation, sfsBlockbits,
      Nat.zero_div]
    omega
  have := ((hm.runs w₀ [] .start).2.1.mp hrun) 2 hfree
  cases this

/-- Then no disk that `mksfs` makes mounts with a map that agrees. -/
theorem mksfs_wrapped {volname : List UInt8} (hv : volname.length < 32) {n : UInt32}
    {disk : Nat → Sector} (hfit : sfsMapLocation + sfsBitblocks n.toNat ≤ n.toNat)
    (hsize : sfsBitblocks n.toNat ≤ maxbitblocks) (hn : ¬ n.toNat + 4095 < 2 ^ 32) :
    ¬ ∃ disk', mksfs volname n disk = .ok disk' ∧ ∀ w w', w.env.disk = disk' →
      w.st.fs.dBlocks = n.toNat → sfsDomount.run machine w = (.ok (), w') → MapAgrees n w' := by
  intro hx
  obtain ⟨disk', hmk, hall⟩ := hx
  obtain ⟨disk'', hmk', hmount⟩ := mksfs_mount hv disk hfit hsize
  rw [hmk] at hmk'
  cases hmk'
  let w : World := ⟨{ eightBlocks with fs := { eightBlocks.fs with dBlocks := n.toNat } },
    ⟨disk', [], [], []⟩⟩
  obtain ⟨a, w', hrun, hs⟩ := Prog.ok_of_wp (p := sfsDomount) (w := w)
    (P := fun _ w' => MapState n [] w'.st.fs)
    (hmount _ w rfl rfl (fun w' h' => h') fun hno => absurd ⟨rfl, rfl⟩ hno)
  exact hs.wrapped hn (hall w w' rfl rfl hrun)

/-- The map of every size `mksfs` accepts is the kernel's, unless rounding the size up to
whole map blocks wraps around. -/
theorem mksfs_agrees_iff (volname : List UInt8) (hv : volname.length < 32) (n : UInt32)
    (disk : Nat → Sector) (hfit : sfsMapLocation + sfsBitblocks n.toNat ≤ n.toNat)
    (hsize : sfsBitblocks n.toNat ≤ maxbitblocks) :
    (∃ disk', mksfs volname n disk = .ok disk' ∧ ∀ w w', w.env.disk = disk' →
      w.st.fs.dBlocks = n.toNat → sfsDomount.run machine w = (.ok (), w') → MapAgrees n w') ↔
    n.toNat + 4095 < 2 ^ 32 := by
  constructor
  · intro hagree
    by_contra hn
    exact mksfs_wrapped hv hfit hsize hn hagree
  · intro hn
    have hsmall : n.toNat ≤ 2 ^ 17 := by
      simp only [sfsBitblocks, sfsBitmapsize, divRoundUp, sfsBlockbits, maxbitblocks] at hsize
      omega
    obtain ⟨disk', hmk, hmount⟩ := mksfs_mount hv disk hfit hsize
    refine ⟨disk', hmk, fun w w' hdisk hd hrun => ?_⟩
    have hs : MapState n [] w'.st.fs := Prog.wp_ok_iff.mp
      (hmount ⟨fun _ w' => MapState n [] w'.st.fs, fun _ _ => True, fun _ _ => True⟩ w hdisk hd
        (fun w' h' => h') fun _ _ _ => trivial) () w' hrun
    exact hs.agrees hn hsmall

/-- A volume of five blocks agrees. -/
theorem mksfs_agrees_iff_five : ∃ disk', mksfs [] 5 (fun _ => Sector.zero) = .ok disk' ∧
    ∀ w w', w.env.disk = disk' → w.st.fs.dBlocks = (5 : UInt32).toNat →
      sfsDomount.run machine w = (.ok (), w') → MapAgrees 5 w' :=
  (mksfs_agrees_iff [] (by decide) 5 (fun _ => Sector.zero) (by decide) (by decide)).mpr (by decide)

/-- The largest size is accepted, and the kernel's map is empty. -/
theorem mksfs_disagrees : ¬ ∃ disk', mksfs [] 0xffffffff (fun _ => Sector.zero) = .ok disk' ∧
    ∀ w w', w.env.disk = disk' → w.st.fs.dBlocks = (0xffffffff : UInt32).toNat →
      sfsDomount.run machine w = (.ok (), w') → MapAgrees 0xffffffff w' :=
  mksfs_wrapped (by decide) (by decide) (by decide) (by decide)

end Os161.Sfs
