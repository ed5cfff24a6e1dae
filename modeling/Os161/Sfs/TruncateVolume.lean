import Os161.Sfs.Contents
import Os161.Sfs.Shrinking

/-! # Truncation and the volume

`sfs_truncate` on a volume on which nothing goes wrong: it returns 0, releases no block that is
still in place, and leaves every other file alone. -/
namespace Os161.Sfs
open Os161.Lib Kern Vol

variable {L : UInt32 → Prop} {v v' : Vol} {sv : Ptr} {w w' : World} {n : Nat} {len : Int}

/-! ## What a truncation does not touch -/

/-- Of the disk at most block `b` is written, which is none if it is 0, and the map has the same
bits beyond all blocks. -/
structure Trimmed (sv : Ptr) (b : UInt32) (w w' : World) : Prop where
  here : Local sv (vol w) (vol w')
  calm : Calm w w'
  disk : ∀ c : UInt32, (c = b → c = 0) → w'.env.disk c.toNat = w.env.disk c.toNat
  tail : ∀ j, 2 ^ 32 ≤ j → w'.st.fs.sfsFreemap.isset j = w.st.fs.sfsFreemap.isset j

namespace Trimmed

variable {b : UInt32}

theorem trans {w'' : World} (h : Trimmed sv b w w') (h' : Trimmed sv b w' w'') :
    Trimmed sv b w w'' where
  here := h.here.trans h'.here
  calm := h.calm.trans h'.calm
  disk c hc := (h'.disk c hc).trans (h.disk c hc)
  tail j hj := (h'.tail j hj).trans (h.tail j hj)

theorem of_quiet (h : Quiet w w') : Trimmed sv b w w' where
  here := by rw [h.vol]; exact .refl sv _
  calm := h.toCalm
  disk c _ := by rw [h.disk]
  tail j _ := by rw [h.st]

theorem isset_of_freed {ι : Type} {d : ι → UInt32} {P : ι → Prop} {fm fm' : Bitmap}
    (h : Freed d P fm fm') {j : Nat} (hj : 2 ^ 32 ≤ j) : fm'.isset j = fm.isset j := by
  rw [Bool.eq_iff_iff, h.2 j]
  refine ⟨And.left, fun hb => ⟨hb, ?_⟩⟩
  intro hx
  obtain ⟨i, -, -, he⟩ := hx
  have := (d i).toNat_lt
  omega

theorem of_direct {is : List (Fin 15)} (h : DirectCut sv n is w w') : Trimmed sv b w w' where
  here := h.here
  calm := by
    constructor <;> intro h0 <;> rw [h.env] <;> exact h0
  disk c _ := by rw [h.env]
  tail _ hj := isset_of_freed h.freed hj

theorem of_entries {js : List (Fin 128)} (h : EntriesCut sv n js w w') : Trimmed sv b w w' where
  here := h.here
  calm := by
    constructor <;> intro h0 <;> rw [h.env] <;> exact h0
  disk c _ := by rw [h.env]
  tail _ hj := isset_of_freed h.freed hj

theorem of_wrote {s : Sector} (h0 : b ≠ 0) (h : Wrote b.toNat s w w') : Trimmed sv b w w' where
  here := by
    have hfs : (vol w').fs = (vol w).fs := congrArg Kernel.fs h.st
    constructor <;> intros <;> rw [hfs]
  calm := h.toCalm
  disk c hc := by
    rw [h.disk]
    refine if_neg fun he => ?_
    have he := UInt32.toNat_inj.mp he
    exact h0 (he ▸ hc he)
  tail j _ := by rw [h.st]

theorem of_bufs (hfs : w'.st.fs = w.st.fs) (henv : w'.env = w.env) : Trimmed sv b w w' where
  here := by
    have hv : (vol w').fs = (vol w).fs := hfs
    constructor <;> intros <;> rw [hv]
  calm := by
    constructor <;> intro h0 <;> rw [henv] <;> exact h0
  disk c _ := by rw [henv]
  tail j _ := by rw [hfs]

end Trimmed

/-- The end of `sfs_truncate`. -/
theorem wp_truncate_finish {b : UInt32} {size : UInt32} {Q : Post machine Unit} {w₀ : World}
    (h : Trimmed sv b w₀ w)
    (hok : ∀ w', Trimmed sv b w₀ w' → (w'.st.fs.heap sv).svDirty = true → Q.ok () w') :
    (Kern.modifyInode sv (fun i => { i with sfiSize := size }) >>= fun _ =>
      setDirty sv).wp Q w := by
  simp only [Prog.wp_bind, wp_modifyInode, wp_setDirty]
  refine hok _ (h.trans ⟨?_, ⟨id, id, id⟩, fun _ _ => rfl, fun _ _ => rfl⟩) ?_
  · rw [vol_mk]
    exact ((Local.refl sv (vol w)).modifyInode _).setDirty
  · simp [SfsFs.modifyVnode, SfsFs.setVnode]

/-- After the two loops the indirect block is still marked: it is in another place than all they
release. -/
theorem indirect_marked (hwf : WellFormed (vol w) sv) (h0 : (vol w).place sv .indirect [] ≠ 0)
    (hcut : DirectCut sv n (List.finRange 15) w w') {fm : Bitmap} {d : Fin 128 → UInt32}
    {P : Fin 128 → Prop} (hd : ∀ j, d j = (vol w).place sv .indirect [j])
    (hfreed : Freed d P w'.st.fs.sfsFreemap fm) :
    fm.isset ((vol w).place sv .indirect []).toNat = true := by
  have hmark := hwf.marked .indirect [] (Nat.zero_le _) h0
  refine (hfreed.2 _).mpr ⟨?_, ?_⟩
  · refine (hcut.isset _).mpr ⟨hmark, ?_⟩
    intro hx
    obtain ⟨s, l, hl, hfrom, he, -⟩ := hx
    obtain ⟨rfl, rfl⟩ := hwf.inj s l .indirect [] hl (Nat.zero_le _) he (he ▸ h0)
    obtain ⟨i, hi, -⟩ := hfrom
    cases hi
  · intro hx
    obtain ⟨j, -, hz, he⟩ := hx
    rw [hd] at hz he
    obtain ⟨-, hl⟩ := hwf.inj .indirect [j] .indirect [] (Nat.le_refl 1) (Nat.zero_le _)
      (UInt32.toNat_inj.mp he) hz
    cases hl

section Total

variable {Q : Post machine Unit} {w₁ w₃ w₄ : World} {size : UInt32}

/-- What is done with the indirect block after the loop over its entries. -/
theorem wp_truncate_indirect (h : Ready L sv w) (h0 : (vol w).place sv .indirect [] ≠ 0)
    (ht : Trimmed sv ((vol w).place sv .indirect []) w w₄)
    (hset : w₄.st.fs.sfsFreemap.isset ((vol w).place sv .indirect []).toNat = true)
    {hasnonzero iddirty : Bool}
    (hok : ∀ w', Trimmed sv ((vol w).place sv .indirect []) w w' →
      (w'.st.fs.heap sv).svDirty = true → Q.ok () w') :
    (if ¬ hasnonzero = true then
        sfsTruncate.dropIndirect sv ((vol w).place sv .indirect []) >>= fun _ =>
          Kern.modifyInode sv (fun i => { i with sfiSize := size }) >>= fun _ => setDirty sv
      else if iddirty = true then
        sfsWblock (fun k => Sector.ofWords k.bufs.idbuf)
          ((vol w).place sv .indirect []) >>= fun _ =>
          Kern.modifyInode sv (fun i => { i with sfiSize := size }) >>= fun _ => setDirty sv
      else Kern.modifyInode sv (fun i => { i with sfiSize := size }) >>= fun _ => setDirty sv).wp
      Q w₄ := by
  have hgeo := h.core.toGeo
  have hrange := (h.core.wellFormed h.vnode).range .indirect [] (Nat.zero_le _) h0
  by_cases hx : hasnonzero = true
  · rw [if_neg (not_not.mpr hx)]
    by_cases hy : iddirty = true
    · rw [if_pos hy, Prog.wp_bind]
      obtain ⟨h1, h2⟩ := hgeo.addressable hrange
      have hdev : w₄.st.fs.dBlocks = (vol w).fs.dBlocks := ht.here.device
      refine wp_sfsWblock ⟨by rw [hdev]; exact h1, by rw [hdev]; exact h2⟩
        (ht.calm.writes h.writes) fun w₅ hwrote => ?_
      exact wp_truncate_finish (ht.trans (.of_wrote h0 hwrote)) hok
    · rw [if_neg hy]
      exact wp_truncate_finish ht hok
  · rw [if_pos hx, Prog.wp_bind]
    have hlt : ((vol w).place sv .indirect []).toNat < w₄.st.fs.sfsFreemap.nbits := by
      have h2 := hgeo.le_nbits
      have h3 : w₄.st.fs.sfsFreemap.nbits = (vol w).fs.sfsFreemap.nbits := ht.here.nbits
      omega
    refine wp_dropIndirect hlt hset fun w₅ hl henv hfm _ _ => ?_
    refine wp_truncate_finish (ht.trans ⟨hl, ?_, fun c _ => by rw [henv], fun j hj => ?_⟩) hok
    · constructor <;> intro h0 <;> rw [henv] <;> exact h0
    · rw [hfm, Bitmap.isset_unmark]
      have := ((vol w).place sv .indirect []).toNat_lt
      rw [decide_eq_true (by omega), Bool.and_true]

/-- The loop over the entries, with the indirect block in the buffer. -/
theorem wp_truncate_behind (h : Ready L sv w) (h0 : (vol w).place sv .indirect [] ≠ 0)
    (hcut : DirectCut sv n (List.finRange 15) w w₁)
    (ht : Trimmed sv ((vol w).place sv .indirect []) w w₃)
    (hfm : w₃.st.fs.sfsFreemap = w₁.st.fs.sfsFreemap) {buf : Words}
    (hbuf : ∀ j, buf j = (vol w).place sv .indirect [j])
    {R : Post machine (Bool × Bool)}
    (hok : ∀ x w₄, Trimmed sv ((vol w).place sv .indirect []) w w₄ →
      w₄.st.fs.sfsFreemap.isset ((vol w).place sv .indirect []).toNat = true → R.ok x w₄) :
    (sfsTruncate.entries sv n 15 (List.finRange 128) false false).wp R
      ⟨⟨w₃.st.fs, { w₃.st.bufs with idbuf := buf }⟩, w₃.env⟩ := by
  have hwf := h.core.wellFormed h.vnode
  have hplace (j : Fin 128) : (vol w₁).place sv .indirect [j] = (vol w).place sv .indirect [j] := by
    rw [hcut.place .indirect [j] (Nat.le_refl 1), if_neg]
    intro hz
    obtain ⟨i, -, he, -⟩ := hz
    cases he
  have hbits : (vol w₁).nblocks ≤ (vol w₁).fs.sfsFreemap.nbits := by
    rw [hcut.here.nblocks_eq, hcut.here.nbits]
    exact h.core.le_nbits
  have hfree := ((hcut.wellFormed hwf).freeable hbits (s := fun _ : Fin 128 => Slot.indirect)
    (l := fun j => [j]) (fun _ => Nat.le_refl 1) (fun i j _ he => by simpa using he)
    fun j => j ∈ List.finRange 128 ∧ n < 15 + j.val).family
      fun j _ => (hbuf j).trans (hplace j).symm
  refine wp_truncate_entries (List.nodup_finRange 128) ?_ fun x y w₄ hcut' _ _ => ?_
  · show Freeable w₃.st.fs.sfsFreemap buf _
    rw [hfm]
    exact hfree
  · have ht₃ : Trimmed sv ((vol w).place sv .indirect []) w
        ⟨⟨w₃.st.fs, { w₃.st.bufs with idbuf := buf }⟩, w₃.env⟩ := ht.trans (.of_bufs rfl rfl)
    exact hok (x, y) w₄ (ht₃.trans (.of_entries hcut'))
      (indirect_marked hwf h0 hcut hbuf (hfm ▸ hcut'.freed))

/-- With no faults `sfs_truncate` returns 0. -/
theorem wp_truncate_trimmed (h : Ready L sv w)
    (hok : ∀ w', Trimmed sv ((vol w).place sv .indirect []) w w' →
      (w'.st.fs.heap sv).svDirty = true → Q.ok () w') : (sfsTruncate sv len).wp Q w := by
  have hwf := h.core.wellFormed h.vnode
  generalize hn : truncBlocklen len = n
  rw [sfsTruncate]
  simp only [hn, sfsNdirect, sfsDbperidb]
  rw [Prog.wp_bind]
  have hfree := hwf.freeable h.core.le_nbits (s := Slot.direct) (l := fun _ => [])
    (fun _ => Nat.zero_le _) (fun i j he _ => Slot.direct.inj he)
    fun i => i ∈ List.finRange 15 ∧ n ≤ i.val
  refine wp_truncate_direct (List.nodup_finRange 15) hfree fun w₁ hcut => ?_
  have ht₁ : Trimmed sv ((vol w).place sv .indirect []) w w₁ := .of_direct hcut
  dsimp only
  rw [Prog.wp_bind, wp_getVnode]
  dsimp only
  have hind : (w₁.st.fs.heap sv).svI.sfiIndirect = (vol w).place sv .indirect [] :=
    hcut.root .indirect (by decide)
  rw [hind]
  by_cases hr : n < 15 + 128 - 1 ∧ (vol w).place sv .indirect [] ≠ 0
  · rw [if_pos hr, Prog.wp_bind]
    have haddr : Addressable ((vol w).place sv .indirect []) w₁.st.fs := by
      obtain ⟨h1, h2⟩ := h.core.addressable (hwf.range .indirect [] (Nat.zero_le _) hr.2)
      have hdev : w₁.st.fs.dBlocks = (vol w).fs.dBlocks := hcut.here.device
      exact ⟨by rw [hdev]; exact h1, by rw [hdev]; exact h2⟩
    refine wp_sfsRblock haddr (fun w₂ hq => ?_) fun w₂ _ hf => absurd (ht₁.calm.reads h.reads) hf
    dsimp only
    rw [Prog.wp_bind, wp_modifyBufs]
    dsimp only
    rw [Prog.wp_bind]
    refine wp_truncate_behind h hr.2 hcut (ht₁.trans (.of_quiet hq)) (by rw [hq.st]) ?_ ?_
    · intro j
      rw [place_entry hr.2, hcut.env]
      rfl
    · intro x w₄ ht₄ hset
      exact wp_truncate_indirect h hr.2 ht₄ hset hok
  · rw [if_neg hr]
    exact wp_truncate_finish ht₁ hok

end Total

/-! ## Type, link count and the map -/

structure SameKind (m n : SfsInode) : Prop where
  type : n.sfiType = m.sfiType
  linkcount : n.sfiLinkcount = m.sfiLinkcount

/-- The file in `sv` has the type and the link count it had, and a change of the map is noted. -/
structure Noted (sv : Ptr) (w w' : World) : Prop where
  kind : SameKind (w.st.fs.heap sv).svI (w'.st.fs.heap sv).svI
  map : w'.st.fs.sfsFreemapdirty = false →
    w.st.fs.sfsFreemapdirty = false ∧ w'.st.fs.sfsFreemap = w.st.fs.sfsFreemap

/-- Wherever the program succeeds, type and link count are kept and the map is noted. -/
def KeepsKind {α : Type} (sv : Ptr) (p : Kern α) : Prop :=
  ∀ w : World, p.wp ⟨fun _ w' => Noted sv w w', fun _ _ => True, fun _ _ => True⟩ w

namespace KeepsKind

variable {α β : Type} {p q : Kern α}

theorem of_fs (h : ∀ w : World, p.wp ⟨fun _ w' => w'.st.fs = w.st.fs,
    fun _ _ => True, fun _ _ => True⟩ w) : KeepsKind sv p := by
  intro w
  refine (h w).mono (fun _ w' hw => ?_) (fun _ _ => id) fun _ _ => id
  dsimp only at hw
  refine ⟨?_, fun hd => ?_⟩
  · rw [hw]
    exact ⟨rfl, rfl⟩
  · rw [hw] at hd ⊢
    exact ⟨hd, rfl⟩

theorem pure (a : α) : KeepsKind sv (Pure.pure a : Kern α) :=
  of_fs fun w => by simp only [Prog.wp_pure]

theorem bind {f : α → Kern β} (hp : KeepsKind sv p) (hf : ∀ a, KeepsKind sv (f a)) :
    KeepsKind sv (p >>= f) := by
  intro w
  rw [Prog.wp_bind]
  refine (hp w).mono (fun a w₁ h₁ => ?_) (fun _ _ => id) fun _ _ => id
  refine (hf a w₁).mono (fun _ w₂ h₂ => ?_) (fun _ _ => id) fun _ _ => id
  refine ⟨⟨h₂.kind.type.trans h₁.kind.type, h₂.kind.linkcount.trans h₁.kind.linkcount⟩,
    fun hd => ?_⟩
  obtain ⟨hd, he⟩ := h₂.map hd
  obtain ⟨hd, he'⟩ := h₁.map hd
  exact ⟨hd, he.trans he'⟩

theorem ite {c : Prop} [Decidable c] (hp : KeepsKind sv p) (hq : KeepsKind sv q) :
    KeepsKind sv (if c then p else q) := by
  split
  · exact hp
  · exact hq

theorem modifyInode {f : SfsInode → SfsInode} (hf : ∀ n, SameKind n (f n)) :
    KeepsKind sv (Kern.modifyInode sv f) := by
  intro w
  rw [wp_modifyInode]
  refine ⟨?_, fun hd => ⟨hd, rfl⟩⟩
  rw [svI_modifyInode]
  exact hf _

theorem setDirty : KeepsKind sv (Kern.setDirty sv) := by
  intro w
  rw [wp_setDirty]
  refine ⟨?_, fun hd => ⟨hd, rfl⟩⟩
  simp only [SfsFs.modifyVnode, SfsFs.setVnode, if_true]
  exact ⟨rfl, rfl⟩

theorem getVnode (p : Ptr) : KeepsKind sv (Kern.getVnode p) :=
  of_fs fun w => by rw [wp_getVnode]

theorem modifyBufs (f : Bufs → Bufs) : KeepsKind sv (Kern.modifyBufs f) :=
  of_fs fun w => by rw [wp_modifyBufs]

theorem getKernel : KeepsKind sv Kern.getKernel :=
  of_fs fun w => by rw [wp_getKernel]

theorem bfree (b : UInt32) : KeepsKind sv (sfsBfree b) := by
  intro w
  rw [sfsBfree, Prog.wp_bind, wp_getFs]
  dsimp only
  rw [Prog.wp_bind]
  cases bitmapUnmark w.st.fs.sfsFreemap b.toNat with
  | error m =>
    rw [wp_ofExcept_error]
    trivial
  | ok map =>
    rw [wp_ofExcept_ok]
    dsimp only
    rw [wp_modifyFs]
    refine ⟨⟨rfl, rfl⟩, fun hd => ?_⟩
    cases hd

theorem rblock (b : UInt32) : KeepsKind sv (sfsRblock b) := by
  refine of_fs fun w => ?_
  refine (readsOnly_sfsRblock (v := vol w) b w ⟨rfl, rfl⟩).mono (fun _ w' h => ?_)
    (fun _ _ _ => trivial) fun _ _ _ => trivial
  exact congrArg Vol.fs h.1.1

theorem wblock (data : Kernel → Sector) (b : UInt32) : KeepsKind sv (sfsWblock data b) :=
  of_fs fun _ => wp_sfsWblock_faulty (fun _ hst _ => congrArg (fun k => k.fs) hst)
    fun _ _ => trivial

end KeepsKind

theorem keepsKind_direct (n : Nat) (is : List (Fin 15)) :
    KeepsKind sv (sfsTruncate.direct sv n is) := by
  induction is with
  | nil => exact .pure ()
  | cons i is ih =>
    rw [sfsTruncate.direct]
    refine .bind (.getVnode sv) fun _ => .ite (.bind (.bfree _) fun _ => ?_) ih
    exact .bind (.modifyInode fun _ => ⟨rfl, rfl⟩) fun _ => .bind .setDirty fun _ => ih

theorem keepsKind_entries (n base : Nat) (js : List (Fin 128)) (x y : Bool) :
    KeepsKind sv (sfsTruncate.entries sv n base js x y) := by
  induction js generalizing x y with
  | nil => exact .pure (x, y)
  | cons j js ih =>
    rw [sfsTruncate.entries]
    refine .bind .getKernel fun _ => .ite (.bind (.bfree _) fun _ => ?_) (ih _ _)
    exact .bind (.modifyInode fun _ => ⟨rfl, rfl⟩) fun _ => .bind (.modifyBufs _) fun _ => ih _ _

theorem keepsKind_dropIndirect (b : UInt32) : KeepsKind sv (sfsTruncate.dropIndirect sv b) := by
  have hif (c : SfsInode → Prop) [DecidablePred c] (f : SfsInode → SfsInode)
      (hf : ∀ n, SameKind n (f n)) (n : SfsInode) : SameKind n (if c n then f n else n) := by
    split
    · exact hf n
    · exact ⟨rfl, rfl⟩
  rw [sfsTruncate.dropIndirect]
  refine .bind (.bfree b) fun _ => .bind (.modifyInode fun _ => ⟨rfl, rfl⟩) fun _ => ?_
  refine .bind (.modifyInode (hif _ _ fun _ => ⟨rfl, rfl⟩)) fun _ => ?_
  exact .bind (.modifyInode (hif _ _ fun _ => ⟨rfl, rfl⟩)) fun _ => .setDirty

theorem keepsKind_sfsTruncate (len : Int) : KeepsKind sv (sfsTruncate sv len) := by
  have hend (size : UInt32) : KeepsKind sv (Kern.modifyInode sv
      (fun i => { i with sfiSize := size }) >>= fun _ => Kern.setDirty sv) :=
    .bind (.modifyInode fun _ => ⟨rfl, rfl⟩) fun _ => .setDirty
  rw [sfsTruncate]
  refine .bind (keepsKind_direct _ _) fun _ => .bind (.getVnode sv) fun n => ?_
  refine .ite ?_ (hend _)
  refine .bind (.rblock _) fun s => .bind (.modifyBufs _) fun _ => ?_
  refine .bind (keepsKind_entries _ _ _ _ _) fun x => .ite ?_ (.ite ?_ (hend _))
  · exact .bind (keepsKind_dropIndirect _) fun _ => hend _
  · exact .bind (.wblock _ _) fun _ => hend _

/-! ## The whole volume -/

theorem Core.place_eq (h : Core L v) (hp : sv ∈ v.fs.sfsVnodes) (s : Slot) (l : Path)
    (hl : l.length ≤ s.depth) : v.place sv s l = v.ref (v.ino sv) s l := by
  refine Forest.at_congr (F := (⟨Slot.depth, fun s => (v.inode (v.ino sv)).root s,
    fun b j => (v.disk b.toNat).word j⟩ : Forest Slot (Fin 128) UInt32)) (G := v.tree sv)
    (K := fun _ => True) ?_ (fun _ _ _ _ _ _ => rfl) s trivial l hl
  intro t _
  show (v.fs.heap sv).svI.root t = (v.inode (v.ino sv)).root t
  rw [h.inode_eq hp]

/-- The places a truncation to `n` blocks takes when its write of the indirect block is not lost. -/
def Takes (v : Vol) (sv : Ptr) (n : Nat) (s : Slot) (l : Path) : Prop :=
  DirectFrom n s l ∨ Drops v sv n ∧ 0 < s.depth ∨ Reaches v sv n ∧ EntryBehind n s l

/-- The places whose blocks it gives back. -/
def GivesBack (v : Vol) (sv : Ptr) (n : Nat) (s : Slot) (l : Path) : Prop :=
  DirectFrom n s l ∨ Drops v sv n ∧ s = .indirect ∨ Reaches v sv n ∧ EntryBehind n s l

theorem Cut.congr {gone gone' freed freed' : Slot → Path → Prop} {size : UInt32}
    (h : Cut sv gone freed size v v') (hg : ∀ s l, gone s l ↔ gone' s l)
    (hf : ∀ s l, freed s l ↔ freed' s l) : Cut sv gone' freed' size v v' := by
  obtain rfl : gone = gone' := funext fun s => funext fun l => propext (hg s l)
  obtain rfl : freed = freed' := funext fun s => funext fun l => propext (hf s l)
  exact h

theorem EntryBehind.indirect {s : Slot} {l : Path} (h : EntryBehind n s l) : s = .indirect := by
  obtain ⟨j, rfl, -, -⟩ := h
  rfl

theorem EntryBehind.deep {s : Slot} {l : Path} (h : EntryBehind n s l) : 0 < s.depth := by
  rw [h.indirect]
  exact Nat.one_pos

/-- With no write fault pending each way the truncation deals with the indirect block is one of
these. -/
theorem wp_sfsTruncate_cut {size : UInt32} (hg : Geo (vol w)) (hwf : WellFormed (vol w) sv)
    (hwrites : w.env.writeFaults = []) (hn : truncBlocklen len = n)
    (hsize : UInt32.ofNat (u32 len) = size) :
    (sfsTruncate sv len).wp ⟨fun _ w' => Cut sv (Takes (vol w) sv n) (GivesBack (vol w) sv n) size
      (vol w) (vol w'), fun _ _ => True, fun _ _ => True⟩ w := by
  subst hn hsize
  refine wp_sfsTruncate ⟨hg, hwf, fun hno w' hc => ?_, fun hd w' hc => ?_, fun hr hd _ w' hc => ?_,
    fun hl => ?_, fun _ _ _ _ => trivial, fun _ _ _ => trivial⟩
  · have hnd : ¬ Drops (vol w) sv (truncBlocklen len) := fun hd => hno hd.1
    refine hc.congr (fun s l => ?_) fun s l => ?_
    · simp only [Takes, hno, hnd, false_and, or_false]
    · simp only [GivesBack, hno, hnd, false_and, or_false]
  · refine hc.congr (fun s l => ?_) fun s l => ?_
    · simp only [Takes, hd, hd.1, true_and]
      exact or_congr_right ⟨.inl, fun hx => hx.elim id EntryBehind.deep⟩
    · simp only [GivesBack, hd, hd.1, true_and]
      exact or_congr_right ⟨.inl, fun hx => hx.elim id EntryBehind.indirect⟩
  · refine hc.congr (fun s l => ?_) fun s l => ?_
    · simp only [Takes, hd, hr, false_and, true_and, false_or]
    · simp only [GivesBack, hd, hr, false_and, true_and, false_or]
  · obtain ⟨-, -, -, hf⟩ := hl
    rw [hwrites] at hf
    cases hf

/-- No place of a file block before the new end is taken that holds a block. -/
theorem Takes.behind {fb : Nat} {s : Slot} {l : Path} (h : Takes v sv n s l)
    (hp : fbPath fb = some (s, l)) (h0 : v.place sv s l ≠ 0) : n ≤ fb := by
  rcases h with ⟨i, rfl, hi⟩ | ⟨hd, hs⟩ | ⟨-, j, rfl, rfl, hj⟩
  · rcases fbPath_tree hp with ⟨j, hj, -, rfl⟩ | ⟨j, hj, -⟩ | ⟨-, hj | hj⟩
    · cases hj
      exact hi
    all_goals cases hj
  · have hn := hd.1.1
    rcases fbPath_tree hp with ⟨i, rfl, -⟩ | ⟨j, rfl, rfl, rfl⟩ | ⟨hge, -⟩
    · exact absurd hs (Nat.lt_irrefl 0)
    · exact Nat.le_of_lt (hd.2 j h0)
    · omega
  · have := fbPath_inj hp (fbPath_indirect j)
    omega

/-- A truncation as the rest of the volume sees it. -/
structure Shortened (L : UInt32 → Prop) (sv : Ptr) (len : Int) (v v' : Vol) : Prop
    extends Pruned L sv v v' where
  linkcount : (v'.inode (v.ino sv)).sfiLinkcount = (v.inode (v.ino sv)).sfiLinkcount
  size : (v'.inode (v.ino sv)).sfiSize = UInt32.ofNat (u32 len)
  taken : ∀ s l, l.length ≤ s.depth → Takes v sv (truncBlocklen len) s l →
    v'.ref (v.ino sv) s l = 0
  left : ∀ s l, l.length ≤ s.depth → ¬ Takes v sv (truncBlocklen len) s l →
    v'.ref (v.ino sv) s l = v.ref (v.ino sv) s l
  isset : ∀ b, v'.isset b = true ↔ v.isset b = true ∧ ¬ ∃ s l, l.length ≤ s.depth ∧
    GivesBack v sv (truncBlocklen len) s l ∧ v.ref (v.ino sv) s l = b ∧ b ≠ 0

theorem Pruned.byte_or (h : Pruned L sv v v') (x : Nat) :
    v'.byte (v.ino sv) x = v.byte (v.ino sv) x ∨ v'.byte (v.ino sv) x = 0 := by
  by_cases h0 : v'.fileBlock (v.ino sv) (x / 512) = 0
  · right
    rw [Vol.byte, Vol.sector, if_pos h0]
    rfl
  · left
    rw [Vol.byte, Vol.byte, (h.kept _ h0).2]

/-- A file block that keeps its place keeps its bytes. -/
theorem Pruned.byte_eq (h : Pruned L sv v v') {x : Nat}
    (he : v'.fileBlock (v.ino sv) (x / 512) = v.fileBlock (v.ino sv) (x / 512)) :
    v'.byte (v.ino sv) x = v.byte (v.ino sv) x := by
  by_cases h0 : v'.fileBlock (v.ino sv) (x / 512) = 0
  · rw [Vol.byte, Vol.byte, Vol.sector, Vol.sector, if_pos h0, if_pos (he ▸ h0)]
  · rw [Vol.byte, Vol.byte, (h.kept _ h0).2]

theorem Core.takes_behind (h : Core L v) (hp : sv ∈ v.fs.sfsVnodes) {fb : Nat} {s : Slot}
    {l : Path} (ht : Takes v sv n s l) (hf : fbPath fb = some (s, l))
    (h0 : v.ref (v.ino sv) s l ≠ 0) : n ≤ fb := by
  refine ht.behind hf ?_
  rwa [h.place_eq hp s l (Nat.le_of_eq (fbPath_length hf))]

/-- The bytes before the new end stay. -/
theorem Shortened.bytes (h : Shortened L sv len v v') (hcore : Core L v) (hp : sv ∈ v.fs.sfsVnodes)
    (hlo : 0 ≤ len) (hhi : len < 2 ^ 31) {x : Nat} (hx : (x : Int) < len) :
    v'.byte (v.ino sv) x = v.byte (v.ino sv) x := by
  refine h.byte_eq ?_
  cases hf : fbPath (x / 512) with
  | none => rw [fileBlock_of_none hf, fileBlock_of_none hf]
  | some k =>
    obtain ⟨s, l⟩ := k
    have hl := Nat.le_of_eq (fbPath_length hf)
    have hn := truncBlocklen_le hlo hhi (fbPath_lt hf)
    rw [fileBlock_of_path hf, fileBlock_of_path hf]
    by_cases ht : Takes v sv (truncBlocklen len) s l
    · rw [h.taken s l hl ht]
      by_contra h0
      have := hcore.takes_behind hp ht hf fun hz => h0 hz.symm
      omega
    · exact h.left s l hl ht

/-- With no faults a truncation returns 0 and prunes its file. -/
theorem wp_sfsTruncate_volume (h : Ready L sv w) {Q : Post machine Unit}
    (hok : ∀ w', Shortened L sv len (vol w) (vol w') → Calm w w' → Q.ok () w') :
    (sfsTruncate sv len).wp Q w := by
  have hcut : (sfsTruncate sv len).wp ⟨fun _ w' => Cut sv (Takes (vol w) sv (truncBlocklen len))
      (GivesBack (vol w) sv (truncBlocklen len)) (UInt32.ofNat (u32 len)) (vol w) (vol w'),
      fun _ _ => True, fun _ _ => True⟩ w :=
    wp_sfsTruncate_cut h.core.toGeo (h.core.wellFormed h.vnode) h.writes rfl rfl
  have htotal : (sfsTruncate sv len).wp ⟨fun _ w' =>
      Trimmed sv ((vol w).place sv .indirect []) w w' ∧ (w'.st.fs.heap sv).svDirty = true,
      fun _ _ => False, fun _ _ => False⟩ w := wp_truncate_trimmed h fun w' ht hd => ⟨ht, hd⟩
  refine ((htotal.and hcut).and (keepsKind_sfsTruncate len w)).mono (fun _ w' hx => ?_)
    (fun _ _ hx => hx.1.1.elim) fun _ _ hx => hx.1.1.elim
  obtain ⟨⟨⟨ht, hdirty⟩, hc⟩, hkind⟩ := hx
  have hino : (vol w').ino = (vol w).ino := ht.here.ino_eq
  have hself : (vol w').inode ((vol w).ino sv) = ((vol w').fs.heap sv).svI :=
    ht.here.inode_self h.core.toTable h.vnode
  have hold (s : Slot) (l : Path) (hl : l.length ≤ s.depth) :
      (vol w).place sv s l = (vol w).ref ((vol w).ino sv) s l := h.core.place_eq h.vnode s l hl
  -- the tree of the file, seen from the volume
  have htree (s : Slot) (l : Path) (hl : l.length ≤ s.depth) :
      (vol w').place sv s l = (vol w').ref ((vol w).ino sv) s l := by
    refine Forest.at_congr (F := (⟨Slot.depth, fun s => ((vol w').inode ((vol w).ino sv)).root s,
      fun b j => ((vol w').disk b.toNat).word j⟩ : Forest Slot (Fin 128) UInt32))
      (G := (vol w').tree sv) (K := fun _ => True) ?_ (fun _ _ _ _ _ _ => rfl) s trivial l hl
    intro t _
    show ((vol w').fs.heap sv).svI.root t = ((vol w').inode ((vol w).ino sv)).root t
    rw [hself]
  have htaken (s : Slot) (l : Path) (hl : l.length ≤ s.depth)
      (hg : Takes (vol w) sv (truncBlocklen len) s l) :
      (vol w').ref ((vol w).ino sv) s l = 0 := by
    rw [← htree s l hl]
    exact hc.lost s l hl hg
  have hleft (s : Slot) (l : Path) (hl : l.length ≤ s.depth)
      (hg : ¬ Takes (vol w) sv (truncBlocklen len) s l) :
      (vol w').ref ((vol w).ino sv) s l = (vol w).ref ((vol w).ino sv) s l := by
    rw [← htree s l hl, ← hold s l hl]
    exact hc.kept s l hl hg
  have hplace (s : Slot) (l : Path) (hl : l.length ≤ s.depth) :
      (vol w').ref ((vol w).ino sv) s l = (vol w).ref ((vol w).ino sv) s l ∨
        (vol w').ref ((vol w).ino sv) s l = 0 := by
    by_cases hg : Takes (vol w) sv (truncBlocklen len) s l
    · exact .inr (htaken s l hl hg)
    · exact .inl (hleft s l hl hg)
  have hisset (b : UInt32) : (vol w').isset b = true ↔ (vol w).isset b = true ∧
      ¬ ∃ s l, l.length ≤ s.depth ∧ GivesBack (vol w) sv (truncBlocklen len) s l ∧
        (vol w).ref ((vol w).ino sv) s l = b ∧ b ≠ 0 := by
    rw [hc.isset b]
    refine and_congr_right fun _ => not_congr (exists_congr fun s => exists_congr fun l =>
      and_congr_right fun hl => ?_)
    rw [hold s l hl]
  have hsub {s : Slot} {l : Path} (hf : GivesBack (vol w) sv (truncBlocklen len) s l) :
      Takes (vol w) sv (truncBlocklen len) s l := by
    rcases hf with hf | ⟨hd, rfl⟩ | hf
    · exact .inl hf
    · exact .inr (.inl ⟨hd, Nat.one_pos⟩)
    · exact .inr (.inr hf)
  have htrims : Trims sv (vol w) (vol w') := by
    refine ⟨ht.here, hplace, fun b hb => ?_, fun b hb => ?_, ht.tail, hkind.map, hkind.kind.type,
      hdirty⟩
    · rw [← hold _ _ (Nat.zero_le _)] at hb
      exact ht.disk b hb
    · by_cases hb' : (vol w').isset b = true
      · exact .inl hb'
      · have hx := mt (hisset b).mpr hb'
        rw [not_and, not_not] at hx
        obtain ⟨s, l, hl, hf, he, h0⟩ := hx hb
        exact .inr ⟨s, l, hl, he, h0, htaken s l hl (hsub hf)⟩
  refine hok w' ⟨htrims.pruned h.core h.vnode, ?_, ?_, htaken, hleft, hisset⟩ ht.calm
  · rw [hself, h.core.inode_eq h.vnode]
    exact hkind.kind.linkcount
  · rw [hself]
    exact hc.size

end Os161.Sfs
