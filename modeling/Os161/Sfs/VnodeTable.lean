import Mathlib.Data.List.Find
import Mathlib.Logic.Function.Basic
import Os161.Sfs.TruncateVolume

/-! # The table of loaded vnodes

Taking references, loading an inode, giving references back and reclaiming, on a volume on which
nothing goes wrong. None of them changes a file that stays. -/
namespace Os161.Sfs
open Os161.Lib Kern Vol

variable {L L' : UInt32 → Prop} {v v' : Vol} {p q : Ptr} {i : UInt32} {w w' : World}

/-! ## Files that stay as they are -/

/-- The files of `L` have the attributes, places and contents they had. -/
structure SameFiles (L : UInt32 → Prop) (v v' : Vol) : Prop where
  attrs : ∀ i, L i → SameAttrs (v.inode i) (v'.inode i)
  ref : ∀ i, L i → ∀ s l, l.length ≤ s.depth → v'.ref i s l = v.ref i s l
  sector : ∀ i, L i → ∀ fb, v'.sector i fb = v.sector i fb

namespace SameFiles

theorem refl (L : UInt32 → Prop) (v : Vol) : SameFiles L v v :=
  ⟨fun _ _ => ⟨rfl, rfl, rfl⟩, fun _ _ _ _ _ => rfl, fun _ _ _ => rfl⟩

theorem trans {a b c : Vol} (h : SameFiles L a b) (h' : SameFiles L b c) : SameFiles L a c where
  attrs i hi := ⟨(h'.attrs i hi).size.trans (h.attrs i hi).size,
    (h'.attrs i hi).type.trans (h.attrs i hi).type,
    (h'.attrs i hi).linkcount.trans (h.attrs i hi).linkcount⟩
  ref i hi s l hl := (h'.ref i hi s l hl).trans (h.ref i hi s l hl)
  sector i hi fb := (h'.sector i hi fb).trans (h.sector i hi fb)

theorem mono (h : SameFiles L v v') (hs : ∀ i, L' i → L i) : SameFiles L' v v' :=
  ⟨fun i hi => h.attrs i (hs i hi), fun i hi => h.ref i (hs i hi), fun i hi => h.sector i (hs i hi)⟩

theorem content (h : SameFiles L v v') (hi : L i) : v'.content i = v.content i := by
  unfold Vol.content
  rw [(h.attrs i hi).size, Content.mk.injEq]
  refine ⟨rfl, funext fun x => ?_⟩
  rw [Vol.byte, Vol.byte, h.sector i hi]

theorem fileBlock (h : SameFiles L v v') (hi : L i) (fb : Nat) :
    v'.fileBlock i fb = v.fileBlock i fb := by
  cases hf : fbPath fb with
  | none => rw [fileBlock_of_none hf, fileBlock_of_none hf]
  | some k =>
    obtain ⟨s, l⟩ := k
    rw [fileBlock_of_path hf, fileBlock_of_path hf]
    exact h.ref i hi s l (Nat.le_of_eq (fbPath_length hf))

end SameFiles

theorem Confined.sameFiles (h : Confined L p v v') :
    SameFiles (fun i => L i ∧ i ≠ v.ino p) v v' where
  attrs i hi := by
    rw [h.inode i hi.1 hi.2]
    exact ⟨rfl, rfl, rfl⟩
  ref i hi := h.ref i hi.1 hi.2
  sector i hi := h.sector i hi.1 hi.2

/-! ## Changes of the table -/

/-- The table changes, blocks with inodes and those in front of the files may be written, and the
blocks of inodes that are given up may be released. -/
structure Retables (L L' : UInt32 → Prop) (v v' : Vol) : Prop where
  nblocks : v'.nblocks = v.nblocks
  device : v'.fs.dBlocks = v.fs.dBlocks
  nbits : v'.fs.sfsFreemap.nbits = v.fs.sfsFreemap.nbits
  sub : ∀ i, L' i → L i
  disk : ∀ b : UInt32, ¬ L b → ¬ v.Meta b → v'.disk b.toNat = v.disk b.toNat
  inode : ∀ i, L' i → (v'.inode i).Agrees (v.inode i)
  marked : ∀ b : UInt32, b.toNat < v.fs.sfsFreemap.nbits → v.isset b = true →
    v'.isset b = true ∨ L b ∧ ¬ L' b

theorem SfsInode.Agrees.attrs {m n : SfsInode} (h : m.Agrees n) : SameAttrs n m := by
  rw [h]
  exact ⟨rfl, rfl, rfl⟩

theorem Geo.meta_lt_nbits (h : Geo v) {b : UInt32} (hb : v.Meta b) :
    b.toNat < v.fs.sfsFreemap.nbits := by
  have hfits := h.fits
  have hle := h.le_nbits
  rcases hb with rfl | hb
  · have : sfsSbLocation.toNat = 0 := rfl
    omega
  · omega

namespace Retables

variable (hr : Retables L L' v v') (h : Core L v)
include hr h

theorem block_disk (hi : L i) {s : Slot} {l : Path} (hl : l.length ≤ s.depth)
    (h0 : v.ref i s l ≠ 0) : v'.disk (v.ref i s l).toNat = v.disk (v.ref i s l).toNat :=
  hr.disk _ (fun hL => h.ref_ne_ino hi hL hl h0 rfl) (h.ref_not_meta hi hl h0)

theorem ref_eq (hi : L' i) (s : Slot) (l : Path) (hl : l.length ≤ s.depth) :
    v'.ref i s l = v.ref i s l := by
  refine Vol.ref_congr (L := L') (fun i hi s => (hr.inode i hi).root s) ?_ hi s l hl
  intro i hi s l hl h0
  exact hr.block_disk h (hr.sub i hi) (Nat.le_of_lt hl) h0

theorem sameFiles : SameFiles L' v v' where
  attrs i hi := (hr.inode i hi).attrs
  ref i hi := hr.ref_eq h hi
  sector i hi fb := by
    apply Vol.sector_congr
    intro s l hf
    have hl := Nat.le_of_eq (fbPath_length hf)
    exact .inl ⟨hr.ref_eq h hi s l hl, fun h0 => hr.block_disk h (hr.sub i hi) hl h0⟩

theorem owned : Owned L' v' := by
  have hlt (i : UInt32) (hi : L i) (r : Node) (hv : r.Valid) (h0 : v.blk i r ≠ 0) :
      (v.blk i r).toNat < v.fs.sfsFreemap.nbits :=
    Nat.lt_of_lt_of_le (h.range i hi r hv h0).1 h.le_nbits
  refine h.toOwned.change hr.nblocks 0 .self ?_ ?_
  · intro i hi r hv h0
    cases r with
    | self => exact .inl ⟨hr.sub i hi, rfl⟩
    | node s l => exact .inl ⟨hr.sub i hi, hr.ref_eq h hi s l hv⟩
  · intro i hi r hv h0
    cases r with
    | self =>
      have hset := h.marked i (hr.sub i hi) .self trivial h0
      rcases hr.marked i (hlt i (hr.sub i hi) .self trivial h0) hset with hm | ⟨-, hn⟩
      · exact hm
      · exact absurd hi hn
    | node s l =>
      have he : v'.blk i (.node s l) = v.blk i (.node s l) := hr.ref_eq h hi s l hv
      rw [he] at h0 ⊢
      have hset := h.marked i (hr.sub i hi) (.node s l) hv h0
      rcases hr.marked _ (hlt i (hr.sub i hi) (.node s l) hv h0) hset with hm | ⟨hL, -⟩
      · exact hm
      · exact absurd rfl (h.ref_ne_ino (hr.sub i hi) hL hv h0)

theorem core (ht : Table L' v') (hroot : L' sfsRootLocation)
    (hops : ∀ p ∈ v'.fs.sfsVnodes, (v'.fs.heap p).vnOps =
      if v'.ino p = sfsRootLocation then .sfsDirops else .sfsFileops)
    (hclean : Clean v') : Core L' v' := by
  have hn := hr.nblocks
  have hout {b : UInt32} (hlt : b.toNat < v.fs.sfsFreemap.nbits) (hb : v.isset b = true)
      (hx : v.nblocks ≤ b.toNat ∨ v.Meta b) : v'.isset b = true := by
    rcases hr.marked b hlt hb with hm | ⟨hL, -⟩
    · exact hm
    · have hrange := h.range b hL .self trivial (h.nonzero b hL)
      rcases hx with hx | hx
      · exact absurd hrange.1 (Nat.not_lt.mpr hx)
      · exact absurd hx hrange.2
  have hmeta (b : UInt32) : v'.Meta b ↔ v.Meta b := by simp only [Vol.Meta, hn]
  exact
    { nbits := by rw [hr.nbits, hn]; exact h.nbits
      fits := by rw [hn]; exact h.fits
      device := by rw [hn, hr.device]; exact h.device
      offsets := by rw [hr.device]; exact h.offsets
      tail := fun j hj hb => by
        rw [hn] at hj
        rw [hr.nbits] at hb
        have hlt := h.nbits_lt
        have hto : (UInt32.ofNat j).toNat = j := by
          rw [UInt32.toNat_ofNat']
          omega
        have := hout (b := UInt32.ofNat j) (by rwa [hto])
          (by rw [Vol.isset, hto]; exact h.tail j hj hb)
          (.inl (by rwa [hto]))
        rwa [Vol.isset, hto] at this
      metaSet := fun b hb => by
        rw [hmeta] at hb
        exact hout (h.meta_lt_nbits hb) (h.metaSet b hb) (.inr hb)
      toOwned := hr.owned h
      toTable := ht
      root := hroot
      type := fun i hi => by
        rw [(hr.inode i hi).attrs.type]
        exact h.type i (hr.sub i hi)
      ops := hops
      nonzero := fun i hi => h.nonzero i (hr.sub i hi)
      clean := hclean }

end Retables

/-! ## Reference counts -/

/-- How many references the vnode of an inode has; none if it is not loaded. -/
def Vol.refs (v : Vol) (i : UInt32) : Nat :=
  match v.loaded i with
  | some p => (v.fs.heap p).vnRefcount
  | none => 0

theorem Table.refs_eq (h : Table L v) (hp : p ∈ v.fs.sfsVnodes) :
    v.refs (v.ino p) = (v.fs.heap p).vnRefcount := by
  rw [Vol.refs, h.loaded_eq hp]

theorem Table.refs_pos (h : Table L v) : 0 < v.refs i ↔ ∃ p ∈ v.fs.sfsVnodes, v.ino p = i := by
  constructor
  · intro hpos
    cases hl : v.loaded i with
    | none => rw [Vol.refs, hl] at hpos; cases hpos
    | some p => exact ⟨p, Vol.mem_of_loaded hl⟩
  · intro hx
    obtain ⟨p, hp, rfl⟩ := hx
    rw [h.refs_eq hp]
    exact h.held p hp

/-- How often an inode is open. -/
def Vol.opens (v : Vol) (i : UInt32) : Nat :=
  match v.loaded i with
  | some p => (v.fs.heap p).vnOpencount
  | none => 0

theorem Table.opens_eq (h : Table L v) (hp : p ∈ v.fs.sfsVnodes) :
    v.opens (v.ino p) = (v.fs.heap p).vnOpencount := by
  rw [Vol.opens, h.loaded_eq hp]

theorem Table.opens_le (h : Table L v) (i : UInt32) : v.opens i ≤ v.refs i := by
  cases hl : v.loaded i with
  | none => rw [Vol.opens, Vol.refs, hl]
  | some p =>
    obtain ⟨hp, rfl⟩ := Vol.mem_of_loaded hl
    rw [h.opens_eq hp, h.refs_eq hp]
    exact h.opens p hp

/-- The vnode of inode `i` has `k` references afterwards; the others are as they were, and
pointers that are in the table afterwards mean what they meant. -/
structure Counted (i : UInt32) (k : Nat) (v v' : Vol) : Prop where
  refs : v'.refs = Function.update v.refs i k
  opens : v'.opens = v.opens
  keep : ∀ p ∈ v.fs.sfsVnodes, v.ino p ≠ i ∨ k ≠ 0 →
    p ∈ v'.fs.sfsVnodes ∧ v'.ino p = v.ino p ∧
      (v'.fs.heap p).vnOpencount = (v.fs.heap p).vnOpencount

theorem front_modifyVnode (v : Vol) (p : Ptr) (f : SfsVnode → SfsVnode) :
    Front v (v.modifyVnode p f) := ⟨fun _ _ => rfl, fun hd => ⟨hd, rfl⟩, rfl, rfl⟩

/-- Nothing of a vnode but its counts changes. -/
structure OnCounts (f : SfsVnode → SfsVnode) : Prop where
  ops : ∀ n, (f n).vnOps = n.vnOps
  svI : ∀ n, (f n).svI = n.svI
  svIno : ∀ n, (f n).svIno = n.svIno
  svDirty : ∀ n, (f n).svDirty = n.svDirty

namespace OnCounts

variable {f : SfsVnode → SfsVnode} (hf : OnCounts f)
include hf

theorem ino_eq : (v.modifyVnode p f).ino = v.ino := by
  funext q
  simp only [Vol.ino, heap_modifyVnode]
  split
  · next hq => rw [hf.svIno, hq]
  · rfl

theorem loaded_eq : (v.modifyVnode p f).loaded = v.loaded := by
  funext i
  rw [Vol.loaded, hf.ino_eq]
  rfl

theorem inode_eq : (v.modifyVnode p f).inode i = v.inode i := by
  rw [Vol.inode, hf.loaded_eq, Vol.inode]
  cases v.loaded i with
  | none => rfl
  | some q =>
    simp only [heap_modifyVnode]
    split
    · next hq => rw [hf.svI, hq]
    · rfl

variable (h : Core L v)
include h

theorem core (hpos : 0 < (f (v.fs.heap p)).vnRefcount)
    (ho : (f (v.fs.heap p)).vnOpencount ≤ (f (v.fs.heap p)).vnRefcount) :
    Core L (v.modifyVnode p f) ∧ SameFiles L v (v.modifyVnode p f) := by
  have hr : Retables L L v (v.modifyVnode p f) :=
    ⟨rfl, rfl, rfl, fun _ => id, fun _ _ _ => rfl, fun i _ => by rw [hf.inode_eq]; rfl,
      fun _ _ => .inl⟩
  refine ⟨hr.core h ⟨?_, ?_, h.below, fun q hq => ?_, fun q hq => ?_⟩ h.root (fun q hq => ?_)
    fun q hq hd => ?_, hr.sameFiles h⟩
  · rw [hf.ino_eq]
    exact h.nodup
  · rw [hf.ino_eq]
    exact h.live
  · rw [heap_modifyVnode]
    split
    · exact hpos
    · exact h.held q hq
  · rw [heap_modifyVnode]
    split
    · exact ho
    · exact h.opens q hq
  · rw [hf.ino_eq, ← h.ops q hq, heap_modifyVnode]
    split
    · next hqp => rw [hf.ops, hqp]
    · rfl
  · rw [hf.ino_eq]
    have hc := h.clean q hq
    rw [heap_modifyVnode] at hd ⊢
    split at hd
    · next hqp =>
      subst hqp
      rw [hf.svDirty] at hd
      rw [if_pos rfl, hf.svI]
      exact hc hd
    · next hqp =>
      rw [if_neg hqp]
      exact hc hd

variable (hp : p ∈ v.fs.sfsVnodes)
include hp

theorem refs_eq : (v.modifyVnode p f).refs =
    Function.update v.refs (v.ino p) (f (v.fs.heap p)).vnRefcount := by
  funext i
  rw [Vol.refs, hf.loaded_eq]
  by_cases hi : i = v.ino p
  · rw [hi, Function.update_self, h.loaded_eq hp]
    dsimp only
    rw [heap_modifyVnode, if_pos rfl]
  · rw [Function.update_of_ne hi, Vol.refs]
    cases hl : v.loaded i with
    | none => rfl
    | some q =>
      have hqp : q ≠ p := by
        rintro rfl
        exact hi (Vol.mem_of_loaded hl).2.symm
      simp only [heap_modifyVnode, if_neg hqp]

theorem opens_eq : (v.modifyVnode p f).opens =
    Function.update v.opens (v.ino p) (f (v.fs.heap p)).vnOpencount := by
  funext i
  rw [Vol.opens, hf.loaded_eq]
  by_cases hi : i = v.ino p
  · rw [hi, Function.update_self, h.loaded_eq hp]
    dsimp only
    rw [heap_modifyVnode, if_pos rfl]
  · rw [Function.update_of_ne hi, Vol.opens]
    cases hl : v.loaded i with
    | none => rfl
    | some q =>
      have hqp : q ≠ p := by
        rintro rfl
        exact hi (Vol.mem_of_loaded hl).2.symm
      simp only [heap_modifyVnode, if_neg hqp]

end OnCounts

/-- Setting the count of a loaded vnode. -/
def Vol.setRefs (v : Vol) (p : Ptr) (k : Nat) : Vol :=
  v.modifyVnode p fun n => { n with vnRefcount := k }

theorem onCounts_setRefs (k : Nat) : OnCounts fun n => { n with vnRefcount := k } :=
  ⟨fun _ => rfl, fun _ => rfl, fun _ => rfl, fun _ => rfl⟩

section SetRefs

variable {k : Nat} (h : Core L v) (hp : p ∈ v.fs.sfsVnodes) (hk : 0 < k)
  (ho : (v.fs.heap p).vnOpencount ≤ k)

theorem ino_setRefs : (v.setRefs p k).ino = v.ino := (onCounts_setRefs k).ino_eq

theorem front_setRefs : Front v (v.setRefs p k) := front_modifyVnode v p _

include h hk ho

theorem core_setRefs : Core L (v.setRefs p k) ∧ SameFiles L v (v.setRefs p k) :=
  (onCounts_setRefs k).core h (by exact hk) ho

omit hk ho
include hp

theorem counted_setRefs : Counted (v.ino p) k v (v.setRefs p k) where
  refs := (onCounts_setRefs k).refs_eq h hp
  opens := by
    rw [Vol.setRefs, (onCounts_setRefs k).opens_eq h hp, ← h.opens_eq hp, Function.update_eq_self]
  keep q hq _ := by
    refine ⟨hq, by rw [ino_setRefs], ?_⟩
    rw [Vol.setRefs, heap_modifyVnode]
    split
    · next hqp => rw [hqp]
    · rfl

end SetRefs

/-- Setting how often a loaded vnode is open. -/
def Vol.setOpens (v : Vol) (p : Ptr) (k : Nat) : Vol :=
  v.modifyVnode p fun n => { n with vnOpencount := k }

theorem onCounts_setOpens (k : Nat) : OnCounts fun n => { n with vnOpencount := k } :=
  ⟨fun _ => rfl, fun _ => rfl, fun _ => rfl, fun _ => rfl⟩

/-! ## Loading -/

/-- A vnode `n` in new memory, added to the table. -/
def Vol.loads (v : Vol) (n : SfsVnode) : Vol :=
  { v with fs := { v.fs.setVnode v.fs.brk n with
      sfsVnodes := v.fs.sfsVnodes ++ [v.fs.brk], brk := v.fs.brk + 1 } }

section Loads

variable {n : SfsVnode} (h : Core L v) (hn : v.loaded n.svIno = none)

theorem heap_loads (v : Vol) (n : SfsVnode) (p : Ptr) :
    (v.loads n).fs.heap p = if p = v.fs.brk then n else v.fs.heap p := rfl

theorem mem_loads : p ∈ (v.loads n).fs.sfsVnodes ↔ p ∈ v.fs.sfsVnodes ∨ p = v.fs.brk := by
  rw [show (v.loads n).fs.sfsVnodes = v.fs.sfsVnodes ++ [v.fs.brk] from rfl, List.mem_append,
    List.mem_singleton]

include h

theorem ne_brk (hp : p ∈ v.fs.sfsVnodes) : p ≠ v.fs.brk := Nat.ne_of_lt (h.below p hp)

theorem heap_loads_of_mem (hp : p ∈ v.fs.sfsVnodes) :
    (v.loads n).fs.heap p = v.fs.heap p := by
  rw [heap_loads, if_neg (ne_brk h hp)]

theorem ino_loads_of_mem (hp : p ∈ v.fs.sfsVnodes) : (v.loads n).ino p = v.ino p := by
  rw [Vol.ino, heap_loads_of_mem h hp, Vol.ino]

omit h in
theorem ino_loads_brk : (v.loads n).ino v.fs.brk = n.svIno := by
  rw [Vol.ino, heap_loads, if_pos rfl]

include hn

theorem loaded_loads (i : UInt32) :
    (v.loads n).loaded i = if i = n.svIno then some v.fs.brk else v.loaded i := by
  have hold : v.fs.sfsVnodes.find? (fun p => (v.loads n).ino p = i) = v.loaded i :=
    List.find?_congr fun p hp => by rw [ino_loads_of_mem h hp]
  have hfind : (v.loads n).loaded i = (v.loaded i).or
      ([v.fs.brk].find? fun p => (v.loads n).ino p = i) := by
    rw [← hold]
    exact List.find?_append
  rw [hfind]
  split
  · next hi =>
    rw [hi, hn, Option.none_or, List.find?_cons_of_pos (by rw [ino_loads_brk]; simp)]
  · next hi =>
    rw [List.find?_cons_of_neg (by rw [ino_loads_brk]; simpa using Ne.symm hi), List.find?_nil,
      Option.or_none]

theorem inode_loads (i : UInt32) :
    (v.loads n).inode i = if i = n.svIno then n.svI else v.inode i := by
  rw [Vol.inode, loaded_loads h hn]
  by_cases hi : i = n.svIno
  · rw [if_pos hi, if_pos hi]
    show ((v.loads n).fs.heap v.fs.brk).svI = n.svI
    rw [heap_loads, if_pos rfl]
  · rw [if_neg hi, if_neg hi, Vol.inode]
    cases hl : v.loaded i with
    | none => rfl
    | some q =>
      show ((v.loads n).fs.heap q).svI = (v.fs.heap q).svI
      rw [heap_loads_of_mem h (Vol.mem_of_loaded hl).1]

theorem table_loads (hL : ∀ i, L i → L' i) (hi : L' n.svIno) (hcount : n.vnRefcount = 1)
    (ho : n.vnOpencount = 0) : Table L' (v.loads n) where
  nodup := by
    rw [show (v.loads n).fs.sfsVnodes = v.fs.sfsVnodes ++ [v.fs.brk] from rfl, List.map_append,
      List.map_singleton, ino_loads_brk, List.nodup_append]
    have hmap : v.fs.sfsVnodes.map (v.loads n).ino = v.fs.sfsVnodes.map v.ino :=
      List.map_congr_left fun p hp => ino_loads_of_mem h hp
    rw [hmap]
    refine ⟨h.nodup, List.nodup_singleton _, fun a ha b hb => ?_⟩
    obtain ⟨p, hp, rfl⟩ := List.mem_map.mp ha
    rw [List.mem_singleton.mp hb]
    exact Vol.loaded_eq_none.mp hn p hp
  live p hp := by
    rcases mem_loads.mp hp with hp | rfl
    · rw [ino_loads_of_mem h hp]
      exact hL _ (h.live p hp)
    · rw [ino_loads_brk]
      exact hi
  below p hp := by
    show p < v.fs.brk + 1
    rcases mem_loads.mp hp with hp | rfl
    · exact Nat.lt_succ_of_lt (h.below p hp)
    · exact Nat.lt_succ_self _
  held p hp := by
    rcases mem_loads.mp hp with hp | rfl
    · rw [heap_loads_of_mem h hp]
      exact h.held p hp
    · rw [heap_loads, if_pos rfl, hcount]
      exact Nat.one_pos
  opens p hp := by
    rcases mem_loads.mp hp with hp | rfl
    · rw [heap_loads_of_mem h hp]
      exact h.opens p hp
    · rw [heap_loads, if_pos rfl, ho]
      exact Nat.zero_le _

theorem counted_loads (hcount : n.vnRefcount = 1) (ho : n.vnOpencount = 0) :
    Counted n.svIno 1 v (v.loads n) where
  refs := by
    funext i
    rw [Vol.refs, loaded_loads h hn]
    by_cases hi : i = n.svIno
    · rw [if_pos hi, hi, Function.update_self]
      show ((v.loads n).fs.heap v.fs.brk).vnRefcount = 1
      rw [heap_loads, if_pos rfl, hcount]
    · rw [if_neg hi, Function.update_of_ne hi, Vol.refs]
      cases hl : v.loaded i with
      | none => rfl
      | some q =>
        show ((v.loads n).fs.heap q).vnRefcount = (v.fs.heap q).vnRefcount
        rw [heap_loads_of_mem h (Vol.mem_of_loaded hl).1]
  opens := by
    funext i
    rw [Vol.opens, loaded_loads h hn, Vol.opens]
    by_cases hi : i = n.svIno
    · rw [if_pos hi, hi, hn]
      show ((v.loads n).fs.heap v.fs.brk).vnOpencount = 0
      rw [heap_loads, if_pos rfl, ho]
    · rw [if_neg hi]
      cases hl : v.loaded i with
      | none => rfl
      | some q =>
        show ((v.loads n).fs.heap q).vnOpencount = (v.fs.heap q).vnOpencount
        rw [heap_loads_of_mem h (Vol.mem_of_loaded hl).1]
  keep p hp _ := ⟨mem_loads.mpr (.inl hp), ino_loads_of_mem h hp, by rw [heap_loads_of_mem h hp]⟩

omit hn in
theorem clean_loads (hnew : n.svDirty = false →
    (SfsInode.ofSector (v.disk n.svIno.toNat)).Agrees n.svI) : Clean (v.loads n) := by
  intro p hp hd
  rcases mem_loads.mp hp with hp | rfl
  · rw [heap_loads_of_mem h hp] at hd ⊢
    rw [ino_loads_of_mem h hp]
    exact h.clean p hp hd
  · rw [heap_loads, if_pos rfl] at hd ⊢
    rw [ino_loads_brk]
    exact hnew hd

omit hn in
theorem ops_loads (hops : n.vnOps = if n.svIno = sfsRootLocation then .sfsDirops else .sfsFileops) :
    ∀ p ∈ (v.loads n).fs.sfsVnodes, ((v.loads n).fs.heap p).vnOps =
      if (v.loads n).ino p = sfsRootLocation then .sfsDirops else .sfsFileops := by
  intro p hp
  rcases mem_loads.mp hp with hp | rfl
  · rw [heap_loads_of_mem h hp, ino_loads_of_mem h hp]
    exact h.ops p hp
  · rw [heap_loads, if_pos rfl, ino_loads_brk]
    exact hops

end Loads

/-- The vnode made for an inode that is on disk. -/
def Vol.vnodeOf (v : Vol) (i : UInt32) : SfsVnode where
  vnRefcount := 1
  vnOpencount := 0
  vnOps := if i = sfsRootLocation then .sfsDirops else .sfsFileops
  svI := SfsInode.ofSector (v.disk i.toNat)
  svIno := i
  svDirty := false

theorem core_loads (h : Core L v) (hi : L i) (hn : v.loaded i = none) :
    Core L (v.loads (v.vnodeOf i)) ∧ SameFiles L v (v.loads (v.vnodeOf i)) := by
  have hn' : v.loaded (v.vnodeOf i).svIno = none := hn
  have hr : Retables L L v (v.loads (v.vnodeOf i)) := by
    refine ⟨rfl, rfl, rfl, fun _ => id, fun _ _ _ => rfl, fun j _ => ?_, fun _ _ => .inl⟩
    rw [inode_loads h hn']
    split
    · next hj =>
      rw [hj, Vol.inode, hn']
      exact .refl _
    · exact .refl _
  exact ⟨hr.core h (table_loads h hn' (fun _ => id) hi rfl rfl) h.root (ops_loads h rfl)
    (clean_loads h fun _ => .refl _), hr.sameFiles h⟩

/-- A reference to inode `i` was handed out in `sv`. -/
structure Opened (L : UInt32 → Prop) (i : UInt32) (sv : Ptr) (v v' : Vol) : Prop where
  core : Core L v'
  same : SameFiles L v v'
  mem : sv ∈ v'.fs.sfsVnodes
  ino : v'.ino sv = i
  spare : (v'.fs.heap sv).vnOpencount < (v'.fs.heap sv).vnRefcount
  counted : Counted i (v.refs i + 1) v v'
  front : Front v v'

theorem front_loads (v : Vol) (n : SfsVnode) : Front v (v.loads n) :=
  ⟨fun _ _ => rfl, fun hd => ⟨hd, rfl⟩, rfl, rfl⟩

theorem opened_setRefs (h : Core L v) (hp : p ∈ v.fs.sfsVnodes) :
    Opened L (v.ino p) p v (v.setRefs p ((v.fs.heap p).vnRefcount + 1)) := by
  have ho := h.opens p hp
  obtain ⟨hc, hs⟩ := core_setRefs h (p := p) (Nat.succ_pos _) (Nat.le_succ_of_le ho)
  refine ⟨hc, hs, hp, by rw [ino_setRefs], ?_, ?_, front_setRefs⟩
  · simp only [Vol.setRefs, heap_modifyVnode, if_true]
    omega
  · rw [h.refs_eq hp]
    exact counted_setRefs h hp

theorem refs_of_not_loaded (hn : v.loaded i = none) : v.refs i = 0 := by rw [Vol.refs, hn]

theorem opened_loads (h : Core L v) (hi : L i) (hn : v.loaded i = none) :
    Opened L i v.fs.brk v (v.loads (v.vnodeOf i)) := by
  have hn' : v.loaded (v.vnodeOf i).svIno = none := hn
  obtain ⟨hc, hs⟩ := core_loads h hi hn
  refine ⟨hc, hs, mem_loads.mpr (.inr rfl), ino_loads_brk, ?_, ?_, front_loads v _⟩
  · rw [heap_loads, if_pos rfl]
    exact Nat.one_pos
  · rw [refs_of_not_loaded hn]
    exact counted_loads h hn' rfl rfl

/-! ## Writing an inode back -/

theorem Local.refs_eq (h : Local p v v') : v'.refs = v.refs := by
  funext i
  rw [Vol.refs, h.loaded_eq, Vol.refs]
  cases v.loaded i with
  | none => rfl
  | some q => exact (h.counts q).1

theorem Local.opens_eq (h : Local p v v') : v'.opens = v.opens := by
  funext i
  rw [Vol.opens, h.loaded_eq, Vol.opens]
  cases v.loaded i with
  | none => rfl
  | some q => exact (h.counts q).2.1

/-- The inode in `p` on disk, and the vnode clean. -/
def Vol.synced (v : Vol) (p : Ptr) : Vol :=
  if (v.fs.heap p).svDirty = true then
    (v.setDisk (v.ino p) (v.fs.heap p).svI.toSector).modifyVnode p fun n =>
    { n with svDirty := false }
  else v

theorem local_synced (v : Vol) (p : Ptr) : Local p v (v.synced p) := by
  rw [Vol.synced]
  split
  · exact (Local.setDisk v p _ _).trans (Local.modifyVnode _ p fun _ => rfl)
  · exact .refl p v

theorem svI_synced (v : Vol) (p q : Ptr) :
    ((v.synced p).fs.heap q).svI = (v.fs.heap q).svI := by
  rw [Vol.synced]
  split
  · rw [heap_modifyVnode, fs_setDisk]
    split
    · next hq => rw [hq]
    · rfl
  · rfl

theorem dirty_synced (v : Vol) (p : Ptr) : ((v.synced p).fs.heap p).svDirty = false := by
  rw [Vol.synced]
  split
  · rw [heap_modifyVnode, if_pos rfl]
  · next hd => exact Bool.eq_false_iff.mpr hd

theorem disk_synced (v : Vol) (p : Ptr) (b : UInt32) : (v.synced p).disk b.toNat =
    if b = v.ino p ∧ (v.fs.heap p).svDirty = true then (v.fs.heap p).svI.toSector
    else v.disk b.toNat := by
  rw [Vol.synced]
  by_cases hd : (v.fs.heap p).svDirty = true
  · rw [if_pos hd, disk_modifyVnode, disk_setDisk]
    simp only [hd, and_true]
  · rw [if_neg hd, if_neg fun hx => hd hx.2]

theorem core_synced (h : Core L v) (hp : p ∈ v.fs.sfsVnodes) :
    Core L (v.synced p) ∧ SameFiles L v (v.synced p) := by
  have hl := local_synced v p
  have hL := h.live p hp
  have hinode (i : UInt32) : (v.synced p).inode i = v.inode i := by
    by_cases hi : i = v.ino p
    · rw [hi, hl.inode_self h.toTable hp, svI_synced, h.inode_eq hp]
    · exact hl.inode_eq hi fun _ => by rw [disk_synced, if_neg fun hx => hi hx.1]
  have hr : Retables L L v (v.synced p) := by
    refine ⟨hl.nblocks_eq, hl.device, hl.nbits, fun _ => id, fun b hb _ => ?_, fun i _ => ?_,
      fun b _ hb => ?_⟩
    · rw [disk_synced, if_neg]
      rintro ⟨rfl, -⟩
      exact hb hL
    · rw [hinode]
      exact .refl _
    · left
      rw [Vol.synced]
      split
      · exact hb
      · exact hb
  refine ⟨hr.core h (hl.table h.toTable) h.root (fun q hq => ?_) fun q hq hd => ?_, hr.sameFiles h⟩
  · rw [hl.vnodes] at hq
    rw [(hl.counts q).2.2, hl.ino_eq]
    exact h.ops q hq
  · rw [hl.vnodes] at hq
    rw [hl.ino_eq, svI_synced, disk_synced]
    by_cases hc : v.ino q = v.ino p ∧ (v.fs.heap p).svDirty = true
    · rw [if_pos hc, SfsInode.ofSector_toSector, h.eq_of_ino hq hp hc.1]
      exact .refl _
    · rw [if_neg hc]
      refine h.clean q hq ?_
      by_cases hqp : q = p
      · subst hqp
        exact Bool.eq_false_iff.mpr fun hx => hc ⟨rfl, hx⟩
      · rwa [hl.heap q hqp] at hd

theorem front_synced (h : Core L v) (hp : p ∈ v.fs.sfsVnodes) : Front v (v.synced p) := by
  have hl := local_synced v p
  refine ⟨fun b hb => ?_, fun hd => ?_, hl.super, hl.superdirty⟩
  · rw [disk_synced, if_neg]
    rintro ⟨rfl, -⟩
    exact h.ino_not_meta (h.live p hp) hb
  · rw [Vol.synced] at hd ⊢
    split at hd
    · next hx =>
      rw [if_pos hx]
      exact ⟨hd, rfl⟩
    · next hx =>
      rw [if_neg hx]
      exact ⟨hd, rfl⟩

/-! ## Taking a vnode out of the table -/

def Vol.unload (v : Vol) (p : Ptr) : Vol :=
  { v with fs := { v.fs with sfsVnodes := v.fs.sfsVnodes.erase p } }

theorem front_unload (v : Vol) (p : Ptr) : Front v (v.unload p) :=
  ⟨fun _ _ => rfl, fun hd => ⟨hd, rfl⟩, rfl, rfl⟩

section Unload

variable (h : Core L v) (hp : p ∈ v.fs.sfsVnodes)
include h

theorem mem_unload : q ∈ (v.unload p).fs.sfsVnodes ↔ q ≠ p ∧ q ∈ v.fs.sfsVnodes :=
  (List.Nodup.of_map _ h.nodup).mem_erase_iff

theorem table_unload (hL : ∀ q ∈ v.fs.sfsVnodes, q ≠ p → L' (v.ino q)) :
    Table L' (v.unload p) where
  nodup := h.nodup.sublist ((List.erase_sublist ..).map _)
  live q hq := by
    obtain ⟨hne, hq⟩ := (mem_unload h).mp hq
    exact hL q hq hne
  below q hq := h.below q ((mem_unload h).mp hq).2
  held q hq := h.held q ((mem_unload h).mp hq).2
  opens q hq := h.opens q ((mem_unload h).mp hq).2

include hp

theorem loaded_unload (i : UInt32) :
    (v.unload p).loaded i = if i = v.ino p then none else v.loaded i := by
  have ht : Table L (v.unload p) := table_unload h fun q hq _ => h.live q hq
  split
  · next hi =>
    subst hi
    refine Vol.loaded_eq_none.mpr fun q hq he => ?_
    obtain ⟨hne, hq⟩ := (mem_unload h).mp hq
    exact hne (h.eq_of_ino hq hp he)
  · next hi =>
    cases hl : v.loaded i with
    | none =>
      refine Vol.loaded_eq_none.mpr fun q hq => ?_
      exact Vol.loaded_eq_none.mp hl q ((mem_unload h).mp hq).2
    | some q =>
      obtain ⟨hq, he⟩ := Vol.mem_of_loaded hl
      have hne : q ≠ p := by
        rintro rfl
        exact hi he.symm
      have := ht.loaded_eq (p := q) ((mem_unload h).mpr ⟨hne, hq⟩)
      rwa [show (v.unload p).ino q = i from he] at this

theorem inode_unload (hi : i ≠ v.ino p) : (v.unload p).inode i = v.inode i := by
  rw [Vol.inode, loaded_unload h hp, if_neg hi]
  rfl

theorem counted_unload (ho : (v.fs.heap p).vnOpencount = 0) :
    Counted (v.ino p) 0 v (v.unload p) where
  refs := by
    funext i
    rw [Vol.refs, loaded_unload h hp]
    by_cases hi : i = v.ino p
    · rw [if_pos hi, hi, Function.update_self]
    · rw [if_neg hi, Function.update_of_ne hi]
      rfl
  opens := by
    funext i
    rw [Vol.opens, loaded_unload h hp]
    by_cases hi : i = v.ino p
    · rw [if_pos hi, hi, h.opens_eq hp, ho]
    · rw [if_neg hi]
      rfl
  keep q hq hne := by
    refine ⟨(mem_unload h).mpr ⟨?_, hq⟩, rfl, rfl⟩
    rintro rfl
    rcases hne with hne | hne
    · exact hne rfl
    · exact hne rfl

theorem core_unload (hd : (v.fs.heap p).svDirty = false) :
    Core L (v.unload p) ∧ SameFiles L v (v.unload p) := by
  have hr : Retables L L v (v.unload p) := by
    refine ⟨rfl, rfl, rfl, fun _ => id, fun _ _ _ => rfl, fun i _ => ?_, fun _ _ => .inl⟩
    by_cases hi : i = v.ino p
    · subst hi
      rw [Vol.inode, loaded_unload h hp, if_pos rfl, h.inode_eq hp]
      exact h.clean p hp hd
    · rw [inode_unload h hp hi]
      exact .refl _
  exact ⟨hr.core h (table_unload h fun q hq _ => h.live q hq) h.root
    (fun q hq => h.ops q ((mem_unload h).mp hq).2) fun q hq => h.clean q ((mem_unload h).mp hq).2,
    hr.sameFiles h⟩

end Unload

/-- The inode in `p` is given up together with its block. -/
def Vol.delete (v : Vol) (p : Ptr) : Vol :=
  Vol.unload ⟨SfsFs.modifyInode { v.fs with
    sfsFreemap := v.fs.sfsFreemap.unmark (v.ino p).toNat, sfsFreemapdirty := true } p
      fun n => { n with sfiBlocks := n.sfiBlocks - 1 }, v.disk⟩ p

theorem front_delete (v : Vol) (p : Ptr) : Front v (v.delete p) :=
  ⟨fun _ _ => rfl, fun hd => (by cases hd), rfl, rfl⟩

section Delete

variable (h : Core L v) (hp : p ∈ v.fs.sfsVnodes)

theorem vnodes_delete : (v.delete p).fs.sfsVnodes = (v.unload p).fs.sfsVnodes := rfl

theorem heap_delete (hq : q ≠ p) : (v.delete p).fs.heap q = v.fs.heap q := by
  simp [Vol.delete, Vol.unload, SfsFs.modifyInode, SfsFs.modifyVnode, SfsFs.setVnode, hq]

theorem ino_delete (q : Ptr) : (v.delete p).ino q = v.ino q := by
  by_cases hq : q = p
  · subst hq
    simp [Vol.ino, Vol.delete, Vol.unload, SfsFs.modifyInode, SfsFs.modifyVnode, SfsFs.setVnode]
  · rw [Vol.ino, heap_delete hq, Vol.ino]

theorem isset_delete (j : Nat) : (v.delete p).fs.sfsFreemap.isset j =
    (v.fs.sfsFreemap.isset j && decide (j ≠ (v.ino p).toNat)) := by
  rw [show (v.delete p).fs.sfsFreemap = v.fs.sfsFreemap.unmark (v.ino p).toNat from rfl,
    Bitmap.isset_unmark]

include h

theorem mem_delete : q ∈ (v.delete p).fs.sfsVnodes ↔ q ≠ p ∧ q ∈ v.fs.sfsVnodes :=
  (List.Nodup.of_map _ h.nodup).mem_erase_iff

include hp

theorem loaded_delete (i : UInt32) :
    (v.delete p).loaded i = if i = v.ino p then none else v.loaded i := by
  rw [← loaded_unload h hp]
  simp only [Vol.loaded, vnodes_delete, ino_delete]
  rfl

theorem counted_delete (ho : (v.fs.heap p).vnOpencount = 0) :
    Counted (v.ino p) 0 v (v.delete p) where
  refs := by
    funext i
    rw [Vol.refs, loaded_delete h hp]
    by_cases hi : i = v.ino p
    · rw [if_pos hi, hi, Function.update_self]
    · rw [if_neg hi, Function.update_of_ne hi, Vol.refs]
      cases hl : v.loaded i with
      | none => rfl
      | some q =>
        have hq : q ≠ p := by
          rintro rfl
          exact hi (Vol.mem_of_loaded hl).2.symm
        simp only [heap_delete hq]
  opens := by
    funext i
    rw [Vol.opens, loaded_delete h hp]
    by_cases hi : i = v.ino p
    · rw [if_pos hi, hi, h.opens_eq hp, ho]
    · rw [if_neg hi, Vol.opens]
      cases hl : v.loaded i with
      | none => rfl
      | some q =>
        have hq : q ≠ p := by
          rintro rfl
          exact hi (Vol.mem_of_loaded hl).2.symm
        simp only [heap_delete hq]
  keep q hq hne := by
    have hqp : q ≠ p := by
      rintro rfl
      rcases hne with hne | hne
      · exact hne rfl
      · exact hne rfl
    exact ⟨(mem_delete h).mpr ⟨hqp, hq⟩, ino_delete q, by rw [heap_delete hqp]⟩

theorem core_delete (hroot : v.ino p ≠ sfsRootLocation) :
    Core (fun i => L i ∧ i ≠ v.ino p) (v.delete p) ∧
      SameFiles (fun i => L i ∧ i ≠ v.ino p) v (v.delete p) := by
  have hL := h.live p hp
  have hother (q : Ptr) (hq : q ∈ v.fs.sfsVnodes) (hne : q ≠ p) : v.ino q ≠ v.ino p := fun he =>
    hne (h.eq_of_ino hq hp he)
  have hr : Retables L (fun i => L i ∧ i ≠ v.ino p) v (v.delete p) := by
    refine ⟨rfl, rfl, rfl, fun _ hx => hx.1, fun _ _ _ => rfl, fun i hi => ?_, fun b _ hb => ?_⟩
    · rw [Vol.inode, loaded_delete h hp, if_neg hi.2, Vol.inode]
      cases hl : v.loaded i with
      | none => exact .refl _
      | some q =>
        have hq : q ≠ p := by
          rintro rfl
          exact hi.2 (Vol.mem_of_loaded hl).2.symm
        simp only [heap_delete hq]
        exact .refl _
    · by_cases hbi : b = v.ino p
      · exact .inr ⟨hbi ▸ hL, fun hx => hx.2 hbi⟩
      · left
        rw [Vol.isset, isset_delete]
        have hset : v.fs.sfsFreemap.isset b.toNat = true := hb
        rw [hset, Bool.true_and, decide_eq_true_eq]
        exact fun he => hbi (UInt32.toNat_inj.mp he)
  have ht : Table (fun i => L i ∧ i ≠ v.ino p) (v.delete p) := by
    have ht' : Table (fun i => L i ∧ i ≠ v.ino p) (v.unload p) :=
      table_unload h fun q hq hne => ⟨h.live q hq, hother q hq hne⟩
    have hheap (q : Ptr) (hq : q ∈ (v.delete p).fs.sfsVnodes) :
        (v.delete p).fs.heap q = v.fs.heap q := heap_delete ((mem_delete h).mp hq).1
    refine ⟨?_, fun q hq => ?_, ht'.below, fun q hq => ?_, fun q hq => ?_⟩
    · rw [show (v.delete p).ino = v.ino from funext ino_delete]
      exact ht'.nodup
    · rw [ino_delete]
      exact ht'.live q hq
    · rw [hheap q hq]
      exact ht'.held q hq
    · rw [hheap q hq]
      exact ht'.opens q hq
  refine ⟨hr.core h ht ⟨h.root, Ne.symm hroot⟩ (fun q hq => ?_) fun q hq hd => ?_, hr.sameFiles h⟩
  · obtain ⟨hne, hq⟩ := (mem_delete h).mp hq
    rw [ino_delete, heap_delete hne]
    exact h.ops q hq
  · obtain ⟨hne, hq⟩ := (mem_delete h).mp hq
    rw [heap_delete hne] at hd ⊢
    rw [ino_delete]
    exact h.clean q hq hd

end Delete

end Os161.Sfs
