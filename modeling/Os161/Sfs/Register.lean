import Os161.Lib.NamedStore
import Os161.Sfs.DirectorySpec
import Os161.Sfs.VnodeSpec

/-! # The register of a volume

Which files there are, which slots of the directory name them, how many links and references each
has, and what each holds. Each piece of an operation changes the register in one place. -/
namespace Os161.Sfs
open Os161.Lib Kern Vol

variable {L L' : UInt32 → Prop} {v v' : Vol} {p q sv d : Ptr} {i c : UInt32}
    {w w' : World} {k : Nat} {M : Prop}

/-! ## Handles -/

/-- The inode loaded in `p`. -/
def Vol.handle (v : Vol) (p : Ptr) : Option UInt32 :=
  if p ∈ v.fs.sfsVnodes then some (v.ino p) else none

theorem Vol.handle_eq_some : v.handle p = some i ↔ p ∈ v.fs.sfsVnodes ∧ v.ino p = i := by
  unfold Vol.handle
  split
  · next h =>
    rw [Option.some_inj]
    exact ⟨fun hx => ⟨h, hx⟩, fun hx => hx.2⟩
  · next h => exact ⟨fun hx => (by cases hx), fun hx => absurd hx.1 h⟩

theorem Table.handle_unique (h : Table L v) (hp : v.handle p = some i) (hq : v.handle q = some i) :
    p = q := by
  rw [handle_eq_some] at hp hq
  exact h.eq_of_ino hp.1 hq.1 (hp.2.trans hq.2.symm)

theorem Table.held_pos (h : Table L v) : 0 < v.refs i ↔ ∃ p, v.handle p = some i := by
  simp only [handle_eq_some]
  exact h.refs_pos

theorem Local.handle_eq (h : Local p v v') : v'.handle = v.handle := by
  funext q
  rw [Vol.handle, h.vnodes, h.ino_eq, Vol.handle]

namespace Counted

variable (h : Counted i k v v')
include h

/-- The other files have the handles they had. -/
theorem handle_other (ht : Table L v) (ht' : Table L' v') {j : UInt32} (hj : j ≠ i) :
    v'.handle p = some j ↔ v.handle p = some j := by
  have hkeep {q : Ptr} (hq : v.handle q = some j) : v'.handle q = some j := by
    rw [handle_eq_some] at hq ⊢
    obtain ⟨hm, hn, -⟩ := h.keep q hq.1 (.inl (by rw [hq.2]; exact hj))
    exact ⟨hm, hn.trans hq.2⟩
  refine ⟨fun hp => ?_, hkeep⟩
  have hpos : 0 < v.refs j := by
    have := ht'.held_pos.mpr ⟨p, hp⟩
    rwa [h.refs, Function.update_of_ne hj] at this
  obtain ⟨q, hq⟩ := ht.held_pos.mp hpos
  rwa [ht'.handle_unique hp (hkeep hq)]

theorem handle_none (ht : Table L v) (ht' : Table L' v') (hv : v.handle p ≠ some i)
    (hv' : v'.handle p ≠ some i) : v'.handle p = v.handle p := by
  apply Option.ext
  intro j
  by_cases hj : j = i
  · rw [hj]
    exact iff_of_false hv' hv
  · exact h.handle_other ht ht' hj

end Counted

theorem Opened.handle_self (h : Opened L i sv v v') : v'.handle sv = some i :=
  handle_eq_some.mpr ⟨h.mem, h.ino⟩

theorem Opened.opens (h : Opened L i sv v v') (ht : Table L' v) :
    v.handle sv = some i ∨ v.handle sv = none ∧ v.refs i = 0 := by
  by_cases h0 : v.refs i = 0
  · refine .inr ⟨?_, h0⟩
    cases hx : v.handle sv with
    | none => rfl
    | some j =>
      exfalso
      by_cases hj : j = i
      · have := ht.held_pos.mpr ⟨sv, hj ▸ hx⟩
        omega
      · have := (h.counted.handle_other ht h.core.toTable hj).mpr hx
        rw [h.handle_self] at this
        exact hj (Option.some.inj this).symm
  · left
    obtain ⟨q, hq⟩ := ht.held_pos.mp (Nat.pos_of_ne_zero h0)
    have hq' := handle_eq_some.mp hq
    obtain ⟨hm, hn, -⟩ := h.counted.keep q hq'.1 (.inr (Nat.succ_ne_zero _))
    rwa [h.core.toTable.eq_of_ino h.mem hm (h.ino.trans (hn.trans hq'.2).symm)]

theorem Opened.handle (h : Opened L i sv v v') (ht : Table L' v) :
    v'.handle = Function.update v.handle sv (some i) := by
  funext p
  by_cases hp : p = sv
  · rw [hp, Function.update_self, h.handle_self]
  · rw [Function.update_of_ne hp]
    refine h.counted.handle_none ht h.core.toTable (fun hx => hp ?_) fun hx => hp ?_
    · rcases h.opens ht with ho | ⟨-, ho⟩
      · exact ht.handle_unique hx ho
      · have := ht.held_pos.mpr ⟨p, hx⟩
        omega
    · exact h.core.toTable.handle_unique hx h.handle_self

theorem Released.handle (h : Released L i v v') (ht : Table L' v) (hp : v.handle p = some i) :
    v'.handle = if v.refs i = 1 then Function.update v.handle p none else v.handle := by
  have hpos : 0 < v.refs i := ht.held_pos.mpr ⟨p, hp⟩
  have hrefs : v'.refs i = v.refs i - 1 := by rw [h.counted.refs, Function.update_self]
  have ht' := h.core.toTable
  by_cases h1 : v.refs i = 1
  · have hnone (q : Ptr) : v'.handle q ≠ some i := fun hq => by
      have := ht'.held_pos.mpr ⟨q, hq⟩
      omega
    rw [if_pos h1]
    funext q
    by_cases hq : q = p
    · subst hq
      rw [Function.update_self]
      cases hx : v'.handle q with
      | none => rfl
      | some j =>
        have hj : j ≠ i := fun hj => hnone q (hj ▸ hx)
        have := (h.counted.handle_other ht ht' hj).mp hx
        rw [hp] at this
        exact absurd (Option.some.inj this).symm hj
    · rw [Function.update_of_ne hq]
      exact h.counted.handle_none ht ht' (fun hx => hq (ht.handle_unique hx hp)) (hnone q)
  · rw [if_neg h1]
    funext q
    have hp' := handle_eq_some.mp hp
    have hkeep : v'.handle p = some i := by
      obtain ⟨hm, hn, -⟩ := h.counted.keep p hp'.1 (.inr (by omega))
      exact handle_eq_some.mpr ⟨hm, hn.trans hp'.2⟩
    by_cases hq : q = p
    · rw [hq, hkeep, hp]
    · exact h.counted.handle_none ht ht' (fun hx => hq (ht.handle_unique hx hp))
        fun hx => hq (ht'.handle_unique hx hkeep)

/-! ## Registers -/

structure Register where
  live : UInt32 → Prop
  slots : Slots CString UInt32
  links : UInt32 → Nat
  content : UInt32 → Content
  handles : Ptr → Option UInt32
  refs : UInt32 → Nat
  opens : UInt32 → Nat

/-- The table of the root directory. -/
def Vol.table (v : Vol) : Slots CString UInt32 := (v.content sfsRootLocation).slots

theorem Vol.slots_eq_table (hd : v.ino d = sfsRootLocation) : v.slots d = v.table := by
  rw [Vol.slots, hd, Vol.table]

/-- The root directory is a whole number of entries, without holes. -/
structure RootDir (v : Vol) : Prop where
  whole : (v.content sfsRootLocation).size % SfsDir.size = 0
  range : (v.content sfsRootLocation).size ≤ dirLimit
  solid : ∀ x, x < (v.content sfsRootLocation).size → v.fileBlock sfsRootLocation (x / 512) ≠ 0

theorem RootDir.dir (h : RootDir v) (hd : v.ino d = sfsRootLocation) : Dir d v :=
  ⟨hd, by rw [hd]; exact h.whole, by rw [hd]; exact h.range, by rw [hd]; exact h.solid⟩

theorem Dir.rootDir (h : Dir d v) : RootDir v := by
  obtain ⟨hroot, hwhole, hrange, hsolid⟩ := h
  rw [hroot] at hwhole hrange hsolid
  exact ⟨hwhole, hrange, hsolid⟩

theorem RootDir.same (h : RootDir v) (hs : SameFiles L v v') (hroot : L sfsRootLocation) :
    RootDir v' where
  whole := by rw [hs.content hroot]; exact h.whole
  range := by rw [hs.content hroot]; exact h.range
  solid x hx := by
    rw [hs.content hroot] at hx
    rw [hs.fileBlock hroot]
    exact h.solid x hx

theorem SameFiles.table (hs : SameFiles L v v') (hroot : L sfsRootLocation) :
    v'.table = v.table := by
  rw [Vol.table, hs.content hroot, Vol.table]

/-- The register `r` describes the volume. -/
structure Describes (r : Register) (v : Vol) : Prop where
  core : Core r.live v
  dir : RootDir v
  slots : v.table = r.slots
  distinct : r.slots.Distinct
  named : ∀ j n i, r.slots.Binds j n i → r.live i
  links : ∀ i, r.live i → (v.inode i).sfiLinkcount.toNat = r.links i
  content : ∀ i, r.live i → i ≠ sfsRootLocation → v.content i = r.content i
  small : ∀ i, r.live i → i ≠ sfsRootLocation → (r.content i).size < 2 ^ 31
  handles : v.handle = r.handles
  refs : v.refs = r.refs
  opens : v.opens = r.opens
  stored : Stored v

/-- Nothing is going to fail. -/
structure Faultless (w : World) : Prop where
  reads : w.env.readFaults = []
  writes : w.env.writeFaults = []
  mem : w.env.memFaults = []

/-- The disk is not going to fail, and `kmalloc` is not if `M`. -/
structure Working (M : Prop) (w : World) : Prop where
  reads : w.env.readFaults = []
  writes : w.env.writeFaults = []
  mem : M → w.env.memFaults = []

theorem Faultless.working (h : Faultless w) : Working M w := ⟨h.reads, h.writes, fun _ => h.mem⟩

theorem Working.calm (h : Working M w) (hc : Calm w w') : Working M w' :=
  ⟨hc.reads h.reads, hc.writes h.writes, fun hM => hc.mem (h.mem hM)⟩

/-- The register `r` describes the volume, and the disk works. -/
structure Keeps (M : Prop) (r : Register) (w : World) : Prop
    extends Describes r (vol w), Working M w

namespace Register

/-- A file gets a reference, through the handle `p`. -/
def take (r : Register) (p : Ptr) (i : UInt32) : Register :=
  { r with
    handles := Function.update r.handles p (some i)
    refs := Function.update r.refs i (r.refs i + 1) }

/-- A reference is given back; a file without links goes with the last one. -/
def drop (r : Register) (p : Ptr) (i : UInt32) : Register :=
  { r with
    live := fun j => r.live j ∧ ¬ (j = i ∧ r.refs i = 1 ∧ r.links i = 0)
    handles := if r.refs i = 1 then Function.update r.handles p none else r.handles
    refs := Function.update r.refs i (r.refs i - 1) }

def relink (r : Register) (i : UInt32) (k : Nat) : Register :=
  { r with links := Function.update r.links i k }

def enter (r : Register) (t : Slots CString UInt32) : Register := { r with slots := t }

def write (r : Register) (i : UInt32) (f : Content) : Register :=
  { r with content := Function.update r.content i f }

def reopen (r : Register) (i : UInt32) (k : Nat) : Register :=
  { r with opens := Function.update r.opens i k }

/-- An empty file without links. -/
def adopt (r : Register) (p : Ptr) (c : UInt32) : Register :=
  { r with
    live := fun i => r.live i ∨ i = c
    links := Function.update r.links c 0
    content := Function.update r.content c ⟨0, fun _ => 0⟩
    handles := Function.update r.handles p (some c)
    refs := Function.update r.refs c 1 }

end Register

namespace Keeps

variable {r : Register} (h : Keeps M r w)
include h

theorem handle_eq_some : r.handles p = some i ↔ p ∈ (vol w).fs.sfsVnodes ∧ (vol w).ino p = i := by
  rw [← h.handles, Vol.handle_eq_some]

/-- The vnode of a file is ready for calls. -/
theorem file (hp : r.handles p = some i) :
    Ready r.live p w ∧ (vol w).ino p = i ∧ r.live i := by
  obtain ⟨hm, rfl⟩ := h.handle_eq_some.mp hp
  exact ⟨⟨h.core, hm, h.reads, h.writes⟩, rfl, h.core.live p hm⟩

theorem refs_pos (hp : r.handles p = some i) : 0 < r.refs i := by
  rw [← h.handles] at hp
  rw [← h.refs]
  exact h.core.toTable.held_pos.mpr ⟨p, hp⟩

theorem opens_le (i : UInt32) : r.opens i ≤ r.refs i := by
  rw [← h.opens, ← h.refs]
  exact h.core.toTable.opens_le i

theorem counts_of_handle (hp : r.handles p = some i) :
    (w.st.fs.heap p).vnRefcount = r.refs i ∧ (w.st.fs.heap p).vnOpencount = r.opens i := by
  obtain ⟨hm, rfl⟩ := h.handle_eq_some.mp hp
  rw [← h.refs, ← h.opens]
  exact ⟨(h.core.refs_eq hm).symm, (h.core.opens_eq hm).symm⟩

/-- The root directory, once it is loaded. -/
theorem root_dir (hd : r.handles d = some sfsRootLocation) :
    Ready r.live d w ∧ Dir d (vol w) ∧ (vol w).slots d = r.slots := by
  obtain ⟨hready, hino, -⟩ := h.file hd
  exact ⟨hready, h.dir.dir hino, by rw [slots_eq_table hino, h.slots]⟩

/-- Only the references of inode `i` change, and the inodes of `live` stay. -/
theorem recount {live : UInt32 → Prop} (hc : Calm w w') (hcore : Core live (vol w'))
    (hs : SameFiles live (vol w) (vol w')) (hcount : Counted i k (vol w) (vol w'))
    (hst : Stored (vol w')) (hsub : ∀ j, live j → r.live j)
    (hnamed : ∀ j n a, r.slots.Binds j n a → live a) :
    Keeps M { r with live := live, handles := (vol w').handle, refs := Function.update r.refs i k }
      w' :=
  { toWorking := h.toWorking.calm hc
    core := hcore
    dir := h.dir.same hs hcore.root
    slots := (hs.table hcore.root).trans h.slots
    distinct := h.distinct
    named := hnamed
    links := fun j hj => by
      rw [(hs.attrs j hj).linkcount]
      exact h.links j (hsub j hj)
    content := fun j hj hr => by
      rw [hs.content hj]
      exact h.content j (hsub j hj) hr
    small := fun j hj => h.small j (hsub j hj)
    handles := rfl
    refs := by rw [hcount.refs, h.refs]
    opens := by rw [hcount.opens, h.opens]
    stored := hst }

/-- What changes neither a file nor a reference. -/
theorem tidy (hc : Calm w w') (hcore : Core r.live (vol w'))
    (hs : SameFiles r.live (vol w) (vol w')) (hv : (vol w').fs.sfsVnodes = (vol w).fs.sfsVnodes)
    (hino : (vol w').ino = (vol w).ino)
    (hcount : ∀ p, ((vol w').fs.heap p).vnRefcount = ((vol w).fs.heap p).vnRefcount ∧
      ((vol w').fs.heap p).vnOpencount = ((vol w).fs.heap p).vnOpencount)
    (hst : Stored (vol w')) : Keeps M r w' := by
  have hloaded : (vol w').loaded = (vol w).loaded := by
    funext i
    rw [Vol.loaded, hv, hino, Vol.loaded]
  have hrefs : (vol w').refs = (vol w).refs := by
    funext i
    rw [Vol.refs, hloaded, Vol.refs]
    cases (vol w).loaded i with
    | none => rfl
    | some q => exact (hcount q).1
  have hopens : (vol w').opens = (vol w).opens := by
    funext i
    rw [Vol.opens, hloaded, Vol.opens]
    cases (vol w).loaded i with
    | none => rfl
    | some q => exact (hcount q).2
  have hcounted : Counted 0 ((vol w).refs 0) (vol w) (vol w') := by
    refine ⟨by rw [hrefs, Function.update_eq_self], hopens, fun q hq _ => ⟨?_, ?_, (hcount q).2⟩⟩
    · rwa [hv]
    · rw [hino]
  have hk := h.recount hc hcore hs hcounted hst (fun _ => id) h.named
  have hhandle : (vol w').handle = r.handles := by
    rw [← h.handles]
    funext q
    rw [Vol.handle, hv, hino, Vol.handle]
  rwa [hhandle, h.refs, Function.update_eq_self] at hk

theorem take (ho : Opened r.live i sv (vol w) (vol w')) (hc : Calm w w') :
    Keeps M (r.take sv i) w' := by
  have hk := h.recount hc ho.core ho.same ho.counted (h.stored.front h.core.toGeo ho.front)
    (fun _ => id) h.named
  rw [ho.handle h.core.toTable, h.handles, h.refs] at hk
  exact hk

theorem drop (hp : r.handles p = some i) (hrel : Released r.live i (vol w) (vol w'))
    (hc : Calm w w') (hnamed : r.links i = 0 → ∀ j n, ¬ r.slots.Binds j n i) :
    Keeps M (r.drop p i) w' := by
  obtain ⟨-, -, hlive⟩ := h.file hp
  have hlink : ((vol w).inode i).sfiLinkcount = 0 ↔ r.links i = 0 := by
    rw [← h.links i hlive, ← UInt16.toNat_inj]
    rfl
  have hlast : (vol w).lasting r.live i =
      fun j => r.live j ∧ ¬ (j = i ∧ r.refs i = 1 ∧ r.links i = 0) := by
    unfold Vol.lasting
    simp only [hlink, h.refs]
  have hk := h.recount hc hrel.core hrel.same hrel.counted
    (h.stored.front h.core.toGeo hrel.front) (fun _ hx => hx.1) fun j n a hb => ?_
  · rw [hrel.handle h.core.toTable (by rw [h.handles]; exact hp), h.handles, hlast, h.refs] at hk
    exact hk
  · rw [hlast]
    refine ⟨h.named j n a hb, fun hx => ?_⟩
    obtain ⟨rfl, -, h0⟩ := hx
    exact hnamed h0 j n hb

/-- The directory gets the table `t`. -/
theorem enter {t : Slots CString UInt32} (hd : r.handles d = some sfsRootLocation)
    (hr : Rewritten r.live d w w') (ht : (vol w').slots d = t)
    (hdis : t.Distinct) (hnamed : ∀ j n i, t.Binds j n i → r.live i) : Keeps M (r.enter t) w' := by
  have hw := hr.worked
  obtain ⟨-, hino, -⟩ := h.file hd
  have hne {i : UInt32} (hi : i ≠ sfsRootLocation) : i ≠ (vol w).ino d := by rwa [hino]
  exact
    { toWorking := h.toWorking.calm hr.calm
      core := hw.core
      dir := hr.dir.rootDir
      slots := by rw [← slots_eq_table hr.dir.root, ht]; rfl
      distinct := hdis
      named := hnamed
      links := fun i hi => by
        refine Eq.trans ?_ (h.links i hi)
        by_cases h0 : i = sfsRootLocation
        · have := hw.linkcount
          rw [hino, ← h0] at this
          rw [this]
        · rw [hw.inode i hi (hne h0)]
      content := fun i hi h0 => by
        rw [hw.toConfined.content hi (hne h0)]
        exact h.content i hi h0
      small := h.small
      handles := hw.here.handle_eq.trans h.handles
      refs := hw.here.refs_eq.trans h.refs
      opens := hw.here.opens_eq.trans h.opens
      stored := h.stored.front h.core.toGeo hw.front }

/-- The regular file in `p` may change its contents. -/
theorem alter (hp : r.handles p = some i) (hi : i ≠ sfsRootLocation) (hc : Calm w w')
    (hconf : Confined r.live p (vol w) (vol w')) (hfront : Front (vol w) (vol w')) {f : Content}
    (hk : ((vol w').inode i).sfiLinkcount = ((vol w).inode i).sfiLinkcount)
    (hf : (vol w').content i = f) (hsmall : f.size < 2 ^ 31) : Keeps M (r.write i f) w' := by
  obtain ⟨-, hpi, hlive⟩ := h.file hp
  have hroot : r.live sfsRootLocation ∧ sfsRootLocation ≠ (vol w).ino p := by
    rw [hpi]
    exact ⟨h.core.root, Ne.symm hi⟩
  have hne {j : UInt32} (hj : j ≠ i) : j ≠ (vol w).ino p := by rwa [hpi]
  exact
    { toWorking := h.toWorking.calm hc
      core := hconf.core
      dir := h.dir.same hconf.sameFiles hroot
      slots := (hconf.sameFiles.table hroot).trans h.slots
      distinct := h.distinct
      named := h.named
      links := fun j hj => by
        refine Eq.trans ?_ (h.links j hj)
        by_cases hji : j = i
        · rw [hji, hk]
        · rw [hconf.inode j hj (hne hji)]
      content := fun j hj h0 => by
        show _ = Function.update r.content i f j
        by_cases hji : j = i
        · rw [hji, Function.update_self, hf]
        · rw [Function.update_of_ne hji, hconf.content hj (hne hji)]
          exact h.content j hj h0
      small := fun j hj h0 => by
        show (Function.update r.content i f j).size < 2 ^ 31
        by_cases hji : j = i
        · rw [hji, Function.update_self]
          exact hsmall
        · rw [Function.update_of_ne hji]
          exact h.small j hj h0
      handles := hconf.here.handle_eq.trans h.handles
      refs := hconf.here.refs_eq.trans h.refs
      opens := hconf.here.opens_eq.trans h.opens
      stored := h.stored.front h.core.toGeo hfront }

theorem content_of_handle (hp : r.handles p = some i) (hi : i ≠ sfsRootLocation) :
    (vol w).content ((vol w).ino p) = r.content i ∧ (r.content i).size < 2 ^ 31 := by
  obtain ⟨-, hpi, hlive⟩ := h.file hp
  rw [hpi]
  exact ⟨h.content i hlive hi, h.small i hlive hi⟩

theorem linkcount_of_handle (hp : r.handles p = some i) :
    ((vol w).inode i).sfiLinkcount.toNat = r.links i ∧
      (w.st.fs.heap p).svI.sfiLinkcount.toNat = r.links i := by
  obtain ⟨hready, hpi, hlive⟩ := h.file hp
  have hx := h.links i hlive
  refine ⟨hx, ?_⟩
  rw [← hx, ← hpi, h.core.inode_eq hready.vnode]
  rfl

theorem write (hp : r.handles p = some i) (hi : i ≠ sfsRootLocation) (hc : Calm w w')
    (hw : Worked r.live p (vol w) (vol w')) {f : Content}
    (hf : (vol w').content ((vol w).ino p) = f) (hsmall : f.size < 2 ^ 31) :
    Keeps M (r.write i f) w' := by
  obtain ⟨-, hpi, -⟩ := h.file hp
  have hk := hw.linkcount
  rw [hpi] at hk hf
  exact h.alter hp hi hc hw.toConfined hw.front hk hf hsmall

/-- The link count of the file in `p` is set, and its vnode marked. -/
theorem relink {f : UInt16 → UInt16} (hp : r.handles p = some i)
    (hv : vol w' = (vol w).touch p fun n => { n with sfiLinkcount := f n.sfiLinkcount })
    (hc : Calm w w') (hk : ∀ x : UInt16, x.toNat = r.links i → (f x).toNat = k) :
    Keeps M (r.relink i k) w' := by
  obtain ⟨hready, hpi, hlive⟩ := h.file hp
  have ht := Vol.touched (f := fun n => { n with sfiLinkcount := f n.sfiLinkcount }) h.core
    hready.vnode (fun n s => by cases s <;> rfl) fun _ => rfl
  have hself : (vol w').inode i = { (vol w).inode i with
      sfiLinkcount := f ((vol w).inode i).sfiLinkcount } := by
    rw [hv, ← hpi, ht.here.inode_self h.core.toTable hready.vnode, h.core.inode_eq hready.vnode]
    simp [Vol.touch]
  rw [← hv] at ht
  have hcontent {j : UInt32} (hj : r.live j) : (vol w').content j = (vol w).content j := by
    rw [Vol.content, Vol.content, Content.mk.injEq]
    refine ⟨?_, ht.byte hj⟩
    by_cases hji : j = i
    · rw [hji, hself]
    · rw [ht.inode j hj (by rwa [hpi])]
  have hroot := hcontent h.core.root
  exact
    { toWorking := h.toWorking.calm hc
      core := ht.core
      dir :=
        { whole := by rw [hroot]; exact h.dir.whole
          range := by rw [hroot]; exact h.dir.range
          solid := fun x hx => by
            rw [hroot] at hx
            rw [ht.fileBlock h.core.root]
            exact h.dir.solid x hx }
      slots := by
        rw [Vol.table, hroot]
        exact h.slots
      distinct := h.distinct
      named := h.named
      links := fun j hj => by
        show _ = Function.update r.links i k j
        by_cases hji : j = i
        · rw [hji, Function.update_self, hself]
          exact hk _ (h.links i hlive)
        · rw [Function.update_of_ne hji, ht.inode j hj (by rwa [hpi])]
          exact h.links j hj
      content := fun j hj h0 => by
        rw [hcontent hj]
        exact h.content j hj h0
      small := h.small
      handles := ht.here.handle_eq.trans h.handles
      refs := ht.here.refs_eq.trans h.refs
      opens := ht.here.opens_eq.trans h.opens
      stored := h.stored.front h.core.toGeo (.of_touched ht) }

/-- What changes no file, and no vnode. -/
theorem unmoved (hc : Calm w w') (hcore : Core r.live (vol w'))
    (hs : SameFiles r.live (vol w) (vol w')) (hf : Front (vol w) (vol w'))
    (hv : (vol w').fs.sfsVnodes = (vol w).fs.sfsVnodes)
    (hheap : (vol w').fs.heap = (vol w).fs.heap) : Keeps M r w' := by
  have hino : (vol w').ino = (vol w).ino := by
    funext q
    rw [Vol.ino, hheap, Vol.ino]
  exact h.tidy hc hcore hs hv hino (fun q => by rw [hheap]; exact ⟨rfl, rfl⟩)
    (h.stored.front h.core.toGeo hf)

/-- A new file, whose vnode is in `sv`; `p` is any vnode. -/
theorem adopt (hp : p ∈ (vol w).fs.sfsVnodes) (hc : Fresh (vol w) c) (hcalm : Calm w w')
    (hv : vol w' = (vol w).adopts c) : Keeps M (r.adopt (vol w).fs.brk c) w' := by
  have hcore : Core (fun i => r.live i ∨ i = c) (vol w') := hv ▸ core_adopts h.core hc hp
  have hsame : SameFiles r.live (vol w) (vol w') := hv ▸ sameFiles_adopts h.core hc hp
  have hcount : Counted c 1 (vol w) (vol w') := hv ▸ counted_adopts h.core hc hp
  have hnew : ¬ r.live c := hc.not_live h.core
  have hne {i : UInt32} (hi : r.live i) : i ≠ c := fun hx => hnew (hx ▸ hi)
  have hold (p : Ptr) : (vol w).handle p ≠ some c := fun hx => by
    obtain ⟨hp, he⟩ := Vol.handle_eq_some.mp hx
    exact hne (h.core.live p hp) he
  have hbrk : (vol w').handle (vol w).fs.brk = some c := by
    rw [hv]
    exact Vol.handle_eq_some.mpr ⟨mem_loads.mpr (.inr rfl), ino_loads_brk⟩
  exact
    { toWorking := h.toWorking.calm hcalm
      core := hcore
      dir := h.dir.same hsame h.core.root
      slots := (hsame.table h.core.root).trans h.slots
      distinct := h.distinct
      named := fun j n i hb => .inl (h.named j n i hb)
      links := fun i hi => by
        show _ = Function.update r.links c 0 i
        by_cases hic : i = c
        · rw [hic, Function.update_self, hv, inode_adopts h.core hc hp, if_pos rfl]
          rfl
        · have hi := hi.resolve_right hic
          rw [Function.update_of_ne hic, (hsame.attrs i hi).linkcount]
          exact h.links i hi
      content := fun i hi h0 => by
        show _ = Function.update r.content c _ i
        by_cases hic : i = c
        · rw [hic, Function.update_self, hv, content_adopts h.core hc hp]
        · have hi := hi.resolve_right hic
          rw [Function.update_of_ne hic, hsame.content hi]
          exact h.content i hi h0
      small := fun i hi h0 => by
        show (Function.update r.content c _ i).size < 2 ^ 31
        by_cases hic : i = c
        · rw [hic, Function.update_self]
          exact Nat.pow_pos Nat.two_pos
        · rw [Function.update_of_ne hic]
          exact h.small i (hi.resolve_right hic) h0
      handles := by
        show _ = Function.update r.handles _ _
        rw [← h.handles]
        funext p
        by_cases hp : p = (vol w).fs.brk
        · rw [hp, Function.update_self, hbrk]
        · rw [Function.update_of_ne hp]
          exact hcount.handle_none h.core.toTable hcore.toTable (hold p) fun hx =>
            hp (hcore.toTable.handle_unique hx hbrk)
      refs := by
        show _ = Function.update r.refs c 1
        rw [hcount.refs, h.refs]
      opens := hcount.opens.trans h.opens
      stored := h.stored.front h.core.toGeo (hv ▸ front_adopts h.core hc) }

end Keeps

end Os161.Sfs
