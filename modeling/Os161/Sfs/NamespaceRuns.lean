import Os161.Sfs.FlatFs

/-! # Runs of operations on a volume

Any sequence of operations on the root directory and on the files it names, on a volume on which
nothing goes wrong but the lack of space, does what the flat file system does, and returns what it
returns. The vnodes come and go with the references to them, that of the root directory too. -/
namespace Os161.Sfs
open Os161.Lib Kern Vol

variable {p q sv d : Ptr} {i c : UInt32} {w w' : World} {k j : Nat} {name : CString} {r : Register}
  {s s' : Flat} {e : Errno} {M : Prop}

/-! ## Operations -/

inductive FsOp where
  | getroot
  | lookup (dir : Ptr) (name : CString)
  | lookparent (dir : Ptr) (path : CString) (buflen : Nat)
  | creat (dir : Ptr) (name : CString) (excl : Bool)
  | link (dir : Ptr) (name : CString) (file : Ptr)
  | remove (dir : Ptr) (name : CString)
  | rename (olddir : Ptr) (old : CString) (newdir : Ptr) (new : CString)
  | io (file : Ptr) (c : Call)
  | truncate (file : Ptr) (len : Int)
  | fsync (file : Ptr)
  | incref (file : Ptr)
  | decref (file : Ptr)
  | incopen (file : Ptr)
  | decopen (file : Ptr)

inductive FsRet where
  | done
  | vnode (p : Ptr)
  | parent (p : Ptr) (name : CString)
  | moved (r : Uio × Result)

def Call.vop (c : Call) (file : Ptr) : Kern (Uio × Result) :=
  if c.uio.uioRw = .uioRead then vopRead file c.uio else vopWrite file c.uio

def FsOp.call : FsOp → Kern FsRet
  | .getroot => do return .vnode (← sfsGetroot)
  | .lookparent dir path buflen => do
    let (p, name) ← vopLookparent dir path buflen
    return .parent p name
  | .lookup dir name => do return .vnode (← vopLookup dir name)
  | .creat dir name excl => do return .vnode (← vopCreat dir name excl)
  | .link dir name file => do
    vopLink dir name file
    return .done
  | .remove dir name => do
    vopRemove dir name
    return .done
  | .rename olddir old newdir new => do
    vopRename olddir old newdir new
    return .done
  | .io file c => do return .moved (← c.vop file)
  | .truncate file len => do
    vopTruncate file len
    return .done
  | .fsync file => do
    vopFsync file
    return .done
  | .incref file => do
    vnodeIncref file
    return .done
  | .decref file => do
    vnodeDecref file
    return .done
  | .incopen file => do
    vnodeIncopen file
    return .done
  | .decopen file => do
    vnodeDecopen file
    return .done

/-- `p` leads to a vnode that is loaded. -/
def Has (p : Ptr) (w : World) : Prop := (vol w).handle p ≠ none

/-- `p` leads to the root directory. -/
def HasRoot (p : Ptr) (w : World) : Prop := (vol w).handle p = some sfsRootLocation

/-- What the callers take care of: vnodes are those they have a reference to, names are looked up in
directories, lengths are not negative, and a reference is opened and closed once. -/
def FsOp.Proper (w : World) : FsOp → Prop
  | .getroot => True
  | .lookup dir _ | .lookparent dir _ _ | .creat dir _ _ | .remove dir _ => HasRoot dir w
  | .link dir _ file => HasRoot dir w ∧ Has file w
  | .rename olddir _ newdir _ => HasRoot olddir w ∧ HasRoot newdir w
  | .io file _ | .fsync file | .incref file => Has file w
  | .truncate file len => Has file w ∧ 0 ≤ len ∧ len < 2 ^ 31
  | .decref file | .incopen file => Has file w ∧ Spare file w
  | .decopen file => Has file w ∧ 0 < (w.st.fs.heap file).vnOpencount

/-- The directory does not outgrow what `sfs_bmap` can map, and a link count not its 16 bits, also
while `sfs_rename` has linked the new name and not yet unlinked the old one. -/
def FsOp.Fits (w : World) : FsOp → Prop
  | .creat _ name _ => NameFits (vol w).table name
  | .link _ name file => NameFits (vol w).table name ∧
      ((vol w).table.find name = none → (w.st.fs.heap file).svI.sfiLinkcount.toNat + 1 < 2 ^ 16)
  | .rename _ old _ new => ∀ i, (vol w).table.find old = some i → i ≠ sfsRootLocation →
      NameFits (vol w).table new ∧
      ((vol w).table.find new = none → ((vol w).inode i).sfiLinkcount.toNat + 1 < 2 ^ 16)
  | _ => True

/-- The operation does not rename the root directory. -/
def FsOp.LeavesRoot (w : World) : FsOp → Prop
  | .rename _ old _ _ => (vol w).table.find old ≠ some sfsRootLocation
  | _ => True

def FsOp.Allowed (w : World) (op : FsOp) : Prop := op.Proper w ∧ op.Fits w ∧ op.LeavesRoot w

/-! ## What the flat file system answers -/

/-- Why a name cannot be bound. -/
inductive Refused (s : Flat) (name : CString) : Errno → Prop
  | eexist (h : s.names name ≠ none) : Refused s name .eexist
  | enametoolong (h : s.names name = none) (hlen : sfsNamelen < name.length + 1) :
      Refused s name .enametoolong
  | enospc (h : s.names name = none) : Refused s name .enospc

/-- What a file holds after it was cut or extended to `len` bytes. Bytes behind the new end that
are still on the disk stay. -/
structure Cropped (f : Content) (len : Nat) (f' : Content) : Prop where
  size : f'.size = len
  front : ∀ x, x < len → f'.get x = f.get x
  back : ∀ x, f'.get x = f.get x ∨ f'.get x = 0

inductive Answers (s : Flat) : FsOp → Except Errno FsRet → Flat → Prop
  | getroot {p : Ptr} (hp : s.Opens p sfsRootLocation) :
      Answers s .getroot (.ok (.vnode p)) (s.take p sfsRootLocation)
  | lookparent {path : CString} {buflen : Nat} {p : Ptr} (hlen : path.length + 1 ≤ buflen)
      (hp : s.handles p = some sfsRootLocation) :
      Answers s (.lookparent p path buflen) (.ok (.parent p path)) (s.take p sfsRootLocation)
  | lookparentFails {dir : Ptr} {path : CString} {buflen : Nat} (hlen : buflen < path.length + 1) :
      Answers s (.lookparent dir path buflen) (.error .enametoolong) s
  | lookup {dir : Ptr} {name : CString} {i : UInt32} {p : Ptr} (hn : s.names name = some i)
      (hp : s.Opens p i) : Answers s (.lookup dir name) (.ok (.vnode p)) (s.take p i)
  | lookupNone {dir : Ptr} {name : CString} (hn : s.names name = none) :
      Answers s (.lookup dir name) (.error .enoent) s
  | creatOld {dir : Ptr} {name : CString} {i : UInt32} {p : Ptr} (hn : s.names name = some i)
      (hp : s.Opens p i) : Answers s (.creat dir name false) (.ok (.vnode p)) (s.take p i)
  | creatExcl {dir : Ptr} {name : CString} (hn : s.names name ≠ none) :
      Answers s (.creat dir name true) (.error .eexist) s
  | creatNew {dir : Ptr} {name : CString} {excl : Bool} {i : UInt32} {p : Ptr}
      (hn : s.names name = none) (hlen : name.length + 1 ≤ sfsNamelen) (hroot : i ≠ sfsRootLocation)
      (hi : s.objects i = none) (hp : s.handles p = none) :
      Answers s (.creat dir name excl) (.ok (.vnode p))
        (((s.put i ⟨0, fun _ => 0⟩).bind name i).take p i)
  | creatFails {dir : Ptr} {name : CString} {excl : Bool} {e : Errno} (hn : s.names name = none)
      (he : Refused s name e) : Answers s (.creat dir name excl) (.error e) s
  | link {dir : Ptr} {name : CString} {p : Ptr} {i : UInt32} (hn : s.names name = none)
      (hlen : name.length + 1 ≤ sfsNamelen) (hp : s.handles p = some i) :
      Answers s (.link dir name p) (.ok .done) (s.bind name i)
  | linkFails {dir : Ptr} {name : CString} {p : Ptr} {e : Errno} (he : Refused s name e) :
      Answers s (.link dir name p) (.error e) s
  | remove {dir : Ptr} {name : CString} {i : UInt32} (hn : s.names name = some i) :
      Answers s (.remove dir name) (.ok .done) ((s.unbind name).reap i)
  | removeNone {dir : Ptr} {name : CString} (hn : s.names name = none) :
      Answers s (.remove dir name) (.error .enoent) s
  | rename {olddir newdir : Ptr} {old new : CString} {i : UInt32} (ho : s.names old = some i)
      (hn : s.names new = none) (hlen : new.length + 1 ≤ sfsNamelen) :
      Answers s (.rename olddir old newdir new) (.ok .done) ((s.bind new i).unbind old)
  | renameNone {olddir newdir : Ptr} {old new : CString} (ho : s.names old = none) :
      Answers s (.rename olddir old newdir new) (.error .enoent) s
  | renameFails {olddir newdir : Ptr} {old new : CString} {e : Errno} (ho : s.names old ≠ none)
      (he : Refused s new e) : Answers s (.rename olddir old newdir new) (.error e) s
  | io {p : Ptr} {c : Call} {i : UInt32} {f f' : Content} {x : Uio × Result}
      (hp : s.handles p = some i) (hf : s.objects i = some f) (hc : c.Ends f x f') :
      Answers s (.io p c) (.ok (.moved x)) (s.put i f')
  | truncate {p : Ptr} {len : Int} {i : UInt32} {f f' : Content} (hp : s.handles p = some i)
      (hf : s.objects i = some f) (hc : Cropped f len.toNat f') :
      Answers s (.truncate p len) (.ok .done) (s.put i f')
  | ioDir {p : Ptr} {c : Call} (hp : s.handles p = some sfsRootLocation) :
      Answers s (.io p c) (.ok (.moved (c.uio, some .eisdir))) s
  | truncateDir {p : Ptr} {len : Int} (hp : s.handles p = some sfsRootLocation) :
      Answers s (.truncate p len) (.error .eisdir) s
  | fsync {p : Ptr} : Answers s (.fsync p) (.ok .done) s
  | incref {p : Ptr} {i : UInt32} (hp : s.handles p = some i) :
      Answers s (.incref p) (.ok .done) (s.take p i)
  | decref {p : Ptr} {i : UInt32} (hp : s.handles p = some i) :
      Answers s (.decref p) (.ok .done) ((s.drop p i).reap i)
  | incopen {p : Ptr} {i : UInt32} (hp : s.handles p = some i) :
      Answers s (.incopen p) (.ok .done) (s.reopen i (s.opens i + 1))
  | decopen {p : Ptr} {i : UInt32} (hp : s.handles p = some i) :
      Answers s (.decopen p) (.ok .done) (s.reopen i (s.opens i - 1))

/-- The volume in `w` carries the flat file system `s`, and the disk works; so does `kmalloc`, if
`M`. -/
def Carries (M : Prop) (w : World) (s : Flat) : Prop := ∃ r, Keeps M r w ∧ r.Balanced ∧ r.flat = s

/-- The volume in `w` carries the flat file system `s`, and nothing is going to fail. -/
abbrev Shows (w : World) (s : Flat) : Prop := Carries True w s

/-- The operation was answered as the flat file system `s` does, and the directory, which had the
table `t`, got longer only if no slot was free. -/
def Answered (M : Prop) (s : Flat) (t : Slots CString UInt32) (op : FsOp) (x : Except Errno FsRet)
    (w' : World) : Prop :=
  ∃ s', Carries M w' s' ∧ Answers s op x s' ∧ t.Reuses (vol w').table

/-- The operations that do not come back: `sfs_getroot` panics when there is no memory for the vnode
of the root directory, and `sfs_rename` asserts that the old name is that of a regular file. -/
inductive Panics (M : Prop) (s : Flat) : FsOp → Stop → Prop
  | getroot (hM : ¬ M) : Panics M s .getroot .getroot
  | rename {olddir newdir : Ptr} {old new : CString} (ho : s.names old = some sfsRootLocation) :
      Panics M s (.rename olddir old newdir new) .renameType

/-- What an operation may do: answer, find no memory, or panic. -/
def Meets (M : Prop) (s : Flat) (t : Slots CString UInt32) (op : FsOp) : Post machine FsRet where
  ok a w' := Answered M s t op (.ok a) w'
  err e w' := Answered M s t op (.error e) w' ∨ ¬ M ∧ e = .enomem ∧ Carries M w' s
  stopped m w' := Panics M s op m ∧ ∃ s', Carries M w' s'

/-! ## One operation -/

theorem LinkFails.refused (hl : LinkFails r.slots name e) : Refused r.flat name e := by
  cases hl with
  | eexist hx => exact .eexist hx
  | enametoolong hx hlen => exact .enametoolong hx hlen
  | enospc hx _ => exact .enospc hx

theorem incr_toNat (x : UInt16) (hx : x.toNat = k) (hk : k + 1 < 2 ^ 16) :
    (x + 1).toNat = k + 1 := by
  rw [UInt16.toNat_add, hx, show (1 : UInt16).toNat = 1 from rfl, Nat.mod_eq_of_lt hk]

theorem decr_toNat (x : UInt16) (hx : x.toNat = k) (hk : 0 < k) : (x - 1).toNat = k - 1 := by
  have hlt := x.toNat_lt
  rw [UInt16.toNat_sub, hx, show (1 : UInt16).toNat = 1 from rfl]
  omega

theorem Call.Ends.small {c : Call} {f f' : Content} {x : Uio × Result}
    (hc : c.Ends f x f') (hf : f.size < 2 ^ 31) : f'.size < 2 ^ 31 := by
  have hrange := c.range
  have hdata : c.data.length ≤ c.uio.uioResid := List.length_take_le _ _
  simp only [rangeLimit, doubleLimit] at hrange
  cases hc with
  | read _ _ => exact hf
  | readFull _ _ => exact hf
  | wrote _ _ =>
    show max f.size (c.uio.pos + c.data.length) < 2 ^ 31
    omega
  | wroteFull _ l hl _ =>
    have := hl.length_le
    show max f.size (c.uio.pos + l.length) < 2 ^ 31
    omega

/-- A handle is still one when a reference has been taken through another. -/
theorem Register.handle_take (hd : r.handles d = some sfsRootLocation)
    (hopen : r.handles sv = some i ∨ r.handles sv = none ∧ r.refs i = 0) :
    (r.take sv i).handles d = some sfsRootLocation := by
  show Function.update r.handles sv (some i) d = some sfsRootLocation
  by_cases hx : d = sv
  · subst hx
    rw [hd] at hopen
    rcases hopen with hi | ⟨hi, -⟩
    · rw [Function.update_self, hi]
    · cases hi
  · rwa [Function.update_of_ne hx]

namespace Keeps

variable (h : Keeps M r w)
include h

theorem answered {t : Slots CString UInt32} {op : FsOp} {x : Except Errno FsRet}
    (hb : r.Balanced) (hs : r.flat = s') (ht : t.Reuses r.slots) (ha : Answers s op x s') :
    Answered M s t op x w :=
  ⟨s', ⟨r, h, hb, hs⟩, ha, by rwa [h.slots]⟩

/-- The operation found no memory, and changed nothing. -/
theorem unserved {t : Slots CString UInt32} {op : FsOp} (hM : ¬ M) (hb : r.Balanced) :
    (Meets M r.flat t op).err .enomem w := .inr ⟨hM, rfl, r, h, hb, rfl⟩

theorem names_eq : r.flat.names name = some i ↔ ∃ j, r.slots.Binds j name i :=
  Slots.find_eq_some h.distinct

/-- A reference that was just taken is not open. -/
theorem spare_take : (r.take p i).opens i < (r.take p i).refs i := by
  show r.opens i < Function.update r.refs i (r.refs i + 1) i
  rw [Function.update_self]
  exact Nat.lt_succ_of_le (h.opens_le i)

theorem vnOps_eq (hp : r.handles p = some i) : (w.st.fs.heap p).vnOps =
    if i = sfsRootLocation then .sfsDirops else .sfsFileops := by
  obtain ⟨hready, hpi, -⟩ := h.file hp
  rw [← hpi]
  exact h.core.ops p hready.vnode

theorem fileops (hp : r.handles p = some i) (hroot : i ≠ sfsRootLocation) :
    (w.st.fs.heap p).vnOps = .sfsFileops := by rw [h.vnOps_eq hp, if_neg hroot]

theorem dirops (hd : r.handles d = some sfsRootLocation) :
    (w.st.fs.heap d).vnOps = .sfsDirops := by rw [h.vnOps_eq hd, if_pos rfl]

theorem wp_dirOnly {α : Type} {op : Kern α} {Q : Post machine α}
    (hd : r.handles d = some sfsRootLocation) (hop : op.wp Q w) : (dirOnly d op).wp Q w := by
  rw [dirOnly, Prog.wp_bind, wp_getVnode]
  dsimp only
  rw [h.dirops hd]
  exact hop

theorem isDir (hd : r.handles d = some sfsRootLocation) :
    ¬ (w.st.fs.heap d).svI.sfiType ≠ sfsTypeDir := by
  obtain ⟨hready, hino, -⟩ := h.file hd
  have ht := h.core.type _ h.core.root
  rw [if_pos rfl, ← hino, h.core.inode_eq hready.vnode] at ht
  exact not_not.mpr ht

/-! ### Finding vnodes -/

theorem wp_getroot {Q : Post machine Ptr}
    (hok : ∀ p w', Keeps M (r.take p sfsRootLocation) w' → r.flat.Opens p sfsRootLocation →
      Q.ok p w')
    (hmem : ¬ M → ∀ w', Keeps M r w' → Q.stopped .getroot w') : sfsGetroot.wp Q w := by
  rw [sfsGetroot, Prog.wp_bind, wp_attempt]
  refine h.load h.core.root (fun p w' h' hp => ?_) fun hM w' h' => ?_
  · dsimp only
    rw [Prog.wp_pure]
    exact hok p w' h' hp
  · dsimp only
    rw [Prog.wp_stop]
    exact hmem hM w' h'

theorem wp_incref {Q : Post machine Unit} (hp : r.handles p = some i)
    (hok : ∀ w', Keeps M (r.take p i) w' → Q.ok () w') : (vnodeIncref p).wp Q w := by
  obtain ⟨hready, hpi, -⟩ := h.file hp
  have ho := opened_setRefs h.core hready.vnode
  rw [hpi] at ho
  rw [vnodeIncref, wp_modifyVnode]
  exact hok _ (h.take ho ⟨id, id, id⟩)

theorem wp_lookparent {Q : Post machine (Ptr × CString)} {path : CString} {buflen : Nat}
    (hd : r.handles d = some sfsRootLocation)
    (hok : path.length + 1 ≤ buflen → ∀ w', Keeps M (r.take d sfsRootLocation) w' →
      Q.ok (d, path) w')
    (herr : buflen < path.length + 1 → Q.err .enametoolong w) :
    (vopLookparent d path buflen).wp Q w := by
  rw [vopLookparent]
  refine h.wp_dirOnly hd ?_
  rw [sfsLookparent, Prog.wp_bind, wp_getVnode]
  dsimp only
  rw [if_neg (h.isDir hd)]
  by_cases hlen : path.length + 1 > buflen
  · rw [if_pos hlen, Prog.wp_fail]
    exact herr hlen
  · rw [if_neg hlen, Prog.wp_bind]
    refine h.wp_incref hd fun w' h' => ?_
    dsimp only
    rw [Prog.wp_pure]
    exact hok (Nat.le_of_not_lt hlen) w' h'

theorem wp_lookup {Q : Post machine Ptr} (hd : r.handles d = some sfsRootLocation)
    (hb : r.Balanced)
    (hok : ∀ i p w', r.flat.names name = some i → Keeps M (r.take p i) w' → r.flat.Opens p i →
      Q.ok p w')
    (hnone : ∀ w', r.flat.names name = none → Keeps M r w' → Q.err .enoent w')
    (hmem : ¬ M → ∀ w', Keeps M r w' → Q.err .enomem w') :
    (vopLookup d name).wp Q w := by
  rw [vopLookup]
  refine h.wp_dirOnly hd ?_
  rw [sfsLookup, Prog.wp_bind, wp_getVnode]
  dsimp only
  rw [if_neg (h.isDir hd), Prog.wp_bind]
  refine h.lookonce hd hb (fun i sv j w' hbind h' hp => ?_) (fun hn w' h' => hnone w' hn h') hmem
  dsimp only
  rw [Prog.wp_pure]
  exact hok i sv w' (h.names_eq.mpr ⟨j, hbind⟩) h' hp

theorem live_of_name (hn : r.flat.names name = some i) : r.live i := by
  obtain ⟨j, hj⟩ := h.names_eq.mp hn
  exact h.named j name i hj

theorem getroot (hb : r.Balanced) :
    FsOp.getroot.call.wp (Meets M r.flat r.slots .getroot) w := by
  rw [FsOp.call, Prog.wp_bind]
  refine h.wp_getroot (fun p w' h' hp => ?_) fun hM w' h' => ⟨.getroot hM, r.flat, r, h', hb, rfl⟩
  dsimp only
  rw [Prog.wp_pure]
  exact h'.answered (hb.take h.core.root) rfl (.refl _) (.getroot hp)

theorem lookparent {path : CString} {buflen : Nat} (hb : r.Balanced)
    (hd : r.handles d = some sfsRootLocation) :
    (FsOp.lookparent d path buflen).call.wp
      (Meets M r.flat r.slots (.lookparent d path buflen)) w := by
  rw [FsOp.call, Prog.wp_bind]
  refine h.wp_lookparent hd (fun hlen w' h' => ?_) fun hlen => ?_
  · dsimp only
    rw [Prog.wp_pure]
    exact h'.answered (hb.take h.core.root) rfl (.refl _) (.lookparent hlen hd)
  · exact .inl (h.answered hb rfl (.refl _) (.lookparentFails hlen))

theorem lookup (hb : r.Balanced) (hd : r.handles d = some sfsRootLocation) :
    (FsOp.lookup d name).call.wp (Meets M r.flat r.slots (.lookup d name)) w := by
  rw [FsOp.call, Prog.wp_bind]
  refine h.wp_lookup hd hb (fun i p w' hn h' hp => ?_)
    (fun w' hn h' => .inl (h'.answered hb rfl (.refl _) (.lookupNone hn)))
    fun hM w' h' => h'.unserved hM hb
  dsimp only
  rw [Prog.wp_pure]
  exact h'.answered (hb.take (h.live_of_name hn)) rfl (.refl _) (.lookup hn hp)

theorem incref (hb : r.Balanced) (hp : r.handles p = some i) :
    (FsOp.incref p).call.wp (Meets M r.flat r.slots (.incref p)) w := by
  obtain ⟨-, -, hi⟩ := h.file hp
  rw [FsOp.call, Prog.wp_bind]
  refine h.wp_incref hp fun w' h' => ?_
  dsimp only
  rw [Prog.wp_pure]
  exact h'.answered (hb.take hi) rfl (.refl _) (.incref hp)

theorem decref (hb : r.Balanced) (hp : r.handles p = some i) (hs : r.opens i < r.refs i) :
    (FsOp.decref p).call.wp (Meets M r.flat r.slots (.decref p)) w := by
  obtain ⟨-, -, hi⟩ := h.file hp
  rw [FsOp.call, Prog.wp_bind]
  refine h.release hb hp hs fun w' h' => ?_
  dsimp only
  rw [Prog.wp_pure]
  exact h'.answered (hb.drop hi (h.refs_pos hp))
    (Register.flat_drop h.distinct hb hi (h.refs_pos hp)) (.refl _) (.decref hp)

/-! ### Names -/

/-- The end of `sfs_creat`: the new file gets its name, or goes again. -/
theorem creat_link {r₀ : Register} {excl : Bool} (hr : r = r₀.adopt p c) (hb : r₀.Balanced)
    (hnew : ¬ r₀.live c) (hroot : c ≠ sfsRootLocation) (hfree : r₀.handles p = none)
    (hnone : r₀.flat.names name = none) (hroom : NameFits r₀.slots name)
    (hd : r₀.handles d = some sfsRootLocation) (hopen : r₀.opens c = 0)
    {Q : Post machine Ptr}
    (hok : ∀ w', Answered M r₀.flat r₀.slots (.creat d name excl) (.ok (.vnode p)) w' → Q.ok p w')
    (herr : ∀ e w', Answered M r₀.flat r₀.slots (.creat d name excl) (.error e) w' → Q.err e w') :
    (do
      match ← (sfsDirLink d name (← getVnode p).svIno).attempt with
      | .error e => do
        vnodeDecref p
        Prog.fail e
      | .ok _ => do
        Kern.modifyInode p fun i => { i with sfiLinkcount := i.sfiLinkcount + 1 }
        setDirty p
        return p : Kern Ptr).wp Q w := by
  have hp : r.handles p = some c := by
    rw [hr]
    exact Function.update_self ..
  have hlive : r.live c := by
    rw [hr]
    exact .inr rfl
  have hlinks : r.links c = 0 := by
    rw [hr]
    exact Function.update_self ..
  have hrefs : r.refs c = 1 := by
    rw [hr]
    exact Function.update_self ..
  have hslots : r.slots = r₀.slots := by rw [hr]; rfl
  have hb₁ : r.Balanced := hr ▸ hb.adopt hnew
  have hflat : r.flat = (r₀.flat.put c ⟨0, fun _ => 0⟩).take p c :=
    hr ▸ Register.flat_adopt hb hnew hroot
  have hobj : r₀.flat.objects c = none := if_neg fun hx => hnew hx.1
  have hino : (w.st.fs.heap p).svIno = c := (h.file hp).2.1
  rw [Prog.wp_bind, wp_getVnode]
  dsimp only
  rw [hino, Prog.wp_bind, wp_attempt]
  have hdir : r.handles d = some sfsRootLocation := by
    rw [hr]
    refine (Function.update_of_ne ?_ _ _).trans hd
    rintro rfl
    rw [hfree] at hd
    cases hd
  refine h.dirLink hdir hlive (by rwa [hslots]) (fun j w₁ hl h₁ => ?_) fun e w₁ hl h₁ => ?_
  · dsimp only
    refine h₁.setLinks_then (f := (· + 1)) (k := r.links c + 1) hp
      (fun x hx => incr_toNat x hx (by show r.links c + 1 < _; rw [hlinks]; decide))
        fun w₂ h₂ => ?_
    rw [Prog.wp_pure]
    have hreuse : r₀.slots.Reuses (r.link j name c).slots := by
      rw [← hslots]
      exact .put hl.reused hl.free.le
    refine hok w₂ (h₂.answered (hb₁.link hlive hl.free) rfl hreuse ?_)
    have : (r.link j name c).flat = (((r₀.flat.put c ⟨0, fun _ => 0⟩).bind name c).take p c) := by
      rw [Register.flat_link h.distinct hl, hflat]
      rfl
    show Answers r₀.flat _ _ (r.link j name c).flat
    rw [this]
    exact .creatNew hnone hl.fits hroot hobj hfree
  · dsimp only
    rw [Prog.wp_bind]
    refine h₁.release hb₁ hp (by rw [hrefs, show r.opens c = 0 by rw [hr]; exact hopen]; decide)
      fun w₂ h₂ => ?_
    dsimp only
    rw [Prog.wp_fail]
    have hidle : r₀.flat.Idle c := (Register.flat_idle (hslots ▸ h.distinct) hb hroot).mpr hnew
    have hback : (r.drop p c).flat = r₀.flat := by
      rw [Register.flat_drop h.distinct hb₁ hlive (by omega), hflat,
        NamedStore.drop_take (s := r₀.flat.put c ⟨0, fun _ => 0⟩) (.inr ⟨hfree, hidle.1⟩)
          (fun hx => by rw [show (r₀.flat.put c _).handles p = none from hfree] at hx; cases hx),
        NamedStore.reap_put hidle hobj]
    rw [hslots] at hl
    refine herr e w₂ (h₂.answered (hb₁.drop hlive (by omega)) hback ?_
      (.creatFails hnone hl.refused))
    show r₀.slots.Reuses r.slots
    rw [hslots]
    exact .refl _

theorem creat (hb : r.Balanced) (hd : r.handles d = some sfsRootLocation) (excl : Bool)
    (hroom : NameFits r.slots name) :
    (FsOp.creat d name excl).call.wp (Meets M r.flat r.slots (.creat d name excl)) w := by
  rw [FsOp.call, Prog.wp_bind, vopCreat]
  refine h.wp_dirOnly hd ?_
  rw [sfsCreat, Prog.wp_bind]
  refine h.findname hd fun f w₁ h₁ _ hs => ?_
  have hfind := hs.find_eq h.distinct
  dsimp only
  cases hf : f.found with
  | some x =>
    obtain ⟨i, j⟩ := x
    have hbind := (hs.found i j hf).2
    have hi := h.named j name i hbind
    have hname : r.flat.names name = some i := h.names_eq.mpr ⟨j, hbind⟩
    dsimp only
    cases excl with
    | true =>
      rw [if_pos rfl, Prog.wp_fail]
      exact .inl (h₁.answered hb rfl (.refl _)
        (.creatExcl (by rw [hname]; exact Option.some_ne_none _)))
    | false =>
      rw [if_neg Bool.false_ne_true]
      refine h₁.load hi (fun sv w₂ h₂ hp => ?_) fun hM w' h' => h'.unserved hM hb
      dsimp only
      rw [Prog.wp_pure]
      exact h₂.answered (hb.take hi) rfl (.refl _) (.creatOld hname hp)
  | none =>
    rw [hf] at hfind
    have hnone : r.flat.names name = none := hfind
    dsimp only
    rw [Prog.wp_bind]
    obtain ⟨hready, -, -⟩ := h₁.file hd
    refine h₁.makeobj hready.vnode (fun c w₂ hc h₂ => ?_) ?_ fun hM w' h' => h'.unserved hM hb
    · have hnew : ¬ r.live c := hc.not_live h₁.core
      have hroot : c ≠ sfsRootLocation := fun hx => hnew (hx ▸ h.core.root)
      have hfree : r.handles (vol w₁).fs.brk = none := by
        cases hx : r.handles (vol w₁).fs.brk with
        | none => rfl
        | some i => exact absurd (h₁.core.below _ (h₁.handle_eq_some.mp hx).1) (Nat.lt_irrefl _)
      have hopen : r.opens c = 0 := by
        have := h.opens_le c
        rw [(hb.not_live hnew).1] at this
        exact Nat.le_zero.mp this
      exact h₂.creat_link rfl hb hnew hroot hfree hnone hroom hd hopen
        (fun w' ha => (Prog.wp_pure _).mpr ha) fun e w' ha => .inl ha
    · exact .inl (h₁.answered hb rfl (.refl _) (.creatFails hnone (.enospc hnone)))

theorem link (hb : r.Balanced) (hd : r.handles d = some sfsRootLocation)
    (hp : r.handles p = some i) (hroom : NameFits r.slots name)
    (hmax : r.slots.find name = none → r.links i + 1 < 2 ^ 16) :
    (FsOp.link d name p).call.wp (Meets M r.flat r.slots (.link d name p)) w := by
  obtain ⟨-, hpi, hi⟩ := h.file hp
  have hino : (w.st.fs.heap p).svIno = i := hpi
  rw [FsOp.call, Prog.wp_bind, vopLink]
  refine h.wp_dirOnly hd ?_
  rw [sfsLink, Prog.wp_bind, wp_getVnode]
  dsimp only
  rw [hino, Prog.wp_bind]
  refine h.dirLink hd hi hroom (fun j w₁ hl h₁ => ?_) fun e w₁ hl h₁ => ?_
  · dsimp only
    refine h₁.setLinks (f := (· + 1)) (k := r.links i + 1) hp
      (fun x hx => incr_toNat x hx (hmax hl.absent)) fun w₂ h₂ => ?_
    dsimp only
    rw [Prog.wp_pure]
    refine h₂.answered (hb.link hi hl.free) rfl (.put hl.reused hl.free.le) ?_
    show Answers r.flat _ _ (r.link j name i).flat
    rw [Register.flat_link h.distinct hl]
    exact .link hl.absent hl.fits hp
  · exact .inl (h₁.answered hb rfl (.refl _) (.linkFails hl.refused))

omit h in
/-- After a slot of file `i` was freed its link count goes down, and with the reference in `sv`
perhaps the file. -/
theorem unlinked {m : Stop} {Q : Post machine Unit} (hb : r.Balanced) (hdis : r.slots.Distinct)
    (hbind : r.slots.Binds j name i) (hi : r.live i) (hp : r.handles sv = some i)
    (hspare : r.opens i < r.refs i) (h : Keeps M (r.enter (r.slots.put j none)) w)
    (hok : ∀ w', Keeps M ((r.unlink j i).drop sv i) w' → ((r.unlink j i).drop sv i).Balanced →
      ((r.unlink j i).drop sv i).flat = ((r.flat.unbind name).drop sv i).reap i → Q.ok () w') :
    (do
      if (← getVnode sv).svI.sfiLinkcount = 0 then Prog.stop m
      else do
        Kern.modifyInode sv fun i => { i with sfiLinkcount := i.sfiLinkcount - 1 }
        setDirty sv
        vnodeDecref sv : Kern Unit).wp Q w := by
  have hpos : 0 < r.refs i := Nat.zero_lt_of_lt hspare
  have hlinks := hb.links i hi
  have huses : 0 < r.slots.uses i := Slots.uses_pos.mpr ⟨j, name, hbind⟩
  have hcount : (w.st.fs.heap sv).svI.sfiLinkcount.toNat = r.links i :=
    (h.linkcount_of_handle (i := i) hp).2
  have hlinked : 0 < r.links i := by omega
  have hne : ¬ (w.st.fs.heap sv).svI.sfiLinkcount = 0 := fun h0 => by
    rw [h0] at hcount
    exact absurd hcount.symm (Nat.ne_of_gt hlinked)
  have hb' : (r.unlink j i).Balanced := hb.unlink hi hpos hbind
  rw [Prog.wp_bind, wp_getVnode]
  dsimp only
  rw [if_neg hne]
  refine h.setLinks_then (f := (· - 1)) (k := r.links i - 1) hp
    (fun x hx => decr_toNat x hx hlinked) fun w₁ h₁ => ?_
  refine h₁.release (r := r.unlink j i) (i := i) hb' hp hspare
    fun w₂ h₂ => hok w₂ h₂ (hb'.drop hi hpos) ?_
  rw [Register.flat_drop (r := r.unlink j i) h₁.distinct hb' hi hpos,
    Register.flat_unlink hdis hbind]

theorem remove (hb : r.Balanced) (hd : r.handles d = some sfsRootLocation) :
    (FsOp.remove d name).call.wp (Meets M r.flat r.slots (.remove d name)) w := by
  rw [FsOp.call, Prog.wp_bind, vopRemove]
  refine h.wp_dirOnly hd ?_
  rw [sfsRemove, Prog.wp_bind]
  refine h.lookonce hd hb (fun i sv j w₁ hbind h₁ hopen => ?_) (fun hn w' h' => ?_)
    fun hM w' h' => h'.unserved hM hb
  · have hi := h.named j name i hbind
    have hp : (r.take sv i).handles sv = some i := Function.update_self ..
    dsimp only
    rw [Prog.wp_bind, wp_attempt]
    refine h₁.dirUnlink (Register.handle_take hd hopen) hbind fun w₂ h₂ => ?_
    dsimp only
    refine unlinked (r := r.take sv i) (hb.take hi) h.distinct hbind hi hp h.spare_take h₂
      fun w₃ h₃ hb₃ hflat => ?_
    dsimp only
    rw [Prog.wp_pure]
    refine h₃.answered hb₃ hflat (.trans_put (.refl _) hbind.lt) ?_
    have hback : ((r.take sv i).flat.unbind name).drop sv i = r.flat.unbind name :=
      congrArg (fun s => NamedStore.unbind s name)
        (NamedStore.drop_take (s := r.flat) hopen fun hx => h.refs_pos hx)
    rw [hback]
    exact .remove (h.names_eq.mpr ⟨j, hbind⟩)
  · exact .inl (h'.answered hb rfl (.refl _) (.removeNone hn))

/-- The assertion in `sfs_rename` that it renames a regular file. -/
theorem wp_rename_root {Q : Post machine Unit} {new : CString} (hb : r.Balanced)
    (hd : r.handles d = some sfsRootLocation) (hn : r.slots.find name = some sfsRootLocation)
    (hstop : ∀ sv w', Keeps M (r.take sv sfsRootLocation) w' → Q.stopped .renameType w')
    (hmem : ¬ M → ∀ w', Keeps M r w' → Q.err .enomem w') :
    (vopRename d name d new).wp Q w := by
  obtain ⟨-, hino, -⟩ := h.file hd
  have hnot : ¬ (w.st.fs.heap d).svIno ≠ sfsRootLocation := not_not.mpr hino
  rw [vopRename]
  refine h.wp_dirOnly hd ?_
  rw [sfsRename, if_neg (not_not.mpr rfl), Prog.wp_bind, wp_getVnode]
  dsimp only
  rw [if_neg hnot, Prog.wp_bind]
  refine h.lookonce hd hb (fun i sv j w₁ hbind h₁ _ => ?_) (fun hx => ?_) hmem
  · have hi : r.slots.find name = some i := h.names_eq.mpr ⟨j, hbind⟩
    rw [hn] at hi
    cases hi
    have hp : (r.take sv sfsRootLocation).handles sv = some sfsRootLocation :=
      Function.update_self ..
    have hdir : (w₁.st.fs.heap sv).svI.sfiType = sfsTypeDir := not_not.mp (h₁.isDir hp)
    dsimp only
    rw [Prog.wp_bind, wp_getVnode]
    dsimp only
    rw [if_pos (by rw [hdir]; decide), Prog.wp_stop]
    exact hstop sv w₁ h₁
  · rw [hn] at hx
    cases hx

theorem rename {new : CString} (hb : r.Balanced) (hd : r.handles d = some sfsRootLocation)
    (hfits : ∀ i, r.flat.names name = some i → i ≠ sfsRootLocation →
      NameFits r.slots new ∧ (r.slots.find new = none → r.links i + 1 < 2 ^ 16)) :
    (FsOp.rename d name d new).call.wp (Meets M r.flat r.slots (.rename d name d new)) w := by
  by_cases hrootname : r.flat.names name = some sfsRootLocation
  · rw [FsOp.call, Prog.wp_bind]
    exact h.wp_rename_root hb hd hrootname (fun sv w' h' =>
      ⟨.rename hrootname, _, _, h', hb.take h.core.root, rfl⟩) fun hM w' h' => h'.unserved hM hb
  obtain ⟨-, hino, -⟩ := h.file hd
  have hnot : ¬ (w.st.fs.heap d).svIno ≠ sfsRootLocation := not_not.mpr hino
  rw [FsOp.call, Prog.wp_bind, vopRename]
  refine h.wp_dirOnly hd ?_
  rw [sfsRename, if_neg (not_not.mpr rfl), Prog.wp_bind, wp_getVnode]
  dsimp only
  rw [if_neg hnot, Prog.wp_bind]
  refine h.lookonce hd hb (fun i sv j w₁ hbind h₁ hopen => ?_) (fun hn w' h' => ?_)
    fun hM w' h' => h'.unserved hM hb
  · have hi := h.named j name i hbind
    have hname : r.flat.names name = some i := h.names_eq.mpr ⟨j, hbind⟩
    have hp : (r.take sv i).handles sv = some i := Function.update_self ..
    have hb₁ : (r.take sv i).Balanced := hb.take hi
    have hpos : 0 < (r.take sv i).refs i := h₁.refs_pos hp
    obtain ⟨hready, hpi, -⟩ := h₁.file hp
    have hino : (w₁.st.fs.heap sv).svIno = i := hpi
    have hroot : i ≠ sfsRootLocation := fun hx => hrootname (hx ▸ hname)
    have hfile : ¬ (w₁.st.fs.heap sv).svI.sfiType ≠ sfsTypeFile := by
      have ht := h₁.core.type i hi
      rw [if_neg hroot, ← hpi, h₁.core.inode_eq hready.vnode] at ht
      exact not_not.mpr ht
    obtain ⟨hroom, hmax⟩ := hfits i hname hroot
    have hback : (r.take sv i).flat.drop sv i = r.flat :=
      NamedStore.drop_take (s := r.flat) hopen fun hx => h.refs_pos hx
    dsimp only
    rw [Prog.wp_bind, wp_getVnode]
    dsimp only
    rw [if_neg hfile, hino, Prog.wp_bind, wp_attempt]
    have hd₁ := Register.handle_take hd hopen
    refine h₁.dirLink hd₁ hi hroom (fun x w₂ hl h₂ => ?_) fun e w₂ hl h₂ => ?_
    · -- the file has its new name as well
      dsimp only
      have hl : LinkedAt r.slots new x := hl
      have hne : j ≠ x := fun hx => hl.free.not_binds (hx ▸ hbind)
      have hb₂ : ((r.take sv i).link x new i).Balanced := hb₁.link hi hl.free
      have hbind₂ : ((r.take sv i).link x new i).slots.Binds j name i := by
        show Slots.Binds (r.slots.put x _) j name i
        rw [Slots.binds_put hl.free.le, if_neg hne]
        exact hbind
      rw [sfsRename.unlinkOld]
      refine h₂.setLinks_then (f := (· + 1)) (k := r.links i + 1) hp
        (fun y hy => incr_toNat y hy (hmax hl.absent)) fun w₃ h₃ => ?_
      have h₃' : Keeps M ((r.take sv i).link x new i) w₃ := h₃
      rw [Prog.wp_bind, wp_attempt]
      refine h₃'.dirUnlink hd₁ hbind₂ fun w₄ h₄ => ?_
      dsimp only
      refine unlinked (r := (r.take sv i).link x new i) hb₂ h₃'.distinct hbind₂ hi hp
        (h.spare_take (p := sv)) h₄ fun w₅ h₅ hb₅ hflat => ?_
      dsimp only
      rw [Prog.wp_pure]
      refine h₅.answered hb₅ hflat ?_ ?_
      · have hreuse : r.slots.Reuses (r.slots.put x (some (new, i))) := .put hl.reused hl.free.le
        exact hreuse.trans_put hbind₂.lt
      have hdrop : (((r.take sv i).link x new i).flat.unbind name).drop sv i =
          (r.flat.bind new i).unbind name := by
        rw [Register.flat_link (r := r.take sv i) h₁.distinct hl]
        exact congrArg (fun s => NamedStore.unbind (NamedStore.bind s new i) name) hback
      have hnew : new ≠ name := fun hx => by
        have := hl.absent
        rw [hx] at this
        rw [show r.flat.names name = r.slots.find name from rfl,
          show r.slots.find name = none from this] at hname
        cases hname
      have hidle : ¬ ((r.flat.bind new i).unbind name).Idle i :=
        NamedStore.not_idle_of_name (n := new)
          ((Function.update_of_ne hnew _ _).trans (Function.update_self ..))
      rw [hdrop, NamedStore.reap_of_not_idle hidle]
      exact .rename hname hl.absent hl.fits
    · dsimp only
      rw [Prog.wp_bind]
      refine h₂.release hb₁ hp h.spare_take fun w₃ h₃ => ?_
      dsimp only
      rw [Prog.wp_fail]
      have hflat : ((r.take sv i).drop sv i).flat = r.flat := by
        rw [Register.flat_drop h₁.distinct hb₁ hi hpos, hback,
          NamedStore.reap_of_not_idle (NamedStore.not_idle_of_name hname)]
      exact .inl (h₃.answered (hb₁.drop hi hpos) hflat (.refl _)
        (.renameFails (by rw [hname]; exact Option.some_ne_none _)
          (LinkFails.refused (r := r) hl)))
  · exact .inl (h'.answered hb rfl (.refl _) (.renameNone hn))

/-! ### Contents -/

theorem ioDir {c : Call} (hb : r.Balanced) (hp : r.handles p = some sfsRootLocation) :
    (FsOp.io p c).call.wp (Meets M r.flat r.slots (.io p c)) w := by
  have ha : Answered M r.flat r.slots (.io p c) (.ok (.moved (c.uio, some .eisdir))) w :=
    h.answered hb rfl (.refl _) (.ioDir hp)
  have hops := h.dirops hp
  rw [FsOp.call, Prog.wp_bind, Call.vop]
  split
  · rw [vopRead, Prog.wp_bind, wp_getVnode]
    dsimp only
    rw [hops, Prog.wp_pure]
    exact (Prog.wp_pure _).mpr ha
  · rw [vopWrite, Prog.wp_bind, wp_getVnode]
    dsimp only
    rw [hops, Prog.wp_pure]
    exact (Prog.wp_pure _).mpr ha

theorem truncateDir {len : Int} (hb : r.Balanced) (hp : r.handles p = some sfsRootLocation) :
    (FsOp.truncate p len).call.wp (Meets M r.flat r.slots (.truncate p len)) w := by
  rw [FsOp.call, Prog.wp_bind, vopTruncate, Prog.wp_bind, wp_getVnode]
  dsimp only
  rw [h.dirops hp, Prog.wp_fail]
  exact .inl (h.answered hb rfl (.refl _) (.truncateDir hp))

theorem io {c : Call} (hb : r.Balanced) (hp : r.handles p = some i) :
    (FsOp.io p c).call.wp (Meets M r.flat r.slots (.io p c)) w := by
  by_cases hroot : i = sfsRootLocation
  · exact h.ioDir hb (hroot ▸ hp)
  obtain ⟨hready, hpi, hi⟩ := h.file hp
  obtain ⟨hf, hsmall⟩ := h.content_of_handle hp hroot
  have hops := h.fileops hp hroot
  have hrun := wp_call_content (Q := ⟨fun x w' => Answered M r.flat r.slots (.io p c)
    (.ok (.moved x)) w', fun _ _ => False, fun _ _ => False⟩) hready
    (by rw [hf]; exact hsmall) c fun x w' hw hc he => ?_
  · rw [FsOp.call, Prog.wp_bind, Call.vop]
    rw [Call.run] at hrun
    have hfin : ∀ {m : Kern (Uio × Result)}, m.wp ⟨fun x w' => Answered M r.flat r.slots (.io p c)
        (.ok (.moved x)) w', fun _ _ => False, fun _ _ => False⟩ w →
        m.wp ⟨fun x w' => (pure (FsRet.moved x) : Kern FsRet).wp
            (Meets M r.flat r.slots (.io p c)) w',
          (Meets M r.flat r.slots (.io p c)).err,
          (Meets M r.flat r.slots (.io p c)).stopped⟩ w := fun hm =>
      hm.mono (fun x w' hx => (Prog.wp_pure _).mpr hx) (fun _ _ hx => hx.elim) fun _ _ hx => hx.elim
    by_cases hr : c.uio.uioRw = .uioRead
    · rw [if_pos hr] at hrun ⊢
      rw [vopRead, Prog.wp_bind, wp_getVnode]
      dsimp only
      rw [hops]
      exact hfin hrun
    · rw [if_neg hr] at hrun ⊢
      rw [vopWrite, Prog.wp_bind, wp_getVnode]
      dsimp only
      rw [hops]
      exact hfin hrun
  · rw [hf] at he
    have hk := h.write hp hroot hc hw rfl (he.small hsmall)
    refine hk.answered hb.write (Register.flat_write hi hroot) (.refl _) ?_
    exact .io hp (Register.objects_of_live hi hroot) he

theorem truncate {len : Int} (hb : r.Balanced) (hp : r.handles p = some i) (h0 : 0 ≤ len)
    (hlt : len < 2 ^ 31) :
    (FsOp.truncate p len).call.wp (Meets M r.flat r.slots (.truncate p len)) w := by
  by_cases hroot : i = sfsRootLocation
  · exact h.truncateDir hb (hroot ▸ hp)
  obtain ⟨hready, hpi, hi⟩ := h.file hp
  obtain ⟨hf, hsmall⟩ := h.content_of_handle hp hroot
  rw [FsOp.call, Prog.wp_bind, vopTruncate, Prog.wp_bind, wp_getVnode]
  dsimp only
  rw [h.fileops hp hroot]
  refine wp_sfsTruncate_volume hready fun w' hs hc => ?_
  dsimp only
  rw [Prog.wp_pure]
  have hcrop : Cropped (r.content i) len.toNat ((vol w').content i) := by
    rw [← hf, hpi]
    have hsize := hs.size
    have hfront (x : Nat) (hx : (x : Int) < len) := hs.bytes h.core hready.vnode h0 hlt hx
    have hback := hs.toPruned.byte_or
    rw [hpi] at hsize hfront hback
    refine ⟨?_, fun x hx => hfront x (by omega), hback⟩
    show ((vol w').inode i).sfiSize.toNat = len.toNat
    rw [hsize, u32_eq h0 (by omega), UInt32.toNat_ofNat']
    omega
  have hlink := hs.linkcount
  rw [hpi] at hlink
  have hsize : ((vol w').content i).size < 2 ^ 31 := by
    rw [hcrop.size]
    omega
  have hk := h.alter hp hroot hc hs.toConfined hs.front hlink rfl hsize
  refine hk.answered hb.write (Register.flat_write hi hroot) (.refl _) ?_
  exact .truncate hp (Register.objects_of_live hi hroot) hcrop

theorem fsync (hb : r.Balanced) (hp : r.handles p = some i) :
    (FsOp.fsync p).call.wp (Meets M r.flat r.slots (.fsync p)) w := by
  obtain ⟨hready, -, -⟩ := h.file hp
  rw [FsOp.call, Prog.wp_bind]
  refine h.wp_fsync hready.vnode fun w' h' _ => ?_
  dsimp only
  rw [Prog.wp_pure]
  exact h'.answered hb rfl (.refl _) .fsync

/-! ### Opening and closing -/

/-- How often the vnode is open changes. -/
theorem reopen (hp : r.handles p = some i) (hk : k ≤ r.refs i) (hc : Calm w w')
    (hv : vol w' = (vol w).setOpens p k) : Keeps M (r.reopen i k) w' := by
  obtain ⟨hm, rfl⟩ := h.handle_eq_some.mp hp
  have hf := onCounts_setOpens k
  have hrefs : ((vol w).fs.heap p).vnRefcount = r.refs ((vol w).ino p) := by
    rw [← h.core.refs_eq hm, h.refs]
  obtain ⟨hcore, hsame⟩ := hf.core h.core (h.core.held p hm) (by rw [hrefs]; exact hk)
  have hst := h.stored.front h.core.toGeo (front_modifyVnode (vol w) p
    fun n => { n with vnOpencount := k })
  have hhandle : (vol w').handle = (vol w).handle := by
    funext q
    rw [hv, Vol.handle, Vol.setOpens, hf.ino_eq]
    rfl
  have hrefs' := hf.refs_eq h.core hm
  have hopens' := hf.opens_eq h.core hm
  rw [← h.core.refs_eq hm, Function.update_eq_self] at hrefs'
  rw [Vol.setOpens] at hv
  rw [← hv] at hcore hsame hst hrefs' hopens'
  exact
    { toWorking := h.toWorking.calm hc
      core := hcore
      dir := h.dir.same hsame h.core.root
      slots := (hsame.table h.core.root).trans h.slots
      distinct := h.distinct
      named := h.named
      links := fun i hi => by
        rw [(hsame.attrs i hi).linkcount]
        exact h.links i hi
      content := fun i hi h0 => by
        rw [hsame.content hi]
        exact h.content i hi h0
      small := h.small
      handles := hhandle.trans h.handles
      refs := hrefs'.trans h.refs
      opens := by
        rw [hopens', h.opens]
        rfl
      stored := hst }

theorem wp_incopen {Q : Post machine Unit} (hp : r.handles p = some i)
    (hs : r.opens i < r.refs i) (hok : ∀ w', Keeps M (r.reopen i (r.opens i + 1)) w' → Q.ok () w') :
    (vnodeIncopen p).wp Q w := by
  rw [vnodeIncopen, wp_modifyVnode]
  refine hok _ (h.reopen hp hs ⟨id, id, id⟩ ?_)
  rw [← (h.counts_of_handle hp).2]
  rfl

theorem wp_decopen {Q : Post machine Unit} (hp : r.handles p = some i) (hpos : 0 < r.opens i)
    (hok : ∀ w', Keeps M (r.reopen i (r.opens i - 1)) w' → Q.ok () w') :
    (vnodeDecopen p).wp Q w := by
  have hopen := (h.counts_of_handle hp).2
  have hle := h.opens_le i
  rw [vnodeDecopen, Prog.wp_bind, wp_getVnode]
  dsimp only
  rw [if_neg (by rw [hopen]; exact Nat.ne_of_gt hpos), Prog.wp_bind, wp_modifyVnode]
  dsimp only
  generalize hw₁ : (⟨⟨w.st.fs.modifyVnode p _, w.st.bufs⟩, w.env⟩ : World) = w₁
  have h₁ : Keeps M (r.reopen i (r.opens i - 1)) w₁ := by
    rw [← hw₁]
    refine h.reopen hp (by omega) ⟨id, id, id⟩ ?_
    rw [← hopen]
    rfl
  split
  · rw [Prog.wp_pure]
    exact hok w₁ h₁
  · rw [Prog.wp_bind, wp_attempt]
    obtain ⟨hready, -, -⟩ := h₁.file (i := i) hp
    refine h₁.wp_fsync hready.vnode fun w' h' _ => ?_
    dsimp only
    rw [Prog.wp_pure]
    exact hok w' h'

theorem incopen (hb : r.Balanced) (hp : r.handles p = some i) (hs : r.opens i < r.refs i) :
    (FsOp.incopen p).call.wp (Meets M r.flat r.slots (.incopen p)) w := by
  rw [FsOp.call, Prog.wp_bind]
  refine h.wp_incopen hp hs fun w' h' => ?_
  dsimp only
  rw [Prog.wp_pure]
  exact h'.answered hb.reopen rfl (.refl _) (.incopen hp)

theorem decopen (hb : r.Balanced) (hp : r.handles p = some i) (hpos : 0 < r.opens i) :
    (FsOp.decopen p).call.wp (Meets M r.flat r.slots (.decopen p)) w := by
  rw [FsOp.call, Prog.wp_bind]
  refine h.wp_decopen hp hpos fun w' h' => ?_
  dsimp only
  rw [Prog.wp_pure]
  exact h'.answered hb.reopen rfl (.refl _) (.decopen hp)

end Keeps

/-- What an operation of callers that take care may do. -/
theorem FsOp.meets {op : FsOp} (h : Carries M w s) (hproper : op.Proper w) (hfits : op.Fits w) :
    op.call.wp (Meets M s (vol w).table op) w := by
  obtain ⟨r, h, hb, rfl⟩ := h
  rw [h.slots]
  have hfile {p : Ptr} (hp : Has p w) : ∃ i, r.handles p = some i := by
    rw [← h.handles]
    exact Option.ne_none_iff_exists'.mp hp
  have hroot {p : Ptr} (hp : HasRoot p w) : r.handles p = some sfsRootLocation := by
    rwa [← h.handles]
  cases op with
  | getroot => exact h.getroot hb
  | lookup dir name => exact h.lookup hb (hroot hproper)
  | lookparent dir path buflen => exact h.lookparent hb (hroot hproper)
  | creat dir name excl =>
    rw [FsOp.Fits, h.slots] at hfits
    exact h.creat hb (hroot hproper) excl hfits
  | link dir name file =>
    obtain ⟨hroom, hmax⟩ := hfits
    obtain ⟨hdir, hp⟩ := hproper
    obtain ⟨i, hp⟩ := hfile hp
    rw [h.slots] at hroom hmax
    rw [(h.linkcount_of_handle hp).2] at hmax
    exact h.link hb (hroot hdir) hp hroom hmax
  | remove dir name => exact h.remove hb (hroot hproper)
  | rename olddir old newdir new =>
    obtain ⟨hold, hnew⟩ := hproper
    obtain rfl : olddir = newdir := h.core.toTable.handle_unique hold hnew
    rw [FsOp.Fits, h.slots] at hfits
    refine h.rename hb (hroot hold) fun i hi hfile => ?_
    rw [← h.links i (h.live_of_name hi)]
    exact hfits i hi hfile
  | io file c =>
    obtain ⟨i, hp⟩ := hfile hproper
    exact h.io hb hp
  | truncate file len =>
    obtain ⟨hp, h0, hlt⟩ := hproper
    obtain ⟨i, hp⟩ := hfile hp
    exact h.truncate hb hp h0 hlt
  | fsync file =>
    obtain ⟨i, hp⟩ := hfile hproper
    exact h.fsync hb hp
  | incref file =>
    obtain ⟨i, hp⟩ := hfile hproper
    exact h.incref hb hp
  | decref file =>
    obtain ⟨hp, hs⟩ := hproper
    obtain ⟨i, hp⟩ := hfile hp
    exact h.decref hb hp ((h.spare_iff hp).mp hs)
  | incopen file =>
    obtain ⟨hp, hs⟩ := hproper
    obtain ⟨i, hp⟩ := hfile hp
    exact h.incopen hb hp ((h.spare_iff hp).mp hs)
  | decopen file =>
    obtain ⟨hp, hs⟩ := hproper
    obtain ⟨i, hp⟩ := hfile hp
    rw [(h.counts_of_handle hp).2] at hs
    exact h.decopen hb hp hs

/-- Every operation that is allowed returns, and as the flat file system says. -/
theorem FsOp.answered {op : FsOp} (h : Shows w s) (hv : op.Allowed w) :
    op.call.wp ⟨fun x w' => Answered True s (vol w).table op (.ok x) w',
      fun e w' => Answered True s (vol w).table op (.error e) w', fun _ _ => False⟩ w := by
  obtain ⟨hproper, hfits, hroot⟩ := hv
  refine (FsOp.meets h hproper hfits).mono (fun _ _ h => h) (fun e w' hx => ?_) fun m w' hx => ?_
  · exact hx.resolve_right fun hx => hx.1 trivial
  · obtain ⟨hpanic, -⟩ := hx
    obtain ⟨r, h, -, rfl⟩ := h
    cases hpanic with
    | getroot hM => exact hM trivial
    | rename ho =>
      rw [FsOp.LeavesRoot, h.slots] at hroot
      exact hroot ho

theorem FsOp.attempted {op : FsOp} (h : Shows w s) (hv : op.Allowed w) :
    op.call.attempt.wp ⟨fun x w' => Answered True s (vol w).table op x w',
      fun _ _ => False, fun _ _ => False⟩ w := by
  rw [wp_attempt]
  exact FsOp.answered h hv

theorem FsOp.meets_run {op : FsOp} (h : Shows w s) (hv : op.Allowed w) :
    ∃ x w', op.call.attempt.run machine w = (.ok x, w') ∧
      Answered True s (vol w).table op x w' :=
  Prog.ok_of_wp (FsOp.attempted h hv)

/-! ## Runs -/

section Calls

variable {α β : Type} (call : α → Kern β)

/-- One call after the other, whether they fail or not. -/
def eachCall : List α → Kern (List (Except Errno β))
  | [] => pure []
  | a :: as => do
    let x ← (call a).attempt
    return x :: (← eachCall as)

/-- `C` holds of every call when it is made. -/
def EachCall (C : World → α → Prop) : World → List α → Prop
  | _, [] => True
  | w, a :: as => C w a ∧
      ∀ x w', (call a).attempt.run machine w = (.ok x, w') → EachCall C w' as

end Calls

abbrev fsCalls : List FsOp → Kern (List (Except Errno FsRet)) := eachCall FsOp.call

/-- The volume in `w` has the handles of `s`. -/
theorem Carries.handle (h : Carries M w s) : (vol w).handle = s.handles := by
  obtain ⟨r, h, -, rfl⟩ := h
  exact h.handles

/-- A handle stays one until a reference is given back through it. -/
theorem Answers.handle {op : FsOp} {x : Except Errno FsRet} (h : Answers s op x s')
    (hop : op ≠ .decref p) (hp : s.handles p = some i) : s'.handles p = some i := by
  have htake {t : Flat} {q : Ptr} {j : UInt32} (ht : t.handles = s.handles) (hq : t.Opens q j) :
      (t.take q j).handles p = some i := by
    show Function.update t.handles q (some j) p = some i
    by_cases hx : p = q
    · subst hx
      rw [Function.update_self, ← hp, ← ht]
      rcases hq with hq | ⟨hq, -⟩
      · exact hq.symm
      · rw [ht, hp] at hq
        cases hq
    · rw [Function.update_of_ne hx, ht, hp]
  cases h with
  | getroot hq => exact htake rfl hq
  | lookparent _ hq => exact htake rfl (.inl hq)
  | lookup _ hq => exact htake rfl hq
  | creatOld _ hq => exact htake rfl hq
  | @creatNew _ _ _ _ q _ _ _ _ hq =>
    refine (Function.update_of_ne ?_ _ _).trans hp
    rintro rfl
    rw [hp] at hq
    cases hq
  | incref hq => exact htake rfl (.inl hq)
  | remove _ =>
    rw [NamedStore.handles_reap]
    exact hp
  | @decref q j _ =>
    have hne : p ≠ q := fun hx => hop (hx ▸ rfl)
    rw [NamedStore.handles_reap]
    show (if s.counts j = 1 then Function.update s.handles q none else s.handles) p = some i
    split
    · rw [Function.update_of_ne hne, hp]
    · exact hp
  | _ => exact hp

/-- Eight blocks and the root directory, in vnode 0, without files. -/
def emptyVolume : World where
  st :=
    { fs :=
        { sfsSuper := ⟨sfsMagic, 8, fun _ => 0, fun _ => 0⟩
          sfsSuperdirty := false
          dBlocks := 8
          sfsVnodes := [0]
          sfsFreemap := ⟨4096, fun j => if j = 0 then 0x07 else 0xff⟩
          sfsFreemapdirty := false
          heap := fun _ => ⟨1, 0, .sfsDirops,
            { SfsInode.blank with sfiType := sfsTypeDir, sfiLinkcount := 1 }, 1, false⟩
          brk := 1 }
      bufs := ⟨fun _ => 0, Sector.zero, fun _ => 0⟩ }
  env :=
    { disk := fun b =>
        if b = 0 then SfsSuper.toSector ⟨sfsMagic, 8, fun _ => 0, fun _ => 0⟩
        else if b = 1 then
          SfsInode.toSector { SfsInode.blank with sfiType := sfsTypeDir, sfiLinkcount := 1 }
        else fun k => if k = 0 then 0x07 else 0xff
      readFaults := []
      writeFaults := []
      memFaults := [] }

theorem emptyVolume_blk {i : UInt32} (hi : i = sfsRootLocation) {r : Node}
    (h : (vol emptyVolume).blk i r ≠ 0) : r = .self := by
  subst hi
  cases r with
  | self => rfl
  | node s l =>
    have h := ref_ne_zero_of_append (l := []) h
    cases s <;> exact absurd rfl h

theorem emptyVolume_meta {b : UInt32} (h : (vol emptyVolume).Meta b) : b = 0 ∨ b = 2 := by
  have hn : sfsBitblocks (vol emptyVolume).nblocks = 1 := rfl
  rcases h with h | ⟨h1, h2⟩
  · exact .inl h
  · rw [hn] at h2
    exact .inr (UInt32.toNat_inj.mp (show b.toNat = 2 by omega))

theorem emptyVolume_isset {j : Nat} (h : 8 ≤ j) :
    (vol emptyVolume).fs.sfsFreemap.isset j = true := by
  have hj : j / 8 ≠ 0 := by omega
  have hword : (vol emptyVolume).fs.sfsFreemap.v (j / 8) = wordAllbits := if_neg hj
  rw [Bitmap.isset, hword]
  exact (eq_wordAllbits_iff _).mp rfl _ (Nat.mod_lt _ (by decide))

theorem emptyVolume_handle : (vol emptyVolume).handle =
    (Register.fresh.take 0 sfsRootLocation).handles := by
  funext p
  show _ = Function.update (fun _ => none) 0 (some sfsRootLocation) p
  by_cases hp : p = 0
  · rw [hp, Function.update_self]
    rfl
  · rw [Function.update_of_ne hp]
    exact if_neg fun hx => hp (List.mem_singleton.mp hx)

theorem emptyVolume_refs : (vol emptyVolume).refs =
    (Register.fresh.take 0 sfsRootLocation).refs := by
  funext i
  show _ = Function.update (fun _ => 0) sfsRootLocation 1 i
  by_cases hi : i = sfsRootLocation
  · rw [hi, Function.update_self]
    rfl
  · rw [Function.update_of_ne hi]
    exact refs_of_not_loaded (Vol.loaded_eq_none.mpr fun p _ => Ne.symm hi)

theorem emptyVolume_opens : (vol emptyVolume).opens =
    (Register.fresh.take 0 sfsRootLocation).opens := by
  funext i
  rw [Vol.opens]
  split
  · rfl
  · rfl

theorem emptyVolume_keeps : Keeps M (Register.fresh.take 0 sfsRootLocation) emptyVolume where
  reads := rfl
  writes := rfl
  mem := fun _ => rfl
  core :=
    { nbits := rfl
      fits := by decide
      device := Nat.le_refl _
      offsets := by decide
      tail := fun j hj _ => emptyVolume_isset hj
      metaSet := fun b hb => by rcases emptyVolume_meta hb with rfl | rfl <;> rfl
      inj := fun i hi i' hi' r _ r' _ he h0 => by
        have hr := emptyVolume_blk hi h0
        have hr' := emptyVolume_blk hi' (he ▸ h0)
        exact ⟨hi.trans hi'.symm, hr.trans hr'.symm⟩
      marked := fun i hi r _ h0 => by
        rw [emptyVolume_blk hi h0, show i = sfsRootLocation from hi]
        rfl
      range := fun i hi r _ h0 => by
        rw [emptyVolume_blk hi h0, show i = sfsRootLocation from hi]
        refine ⟨by decide, fun hm => ?_⟩
        rcases emptyVolume_meta hm with hm | hm <;> cases hm
      nodup := List.nodup_singleton _
      live := fun _ _ => rfl
      below := fun p hp => by
        rw [List.mem_singleton.mp hp]
        decide
      held := fun _ _ => Nat.one_pos
      opens := fun _ _ => Nat.zero_le _
      root := rfl
      type := fun i hi => by
        rw [show i = sfsRootLocation from hi]
        rfl
      ops := fun _ _ => rfl
      nonzero := fun i hi => by
        rw [show i = sfsRootLocation from hi]
        decide
      clean := fun p hp _ => by
        rw [List.mem_singleton.mp hp]
        exact (SfsInode.ofSector_toSector _).symm ▸ SfsInode.Agrees.refl _ }
  dir := ⟨rfl, Nat.zero_le _, fun x hx => absurd hx (Nat.not_lt_zero x)⟩
  slots := rfl
  distinct := fun _ _ _ _ _ hb => by cases hb
  named := fun _ _ _ hb => by cases hb
  links := fun i hi => by
    rw [show i = sfsRootLocation from hi]
    rfl
  content := fun i hi h0 => absurd hi h0
  small := fun i hi h0 => absurd hi h0
  handles := emptyVolume_handle
  refs := emptyVolume_refs
  opens := emptyVolume_opens
  stored :=
    { super := by
        show SfsSuper.terminated (SfsSuper.ofSector (SfsSuper.toSector _)) = _
        rw [SfsSuper.ofSector_toSector, SfsSuper.terminated]
        simp only [ite_self]
        rfl
      magic := rfl
      clean := rfl
      map := fun _ j hj => by
        have hn : sfsBitblocks (vol emptyVolume).nblocks = 1 := rfl
        rw [hn] at hj
        obtain rfl : j = 0 := by omega
        funext k
        show (if k = 0 then (0x07 : UInt8) else 0xff) = if 0 * 512 + k.val = 0 then 0x07 else 0xff
        simp only [Nat.zero_mul, Nat.zero_add, Fin.val_eq_zero_iff] }

theorem emptyVolume_root : HasRoot 0 emptyVolume := rfl

theorem emptyVolume_carries : Carries M emptyVolume (Flat.empty.start 0) :=
  ⟨_, emptyVolume_keeps, Register.fresh_balanced.take rfl, by
    rw [Register.flat_start, Register.flat_fresh]⟩

theorem emptyVolume_fits (name : CString) : NameFits (vol emptyVolume).table name := by
  intro _ _ _
  show (0 + 1) * SfsDir.size ≤ dirLimit
  decide

def nameA : CString := ⟨[97], by decide⟩
def nameB : CString := ⟨[98], by decide⟩

/-! ## All answers -/

/-- The operation takes no name `name` away and does not change file `i`. -/
def FsOp.Spares (name : CString) (i : UInt32) (w : World) : FsOp → Prop
  | .remove _ n => n ≠ name
  | .rename _ old _ _ => old ≠ name
  | .io file c => c.uio.uioRw = .uioWrite → (vol w).handle file ≠ some i
  | .truncate file _ => (vol w).handle file ≠ some i
  | _ => True

theorem Call.Ends.read_same {c : Call} {f f' : Content} {x : Uio × Result} (h : c.Ends f x f')
    (hr : c.uio.uioRw ≠ .uioWrite) : f' = f := by
  cases h with
  | read _ _ => rfl
  | readFull _ _ => rfl
  | wrote hw _ => exact absurd hw hr
  | wroteFull hw _ _ _ => exact absurd hw hr

/-- Each answer is a step of the store of named objects. -/
theorem Answers.step {op : FsOp} {x : Except Errno FsRet} (h : Answers s op x s')
    (hs : Shows w s) (hsp : op.Spares name i w) :
    ∃ a : NamedStore.Act CString UInt32 Ptr Content, s.Step a s' ∧ a.Spares name i := by
  have hhandle {p : Ptr} {j : UInt32} (hp : s.handles p = some j) : (vol w).handle p = some j := by
    rw [hs.handle, hp]
  cases h with
  | getroot hp => exact ⟨_, .start hp, trivial⟩
  | lookparent _ hp => exact ⟨_, .again hp, trivial⟩
  | lookparentFails _ => exact ⟨_, .nothing, trivial⟩
  | ioDir _ => exact ⟨_, .nothing, trivial⟩
  | truncateDir _ => exact ⟨_, .nothing, trivial⟩
  | lookup hn hp => exact ⟨_, .enter hn hp, trivial⟩
  | creatOld hn hp => exact ⟨_, .enter hn hp, trivial⟩
  | creatNew hn _ _ hi hp => exact ⟨_, .make _ hn hi hp, trivial⟩
  | link hn _ hp => exact ⟨_, .link hn hp, trivial⟩
  | remove hn => exact ⟨_, .unlink hn, hsp⟩
  | rename ho hn _ => exact ⟨_, .move ho hn, hsp⟩
  | @io p c j f f' y hp hf hc =>
    by_cases hw : c.uio.uioRw = .uioWrite
    · refine ⟨_, .change f' hp, fun hj => hsp hw ?_⟩
      rw [← hj]
      exact hhandle hp
    · obtain rfl := hc.read_same hw
      have : s.put j f' = s := by
        unfold NamedStore.put
        rw [← hf, Function.update_eq_self]
      rw [this]
      exact ⟨_, .nothing, trivial⟩
  | @truncate p _ j f f' hp hf hc =>
    refine ⟨_, .change f' hp, fun hj => hsp ?_⟩
    rw [← hj]
    exact hhandle hp
  | incref hp => exact ⟨_, .again hp, trivial⟩
  | decref hp => exact ⟨_, .close hp, trivial⟩
  | incopen hp => exact ⟨_, .reopen _ hp, trivial⟩
  | decopen hp => exact ⟨_, .reopen _ hp, trivial⟩
  | lookupNone _ => exact ⟨_, .nothing, trivial⟩
  | creatExcl _ => exact ⟨_, .nothing, trivial⟩
  | creatFails _ _ => exact ⟨_, .nothing, trivial⟩
  | linkFails _ => exact ⟨_, .nothing, trivial⟩
  | removeNone _ => exact ⟨_, .nothing, trivial⟩
  | renameNone _ => exact ⟨_, .nothing, trivial⟩
  | renameFails _ _ => exact ⟨_, .nothing, trivial⟩
  | fsync => exact ⟨_, .nothing, trivial⟩

/-- The empty volume after a file was made in it. -/
def oneFile : World := ((FsOp.creat 0 nameA true).call.run machine emptyVolume).2

end Os161.Sfs
