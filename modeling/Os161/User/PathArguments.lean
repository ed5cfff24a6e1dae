import Os161.Files.PathBuffer
import Os161.Filetable.Bounds
import Os161.Vfs.Paths
import Os161.User.Copies

/-! # Path arguments

`open` and `chdir` hand the user's string to the file system as it is. `getdevice` splits it in
place, and `emufs_lookparent` splits what is left of it once more. -/
namespace Os161.User
open Os161.Lib Os161.Vfs
open Os161.Files.Path (strrchr strrchr_some strrchr_none)

/-- A string in user memory. -/
structure UserString (mem : Mem) (p : UInt32) (s : Name) : Prop extends NulTerminated mem p s where
  inside : 0 ∉ s

/-- What a lookup starts from. -/
inductive Start where
  | curdir
  | device (devname : Name)
  | bootfs
  | curfs
  deriving DecidableEq

/-- What `getdevice` makes of a path: the start, the subpath and the memory. -/
def getdeviceIn (mem : Mem) (p : UInt32) (path : Name) : (Start × Name) × Mem :=
  match firstSeparator path 0 with
  | none => ((.curdir, path), mem)
  | some (i, c) =>
    if c = 47 ∧ i ≠ 0 then ((.curdir, path), mem)
    else if c = 58 ∧ i > 0 then
      -- `path[colon]=0`
      ((.device (path.take i), subpathAfter path i), store mem (p + UInt32.ofNat i) 1 fun _ => 0)
    else if c = 47 then ((.bootfs, subpathAfter path 0), mem)
    else ((.curfs, subpathAfter path 0), mem)

/-- The vnode of a start, with a reference of its own. -/
def Start.vnode {D V F : Type} [DecidableEq V] [DecidableEq F] : Start →
    Op D V F (Except Vfs.Errno V)
  | .curdir => vfsGetcurdir
  | .device devname => vfsGetrootVnode devname
  | .bootfs => do
    let s ← Prog.getS
    match s.bootfsVnode with
    | none => pure (.error .ENOENT)
    | some vn => do
      vnodeIncref vn
      pure (.ok vn)
  | .curfs => do
    match ← vfsGetcurdir with
    | .error e => pure (.error e)
    | .ok vn => do
      let s ← Prog.getS
      match s.vnFs vn with
      | none => Prog.stop .nullFs
      | some fs => do
        let startvn ← fsopGetroot fs
        vnodeDecref vn
        pure (.ok startvn)

/-- What the starts stand for at a call, and which vnodes are directories of emufs. -/
structure Places (V : Type) where
  startvn : Start → Option V
  emufsDir : V → Bool

/-- `emufs_lookparent` of the last `subpath.length` bytes of a path at `p`: it ends the directory
part at the last slash, before anything can go wrong. -/
def emufsLookparent (mem : Mem) (p : UInt32) (path subpath : Name) : Mem :=
  match strrchr subpath 47 with
  | none => mem
  | some i =>
    -- `*s = 0`
    store mem (p + UInt32.ofNat (path.length - subpath.length + i)) 1 fun _ => 0

/-- `VOP_LOOKPARENT`. The other file systems leave the path as it is. -/
def lookparentIn {V : Type} (pl : Places V) (mem : Mem) (p : UInt32) (path : Name) :
    Start × Name → Mem
  | (start, subpath) =>
    match pl.startvn start with
    | none => mem
    | some startvn => if pl.emufsDir startvn then emufsLookparent mem p path subpath else mem

/-- The calls with a path. -/
inductive PathCall where
  | openFile (flags : UInt32)
  | chdir

/-- `vfs_open` looks up the parent. -/
def PathCall.creates : PathCall → Bool
  | .openFile flags => flags &&& oCreat ≠ 0
  | .chdir => false

section Calls

open Filetable (Kernel Table freeSlot FILETABLESIZE)

variable {V : Type} (k : Kernel V) (t : Table V) (pl : Places V)

/-- Whether a call gets to the lookup: `open` finds a slot, be it the one behind the arrays, and
`vfs_open` takes the access mode. -/
def PathCall.reaches : PathCall → Bool
  | .openFile flags =>
    ((freeSlot t).isSome || (k.strayNull FILETABLESIZE && k.strayIsdup FILETABLESIZE = 0)) &&
      (flags &&& oAccmode ≠ 3)
  | .chdir => true

/-- What a call looks up, and the memory after it. -/
def PathCall.perform (c : PathCall) (mem : Mem) (p : UInt32) (path : Name) :
    Option (Start × Name) × Mem :=
  if c.reaches k t then
    let result := getdeviceIn mem p path
    (some result.1,
      if c.creates then lookparentIn pl result.2 p path result.1 else result.2)
  else (none, mem)

/-- A call leaves the caller's memory alone, and a further one looks up the same. -/
structure Unmodified (c : PathCall) (mem : Mem) (p : UInt32) (path : Name) : Prop where
  memory : (c.perform k t pl mem p path).2 = mem
  again : ∀ (k' : Kernel V) (t' : Table V) (pl' : Places V) (c' : PathCall) (path' : Name),
    UserString (c.perform k t pl mem p path).2 p path' → ∀ x y,
      (c.perform k t pl mem p path).1 = some x →
      (c'.perform k' t' pl' (c.perform k t pl mem p path).2 p path').1 = some y → x = y

end Calls

/-- The path starts with the name of a device. -/
def HasDevice (path : Name) : Prop := ∃ i, 0 < i ∧ firstSeparator path 0 = some (i, 58)

/-- The start is a directory of emufs. -/
def Places.Emufs {V : Type} (pl : Places V) (start : Start) : Prop :=
  ∃ vn, pl.startvn start = some vn ∧ pl.emufsDir vn = true

/-- The path leads below its start, by a slash further on, and the start is in emufs. -/
inductive BelowEmufs {V : Type} (pl : Places V) (path : Name) : Prop where
  | relative (i : Nat) (hi : 0 < i) (hsep : firstSeparator path 0 = some (i, 47))
      (hemufs : pl.Emufs .curdir)
  | bootfs (hsep : firstSeparator path 0 = some (0, 47)) (hslash : 47 ∈ subpathAfter path 0)
      (hemufs : pl.Emufs .bootfs)
  | curfs (hsep : firstSeparator path 0 = some (0, 58)) (hslash : 47 ∈ subpathAfter path 0)
      (hemufs : pl.Emufs .curfs)

section Proofs

variable {D V F : Type} {mem : Mem} {p : UInt32} {path s s' : Name}

/-- The lookup of a path starts as the pure split says. -/
theorem getdevice_eq [DecidableEq V] [DecidableEq F] (mem : Mem) (p : UInt32) :
    (Vfs.getdevice path : Op D V F _) = (do
      let result ← (getdeviceIn mem p path).1.1.vnode
      pure (result.map fun vn => ((getdeviceIn mem p path).1.2, vn))) := by
  unfold Vfs.getdevice getdeviceIn
  cases firstSeparator path 0 with
  | none => rfl
  | some x =>
    obtain ⟨i, c⟩ := x
    dsimp only
    split_ifs
    · rfl
    · rfl
    · rw [Start.vnode, Prog.bind_assoc]
      refine congrArg (Prog.getS >>= ·) (funext fun s => ?_)
      cases s.bootfsVnode <;> rfl
    · rw [Start.vnode, Prog.bind_assoc]
      refine congrArg (vfsGetcurdir >>= ·) (funext fun r => ?_)
      cases r with
      | error e => rfl
      | ok vn =>
        dsimp only
        rw [Prog.bind_assoc]
        refine congrArg (Prog.getS >>= ·) (funext fun s => ?_)
        cases s.vnFs vn with
        | none => rfl
        | some fs =>
          dsimp only
          rw [Prog.bind_assoc]
          refine congrArg (fsopGetroot fs >>= ·) (funext fun startvn => ?_)
          rw [Prog.bind_assoc]
          rfl

theorem firstSeparator_some {k i : Nat} {c : UInt8} (h : firstSeparator s k = some (i, c)) :
    k ≤ i ∧ s[i - k]? = some c := by
  induction s generalizing k with
  | nil => cases h
  | cons b rest ih =>
    rw [firstSeparator] at h
    split_ifs at h with hb
    · cases h
      exact ⟨Nat.le_refl _, by rw [Nat.sub_self]; rfl⟩
    · obtain ⟨hle, hget⟩ := ih h
      have hsub : i - k = (i - (k + 1)) + 1 := by omega
      exact ⟨by omega, by rw [hsub, List.getElem?_cons_succ]; exact hget⟩

theorem firstSeparator_none {k : Nat} (h : firstSeparator s k = none) : 47 ∉ s := by
  induction s generalizing k with
  | nil => exact List.not_mem_nil
  | cons b rest ih =>
    rw [firstSeparator] at h
    split_ifs at h with hb
    rw [List.mem_cons, not_or]
    exact ⟨fun heq => hb (.inr heq.symm), ih h⟩

theorem UserString.eq (h : UserString mem p s) (h' : UserString mem p s') : s = s' := by
  have hle {a b : Name} (ha : UserString mem p a) (hb : UserString mem p b) :
      b.length ≤ a.length := by
    by_contra hlt
    have hmem := hb.bytes a.length (by omega)
    rw [ha.nul] at hmem
    exact hb.inside (hmem ▸ List.getElem_mem _)
  refine List.ext_getElem (Nat.le_antisymm (hle h' h) (hle h h')) fun i h1 h2 => ?_
  rw [← h.bytes i h1, h'.bytes i h2]

theorem getdeviceIn_mem (h : ¬ HasDevice path) : (getdeviceIn mem p path).2 = mem := by
  unfold getdeviceIn
  cases hsep : firstSeparator path 0 with
  | none => rfl
  | some x =>
    obtain ⟨i, c⟩ := x
    dsimp only
    split_ifs with h1 h2 h3
    · rfl
    · rw [h2.1] at hsep
      exact absurd ⟨i, h2.2, hsep⟩ h
    · rfl
    · rfl

/-- The colon is gone. -/
theorem getdeviceIn_colon (mem : Mem) (p : UInt32) {i : Nat} (hi : 0 < i)
    (hsep : firstSeparator path 0 = some (i, 58)) :
    (getdeviceIn mem p path).2 (p + UInt32.ofNat i) = 0 := by
  have hne : ¬ ((58 : UInt8) = 47 ∧ i ≠ 0) := fun hn => absurd hn.1 (by decide)
  unfold getdeviceIn
  rw [hsep]
  dsimp only
  rw [if_neg hne, if_pos ⟨rfl, hi⟩]
  exact store_one.trans (if_pos rfl)

theorem firstSeparator_isSeparator {k i : Nat} {c : UInt8}
    (h : firstSeparator s k = some (i, c)) : c = 58 ∨ c = 47 := by
  induction s generalizing k with
  | nil => cases h
  | cons b rest ih =>
    rw [firstSeparator] at h
    split_ifs at h with hb
    · cases h
      exact hb
    · exact ih h

/-- The subpath is an end of the path. -/
theorem getdeviceIn_suffix : (getdeviceIn mem p path).1.2 <:+ path := by
  have hafter (i : Nat) : subpathAfter path i <:+ path :=
    (List.dropWhile_suffix _).trans (List.drop_suffix _ _)
  unfold getdeviceIn
  cases firstSeparator path 0 with
  | none => exact List.suffix_refl path
  | some x =>
    dsimp only
    split_ifs
    · exact List.suffix_refl path
    · exact hafter x.1
    · exact hafter 0
    · exact hafter 0

/-- `emufs_lookparent` has something to cut off just where the condition says so. -/
theorem belowEmufs_iff {V : Type} {pl : Places V} (mem : Mem) (p : UInt32)
    (hdev : ¬ HasDevice path) :
    BelowEmufs pl path ↔ pl.Emufs (getdeviceIn mem p path).1.1 ∧
      47 ∈ (getdeviceIn mem p path).1.2 := by
  unfold getdeviceIn
  cases hsep : firstSeparator path 0 with
  | none =>
    have hplain : 47 ∉ path := firstSeparator_none hsep
    refine iff_of_false (fun h => ?_) (fun h => hplain h.2)
    cases h with
    | relative i hi hsep' _ => exact absurd (hsep.symm.trans hsep') nofun
    | bootfs hsep' _ _ => exact absurd (hsep.symm.trans hsep') nofun
    | curfs hsep' _ _ => exact absurd (hsep.symm.trans hsep') nofun
  | some x =>
    obtain ⟨i, c⟩ := x
    dsimp only
    have heq {j : Nat} {d : UInt8} (h : firstSeparator path 0 = some (j, d)) : i = j ∧ c = d := by
      rw [hsep] at h
      cases h
      exact ⟨rfl, rfl⟩
    split_ifs with h1 h2 h3
    · obtain ⟨rfl, hi⟩ := h1
      have hmem : 47 ∈ path := List.mem_of_getElem? (firstSeparator_some hsep).2
      constructor
      · intro h
        cases h with
        | relative _ _ _ hemufs => exact ⟨hemufs, hmem⟩
        | bootfs hsep' _ _ => exact absurd (heq hsep').1 hi
        | curfs hsep' _ _ => exact absurd (heq hsep').1 hi
      · exact fun h => .relative i (Nat.pos_of_ne_zero hi) hsep h.1
    · obtain ⟨rfl, hi⟩ := h2
      exact absurd ⟨i, hi, hsep⟩ hdev
    · subst h3
      obtain rfl : i = 0 := by
        by_contra hi
        exact h1 ⟨rfl, hi⟩
      constructor
      · intro h
        cases h with
        | relative j hj hsep' _ => exact absurd (heq hsep').1.symm (Nat.ne_of_gt hj)
        | bootfs _ hslash hemufs => exact ⟨hemufs, hslash⟩
        | curfs hsep' _ _ => exact absurd (heq hsep').2 (by decide)
      · exact fun h => .bootfs hsep h.2 h.1
    · obtain rfl : c = 58 := (firstSeparator_isSeparator hsep).resolve_right h3
      obtain rfl : i = 0 := by
        by_contra hi
        exact h2 ⟨rfl, Nat.pos_of_ne_zero hi⟩
      constructor
      · intro h
        cases h with
        | relative j hj hsep' _ => exact absurd (heq hsep').1.symm (Nat.ne_of_gt hj)
        | bootfs hsep' _ _ => exact absurd (heq hsep').2 (by decide)
        | curfs _ hslash hemufs => exact ⟨hemufs, hslash⟩
      · exact fun h => .curfs hsep h.2 h.1

/-- The byte that a cut by `emufs_lookparent` ends the string at was a slash. -/
theorem emufsLookparent_eq {sub : Name} (hs : UserString mem p path) (hsub : sub <:+ path) :
    emufsLookparent mem p path sub = mem ↔ 47 ∉ sub := by
  unfold emufsLookparent
  cases hslash : strrchr sub 47 with
  | none => exact iff_of_true rfl (strrchr_none.mp hslash)
  | some i =>
    obtain ⟨hi, hget⟩ := strrchr_some hslash
    refine iff_of_false (fun heq => ?_) (fun h => h (hget ▸ List.getElem_mem hi))
    have hle : sub.length ≤ path.length := hsub.length_le
    have hlt : path.length - sub.length + i < path.length := by omega
    have hbyte := hs.bytes _ hlt
    have hpath : path[path.length - sub.length + i] = 47 := by
      rw [← hget]
      have hdrop : sub = path.drop (path.length - sub.length) := List.suffix_iff_eq_drop.mp hsub
      simp only [List.getElem_of_eq hdrop hi, List.getElem_drop]
    have hat := congrFun heq (p + UInt32.ofNat (path.length - sub.length + i))
    dsimp only at hat
    rw [store_one, if_pos rfl, hbyte, hpath] at hat
    exact absurd hat (by decide)

theorem lookparentIn_eq {V : Type} {pl : Places V} {start : Start} {sub : Name}
    (hs : UserString mem p path) (hsub : sub <:+ path) :
    lookparentIn pl mem p path (start, sub) = mem ↔ ¬ (pl.Emufs start ∧ 47 ∈ sub) := by
  unfold lookparentIn Places.Emufs
  dsimp only
  cases pl.startvn start with
  | none => exact iff_of_true rfl fun h => by obtain ⟨⟨vn, hvn, -⟩, -⟩ := h; cases hvn
  | some startvn =>
    dsimp only
    cases hemufs : pl.emufsDir startvn with
    | false =>
      refine iff_of_true rfl fun h => ?_
      obtain ⟨⟨vn, hvn, hdir⟩, -⟩ := h
      cases hvn
      rw [hemufs] at hdir
      cases hdir
    | true =>
      rw [if_pos rfl, emufsLookparent_eq hs hsub]
      exact not_congr ⟨fun h => ⟨⟨startvn, rfl, hemufs⟩, h⟩, And.right⟩

/-- No other write takes the 0 at the colon back. -/
theorem lookparentIn_zero {V : Type} {pl : Places V} {x : UInt32} {found : Start × Name}
    (h : mem x = 0) : lookparentIn pl mem p path found x = 0 := by
  obtain ⟨start, sub⟩ := found
  unfold lookparentIn
  dsimp only
  cases pl.startvn start with
  | none => exact h
  | some startvn =>
    dsimp only
    split_ifs
    · unfold emufsLookparent
      cases strrchr sub 47 with
      | none => exact h
      | some i =>
        dsimp only
        rw [store_one]
        split_ifs
        · rfl
        · exact h
    · exact h

/-- What a call that reaches the lookup leaves alone. -/
theorem PathCall.perform_mem {V : Type} {k : Filetable.Kernel V} {t : Filetable.Table V}
    {pl : Places V} {c : PathCall} (hs : UserString mem p path) (hreach : c.reaches k t = true) :
    (c.perform k t pl mem p path).2 = mem ↔
      ¬ HasDevice path ∧ ¬ (c.creates = true ∧ BelowEmufs pl path) := by
  rw [PathCall.perform, if_pos hreach]
  dsimp only
  by_cases hdev : HasDevice path
  · refine iff_of_false (fun heq => ?_) (fun h => h.1 hdev)
    obtain ⟨i, hi, hsep⟩ := hdev
    obtain ⟨hlt, hcolon⟩ := List.getElem?_eq_some_iff.mp (firstSeparator_some hsep).2
    have hbyte := hs.bytes i hlt
    simp only [Nat.sub_zero] at hcolon
    have hzero := getdeviceIn_colon mem p hi hsep
    have hat := congrFun heq (p + UInt32.ofNat i)
    rw [hbyte, hcolon] at hat
    split_ifs at hat
    · rw [lookparentIn_zero hzero] at hat
      exact absurd hat (by decide)
    · rw [hzero] at hat
      exact absurd hat (by decide)
  · have hmem : (getdeviceIn mem p path).2 = mem := getdeviceIn_mem hdev
    rw [hmem, and_iff_right hdev, belowEmufs_iff mem p hdev]
    cases c.creates with
    | false => exact iff_of_true rfl fun h => absurd h.1 Bool.false_ne_true
    | true => rw [if_pos rfl, lookparentIn_eq hs getdeviceIn_suffix, and_iff_right rfl]

/-- Path arguments stay as they are unless they start with the name of a device, or a file is to be
created below a directory of emufs. -/
theorem paths_unmodified_iff {V : Type} (k : Filetable.Kernel V) (t : Filetable.Table V)
    (pl : Places V) (c : PathCall) (mem : Mem) (p : UInt32) (path : Name)
    (hs : UserString mem p path) :
    Unmodified k t pl c mem p path ↔ c.reaches k t = false ∨
      ¬ HasDevice path ∧ ¬ (c.creates = true ∧ BelowEmufs pl path) := by
  cases hreach : c.reaches k t with
  | false =>
    have hperform : c.perform k t pl mem p path = (none, mem) := by
      rw [PathCall.perform, hreach]
      rfl
    refine iff_of_true ⟨by rw [hperform], fun k' t' pl' c' path' _ x y hx => ?_⟩ (.inl rfl)
    rw [hperform] at hx
    cases hx
  | true =>
    rw [or_iff_right Bool.true_eq_false.mp, ← PathCall.perform_mem hs hreach]
    refine ⟨Unmodified.memory, fun hmem => ⟨hmem, fun k' t' pl' c' path' hs' x y hx hy => ?_⟩⟩
    rw [hmem] at hs' hy
    obtain rfl := hs.eq hs'
    rw [PathCall.perform, if_pos hreach] at hx
    rw [PathCall.perform] at hy
    split at hy
    · exact Option.some.inj (hx.symm.trans hy)
    · cases hy

end Proofs

/-! ## `emu0:foo` -/

/-- `emu0:foo`. -/
def fooOnEmu0 : Name := [101, 109, 117, 48, 58, 102, 111, 111]

/-- The string at address 0x1000, and nothing else. -/
def emu0Foo : Mem := store (fun _ => 0) 0x1000 8 (kbuffer fooOnEmu0 fun _ => 0)

theorem emu0Foo_string : UserString emu0Foo 0x1000 fooOnEmu0 :=
  ⟨⟨by decide, by decide⟩, by decide⟩

/-- Both starts there are lie in emufs. -/
def onEmufs : Places Unit := ⟨fun _ => some (), fun _ => true⟩

theorem paths_unmodified_iff_emu0 :
    Unmodified Filetable.calm (Filetable.boot (some ())) onEmufs .chdir emu0Foo 0x1000 fooOnEmu0 ↔
      PathCall.chdir.reaches Filetable.calm (Filetable.boot (some ())) = false ∨
        ¬ HasDevice fooOnEmu0 ∧
          ¬ (PathCall.chdir.creates = true ∧ BelowEmufs onEmufs fooOnEmu0) :=
  paths_unmodified_iff Filetable.calm (Filetable.boot (some ())) onEmufs .chdir emu0Foo 0x1000
    fooOnEmu0 emu0Foo_string

/-- The first call takes `foo` on `emu0`, the second one `emu0` in the current directory. -/
theorem second_lookup_differs :
    let first := PathCall.chdir.perform Filetable.calm (Filetable.boot (some ())) onEmufs emu0Foo
      0x1000 fooOnEmu0
    first.1 = some (.device [101, 109, 117, 48], [102, 111, 111]) ∧
      UserString first.2 0x1000 [101, 109, 117, 48] ∧
      (PathCall.chdir.perform Filetable.calm (Filetable.boot (some ())) onEmufs first.2 0x1000
        [101, 109, 117, 48]).1 = some (.curdir, [101, 109, 117, 48]) ∧
      ¬ Unmodified Filetable.calm (Filetable.boot (some ())) onEmufs .chdir emu0Foo 0x1000
        fooOnEmu0 := by
  refine ⟨rfl, ⟨⟨by decide, by decide⟩, by decide⟩, rfl, fun h => ?_⟩
  exact ((PathCall.perform_mem emu0Foo_string rfl).mp h.memory).1 ⟨4, by decide, rfl⟩

end Os161.User
