import Os161.Sfs.NamespaceRuns

/-! # No block is used twice

What the volume looks like after any sequence of operations: which files there are, and that their
blocks are theirs alone and marked in the free map. Allocations may find no space and no memory. -/
namespace Os161.Sfs
open Os161.Lib Kern Vol

variable {w w' : World} {s s' : Flat} {M : Prop} {p : Ptr} {i : UInt32}

/-! ## Sound volumes -/

/-- The files there are: what a slot of the root directory or a reference leads to, and the root
directory. -/
def Vol.inUse (v : Vol) (i : UInt32) : Prop :=
  i = sfsRootLocation ∨ 0 < v.table.uses i ∨ 0 < v.refs i

/-- No block is used twice or is free while it is used, each file has as many links as names, the
root directory one more, and no name is used twice. -/
structure Sane (w : World) : Prop where
  owned : Owned (vol w).inUse (vol w)
  links : ∀ i, (vol w).inUse i →
    ((vol w).inode i).sfiLinkcount.toNat = (vol w).table.uses i + Register.ownLinks i
  distinct : (vol w).table.Distinct

theorem Carries.sane {M : Prop} {s : Flat} (h : Carries M w s) : Sane w := by
  obtain ⟨r, h, hb, -⟩ := h
  have hlive : (vol w).inUse = r.live := by
    funext i
    rw [Vol.inUse, h.slots, h.refs]
    exact propext (hb.live i).symm
  refine ⟨by rw [hlive]; exact h.core.toOwned, fun i hi => ?_, by rw [h.slots]; exact h.distinct⟩
  rw [hlive] at hi
  rw [h.links i hi, hb.links i hi, h.slots]

/-! ## Runs -/

/-- One operation, whether it answers, finds no memory or panics. -/
theorem FsOp.carries {op : FsOp} (hs : Carries M w s) (hproper : op.Proper w) (hfits : op.Fits w) :
    op.call.attempt.wp ⟨fun _ w' => ∃ s', Carries M w' s', fun _ _ => False,
      fun m w' => (∃ s', Carries M w' s') ∧ (m = .getroot ∨ m = .renameType)⟩ w := by
  rw [wp_attempt]
  refine (FsOp.meets hs hproper hfits).mono (fun x w' hx => ?_) (fun e w' hx => ?_)
    fun m w' hx => ?_
  · obtain ⟨s', hs', -⟩ := hx
    exact ⟨s', hs'⟩
  · rcases hx with ⟨s', hs', -⟩ | ⟨-, -, hs'⟩
    · exact ⟨s', hs'⟩
    · exact ⟨s, hs'⟩
  · obtain ⟨hpanic, hs'⟩ := hx
    refine ⟨hs', ?_⟩
    cases hpanic with
    | getroot _ => exact .inl rfl
    | rename _ => exact .inr rfl

/-- Whatever the operations of a run do, the volume still carries a flat file system, also when one
of them panics. -/
theorem wp_fsCalls_carries {ops : List FsOp} {Q : Post machine (List (Except Errno FsRet))}
    (hs : Carries M w s) (hv : EachCall FsOp.call (fun w op => op.Proper w ∧ op.Fits w) w ops)
    (hok : ∀ xs w' s', Carries M w' s' → Q.ok xs w')
    (hstop : ∀ m w' s', Carries M w' s' → m = .getroot ∨ m = .renameType → Q.stopped m w') :
    (fsCalls ops).wp Q w := by
  induction ops generalizing w s Q with
  | nil =>
    rw [fsCalls, eachCall, Prog.wp_pure]
    exact hok [] w s hs
  | cons op ops ih =>
    obtain ⟨⟨hproper, hfits⟩, hrest⟩ := hv
    rw [fsCalls, eachCall, Prog.wp_bind]
    refine (FsOp.carries hs hproper hfits).ran.mono (fun x w₁ hx => ?_) (fun _ _ hx => hx.2.elim)
      fun m w' hx => ?_
    · obtain ⟨hrun, t, ht⟩ := hx
      dsimp only
      rw [Prog.wp_bind]
      refine ih ht (hrest x w₁ hrun) (fun xs w' s' hs' => ?_) hstop
      dsimp only
      rw [Prog.wp_pure]
      exact hok (x :: xs) w' s' hs'
    · obtain ⟨-, ⟨s', hs'⟩, hm⟩ := hx
      exact hstop m w' s' hs' hm

/-- No block is used twice or free while it is used, after any run of operations that stay in the
direct, single and double indirect range and do not overflow a link count, whether they find space
and memory or not. A run does not panic but where `sfs_getroot` finds no memory or a name of the
root directory is renamed; neither `sfs_bmap` nor `bitmap_unmark` ever does. -/
theorem blocks_safe (w : World) (s : Flat) (hs : Carries False w s) (ops : List FsOp)
    (hv : EachCall FsOp.call (fun w op => op.Proper w ∧ op.Fits w) w ops) :
    ∃ x w', (fsCalls ops).run machine w = (x, w') ∧ Owned (vol w').inUse (vol w') ∧
      ((∃ xs, x = .ok xs) ∨ x = .stopped .getroot ∨ x = .stopped .renameType) := by
  have h := wp_fsCalls_carries (Q := ⟨fun _ w' => Owned (vol w').inUse (vol w'), fun _ _ => False,
    fun m w' => Owned (vol w').inUse (vol w') ∧ (m = .getroot ∨ m = .renameType)⟩) hs hv
    (fun _ _ _ hs' => hs'.sane.owned) fun _ _ _ hs' hm => ⟨hs'.sane.owned, hm⟩
  rw [Prog.wp_iff] at h
  generalize (fsCalls ops).run machine w = out at h
  obtain ⟨x, w'⟩ := out
  refine ⟨x, w', rfl, ?_⟩
  cases x with
  | ok xs => exact ⟨h, .inl ⟨xs, rfl⟩⟩
  | err e => exact h.elim
  | stopped m =>
    obtain ⟨ho, rfl | rfl⟩ := h
    · exact ⟨ho, .inr (.inl rfl)⟩
    · exact ⟨ho, .inr (.inr rfl)⟩

/-- The state after a call. -/
def after {α β : Type} (call : α → Kern β) (w : World) (a : α) : World :=
  ((call a).attempt.run machine w).2

theorem after_eq {α β : Type} {call : α → Kern β} {a : α} {x : Outcome kernSig (Except Errno β)}
    (h : (call a).attempt.run machine w = (x, w')) : w' = after call w a := by
  rw [after, h]

/-- The empty volume after a file was made, and after it was removed again while it is held. -/
def madeFile : World := after FsOp.call emptyVolume (.creat 0 nameA true)
def removedFile : World := after FsOp.call madeFile (.remove 0 nameA)

theorem madeFile_root : HasRoot 0 madeFile := by
  show (vol madeFile).handle 0 = some sfsRootLocation
  decide +kernel

theorem removedFile_has : Has 1 removedFile := by
  show (vol removedFile).handle 1 ≠ none
  decide +kernel

theorem removedFile_spare : Spare 1 removedFile := by
  rw [Spare]
  decide +kernel

/-- A file is made, removed while it is still held, and reclaimed. -/
theorem blocks_safe_one : ∃ x w', (fsCalls [.creat 0 nameA true, .remove 0 nameA, .decref 1]).run
      machine emptyVolume = (x, w') ∧ Owned (vol w').inUse (vol w') ∧
    ((∃ xs, x = .ok xs) ∨ x = .stopped .getroot ∨ x = .stopped .renameType) := by
  refine blocks_safe emptyVolume (Flat.empty.start 0) emptyVolume_carries _
    ⟨⟨emptyVolume_root, emptyVolume_fits nameA⟩, fun x w₁ h₁ => ?_⟩
  rw [show w₁ = madeFile from after_eq h₁]
  refine ⟨⟨madeFile_root, trivial⟩, fun y w₂ h₂ => ?_⟩
  rw [show w₂ = removedFile from after_eq h₂]
  exact ⟨⟨⟨removedFile_has, removedFile_spare⟩, trivial⟩, fun _ _ _ => trivial⟩

end Os161.Sfs
