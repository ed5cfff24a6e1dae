import Os161.Sfs.BlockSafety
import Os161.Sfs.PathRuns

/-! # Panics behind paths

Any sequence of operations on paths and on open files comes back, unless a name of the root
directory is renamed, a link count overflows, or the directory outgrows what `sfs_bmap` can map. -/
namespace Os161.Sfs
open Os161.Lib Kern Vol

variable {p vn : Ptr} {i : UInt32} {w w' : World} {r r₀ : Register} {m : Mounts} {a b : PathArg}
  {old new : CString} {s : Flat} {l : List (Ptr × UInt32)}

/-! ## What is asked of a call -/

/-- The directories in `m` are ones that are loaded. -/
structure Mounts.Proper (m : Mounts) (w : World) : Prop where
  cwd : ∀ p, m.tCwd = some (.here p) → HasRoot p w
  bootfs : ∀ p, m.bootfsVnode = some (.here p) → HasRoot p w

/-- What callers take care of: directories that paths start from and vnodes are ones they hold, what
is closed is open, and lengths are not negative. -/
def PathCall.Proper (w : World) : PathCall → Prop
  | .open m _ _ | .lookup m _ | .remove m _ | .rename m _ _ | .link m _ _ => m.Proper w
  | .close vn => Has vn w ∧ 0 < (w.st.fs.heap vn).vnOpencount
  | .io file _ | .fsync file | .incref file => Has file w
  | .truncate file len => Has file w ∧ 0 ≤ len ∧ len < 2 ^ 31
  | .decref file => Has file w ∧ Spare file w

/-- File `i` can get the name `new`: the directory has room for it, and the link count too. -/
def Linkable (w : World) (i : UInt32) (new : CString) : Prop :=
  NameFits (vol w).table new ∧
    ((vol w).table.find new = none → ((vol w).inode i).sfiLinkcount.toNat + 1 < 2 ^ 16)

/-- A call that reaches a file system operation reaches one that works: no name of the root
directory is renamed, no file gets 65536 links, and the directory does not outgrow what `sfs_bmap`
can map. -/
def PathCall.Fits (w : World) : PathCall → Prop
  | .open m a openflags => openflags &&& Vfs.oAccmode ≠ Vfs.oAccmode →
      openflags &&& Vfs.oCreat ≠ 0 → ∀ name, m.name a.path = some name →
      NameFits (vol w).table name
  | .link m a b => ∀ i new, m.target (vol w).table a.path = some i → m.name b.path = some new →
      Linkable w i new
  | .rename m a b => ∀ i old new, m.name a.path = some old → (vol w).table.find old = some i →
      m.name b.path = some new → i ≠ sfsRootLocation ∧ Linkable w i new
  | _ => True

theorem Mounts.Proper.held (hm : m.Proper w) (h : Keeps True r w) : m.Held r :=
  ⟨fun p hp => by rw [← h.handles]; exact hm.cwd p hp,
    fun p hp => by rw [← h.handles]; exact hm.bootfs p hp⟩

theorem Keeps.linkable (h : Keeps True r w) (hl : Linkable w i new) (hi : r.live i) :
    NameFits r.slots new ∧ (r.slots.find new = none → r.links i + 1 < 2 ^ 16) := by
  obtain ⟨hroom, hmax⟩ := hl
  rw [h.slots] at hroom hmax
  rw [h.links i hi] at hmax
  exact ⟨hroom, hmax⟩

theorem Keeps.live_of_target (h : Keeps True r w) {path : CString}
    (ht : m.target r.slots path = some i) : r.live i := by
  rw [Mounts.target] at ht
  cases hleads : m.leads path with
  | none =>
    rw [hleads] at ht
    cases ht
  | some sub =>
    rw [hleads, Option.bind_some] at ht
    split at ht
    · cases ht
      exact h.core.root
    · exact h.live_of_name ht

/-! ## One call -/

/-- An operation of the file system on a vnode. -/
theorem wp_sound_of_op {op : FsOp} {α : Type} {body : Kern α} {f : α → FsRet} (hs : Shows w s)
    (hv : op.Allowed w) (hcall : op.call = do return f (← body)) : body.wp Sound w := by
  have hrun := FsOp.answered hs hv
  rw [hcall, Prog.wp_bind] at hrun
  refine hrun.mono (fun x w' hx => ?_) (fun e w' hx => ?_) fun _ _ hx => hx
  · obtain ⟨s', hs', -⟩ := (Prog.wp_pure _).mp hx
    exact ⟨s', hs'⟩
  · obtain ⟨s', hs', -⟩ := hx
    exact ⟨s', hs'⟩

theorem wp_sound_discard {α : Type} {body : Kern α} (h : body.wp Sound w) :
    (do
      let _ ← body
      pure () : Kern Unit).wp Sound w := by
  rw [Prog.wp_bind]
  exact h.mono (fun _ _ hx => (Prog.wp_pure _).mpr hx) (fun _ _ hx => hx) fun _ _ hx => hx

theorem PathCall.returns {c : PathCall} (hs : Shows w s) (hp : c.Proper w) (hf : c.Fits w) :
    c.call.wp Sound w := by
  obtain ⟨r, h, hb, rfl⟩ := hs
  have hs : Shows w r.flat := ⟨r, h, hb, rfl⟩
  have h₀ := Owns.start h hb
  cases c with
  | «open» m a openflags =>
    rw [PathCall.Fits, h.slots] at hf
    exact wp_sound_discard (h₀.wp_vfsOpen (hp.held h) hf)
  | lookup m a =>
    refine wp_sound_discard (h₀.wp_vfsLookup (hp.held h) (fun n i r' w' _ _ h' => ?_)
      fun e r' w' h' => ?_)
    · exact ⟨_, h'.shows⟩
    · exact ⟨_, h'.shows⟩
  | remove m a => exact Owns.wp_sound (h₀.wp_vfsRemove (hp.held h))
  | rename m a b =>
    rw [PathCall.Fits, h.slots] at hf
    refine Owns.wp_sound (h₀.wp_vfsRename (hp.held h) fun i old new hold hi hnew => ?_)
    obtain ⟨hroot, hlink⟩ := hf i old new hold hi hnew
    exact ⟨hroot, h.linkable hlink (h.live_of_name hi)⟩
  | link m a b =>
    rw [PathCall.Fits, h.slots] at hf
    refine Owns.wp_sound (h₀.wp_vfsLink (hp.held h) fun i new hi hnew => ?_)
    exact h.linkable (hf i new hi hnew) (h.live_of_target hi)
  | close vn =>
    obtain ⟨hhas, hopen⟩ := hp
    rw [Has, h.handles] at hhas
    obtain ⟨i, hi⟩ := Option.ne_none_iff_exists'.mp hhas
    rw [(h.counts_of_handle hi).2] at hopen
    have hc : IsOpen r w vn i := ⟨h, hb, hi, hopen⟩
    exact hc.wp_vfsClose fun w' s' hs' => ⟨s', hs'⟩
  | io file c =>
    have hv : (FsOp.io file c).Allowed w := ⟨hp, trivial, trivial⟩
    exact wp_sound_discard (wp_sound_of_op hs hv rfl)
  | truncate file len =>
    have hv : (FsOp.truncate file len).Allowed w := ⟨hp, trivial, trivial⟩
    exact wp_sound_of_op (f := fun _ => .done) hs hv rfl
  | fsync file =>
    have hv : (FsOp.fsync file).Allowed w := ⟨hp, trivial, trivial⟩
    exact wp_sound_of_op (f := fun _ => .done) hs hv rfl
  | incref file =>
    have hv : (FsOp.incref file).Allowed w := ⟨hp, trivial, trivial⟩
    exact wp_sound_of_op (f := fun _ => .done) hs hv rfl
  | decref file =>
    have hv : (FsOp.decref file).Allowed w := ⟨hp, trivial, trivial⟩
    exact wp_sound_of_op (f := fun _ => .done) hs hv rfl

/-- A call that renames a name of the root directory does not come back. -/
theorem rename_root_panics (hs : Shows w s) (hm : m.Proper w)
    (hold : m.name a.path = some old) (hroot : (vol w).table.find old = some sfsRootLocation)
    (hnew : m.name b.path = some new) :
    (m.vfsRename a b).wp ⟨fun _ _ => False, fun _ _ => False, fun x _ => x = .renameType⟩ w := by
  obtain ⟨r, h, hb, rfl⟩ := hs
  rw [h.slots] at hroot
  rw [Mounts.vfsRename, Prog.wp_bind]
  refine (Owns.start h hb).wp_vfsLookparent (hm.held h) (fun n old' r₁ w₁ hn ht₁ h₁ => ?_)
    fun e r' w' hn => ?_
  · rw [hold] at hn
    cases n with
    | elsewhere => cases hn
    | here p =>
      cases hn
      dsimp only
      refine wp_release ?_
      rw [Prog.wp_bind]
      refine h₁.wp_vfsLookparent (hm.held h) (fun n' new' r₂ w₂ hn' ht₂ h₂ => ?_)
        fun e r' w' hn' => ?_
      · rw [hnew] at hn'
        cases n' with
        | elsewhere => cases hn'
        | here p' =>
          cases hn'
          dsimp only
          refine wp_release ?_
          have hp : r₂.handles p = some sfsRootLocation :=
            h₂.handle _ (List.mem_cons_of_mem _ List.mem_cons_self)
          have hp' : r₂.handles p' = some sfsRootLocation := h₂.handle _ List.mem_cons_self
          rw [← h₂.handles] at hp hp'
          obtain rfl : p = p' := h₂.core.toTable.handle_unique hp hp'
          rw [h₂.handles] at hp
          rw [Mounts.renameIn]
          refine h₂.toKeeps.wp_rename_root h₂.balanced hp ?_ (fun _ _ _ => rfl)
            fun hM => absurd trivial hM
          rw [ht₂.slots, ht₁.slots]
          exact hroot
      · rw [hnew] at hn'
        cases hn'
  · rw [hold] at hn
    cases hn

/-! ## Runs -/

abbrev pathCalls : List PathCall → Kern (List (Except Errno Unit)) := eachCall PathCall.call

theorem wp_pathCalls {calls : List PathCall} (hs : Shows w s)
    (hv : EachCall PathCall.call (fun w c => c.Proper w ∧ c.Fits w) w calls) :
    (pathCalls calls).wp ⟨fun _ w' => ∃ s', Shows w' s', fun _ _ => False, fun _ _ => False⟩ w := by
  induction calls generalizing w s with
  | nil =>
    rw [pathCalls, eachCall, Prog.wp_pure]
    exact ⟨s, hs⟩
  | cons c calls ih =>
    obtain ⟨⟨hproper, hfits⟩, hrest⟩ := hv
    have hcall : c.call.attempt.wp ⟨fun _ w' => ∃ s', Shows w' s', fun _ _ => False,
        fun _ _ => False⟩ w := by
      rw [wp_attempt]
      exact PathCall.returns hs hproper hfits
    rw [pathCalls, eachCall, Prog.wp_bind]
    refine hcall.ran.mono (fun x w₁ hx => ?_) (fun _ _ hx => hx.2.elim) fun _ _ hx => hx.2.elim
    obtain ⟨hrun, s₁, hs₁⟩ := hx
    dsimp only
    rw [Prog.wp_bind]
    refine (ih hs₁ (hrest x w₁ hrun)).mono (fun xs w' hx => ?_) (fun _ _ hx => hx) fun _ _ hx => hx
    dsimp only
    rw [Prog.wp_pure]
    exact hx

/-- Every run of calls that rename no name of the root directory, overflow no link count and do not
make the directory outgrow what can be mapped comes to its end: none of its calls panics. -/
theorem paths_return (w : World) (s : Flat) (hs : Shows w s) (calls : List PathCall)
    (hv : EachCall PathCall.call (fun w c => c.Proper w ∧ c.Fits w) w calls) :
    ∃ xs w' s', (pathCalls calls).run machine w = (.ok xs, w') ∧ Shows w' s' := by
  obtain ⟨xs, w', hrun, s', hs'⟩ := Prog.ok_of_wp (wp_pathCalls hs hv)
  exact ⟨xs, w', s', hrun, hs'⟩

/-! ## A volume of eight blocks -/

/-- The volume is on lhd0, and its root directory is the current directory. -/
def lhd0Mounts : Mounts where
  tCwd := some (.here 0)
  bootfsVnode := none
  getroot devname := if devname = [108, 104, 100, 48] then .ok true else .error .enodev

/-- A path that leads to the volume. -/
def onVolume (path : CString) : PathArg := ⟨path, .ok (), .ok ()⟩

def lhd0Root : CString := ⟨[108, 104, 100, 48, 58], by decide⟩
def lhd0NameB : CString := ⟨[108, 104, 100, 48, 58, 98], by decide⟩

theorem lhd0Mounts_proper (h : HasRoot 0 w) : lhd0Mounts.Proper w where
  cwd p hp := by
    cases hp
    exact h
  bootfs p hp := by cases hp

def openA : PathCall := .open lhd0Mounts (onVolume nameA) 6
def renameAB : PathCall := .rename lhd0Mounts (onVolume nameA) (onVolume lhd0NameB)
def removeB : PathCall := .remove lhd0Mounts (onVolume nameB)

/-- After `open("a", O_RDWR|O_CREAT)`, and the renaming and removing of the file. -/
def openedA : World := after PathCall.call emptyVolume openA
def renamedA : World := after PathCall.call openedA renameAB
def removedB : World := after PathCall.call renamedA removeB

theorem openedA_root : HasRoot 0 openedA := by
  show (vol openedA).handle 0 = some sfsRootLocation
  decide +kernel

theorem openedA_fits : renameAB.Fits openedA := by
  have hname : lhd0Mounts.name (onVolume nameA).path = some nameA := by decide
  have hfind : (vol openedA).table.find nameA = some 3 := by decide +kernel
  have hsize : ((vol openedA).content sfsRootLocation).size = 64 := by decide +kernel
  have hcount : ((vol openedA).inode 3).sfiLinkcount.toNat = 1 := by decide +kernel
  intro i old new hold hi hnew
  rw [hname] at hold
  cases hold
  rw [hfind] at hi
  cases hi
  refine ⟨by decide, fun _ _ _ => ?_, fun _ => ?_⟩
  · rw [Vol.table, Content.length_slots, Content.nentries, hsize]
    decide
  · rw [hcount]
    decide

theorem renamedA_root : HasRoot 0 renamedA := by
  show (vol renamedA).handle 0 = some sfsRootLocation
  decide +kernel

theorem removedB_open : Has 1 removedB ∧ 0 < (removedB.st.fs.heap 1).vnOpencount := by
  refine ⟨?_, ?_⟩
  · show (vol removedB).handle 1 ≠ none
    decide +kernel
  · decide +kernel

/-- A file is made and opened, renamed, removed and closed. -/
theorem paths_return_file : ∃ xs w' s', (pathCalls [openA, renameAB, removeB, .close 1]).run machine
    emptyVolume = (.ok xs, w') ∧ Shows w' s' := by
  refine paths_return emptyVolume (Flat.empty.start 0) emptyVolume_carries _
    ⟨⟨lhd0Mounts_proper emptyVolume_root, fun _ _ name _ => emptyVolume_fits name⟩,
      fun x w₁ h₁ => ?_⟩
  rw [show w₁ = openedA from after_eq h₁]
  refine ⟨⟨lhd0Mounts_proper openedA_root, openedA_fits⟩, fun y w₂ h₂ => ?_⟩
  rw [show w₂ = renamedA from after_eq h₂]
  refine ⟨⟨lhd0Mounts_proper renamedA_root, trivial⟩, fun z w₃ h₃ => ?_⟩
  rw [show w₃ = removedB from after_eq h₃]
  exact ⟨⟨removedB_open, trivial⟩, fun _ _ _ => trivial⟩

/-- `link("lhd0:", "a")` gives the root directory a name. -/
def linkRoot : PathCall := .link lhd0Mounts (onVolume lhd0Root) (onVolume nameA)
def linkedRoot : World := after PathCall.call emptyVolume linkRoot

theorem linkedRoot_root : HasRoot 0 linkedRoot := by
  show (vol linkedRoot).handle 0 = some sfsRootLocation
  decide +kernel

theorem linkRoot_run : (((pathCalls [linkRoot, renameAB]).run machine emptyVolume).1 matches
    .ok _) = false := by decide +kernel

/-- When it is renamed, the assertion in `sfs_rename` fails. -/
theorem root_name_renamed : ¬ ∀ (w : World) (s : Flat), Shows w s → ∀ calls : List PathCall,
    EachCall PathCall.call (fun w c => c.Proper w) w calls →
      ∃ xs w', (pathCalls calls).run machine w = (.ok xs, w') := by
  intro h
  have hv : EachCall PathCall.call (fun w c => c.Proper w) emptyVolume [linkRoot, renameAB] := by
    refine ⟨lhd0Mounts_proper emptyVolume_root, fun x w₁ h₁ => ?_⟩
    rw [show w₁ = linkedRoot from after_eq h₁]
    exact ⟨lhd0Mounts_proper linkedRoot_root, fun _ _ _ => trivial⟩
  obtain ⟨xs, w', hrun⟩ := h emptyVolume (Flat.empty.start 0) emptyVolume_carries _ hv
  have hpanic := linkRoot_run
  generalize (pathCalls [linkRoot, renameAB]).run machine emptyVolume = out at hrun hpanic
  rw [hrun] at hpanic
  cases hpanic

end Os161.Sfs
