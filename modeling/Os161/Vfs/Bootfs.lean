import Mathlib.Tactic.SplitIfs
import Os161.Vfs.Balance

/-! # The boot file system

`vfs_setbootfs` on a name with and without its colon. -/
namespace Os161.Vfs
open Os161.Lib

section Code

variable {D V F : Type} [DecidableEq V] [DecidableEq F]

def strchr : Name → UInt8 → Option Name
  | [], _ => none
  | b :: s, c => if b = c then some (b :: s) else strchr s c

/-- `change_bootfs`; one thread at a time has the lock. -/
def changeBootfs (newguy : Option V) : Op D V F Unit := do
  let s ← Prog.getS
  Prog.setS { s with bootfsVnode := newguy }
  match s.bootfsVnode with
  | some oldguy => vnodeDecref oldguy
  | none => pure ()

/-- `vfs_setbootfs` behind `vfs_chdir`. -/
def bootCurdir : Op D V F (Option Errno) := do
  match ← vfsGetcurdir with
  | .error e => pure (some e)
  | .ok newguy => do
    changeBootfs (some newguy)
    pure none

/-- `vfs_setbootfs` behind the search for the colon. -/
def setbootfsTo (tmp : Name) : Op D V F (Option Errno) := do
  match ← vfsChdir tmp with
  | some e => pure (some e)
  | none => bootCurdir

def vfsSetbootfs (fsname : Name) : Op D V F (Option Errno) :=
  -- snprintf stores one byte less than `sizeof(tmp)-1`, which is NAME_MAX
  let tmp := fsname.take (nameMax - 1)
  match strchr tmp 58 with
  | some s => if s.length > 0 then pure (some .EINVAL) else setbootfsTo tmp
  | none => setbootfsTo (tmp ++ [58])

end Code

/-! ## The colon -/

theorem strchr_eq_none {s : Name} {c : UInt8} : strchr s c = none ↔ c ∉ s := by
  induction s with
  | nil => simp [strchr]
  | cons b s ih =>
    by_cases h : b = c
    · simp [strchr, h]
    · simp [strchr, h, ih, Ne.symm h]

theorem strchr_some {s t : Name} {c : UInt8} (h : strchr s c = some t) : 0 < t.length := by
  induction s with
  | nil => cases h
  | cons b s ih =>
    unfold strchr at h
    split at h
    · cases h
      exact Nat.succ_pos _
    · exact ih h

section Spellings

variable {D V F : Type} [DecidableEq V] {name : Name}

/-- A colon is refused wherever it is: the string that starts at it is never empty. -/
theorem vfsSetbootfs_colon (h : 58 ∈ name.take (nameMax - 1)) :
    (vfsSetbootfs name : Op D V F _) = pure (some .EINVAL) := by
  unfold vfsSetbootfs
  dsimp only
  cases hs : strchr (name.take (nameMax - 1)) 58 with
  | none => exact absurd h (strchr_eq_none.mp hs)
  | some s => exact if_pos (strchr_some hs)

theorem vfsSetbootfs_plain (h : 58 ∉ name.take (nameMax - 1)) :
    (vfsSetbootfs name : Op D V F _) = setbootfsTo (name.take (nameMax - 1) ++ [58]) := by
  unfold vfsSetbootfs
  dsimp only
  rw [strchr_eq_none.mpr h]

end Spellings

/-! ## Failures change nothing -/

section Failures

variable {D V F : Type}

theorem Moved.eq {s s' : State D V F} (h : Moved s s' (fun _ => 0) (fun _ => 0) s.tCwd) :
    s' = s := by
  have hrefs : s'.vnRefcount = s.vnRefcount := funext fun v => by
    have := h.refs v
    omega
  have hopens : s'.vnOpencount = s.vnOpencount := funext fun v => by
    have := h.opens v
    omega
  cases s
  cases s'
  simp only [State.mk.injEq]
  exact ⟨hrefs, hopens, h.vnFs, h.devs.2, h.cwd, h.bootfs, h.devs.1⟩

variable [DecidableEq V] {O : Outside (vfsSig D V F)} {w : World O}

theorem wp_changeBootfs {newguy : Option V} {P : Unit → World O → Prop} (hok : ∀ w', P () w') :
    (changeBootfs newguy).wp ⟨P, fun _ _ => True, fun _ _ => True⟩ w := by
  rw [changeBootfs, Prog.wp_bind, Prog.wp_getS]
  dsimp only
  rw [Prog.wp_bind, Prog.wp_setS]
  dsimp only
  cases w.st.bootfsVnode with
  | some oldguy =>
    exact wp_vnodeDecref (C := False) (fun _ _ _ => trivial) False.elim fun w' _ => hok w'
  | none =>
    simp only [Prog.wp_pure]
    exact hok _

/-- With a current directory it succeeds. -/
theorem wp_bootCurdir (vn : V) {P : Option Errno → World O → Prop} (hcwd : w.st.tCwd = some vn)
    (hok : ∀ w', P none w') : bootCurdir.wp ⟨P, fun _ _ => True, fun _ _ => True⟩ w := by
  rw [bootCurdir, vfsGetcurdir, Prog.bind_assoc, Prog.wp_bind, Prog.wp_getS]
  dsimp only
  rw [hcwd]
  dsimp only
  rw [Prog.bind_assoc, Prog.wp_bind]
  refine wp_vnodeIncref fun w' _ => ?_
  dsimp only
  rw [Prog.wp_bind, Prog.wp_pure]
  dsimp only
  rw [Prog.wp_bind]
  refine wp_changeBootfs fun w'' => ?_
  simp only [Prog.wp_pure]
  exact hok w''

/-- If it fails, the state is as before. -/
theorem wp_setbootfsTo {tmp : Name} : (setbootfsTo tmp).wp
    ⟨fun result w' => ∀ e, result = some e → w'.st = w.st, fun _ _ => True, fun _ _ => True⟩ w := by
  rw [setbootfsTo, Prog.wp_bind]
  refine wp_vfsChdir (C := False) (fun _ _ _ => trivial) False.elim
    ⟨fun vn _ w' _ h' => ?_, fun e w' h' => ?_⟩
  · exact wp_bootCurdir _ h'.cwd fun w'' e he => nomatch he
  · simp only [Prog.wp_pure]
    exact fun _ _ => h'.eq

theorem setbootfs_fails {name : Name} {w' : World O} {e : Errno}
    (hrun : (vfsSetbootfs name).run O w = (.ok (some e), w')) : w'.st = w.st := by
  by_cases h : 58 ∈ name.take (nameMax - 1)
  · rw [vfsSetbootfs_colon h] at hrun
    cases hrun
    rfl
  · rw [vfsSetbootfs_plain h] at hrun
    exact Prog.wp_ok_iff.mp wp_setbootfsTo _ _ hrun e rfl

end Failures

/-! ## What the file systems answer -/

section Refusal

variable {D V F : Type}

/-- The result is not the error `EINVAL`. -/
def NotInvalid {α : Type} {O : Outside (vfsSig D V F)} (p : Op D V F (Except Errno α))
    (w : World O) : Prop :=
  p.wp ⟨fun r _ => r ≠ .error .EINVAL, fun _ _ => True, fun _ _ => True⟩ w

theorem NotInvalid.map {α β : Type} {O : Outside (vfsSig D V F)} {w : World O}
    {p : Op D V F (Except Errno α)} (h : NotInvalid p w) (f : α → β) :
    NotInvalid (p >>= fun r => pure (r.map f)) w := by
  rw [NotInvalid, Prog.wp_bind]
  refine h.mono (fun r w' hr => ?_) (fun _ _ h => h) fun _ _ h => h
  simp only [Prog.wp_pure]
  cases r with
  | ok a => exact nofun
  | error e => exact fun he => hr (by cases he; rfl)

theorem vfsGetroot_ne_EINVAL (getvolname : F → Option Name) (devname : Name)
    (kds : Knowndevs D V F) : vfsGetroot getvolname devname kds ≠ .error .EINVAL := by
  induction kds with
  | nil => exact nofun
  | cons kd kds ih =>
    rw [vfsGetroot]
    cases hr : kd.round getvolname devname with
    | none => exact ih
    | some r =>
      rw [Option.getD_some]
      rintro rfl
      unfold Knowndev.round at hr
      split at hr <;> split_ifs at hr <;> cases hr

variable [DecidableEq V]

/-- What becomes of a path: `found` goes on with the vnode, `missing` with the error of
`getdevice`. -/
def resolved (path : Name) (missing : Errno → Option Errno) (found : V → Op D V F (Option Errno)) :
    Op D V F (Option Errno) := do
  match ← getdevice path with
  | .error e => pure (missing e)
  | .ok (sub, startvn) =>
    if sub.length = 0 then found startvn
    else do
      let result ← vopGive (.lookup startvn sub)
      vnodeDecref startvn
      match result with
      | .error e => pure (some e)
      | .ok (vn, _) => found vn

/-- The error of `VOP_GETTYPE`. -/
def typeRefusal (vn : V) : Op D V F (Option Errno) := do
  match ← vopDo (.gettype vn) with
  | some e => do
    vnodeDecref vn
    pure (some e)
  | none => pure none

/-- The error that the file systems have for a path: of `VOP_LOOKUP`, or of `VOP_GETTYPE` on what
is there. -/
def refusal (path : Name) : Op D V F (Option Errno) := resolved path (fun _ => none) typeRefusal

/-- `vfs_setbootfs` once the vnode is there. -/
def setbootfsFrom (vn : V) : Op D V F (Option Errno) := do
  match ← vfsSetcurdir vn with
  | some e => do
    vnodeDecref vn
    pure (some e)
  | none => bootCurdir

theorem setbootfsFrom_eq (vn : V) : (do
    let result ← (do
      match ← vfsSetcurdir vn with
      | some e => do
        vnodeDecref vn
        pure (some e)
      | none => pure none)
    match result with
    | some e => pure (some e)
    | none => bootCurdir : Op D V F (Option Errno)) = setbootfsFrom vn := by
  rw [setbootfsFrom, Prog.bind_assoc]
  refine congrArg (vfsSetcurdir vn >>= ·) (funext fun r => ?_)
  cases r with
  | some e =>
    dsimp only
    rw [Prog.bind_assoc]
    rfl
  | none => rfl

theorem setbootfsTo_eq (path : Name) :
    (setbootfsTo path : Op D V F _) = resolved path some setbootfsFrom := by
  rw [setbootfsTo, vfsChdir, vfsLookup, resolved, Prog.bind_assoc, Prog.bind_assoc]
  refine congrArg (getdevice path >>= ·) (funext fun r => ?_)
  cases r with
  | error e => rfl
  | ok a =>
    obtain ⟨sub, startvn⟩ := a
    dsimp only
    split
    · exact setbootfsFrom_eq startvn
    · rw [Prog.bind_assoc]
      refine congrArg (vopGive _ >>= ·) (funext fun result => ?_)
      rw [Prog.bind_assoc]
      refine congrArg (vnodeDecref startvn >>= ·) (funext fun _ => ?_)
      cases result with
      | error e => rfl
      | ok a => exact setbootfsFrom_eq a.1

variable {O : Outside (vfsSig D V F)} {w : World O}

theorem vfsGetcurdir_notInvalid : NotInvalid vfsGetcurdir w := by
  rw [NotInvalid, vfsGetcurdir, Prog.wp_bind, Prog.wp_getS]
  dsimp only
  cases w.st.tCwd with
  | none =>
    simp only [Prog.wp_pure]
    rintro ⟨⟩
  | some cwd =>
    dsimp only
    rw [Prog.wp_bind]
    refine wp_vnodeIncref fun w' _ => ?_
    simp only [Prog.wp_pure]
    rintro ⟨⟩

theorem vfsGetrootVnode_notInvalid (devname : Name) : NotInvalid (vfsGetrootVnode devname) w := by
  rw [NotInvalid, vfsGetrootVnode, Prog.wp_bind, Prog.wp_getS]
  dsimp only
  cases hr : vfsGetroot w.st.getvolname devname w.st.knowndevs with
  | getroot fs =>
    dsimp only
    rw [Prog.wp_bind]
    refine wp_fsopGetroot fun vn w' _ => ?_
    simp only [Prog.wp_pure]
    rintro ⟨⟩
  | device vn =>
    dsimp only
    rw [Prog.wp_bind]
    refine wp_vnodeIncref fun w' _ => ?_
    simp only [Prog.wp_pure]
    rintro ⟨⟩
  | error e =>
    simp only [Prog.wp_pure]
    exact fun he => vfsGetroot_ne_EINVAL _ _ _ (by rw [hr]; cases he; rfl)
  | assertion =>
    simp only [Prog.wp_stop]

theorem getdevice_notInvalid (path : Name) : NotInvalid (getdevice path) w := by
  unfold getdevice
  cases firstSeparator path 0 with
  | none => exact vfsGetcurdir_notInvalid.map _
  | some x =>
    obtain ⟨i, c⟩ := x
    dsimp only
    split_ifs
    · exact vfsGetcurdir_notInvalid.map _
    · exact (vfsGetrootVnode_notInvalid _).map _
    · rw [NotInvalid, Prog.wp_bind, Prog.wp_getS]
      dsimp only
      cases w.st.bootfsVnode with
      | none =>
        simp only [Prog.wp_pure]
        exact nofun
      | some vn =>
        dsimp only
        rw [Prog.wp_bind]
        refine wp_vnodeIncref fun w' _ => ?_
        simp only [Prog.wp_pure]
        exact nofun
    · rw [NotInvalid, Prog.wp_bind]
      refine vfsGetcurdir_notInvalid.mono (fun r w1 hr => ?_) (fun _ _ h => h) fun _ _ h => h
      cases r with
      | error e =>
        simp only [Prog.wp_pure]
        exact fun he => hr (by cases he; rfl)
      | ok vn =>
        dsimp only
        rw [Prog.wp_bind, Prog.wp_getS]
        dsimp only
        cases w1.st.vnFs vn with
        | none => simp only [Prog.wp_stop]
        | some fs =>
          dsimp only
          rw [Prog.wp_bind]
          refine wp_fsopGetroot fun startvn w2 _ => ?_
          dsimp only
          rw [Prog.wp_bind]
          refine wp_vnodeDecref (C := False) (fun _ _ _ => trivial) False.elim fun w3 _ => ?_
          simp only [Prog.wp_pure]
          exact nofun

/-- Behind a type that is a directory nothing fails with `EINVAL`. -/
theorem setbootfsFrom_returns_iff (vn : V) :
    (setbootfsFrom vn).Returns w (some .EINVAL) ↔ (typeRefusal vn).Returns w (some .EINVAL) := by
  rw [setbootfsFrom, typeRefusal, vfsSetcurdir, vopDo, Prog.bind_assoc, Prog.bind_assoc,
    Prog.Returns, Prog.Returns, Prog.wp_bind, Prog.wp_bind, Prog.wp_request, Prog.wp_request]
  dsimp only
  cases (O.serve w.st (.gettype vn) w.env).1.result with
  | some e => exact Iff.rfl
  | none =>
    refine ⟨fun h => absurd h ?_, fun h => ?_⟩
    · refine Prog.not_returns ?_
      dsimp only
      split
      · rw [Prog.wp_bind, Prog.wp_pure]
        dsimp only
        rw [Prog.wp_bind]
        refine wp_vnodeDecref (C := False) (fun _ _ _ => trivial) False.elim fun w' _ => ?_
        simp only [Prog.wp_pure]
        rintro ⟨⟩
      · rw [Prog.bind_assoc, Prog.wp_bind, Prog.wp_getS]
        dsimp only
        rw [Prog.bind_assoc, Prog.wp_bind, Prog.wp_setS]
        dsimp only
        cases w.st.tCwd with
        | none => exact wp_bootCurdir vn rfl fun w' => by rintro ⟨⟩
        | some old =>
          dsimp only
          rw [Prog.bind_assoc, Prog.wp_bind]
          refine wp_vnodeDecref (C := False) (fun _ _ _ => trivial) False.elim fun w' hw' => ?_
          exact wp_bootCurdir vn hw'.cwd fun w'' => by rintro ⟨⟩
    · simp only [Prog.wp_bind, Prog.wp_pure] at h
      cases h

/-- Both end with `EINVAL` if they do on the vnode. -/
theorem resolved_returns_iff {path : Name} {missing missing' : Errno → Option Errno}
    {found found' : V → Op D V F (Option Errno)}
    (hmissing : ∀ e ≠ .EINVAL, missing e ≠ some .EINVAL ∧ missing' e ≠ some .EINVAL)
    (hfound : ∀ vn (w' : World O), (found vn).Returns w' (some .EINVAL) ↔
      (found' vn).Returns w' (some .EINVAL)) :
    (resolved path missing found).Returns w (some .EINVAL) ↔
      (resolved path missing' found').Returns w (some .EINVAL) := by
  rw [resolved, resolved, Prog.Returns, Prog.Returns, Prog.wp_bind, Prog.wp_bind]
  refine (getdevice_notInvalid path).congr fun r w1 hr => ?_
  cases r with
  | error e =>
    have hm := hmissing e fun he => hr (by rw [he])
    simp only [Prog.wp_pure]
    exact iff_of_false hm.1 hm.2
  | ok a =>
    obtain ⟨sub, startvn⟩ := a
    dsimp only
    split
    · exact hfound startvn w1
    · rw [Prog.wp_bind, Prog.wp_bind]
      refine Prog.wp.congr (I := fun _ _ => True) (Prog.wp_any (fun _ _ => trivial)
        (fun _ _ => trivial) fun _ _ => trivial) fun result w2 _ => ?_
      rw [Prog.wp_bind, Prog.wp_bind]
      refine Prog.wp.congr (I := fun _ _ => True) (Prog.wp_any (fun _ _ => trivial)
        (fun _ _ => trivial) fun _ _ => trivial) fun _ w3 _ => ?_
      cases result with
      | error e => exact Iff.rfl
      | ok a => exact hfound a.1 w3

/-- `vfs_setbootfs` behind its own check fails with `EINVAL` if the file systems do. -/
theorem setbootfsTo_returns_iff (path : Name) :
    (setbootfsTo path).Returns w (some .EINVAL) ↔ (refusal path).Returns w (some .EINVAL) := by
  rw [setbootfsTo_eq]
  refine resolved_returns_iff (fun e he => ⟨?_, nofun⟩) fun vn w' => setbootfsFrom_returns_iff vn
  exact fun h => he (Option.some.inj h)

end Refusal

/-! ## With and without the colon -/

section Spelled

variable {D V F : Type} {O : Outside (vfsSig D V F)}

/-- What a call gives, and what `bootfs_vnode` and the current directory are behind it. -/
def observed (r : Outcome (vfsSig D V F) (Option Errno) × World O) :
    Outcome (vfsSig D V F) (Option Errno) × Option V × Option V :=
  (r.1, r.2.st.bootfsVnode, r.2.st.tCwd)

variable [DecidableEq V]

/-- `vfs_setbootfs` takes the name as `vfs.h` says: the trailing colon makes no difference, any
other colon is refused, and a call that fails leaves the boot file system. -/
structure TakesName (w : World O) (name : Name) : Prop where
  spelled : 58 ∉ name → name.length < nameMax - 1 →
    observed ((vfsSetbootfs name).run O w) = observed ((vfsSetbootfs (name ++ [58])).run O w)
  inside : 58 ∈ name.dropLast →
    ∃ w', (vfsSetbootfs name).run O w = (.ok (some .EINVAL), w') ∧ w'.st = w.st
  failed : ∀ e w', (vfsSetbootfs name).run O w = (.ok (some e), w') →
    w'.st.bootfsVnode = w.st.bootfsVnode

variable {w : World O} {name : Name}

theorem bootfs_of_failed (e : Errno) (w' : World O)
    (h : (vfsSetbootfs name).run O w = (.ok (some e), w')) :
    w'.st.bootfsVnode = w.st.bootfsVnode := by
  rw [setbootfs_fails h]

/-- With its colon every name is refused. -/
theorem run_setbootfs_colon (h : 58 ∈ name.take (nameMax - 1)) :
    (vfsSetbootfs name).run O w = (.ok (some .EINVAL), w) := by
  rw [vfsSetbootfs_colon h]
  rfl

theorem takesName_of_colon (h : 58 ∈ name.take (nameMax - 1)) : TakesName w name where
  spelled hname _ := absurd (List.mem_of_mem_take h) hname
  inside _ := ⟨w, run_setbootfs_colon h, rfl⟩
  failed := bootfs_of_failed

theorem run_setbootfs_spelled (hlen : name.length < nameMax - 1) :
    (vfsSetbootfs (name ++ [58])).run O w = (.ok (some .EINVAL), w) := by
  refine run_setbootfs_colon ?_
  rw [List.take_of_length_le (by rw [List.length_append]; exact hlen)]
  exact List.mem_append_right _ (List.mem_singleton_self _)

theorem takesName_iff_refused (h : 58 ∉ name.take (nameMax - 1))
    (hname : name.length < nameMax - 1 ∨ 58 ∈ name.dropLast) :
    TakesName w name ↔ (vfsSetbootfs name).Returns w (some .EINVAL) := by
  rw [Prog.returns_iff]
  constructor
  · intro ht
    rcases hname with hlen | hin
    · rw [List.take_of_length_le (Nat.le_of_lt hlen)] at h
      have hsame := ht.spelled h hlen
      rw [run_setbootfs_spelled hlen] at hsame
      have hresult : ((vfsSetbootfs name).run O w).1 = .ok (some .EINVAL) :=
        congrArg Prod.fst hsame
      exact ⟨((vfsSetbootfs name).run O w).2, Prod.ext hresult rfl⟩
    · obtain ⟨w', hrun, -⟩ := ht.inside hin
      exact ⟨w', hrun⟩
  · rintro ⟨w', hrun⟩
    have hst := setbootfs_fails hrun
    refine ⟨fun _ hlen => ?_, fun _ => ⟨w', hrun, hst⟩, bootfs_of_failed⟩
    rw [hrun, run_setbootfs_spelled hlen, observed, observed, hst]

/-- A name is taken as documented if it has a colon among the bytes that are looked at, if it is
too long to be a name and has no colon inside, or if the file systems refuse it with the same
error. -/
theorem takesName_iff (w : World O) (name : Name) : TakesName w name ↔
    58 ∈ name.take (nameMax - 1) ∨ (nameMax - 1 ≤ name.length ∧ 58 ∉ name.dropLast) ∨
      (refusal (name.take (nameMax - 1) ++ [58])).Returns w (some .EINVAL) := by
  by_cases h : 58 ∈ name.take (nameMax - 1)
  · exact iff_of_true (takesName_of_colon h) (.inl h)
  · by_cases hlong : nameMax - 1 ≤ name.length ∧ 58 ∉ name.dropLast
    · refine iff_of_true ⟨fun _ hlen => ?_, fun hin => absurd hin hlong.2, bootfs_of_failed⟩
        (.inr (.inl hlong))
      exact absurd hlen (Nat.not_lt.mpr hlong.1)
    · have hname : name.length < nameMax - 1 ∨ 58 ∈ name.dropLast := by
        rwa [Decidable.not_and_iff_or_not, Nat.not_le, Decidable.not_not] at hlong
      rw [takesName_iff_refused h hname, vfsSetbootfs_plain h, setbootfsTo_returns_iff,
        or_iff_right h, or_iff_right hlong]

end Spelled

/-! ## One name -/

/-- A file system on which every operation gives its root directory. -/
def willing : Outside (vfsSig Nat Nat Nat) where
  Env := Unit
  serve _ _ env := (⟨none, 1, [], true⟩, env)
  toss env := (false, env)

/-- `emu0`. -/
def emu0 : Name := [101, 109, 117, 48]

/-- The emulator's file system is there, and nothing else. -/
def emuAttached : World willing where
  st := {
    vnRefcount _ := 1
    vnOpencount _ := 0
    vnFs _ := some 0
    getvolname _ := none
    tCwd := none
    bootfsVnode := none
    knowndevs := [⟨emu0, none, none, 0, some 0⟩] }
  env := ()

/-- `emu0` becomes the boot file system, `emu0:` is refused. -/
theorem emu0_not_takesName :
    observed ((vfsSetbootfs emu0).run willing emuAttached) = (.ok none, some 1, some 1) ∧
      observed ((vfsSetbootfs (emu0 ++ [58])).run willing emuAttached) =
        (.ok (some .EINVAL), none, none) ∧
      ¬ TakesName emuAttached emu0 := by
  have hplain : observed ((vfsSetbootfs emu0).run willing emuAttached) =
      (.ok none, some 1, some 1) := by rfl
  have hcolon : observed ((vfsSetbootfs (emu0 ++ [58])).run willing emuAttached) =
      (.ok (some .EINVAL), none, none) := by rfl
  refine ⟨hplain, hcolon, fun h => ?_⟩
  have hsame := h.spelled (by decide) (by decide)
  rw [hplain, hcolon] at hsame
  cases hsame

end Os161.Vfs
