import Mathlib.Tactic.ByContra
import Os161.Vfs.Paths

/-! # Reference counts of the operations on paths

What each operation adds to the counts, whatever file systems answer. -/
namespace Os161.Vfs
open Os161.Lib

/-! ## Changes of the counts -/

section Counts

variable {D V F : Type} {s s' s'' : State D V F} {r r' o o' : V → Int} {c c' : Option V}

/-- The counts went up by `r` and `o`, the current directory is `c`, and all else is as before. -/
structure Moved (s s' : State D V F) (r o : V → Int) (c : Option V) : Prop where
  refs : ∀ v, (s'.vnRefcount v : Int) = s.vnRefcount v + r v
  opens : ∀ v, (s'.vnOpencount v : Int) = s.vnOpencount v + o v
  cwd : s'.tCwd = c
  vnFs : s'.vnFs = s.vnFs
  bootfs : s'.bootfsVnode = s.bootfsVnode
  devs : s'.knowndevs = s.knowndevs ∧ s'.getvolname = s.getvolname

theorem Moved.refl (s : State D V F) : Moved s s (fun _ => 0) (fun _ => 0) s.tCwd :=
  ⟨fun _ => by simp, fun _ => by simp, rfl, rfl, rfl, rfl, rfl⟩

theorem Moved.trans (h : Moved s s' r o c) (h' : Moved s' s'' r' o' c') :
    Moved s s'' (fun v => r v + r' v) (fun v => o v + o' v) c' where
  refs v := by rw [h'.refs, h.refs, Int.add_assoc]
  opens v := by rw [h'.opens, h.opens, Int.add_assoc]
  cwd := h'.cwd
  vnFs := h'.vnFs.trans h.vnFs
  bootfs := h'.bootfs.trans h.bootfs
  devs := ⟨h'.devs.1.trans h.devs.1, h'.devs.2.trans h.devs.2⟩

theorem Moved.congr (h : Moved s s' r o c) (hr : ∀ v, r' v = r v) (ho : ∀ v, o' v = o v) :
    Moved s s' r' o' c where
  refs v := by rw [hr, h.refs]
  opens v := by rw [ho, h.opens]
  cwd := h.cwd
  vnFs := h.vnFs
  bootfs := h.bootfs
  devs := h.devs

variable [DecidableEq V] {v vn : V}

/-- One for a vnode. -/
def one (vn : V) (v : V) : Int := if v = vn then 1 else 0

/-- One for the vnode that is there. -/
def oneOf (c : Option V) (v : V) : Int := if c = some v then 1 else 0

theorem one_self (v : V) : one v v = 1 := if_pos rfl

theorem one_nonneg (vn v : V) : 0 ≤ one vn v := by
  unfold one
  split <;> decide

theorem oneOf_nonneg (c : Option V) (v : V) : 0 ≤ oneOf c v := by
  unfold oneOf
  split <;> decide

/-- The current directory and every open have a reference of their own. -/
def Counted (s : State D V F) : Prop :=
  ∀ v, (s.vnOpencount v : Int) + oneOf s.tCwd v ≤ s.vnRefcount v

/-- As many references as opens were added, or more. -/
theorem Counted.moved (h : Counted s) (hm : Moved s s' r o s.tCwd) (hle : ∀ v, o v ≤ r v) :
    Counted s' := by
  intro v
  have h1 := h v
  have h2 := hle v
  rw [hm.cwd, hm.refs, hm.opens]
  omega

/-- Dropping a reference to `v` fails no assertion. -/
def Safe (s : State D V F) (v : V) : Prop :=
  0 < s.vnRefcount v ∧ (s.vnRefcount v = 1 → s.vnOpencount v = 0)

theorem Counted.safe (h : Counted s) (hm : Moved s s' r o c) (hr : 1 ≤ r v + oneOf s.tCwd v)
    (ho : o v = 0) : Safe s' v := by
  have h1 := h v
  have h2 := hm.refs v
  have h3 := hm.opens v
  unfold Safe
  omega

end Counts

/-! ## Single operations -/

section Single

variable {D V F : Type} [DecidableEq V] {O : Outside (vfsSig D V F)} {w : World O} {α : Type}
  {vn : V} {C : Prop}

/-- Assertions about counts fail only if `C` does not hold. -/
def Stops (C : Prop) (Q : Post O α) : Prop :=
  ∀ m w', (C → m ≠ .refcount ∧ m ≠ .opencount) → Q.stopped m w'

theorem wp_vnodeIncref {Q : Post O Unit}
    (hok : ∀ w', Moved w.st w'.st (one vn) (fun _ => 0) w.st.tCwd → Q.ok () w') :
    (vnodeIncref vn).wp Q w := by
  rw [vnodeIncref, Prog.wp_modifyS]
  refine hok _ ⟨fun v => ?_, fun _ => by simp, rfl, rfl, rfl, rfl, rfl⟩
  simp only [one]
  split <;> simp

theorem wp_vnodeIncopen {Q : Post O Unit}
    (hok : ∀ w', Moved w.st w'.st (fun _ => 0) (one vn) w.st.tCwd → Q.ok () w') :
    (vnodeIncopen vn).wp Q w := by
  rw [vnodeIncopen, Prog.wp_modifyS]
  refine hok _ ⟨fun _ => by simp, fun v => ?_, rfl, rfl, rfl, rfl, rfl⟩
  simp only [one]
  split <;> simp

theorem wp_vnodeDecref {Q : Post O Unit} (hstop : Stops C Q) (hsafe : C → Safe w.st vn)
    (hok : ∀ w', Moved w.st w'.st (fun v => -one vn v) (fun _ => 0) w.st.tCwd → Q.ok () w') :
    (vnodeDecref vn).wp Q w := by
  rw [vnodeDecref, Prog.wp_bind, Prog.wp_getS]
  dsimp only
  by_cases h0 : w.st.vnRefcount vn = 0
  · rw [if_pos h0, Prog.wp_stop]
    exact hstop _ _ fun hC => absurd h0 (Nat.ne_of_gt (hsafe hC).1)
  · rw [if_neg h0]
    by_cases h1 : w.st.vnRefcount vn > 1
    · rw [if_pos h1, Prog.wp_setS]
      refine hok _ ⟨fun v => ?_, fun _ => by simp, rfl, rfl, rfl, rfl, rfl⟩
      simp only [one]
      split
      · next hv =>
        subst hv
        omega
      · simp
    · have hone : w.st.vnRefcount vn = 1 := by omega
      rw [if_neg h1, vopReclaim, Prog.wp_bind, Prog.wp_request]
      dsimp only
      rw [vnodeKill, Prog.wp_bind, Prog.wp_getS]
      dsimp only
      rw [if_neg (not_not_intro hone)]
      by_cases ho : w.st.vnOpencount vn = 0
      · rw [if_neg (not_not_intro ho), Prog.wp_setS]
        refine hok _ ⟨fun v => ?_, fun _ => by simp, rfl, rfl, rfl, rfl, rfl⟩
        simp only [one]
        split
        · next hv =>
          subst hv
          simp [hone]
        · simp
      · rw [if_pos ho, Prog.wp_stop]
        exact hstop _ _ fun hC => absurd ((hsafe hC).2 hone) ho

theorem wp_vnodeDecopen {Q : Post O Unit} (hstop : Stops C Q)
    (hsafe : C → 0 < w.st.vnOpencount vn)
    (hok : ∀ w', Moved w.st w'.st (fun _ => 0) (fun v => -one vn v) w.st.tCwd → Q.ok () w') :
    (vnodeDecopen vn).wp Q w := by
  rw [vnodeDecopen, Prog.wp_bind, Prog.wp_getS]
  dsimp only
  by_cases h0 : w.st.vnOpencount vn = 0
  · rw [if_pos h0, Prog.wp_stop]
    exact hstop _ _ fun hC => absurd h0 (Nat.ne_of_gt (hsafe hC))
  · have hmoved : Moved w.st
        { w.st with
          vnOpencount := fun v => if v = vn then w.st.vnOpencount v - 1 else w.st.vnOpencount v }
        (fun _ => 0) (fun v => -one vn v) w.st.tCwd := by
      refine ⟨fun _ => by simp, fun v => ?_, rfl, rfl, rfl, rfl, rfl⟩
      simp only [one]
      split
      · next hv =>
        subst hv
        omega
      · simp
    rw [if_neg h0, Prog.wp_bind, Prog.wp_setS]
    dsimp only
    by_cases h1 : w.st.vnOpencount vn - 1 > 0
    · rw [if_pos h1, Prog.wp_pure]
      exact hok _ hmoved
    · rw [if_neg h1, Prog.wp_bind, Prog.wp_request]
      dsimp only
      rw [Prog.wp_pure]
      exact hok _ hmoved

theorem wp_vopGive {req : Req V F} {Q : Post O (Except Errno (V × Name))}
    (hok : ∀ vn name w', Moved w.st w'.st (one vn) (fun _ => 0) w.st.tCwd →
      Q.ok (.ok (vn, name)) w')
    (herr : ∀ e w', w'.st = w.st → Q.ok (.error e) w') : (vopGive req).wp Q w := by
  rw [vopGive, Prog.wp_bind, Prog.wp_request]
  dsimp only
  cases (O.serve w.st req w.env).1.result with
  | some e =>
    simp only [Prog.wp_pure]
    exact herr e _ rfl
  | none =>
    dsimp only
    rw [Prog.wp_bind]
    refine wp_vnodeIncref fun w' hw' => ?_
    dsimp only
    rw [Prog.wp_pure]
    exact hok _ _ w' hw'

omit [DecidableEq V] in
theorem wp_vopDo {req : Req V F} {Q : Post O (Option Errno)}
    (hok : ∀ result w', w'.st = w.st → Q.ok result w') : (vopDo req).wp Q w := by
  rw [vopDo, Prog.wp_bind, Prog.wp_request]
  dsimp only
  rw [Prog.wp_pure]
  exact hok _ _ rfl

theorem wp_fsopGetroot {fs : F} {Q : Post O V}
    (hok : ∀ vn w', Moved w.st w'.st (one vn) (fun _ => 0) w.st.tCwd → Q.ok vn w') :
    (fsopGetroot fs).wp Q w := by
  rw [fsopGetroot, Prog.wp_bind, Prog.wp_request]
  dsimp only
  rw [Prog.wp_bind]
  refine wp_vnodeIncref fun w' hw' => ?_
  dsimp only
  rw [Prog.wp_pure]
  exact hok _ w' hw'

theorem wp_vfsGetcurdir {Q : Post O (Except Errno V)}
    (hok : ∀ vn w', w.st.tCwd = some vn →
      Moved w.st w'.st (one vn) (fun _ => 0) w.st.tCwd → Q.ok (.ok vn) w')
    (herr : ∀ e, Q.ok (.error e) w) : vfsGetcurdir.wp Q w := by
  rw [vfsGetcurdir, Prog.wp_bind, Prog.wp_getS]
  dsimp only
  cases hc : w.st.tCwd with
  | none =>
    simp only [Prog.wp_pure]
    exact herr _
  | some cwd =>
    dsimp only
    rw [Prog.wp_bind]
    refine wp_vnodeIncref fun w' hw' => ?_
    dsimp only
    rw [Prog.wp_pure]
    exact hok cwd w' hc (hc ▸ hw')

theorem wp_vfsGetrootVnode {devname : Name} {Q : Post O (Except Errno V)} (hstop : Stops C Q)
    (hok : ∀ vn w', Moved w.st w'.st (one vn) (fun _ => 0) w.st.tCwd → Q.ok (.ok vn) w')
    (herr : ∀ e, Q.ok (.error e) w) : (vfsGetrootVnode devname).wp Q w := by
  rw [vfsGetrootVnode, Prog.wp_bind, Prog.wp_getS]
  dsimp only
  cases vfsGetroot w.st.getvolname devname w.st.knowndevs with
  | getroot fs =>
    dsimp only
    rw [Prog.wp_bind]
    refine wp_fsopGetroot fun vn w' hw' => ?_
    dsimp only
    rw [Prog.wp_pure]
    exact hok vn w' hw'
  | device vn =>
    dsimp only
    rw [Prog.wp_bind]
    refine wp_vnodeIncref fun w' hw' => ?_
    dsimp only
    rw [Prog.wp_pure]
    exact hok vn w' hw'
  | error e =>
    simp only [Prog.wp_pure]
    exact herr e
  | assertion =>
    simp only [Prog.wp_stop]
    exact hstop _ w fun _ => ⟨by simp, by simp⟩

end Single

/-! ## Lookups -/

section Lookups

variable {D V F : Type} [DecidableEq V] {O : Outside (vfsSig D V F)} {w : World O} {C : Prop}
  {path : Name} {c : Option V}

/-- A result code with the vnode it adds a reference to. -/
structure Adds {α : Type} (w : World O) (vnode : α → V) (Q : Post O (Except Errno α)) : Prop where
  ok : ∀ a w', Moved w.st w'.st (one (vnode a)) (fun _ => 0) w.st.tCwd → Q.ok (.ok a) w'
  error : ∀ e w', Moved w.st w'.st (fun _ => 0) (fun _ => 0) w.st.tCwd → Q.ok (.error e) w'

theorem wp_getdevice {Q : Post O (Except Errno (Name × V))} (hstop : Stops C Q)
    (hC : C → Counted w.st) (h : Adds w Prod.snd Q) : (getdevice path).wp Q w := by
  have hcur (path : Name) : (do
      let result ← vfsGetcurdir
      pure (result.map fun vn => (path, vn)) : Op D V F _).wp Q w := by
    rw [Prog.wp_bind]
    refine wp_vfsGetcurdir (fun vn w' _ hw' => ?_) fun e => ?_
    · simp only [Prog.wp_pure, Except.map]
      exact h.ok (path, vn) w' hw'
    · simp only [Prog.wp_pure, Except.map]
      exact h.error e w (.refl _)
  unfold getdevice
  cases firstSeparator path 0 with
  | none => exact hcur path
  | some x =>
    obtain ⟨i, c⟩ := x
    dsimp only
    split
    · exact hcur path
    · split
      · rw [Prog.wp_bind]
        refine wp_vfsGetrootVnode hstop (fun vn w' hw' => ?_) fun e => ?_
        · simp only [Prog.wp_pure, Except.map]
          exact h.ok (subpathAfter path i, vn) w' hw'
        · simp only [Prog.wp_pure, Except.map]
          exact h.error e w (.refl _)
      · split
        · rw [Prog.wp_bind, Prog.wp_getS]
          dsimp only
          cases w.st.bootfsVnode with
          | none =>
            simp only [Prog.wp_pure]
            exact h.error _ w (.refl _)
          | some vn =>
            dsimp only
            rw [Prog.wp_bind]
            refine wp_vnodeIncref fun w' hw' => ?_
            simp only [Prog.wp_pure]
            exact h.ok (subpathAfter path 0, vn) w' hw'
        · rw [Prog.wp_bind]
          refine wp_vfsGetcurdir (fun vn w1 _ h1 => ?_) fun e => ?_
          · dsimp only
            rw [Prog.wp_bind, Prog.wp_getS]
            dsimp only
            cases w1.st.vnFs vn with
            | none =>
              simp only [Prog.wp_stop]
              exact hstop _ w1 fun _ => ⟨by simp, by simp⟩
            | some fs =>
              dsimp only
              rw [Prog.wp_bind]
              refine wp_fsopGetroot fun startvn w2 h2 => ?_
              have h12 := h1.trans h2
              dsimp only
              rw [Prog.wp_bind]
              refine wp_vnodeDecref hstop (fun hc => (hC hc).safe h12 ?_ rfl) fun w3 h3 => ?_
              · have := one_self vn
                have := one_nonneg startvn vn
                have := oneOf_nonneg w.st.tCwd vn
                omega
              · dsimp only
                rw [Prog.wp_pure]
                refine h.ok (subpathAfter path 0, startvn) w3 ?_
                rw [h2.cwd, h1.cwd] at h3
                exact (h12.trans h3).congr (fun v => by dsimp only; omega) fun v => by simp
          · simp only [Prog.wp_pure]
            exact h.error e w (.refl _)

/-- Dropping a reference that was added since `w`, or that the current directory has. -/
theorem wp_drop {α : Type} {v : V} {w1 : World O} {r o : V → Int} {K : Op D V F α}
    {Q : Post O α} (hstop : Stops C Q) (hC : C → Counted w.st)
    (h1 : Moved w.st w1.st r o c) (hr : 1 ≤ r v + oneOf w.st.tCwd v)
    (ho : o v = 0) (hk : ∀ w', Moved w.st w'.st (fun x => r x - one v x) o c → K.wp Q w') :
    (vnodeDecref v >>= fun _ => K).wp Q w1 := by
  rw [Prog.wp_bind]
  refine wp_vnodeDecref hstop (fun hc => (hC hc).safe h1 hr ho) fun w2 h2 => ?_
  rw [h1.cwd] at h2
  exact hk w2 ((h1.trans h2).congr (fun v => by omega) fun v => by simp)

/-- The same for a reference added since. -/
theorem one_drop (v : V) (c : Option V) : 1 ≤ one v v + oneOf c v := by
  have := one_self v
  have := oneOf_nonneg c v
  omega

theorem wp_vfsLookparent {buflen : Nat} {Q : Post O (Except Errno (V × Name))}
    (hstop : Stops C Q) (hC : C → Counted w.st) (h : Adds w Prod.fst Q) :
    (vfsLookparent path buflen).wp Q w := by
  rw [vfsLookparent, Prog.wp_bind]
  refine wp_getdevice hstop hC ⟨fun a w1 h1 => ?_, fun e w1 h1 => ?_⟩
  · obtain ⟨path, startvn⟩ := a
    dsimp only at h1 ⊢
    by_cases hlen : path.length = 0
    · rw [if_pos hlen, Prog.wp_bind, Prog.wp_pure]
      refine wp_drop hstop hC h1 (one_drop ..) rfl fun w2 h2 => ?_
      simp only [Prog.wp_pure]
      exact h.error _ w2 (h2.congr (fun v => by omega) fun v => rfl)
    · rw [if_neg hlen, Prog.wp_bind]
      refine wp_vopGive (fun vn name w2 h2 => ?_) fun e w2 h2 => ?_
      · rw [h1.cwd] at h2
        refine wp_drop hstop hC (h1.trans h2) ?_ rfl fun w3 h3 => ?_
        · have := one_drop startvn w.st.tCwd
          have := one_nonneg vn startvn
          omega
        · simp only [Prog.wp_pure]
          exact h.ok (vn, name) w3 (h3.congr (fun v => by dsimp only; omega) fun v => by simp)
      · rw [← h2] at h1
        refine wp_drop hstop hC h1 (one_drop ..) rfl fun w3 h3 => ?_
        simp only [Prog.wp_pure]
        exact h.error e w3 (h3.congr (fun v => by omega) fun v => rfl)
  · simp only [Prog.wp_pure]
    exact h.error e w1 h1

theorem wp_vfsLookup {Q : Post O (Except Errno V)} (hstop : Stops C Q)
    (hC : C → Counted w.st) (h : Adds w id Q) : (vfsLookup path).wp Q w := by
  rw [vfsLookup, Prog.wp_bind]
  refine wp_getdevice hstop hC ⟨fun a w1 h1 => ?_, fun e w1 h1 => ?_⟩
  · obtain ⟨path, startvn⟩ := a
    dsimp only at h1 ⊢
    by_cases hlen : path.length = 0
    · rw [if_pos hlen, Prog.wp_pure]
      exact h.ok startvn w1 h1
    · rw [if_neg hlen, Prog.wp_bind]
      refine wp_vopGive (fun vn name w2 h2 => ?_) fun e w2 h2 => ?_
      · rw [h1.cwd] at h2
        refine wp_drop hstop hC (h1.trans h2) ?_ rfl fun w3 h3 => ?_
        · have := one_drop startvn w.st.tCwd
          have := one_nonneg vn startvn
          omega
        · simp only [Prog.wp_pure, Except.map]
          exact h.ok vn w3 (h3.congr (fun v => by dsimp only [id]; omega) fun v => by simp)
      · rw [← h2] at h1
        refine wp_drop hstop hC h1 (one_drop ..) rfl fun w3 h3 => ?_
        simp only [Prog.wp_pure, Except.map]
        exact h.error e w3 (h3.congr (fun v => by omega) fun v => rfl)
  · simp only [Prog.wp_pure]
    exact h.error e w1 h1

end Lookups

/-! ## Opening and closing -/

section Calls

variable {D V F : Type} [DecidableEq V] {O : Outside (vfsSig D V F)} {w : World O} {C : Prop}
  {path : Name}

theorem wp_openTarget {openflags : UInt32} {Q : Post O (Except Errno V)} (hstop : Stops C Q)
    (hC : C → Counted w.st) (h : Adds w id Q) : (openTarget path openflags).wp Q w := by
  unfold openTarget
  split
  · rw [Prog.wp_bind]
    refine wp_vfsLookparent hstop hC ⟨fun a w1 h1 => ?_, fun e w1 h1 => ?_⟩
    · obtain ⟨dir, name⟩ := a
      dsimp only at h1 ⊢
      rw [Prog.wp_bind]
      refine wp_vopGive (fun vn name w2 h2 => ?_) fun e w2 h2 => ?_
      · rw [h1.cwd] at h2
        refine wp_drop hstop hC (h1.trans h2) ?_ rfl fun w3 h3 => ?_
        · have := one_drop dir w.st.tCwd
          have := one_nonneg vn dir
          omega
        · simp only [Prog.wp_pure, Except.map]
          exact h.ok vn w3 (h3.congr (fun v => by dsimp only [id]; omega) fun v => by simp)
      · rw [← h2] at h1
        refine wp_drop hstop hC h1 (one_drop ..) rfl fun w3 h3 => ?_
        simp only [Prog.wp_pure, Except.map]
        exact h.error e w3 (h3.congr (fun v => by omega) fun v => rfl)
    · simp only [Prog.wp_pure]
      exact h.error e w1 h1
  · exact wp_vfsLookup hstop hC h

/-- A vnode with a reference and an open count, or nothing. -/
structure Opens (w : World O) (Q : Post O (Except Errno V)) : Prop where
  ok : ∀ vn w', Moved w.st w'.st (one vn) (one vn) w.st.tCwd → Q.ok (.ok vn) w'
  error : ∀ e w', Moved w.st w'.st (fun _ => 0) (fun _ => 0) w.st.tCwd → Q.ok (.error e) w'

/-- Dropping an open count that was added since `w`. -/
theorem wp_dropOpen {α : Type} {vn : V} {w1 : World O} {K : Op D V F α} {Q : Post O α}
    (hstop : Stops C Q) (h1 : Moved w.st w1.st (one vn) (one vn) w.st.tCwd)
    (hk : ∀ w', Moved w.st w'.st (one vn) (fun _ => 0) w.st.tCwd → K.wp Q w') :
    (vnodeDecopen vn >>= fun _ => K).wp Q w1 := by
  rw [Prog.wp_bind]
  refine wp_vnodeDecopen hstop (fun _ => ?_) fun w2 h2 => ?_
  · have := h1.opens vn
    have := one_self vn
    omega
  · rw [h1.cwd] at h2
    exact hk w2 ((h1.trans h2).congr (fun v => by simp) fun v => by omega)

theorem wp_vfsClose {vn : V} {w1 : World O} {Q : Post O Unit} (hstop : Stops C Q)
    (hC : C → Counted w.st) (h1 : Moved w.st w1.st (one vn) (one vn) w.st.tCwd)
    (hok : ∀ w', Moved w.st w'.st (fun _ => 0) (fun _ => 0) w.st.tCwd → Q.ok () w') :
    (vfsClose vn).wp Q w1 := by
  refine wp_dropOpen hstop h1 fun w2 h2 => ?_
  refine wp_vnodeDecref hstop (fun hc => (hC hc).safe h2 (one_drop ..) rfl) fun w3 h3 => ?_
  rw [h2.cwd] at h3
  exact hok w3 ((h2.trans h3).congr (fun v => by omega) fun v => by simp)

theorem wp_openTrunc {vn : V} {openflags : UInt32} {canwrite : Bool} {w1 : World O}
    {Q : Post O (Except Errno V)} (hstop : Stops C Q) (hC : C → Counted w.st)
    (h1 : Moved w.st w1.st (one vn) (one vn) w.st.tCwd) (h : Opens w Q) :
    (openTrunc vn openflags canwrite).wp Q w1 := by
  have hok {w2 : World O} (h2 : w2.st = w1.st) :
      (pure (.ok vn) : Op D V F (Except Errno V)).wp Q w2 := by
    rw [← h2] at h1
    simp only [Prog.wp_pure]
    exact h.ok vn w2 h1
  have herror (e : Errno) {w2 : World O} (h2 : w2.st = w1.st) : (do
      vnodeDecopen vn
      vnodeDecref vn
      pure (.error e) : Op D V F (Except Errno V)).wp Q w2 := by
    rw [← h2] at h1
    refine wp_dropOpen hstop h1 fun w3 h3 => ?_
    refine wp_drop hstop hC h3 (one_drop ..) rfl fun w4 h4 => ?_
    simp only [Prog.wp_pure]
    exact h.error e w4 (h4.congr (fun v => by omega) fun v => rfl)
  unfold openTrunc
  split
  · cases canwrite with
    | true =>
      rw [if_pos rfl, Prog.wp_bind]
      refine wp_vopDo fun result w2 h2 => ?_
      cases result with
      | none => exact hok h2
      | some e => exact herror e h2
    | false =>
      rw [if_neg Bool.false_ne_true, Prog.wp_bind, Prog.wp_pure]
      exact herror .EINVAL rfl
  · rw [Prog.wp_pure]
    exact h.ok vn w1 h1

theorem wp_vfsOpen {openflags : UInt32} {Q : Post O (Except Errno V)} (hstop : Stops C Q)
    (hC : C → Counted w.st) (h : Opens w Q) : (vfsOpen path openflags).wp Q w := by
  unfold vfsOpen
  dsimp only
  split
  · rw [Prog.wp_bind]
    refine wp_openTarget hstop hC ⟨fun vn w1 h1 => ?_, fun e w1 h1 => ?_⟩
    · dsimp only [id] at h1 ⊢
      rw [Prog.wp_bind]
      refine wp_vopDo fun result w2 h2 => ?_
      rw [← h2] at h1
      cases result with
      | some e =>
        refine wp_drop hstop hC h1 (one_drop ..) rfl fun w3 h3 => ?_
        simp only [Prog.wp_pure]
        exact h.error e w3 (h3.congr (fun v => by omega) fun v => rfl)
      | none =>
        dsimp only
        rw [Prog.wp_bind]
        refine wp_vnodeIncopen fun w3 h3 => ?_
        rw [h1.cwd] at h3
        refine wp_openTrunc hstop hC ?_ h
        exact (h1.trans h3).congr (fun v => by simp) fun v => by simp
    · simp only [Prog.wp_pure]
      exact h.error e w1 h1
  · rw [Prog.wp_pure]
    exact h.error _ w (.refl _)

/-! ## Operations that keep no vnode -/

/-- The counts are as before. -/
def Neutral {α : Type} (w : World O) (Q : Post O α) : Prop :=
  ∀ a w', Moved w.st w'.st (fun _ => 0) (fun _ => 0) w.st.tCwd → Q.ok a w'

theorem wp_vfsRemove {Q : Post O (Option Errno)} (hstop : Stops C Q) (hC : C → Counted w.st)
    (h : Neutral w Q) : (vfsRemove path).wp Q w := by
  rw [vfsRemove, Prog.wp_bind]
  refine wp_vfsLookparent hstop hC ⟨fun a w1 h1 => ?_, fun e w1 h1 => ?_⟩
  · obtain ⟨dir, name⟩ := a
    dsimp only at h1 ⊢
    rw [Prog.wp_bind]
    refine wp_vopDo fun result w2 h2 => ?_
    rw [← h2] at h1
    refine wp_drop hstop hC h1 (one_drop ..) rfl fun w3 h3 => ?_
    rw [Prog.wp_pure]
    exact h _ w3 (h3.congr (fun v => by omega) fun v => rfl)
  · simp only [Prog.wp_pure]
    exact h _ w1 h1

/-- Both vnodes that `vfs_rename` and `vfs_link` hold are dropped. -/
theorem wp_dropBoth {a b : V} {w1 : World O} {result : Option Errno} {Q : Post O (Option Errno)}
    (hstop : Stops C Q) (hC : C → Counted w.st) (h : Neutral w Q)
    (h1 : Moved w.st w1.st (fun v => one a v + one b v) (fun _ => 0) w.st.tCwd) :
    (do
      vnodeDecref b
      vnodeDecref a
      pure result : Op D V F (Option Errno)).wp Q w1 := by
  refine wp_drop hstop hC h1 ?_ rfl fun w2 h2 => ?_
  · have := one_drop b w.st.tCwd
    have := one_nonneg a b
    omega
  · have h2 : Moved w.st w2.st (one a) (fun _ => 0) w.st.tCwd :=
      h2.congr (fun v => by omega) fun v => rfl
    refine wp_drop hstop hC h2 (one_drop ..) rfl fun w3 h3 => ?_
    rw [Prog.wp_pure]
    exact h _ w3 (h3.congr (fun v => by omega) fun v => rfl)

/-- A vnode `a` is held already; `newpath` gives a second one. -/
theorem wp_secondParent {a : V} {w1 : World O}
    {K : Except Errno (V × Name) → Op D V F (Option Errno)} {Q : Post O (Option Errno)}
    (hstop : Stops C Q) (hC : C → Counted w.st) (h : Neutral w Q)
    (h1 : Moved w.st w1.st (one a) (fun _ => 0) w.st.tCwd)
    (herr : ∀ e, K (.error e) = do
      vnodeDecref a
      pure (some e))
    (hok : ∀ b name w2, Moved w.st w2.st (fun v => one a v + one b v) (fun _ => 0) w.st.tCwd →
      (K (.ok (b, name))).wp Q w2) :
    (vfsLookparent path (nameMax + 1) >>= K).wp Q w1 := by
  have hC1 (hc : C) : Counted w1.st := (hC hc).moved h1 (one_nonneg a)
  rw [Prog.wp_bind]
  refine wp_vfsLookparent hstop hC1 ⟨fun x w2 h2 => ?_, fun e w2 h2 => ?_⟩
  · rw [h1.cwd] at h2
    exact hok x.1 x.2 w2 ((h1.trans h2).congr (fun v => rfl) fun v => by simp)
  · rw [h1.cwd] at h2
    have h12 : Moved w.st w2.st (one a) (fun _ => 0) w.st.tCwd :=
      (h1.trans h2).congr (fun v => by simp) fun v => by simp
    dsimp only
    rw [herr]
    refine wp_drop hstop hC h12 (one_drop a _) rfl fun w3 h3 => ?_
    rw [Prog.wp_pure]
    exact h _ w3 (h3.congr (fun v => by omega) fun v => rfl)

/-- Both vnodes are there: the operation itself, unless they are on different devices. -/
theorem wp_both {a b x y : V} {w1 : World O} {req : Req V F} [DecidableEq F]
    {Q : Post O (Option Errno)} (hstop : Stops C Q) (hC : C → Counted w.st) (h : Neutral w Q)
    (h1 : Moved w.st w1.st (fun v => one a v + one b v) (fun _ => 0) w.st.tCwd) :
    (do
      let s ← Prog.getS
      if crossDevice s x y then do
        vnodeDecref b
        vnodeDecref a
        pure (some .EXDEV)
      else do
        let result ← vopDo req
        vnodeDecref b
        vnodeDecref a
        pure result : Op D V F (Option Errno)).wp Q w1 := by
  rw [Prog.wp_bind, Prog.wp_getS]
  dsimp only
  split
  · exact wp_dropBoth hstop hC h h1
  · rw [Prog.wp_bind]
    refine wp_vopDo fun result w2 h2 => ?_
    exact wp_dropBoth hstop hC h (h2 ▸ h1)

theorem wp_vfsRename [DecidableEq F] {newpath : Name} {Q : Post O (Option Errno)}
    (hstop : Stops C Q) (hC : C → Counted w.st) (h : Neutral w Q) :
    (vfsRename path newpath).wp Q w := by
  rw [vfsRename, Prog.wp_bind]
  refine wp_vfsLookparent hstop hC ⟨fun x w1 h1 => ?_, fun e w1 h1 => ?_⟩
  · obtain ⟨olddir, oldname⟩ := x
    exact wp_secondParent hstop hC h h1 (fun e => rfl) fun newdir newname w2 h2 =>
      wp_both hstop hC h h2
  · simp only [Prog.wp_pure]
    exact h _ w1 h1

theorem wp_vfsLink [DecidableEq F] {newpath : Name} {Q : Post O (Option Errno)}
    (hstop : Stops C Q) (hC : C → Counted w.st) (h : Neutral w Q) :
    (vfsLink path newpath).wp Q w := by
  rw [vfsLink, Prog.wp_bind]
  refine wp_vfsLookup hstop hC ⟨fun oldfile w1 h1 => ?_, fun e w1 h1 => ?_⟩
  · exact wp_secondParent hstop hC h h1 (fun e => rfl) fun newdir newname w2 h2 =>
      wp_both hstop hC h h2
  · simp only [Prog.wp_pure]
    exact h _ w1 h1

/-! ## The current directory -/

/-- The reference of the current directory goes to the vnode looked up, or nothing happens. -/
structure Changes (w : World O) (path : Name) (Q : Post O (Option Errno)) : Prop where
  ok : ∀ vn w₁ w', (vfsLookup path).run O w = (.ok (.ok vn), w₁) →
    Moved w.st w'.st (fun v => one vn v - oneOf w.st.tCwd v) (fun _ => 0) (some vn) → Q.ok none w'
  error : ∀ e w', Moved w.st w'.st (fun _ => 0) (fun _ => 0) w.st.tCwd → Q.ok (some e) w'

theorem wp_vfsSetcurdir {dir : V} {w1 : World O} {Q : Post O (Option Errno)} (hstop : Stops C Q)
    (hC : C → Counted w.st) (h1 : Moved w.st w1.st (one dir) (fun _ => 0) w.st.tCwd)
    (hok : ∀ w', Moved w.st w'.st (fun v => one dir v - oneOf w.st.tCwd v) (fun _ => 0)
      (some dir) → Q.ok none w')
    (herr : ∀ e w', w'.st = w1.st → Q.ok (some e) w') : (vfsSetcurdir dir).wp Q w1 := by
  rw [vfsSetcurdir, Prog.wp_bind, Prog.wp_request]
  dsimp only
  cases (O.serve w1.st (.gettype dir) w1.env).1.result with
  | some e =>
    simp only [Prog.wp_pure]
    exact herr e _ rfl
  | none =>
    dsimp only
    split
    · rw [Prog.wp_pure]
      exact herr _ _ rfl
    · rw [Prog.wp_bind, Prog.wp_getS]
      dsimp only
      rw [Prog.wp_bind, Prog.wp_setS]
      have h2 : Moved w.st { w1.st with tCwd := some dir } (one dir) (fun _ => 0) (some dir) :=
        ⟨h1.refs, h1.opens, rfl, h1.vnFs, h1.bootfs, h1.devs⟩
      rw [h1.cwd]
      cases hold : w.st.tCwd with
      | none =>
        simp only [Prog.wp_pure]
        exact hok _ (h2.congr (fun v => by simp [hold, oneOf]) fun v => rfl)
      | some old =>
        have hone (v : V) : oneOf w.st.tCwd v = one old v := by
          simp only [hold, oneOf, one, Option.some.injEq, eq_comm]
        refine wp_drop hstop hC h2 ?_ rfl fun w3 h3 => ?_
        · have := hone old
          have := one_self old
          have := one_nonneg dir old
          omega
        · rw [Prog.wp_pure]
          exact hok w3 (h3.congr (fun v => by rw [hone]) fun v => rfl)

theorem wp_vfsChdir {Q : Post O (Option Errno)} (hstop : Stops C Q) (hC : C → Counted w.st)
    (h : Changes w path Q) : (vfsChdir path).wp Q w := by
  have hlookup : (vfsLookup path).wp ⟨fun r w₁ =>
      Moved w.st w₁.st (match r with | .ok vn => one vn | .error _ => fun _ => 0) (fun _ => 0)
        w.st.tCwd, fun _ _ => False, Q.stopped⟩ w :=
    wp_vfsLookup (C := C) (fun m w' => hstop m w') hC ⟨fun _ _ h => h, fun _ _ h => h⟩
  rw [vfsChdir, Prog.wp_bind]
  refine hlookup.ran.mono (fun r w1 hr => ?_) (fun _ _ he => he.2.elim) fun _ _ hs => hs.2
  obtain ⟨hrun, h1⟩ := hr
  cases r with
  | ok vn =>
    dsimp only at h1 ⊢
    rw [Prog.wp_bind]
    refine wp_vfsSetcurdir hstop hC h1 (fun w2 h2 => ?_) fun e w2 h2 => ?_
    · simp only [Prog.wp_pure]
      exact h.ok vn w1 w2 hrun h2
    · refine wp_drop hstop hC (h2 ▸ h1) (one_drop ..) rfl fun w3 h3 => ?_
      rw [Prog.wp_pure]
      exact h.error e w3 (h3.congr (fun v => by omega) fun v => rfl)
  | error e =>
    simp only [Prog.wp_pure]
    exact h.error e w1 h1

omit [DecidableEq V] in
theorem wp_getcwdMoves {cwd : V} {name : Name} {Q : Post O (Option Errno)}
    (hok : ∀ result w', w'.st = w.st → Q.ok result w') : (getcwdMoves cwd name).wp Q w := by
  rw [getcwdMoves, Prog.wp_bind]
  refine wp_vopDo fun result w1 h1 => ?_
  cases result with
  | some e =>
    simp only [Prog.wp_pure]
    exact hok _ w1 h1
  | none =>
    dsimp only
    rw [Prog.wp_bind]
    refine wp_vopDo fun result w2 h2 => ?_
    cases result with
    | some e =>
      simp only [Prog.wp_pure]
      exact hok _ w2 (h2.trans h1)
    | none => exact wp_vopDo fun result w3 h3 => hok result w3 (h3.trans (h2.trans h1))

theorem wp_vfsGetcwd [DecidableEq F] {Q : Post O (Option Errno)} (hstop : Stops C Q)
    (hC : C → Counted w.st) (h : Neutral w Q) : (vfsGetcwd : Op D V F _).wp Q w := by
  rw [vfsGetcwd, Prog.wp_bind]
  refine wp_vfsGetcurdir (fun cwd w1 _ h1 => ?_) fun e => ?_
  · dsimp only
    rw [Prog.wp_bind, Prog.wp_getS]
    dsimp only
    cases w1.st.vnFs cwd with
    | none =>
      simp only [Prog.wp_stop]
      exact hstop _ w1 fun _ => ⟨by simp, by simp⟩
    | some fs =>
      dsimp only
      cases (w1.st.getvolname fs).or (vfsGetdevname fs w1.st.knowndevs) with
      | none =>
        simp only [Prog.wp_stop]
        exact hstop _ w1 fun _ => ⟨by simp, by simp⟩
      | some name =>
        dsimp only
        rw [Prog.wp_bind]
        refine wp_getcwdMoves fun result w2 h2 => ?_
        refine wp_drop hstop hC (h2 ▸ h1) (one_drop ..) rfl fun w3 h3 => ?_
        rw [Prog.wp_pure]
        exact h _ w3 (h3.congr (fun v => by omega) fun v => rfl)
  · simp only [Prog.wp_pure]
    exact h _ w (.refl _)

end Calls

/-! ## All operations -/

section Main

variable {D V F : Type} [DecidableEq V] [DecidableEq F] {s s' : State D V F}

def Unmoved (s s' : State D V F) : Prop := Moved s s' (fun _ => 0) (fun _ => 0) s.tCwd

/-- One reference more to what is handed back, or no change. -/
def AddsOne {α : Type} (vnode : α → V) (s : State D V F) (result : Except Errno α)
    (s' : State D V F) : Prop :=
  (∀ a, result = .ok a → Moved s s' (one (vnode a)) (fun _ => 0) s.tCwd) ∧
    ∀ e, result = .error e → Unmoved s s'

/-- One reference and one open more, or no change. -/
def OpensOne (s : State D V F) (result : Except Errno V) (s' : State D V F) : Prop :=
  (∀ vn, result = .ok vn → Moved s s' (one vn) (one vn) s.tCwd) ∧
    ∀ e, result = .error e → Unmoved s s'

/-- One reference goes from the old current directory to the new one, or no change. -/
def MovesCwd (s : State D V F) (result : Option Errno) (s' : State D V F) : Prop :=
  (result = none → ∃ vn,
    Moved s s' (fun v => one vn v - oneOf s.tCwd v) (fun _ => 0) (some vn)) ∧
    ∀ e, result = some e → Unmoved s s'

/-- Whatever the outside answers: every run that returns is as described, and where opens and the
current directory have their references no run fails an assertion about counts. -/
def Balanced {α : Type} (p : Op D V F α) (good : State D V F → α → State D V F → Prop) : Prop :=
  ∀ (O : Outside (vfsSig D V F)) (w w' : World O),
    (∀ a, p.run O w = (.ok a, w') → good w.st a w'.st) ∧
    ∀ m, p.run O w = (.stopped m, w') → Counted w.st → m ≠ .refcount ∧ m ≠ .opencount

variable (D V F) in
/-- If `vfs_chdir` succeeds, the current directory is the vnode that `vfs_lookup` finds. -/
def EntersFound (path : Name) : Prop :=
  ∀ (O : Outside (vfsSig D V F)) (w w' : World O), (vfsChdir path).run O w = (.ok none, w') →
    ∃ vn w₁, (vfsLookup path).run O w = (.ok (.ok vn), w₁) ∧ w'.st.tCwd = some vn

/-- A call of `vfs_open`, and `vfs_close` if it succeeds. -/
def openClose (path : Name) (openflags : UInt32) : Op D V F (Option Errno) := do
  match ← vfsOpen path openflags with
  | .error e => pure (some e)
  | .ok vn => do
    vfsClose vn
    pure none

/-- What `Balanced` says, as a postcondition. -/
def balancedPost {α : Type} {O : Outside (vfsSig D V F)} (s : State D V F)
    (good : State D V F → α → State D V F → Prop) : Post O α :=
  ⟨fun a w' => good s a w'.st, fun _ _ => True,
    fun m _ => Counted s → m ≠ .refcount ∧ m ≠ .opencount⟩

omit [DecidableEq F] in
theorem balanced_of_wp {α : Type} {p : Op D V F α} {good : State D V F → α → State D V F → Prop}
    (h : ∀ (O : Outside (vfsSig D V F)) (w : World O), p.wp (balancedPost w.st good) w) :
    Balanced p good := by
  intro O w w'
  have hw := (Prog.wp_iff _ _ w).mp (h O w)
  refine ⟨fun a hr => ?_, fun m hr => ?_⟩
  · rw [hr] at hw
    exact hw
  · rw [hr] at hw
    exact hw

omit [DecidableEq F] in
theorem balancedPost_stops {α : Type} {O : Outside (vfsSig D V F)} {s : State D V F}
    {good : State D V F → α → State D V F → Prop} :
    Stops (Counted s) (balancedPost (O := O) s good) := fun _ _ h => h

omit [DecidableEq F] in
theorem wp_openClose {O : Outside (vfsSig D V F)} {w : World O} {path : Name}
    {openflags : UInt32} {C : Prop} {Q : Post O (Option Errno)} (hstop : Stops C Q)
    (hC : C → Counted w.st) (h : Neutral w Q) : (openClose path openflags).wp Q w := by
  rw [openClose, Prog.wp_bind]
  refine wp_vfsOpen hstop hC ⟨fun vn w1 h1 => ?_, fun e w1 h1 => ?_⟩
  · dsimp only
    rw [Prog.wp_bind]
    refine wp_vfsClose hstop hC h1 fun w2 h2 => ?_
    simp only [Prog.wp_pure]
    exact h _ w2 h2
  · simp only [Prog.wp_pure]
    exact h _ w1 h1

/-- Every operation on paths balances the references it takes, at every point of failure. -/
theorem vfs_balanced (path path' : Name) (openflags : UInt32) (buflen : Nat) :
    Balanced (vfsOpen path openflags : Op D V F _) OpensOne ∧
    Balanced (vfsLookup path : Op D V F _) (AddsOne id) ∧
    Balanced (vfsLookparent path buflen : Op D V F _) (AddsOne Prod.fst) ∧
    Balanced (vfsRemove path : Op D V F _) (fun s _ s' => Unmoved s s') ∧
    Balanced (vfsRename path path' : Op D V F _) (fun s _ s' => Unmoved s s') ∧
    Balanced (vfsLink path path' : Op D V F _) (fun s _ s' => Unmoved s s') ∧
    Balanced (vfsGetcwd : Op D V F _) (fun s _ s' => Unmoved s s') ∧
    Balanced (vfsChdir path : Op D V F _) MovesCwd ∧
    Balanced (openClose path openflags : Op D V F _) (fun s _ s' => Unmoved s s') ∧
    EntersFound D V F path := by
  refine ⟨?_, ?_, ?_, ?_, ?_, ?_, ?_, ?_, ?_, ?_⟩
  · refine balanced_of_wp fun O w =>
      wp_vfsOpen balancedPost_stops id ⟨fun vn w' h => ?_, fun e w' h => ?_⟩
    · exact ⟨fun _ he => by cases he; exact h, fun _ he => by cases he⟩
    · exact ⟨fun _ he => (by cases he), fun _ _ => h⟩
  · refine balanced_of_wp fun O w =>
      wp_vfsLookup balancedPost_stops id ⟨fun vn w' h => ?_, fun e w' h => ?_⟩
    · exact ⟨fun _ he => by cases he; exact h, fun _ he => by cases he⟩
    · exact ⟨fun _ he => (by cases he), fun _ _ => h⟩
  · refine balanced_of_wp fun O w =>
      wp_vfsLookparent balancedPost_stops id ⟨fun vn w' h => ?_, fun e w' h => ?_⟩
    · exact ⟨fun _ he => by cases he; exact h, fun _ he => by cases he⟩
    · exact ⟨fun _ he => (by cases he), fun _ _ => h⟩
  · exact balanced_of_wp fun O w => wp_vfsRemove balancedPost_stops id fun _ _ h => h
  · exact balanced_of_wp fun O w => wp_vfsRename balancedPost_stops id fun _ _ h => h
  · exact balanced_of_wp fun O w => wp_vfsLink balancedPost_stops id fun _ _ h => h
  · exact balanced_of_wp fun O w => wp_vfsGetcwd balancedPost_stops id fun _ _ h => h
  · refine balanced_of_wp fun O w =>
      wp_vfsChdir balancedPost_stops id ⟨fun vn _ w' _ h => ?_, fun e w' h => ?_⟩
    · exact ⟨fun _ => ⟨_, h⟩, fun _ he => by cases he⟩
    · exact ⟨fun he => (by cases he), fun _ _ => h⟩
  · exact balanced_of_wp fun O w => wp_openClose balancedPost_stops id fun _ _ h => h
  · intro O w w' hrun
    have hw : (vfsChdir path).wp ⟨fun r w' => r = none → ∃ vn w₁,
        (vfsLookup path).run O w = (.ok (.ok vn), w₁) ∧ w'.st.tCwd = some vn,
        fun _ _ => True, fun _ _ => True⟩ w := by
      refine wp_vfsChdir (C := False) (fun _ _ _ => trivial) False.elim
        ⟨fun vn w₁ w' hl hm _ => ⟨vn, w₁, hl, hm.cwd⟩, fun e w' _ he => by cases he⟩
    exact Prog.wp_ok_iff.mp hw none w' hrun rfl

end Main

/-- One file system: its root 0, the directory `d` in it, and the file a creation makes. -/
def tinyFs : Outside (vfsSig Unit Nat Unit) where
  Env := Unit
  serve _ req _ := (match req with
    | .lookup _ path =>
      if path = [100] then ⟨none, 1, [], false⟩ else ⟨some .ENOENT, 0, [], false⟩
    | .lookparent dir path _ => ⟨none, dir, path, false⟩
    | .creat _ _ _ => ⟨none, 2, [], false⟩
    | .gettype vn => ⟨none, 0, [], vn ≠ 2⟩
    | _ => ⟨none, 0, [], false⟩, ())
  toss _ := (false, ())

/-- The current directory is the root. -/
def inRoot : World tinyFs where
  st :=
    { vnRefcount := fun v => if v = 0 then 1 else 0
      vnOpencount := fun _ => 0
      vnFs := fun _ => some ()
      getvolname := fun _ => some [118]
      tCwd := some 0
      bootfsVnode := none
      knowndevs := [] }
  env := ()

/-- `vfs_chdir("d")`, `vfs_open("f", O_RDWR|O_CREAT)` and `vfs_rename("d", "e")` succeed. -/
theorem vfs_balanced_tiny :
    (∃ w', (vfsChdir [100]).run tinyFs inRoot = (.ok none, w') ∧ w'.st.tCwd = some 1 ∧
      MovesCwd inRoot.st none w'.st) ∧
    (∃ w', (vfsOpen [102] (oRdwr ||| oCreat)).run tinyFs inRoot = (.ok (.ok 2), w') ∧
      OpensOne inRoot.st (.ok 2) w'.st) ∧
    ∃ w', (vfsRename [100] [101]).run tinyFs inRoot = (.ok none, w') ∧
      Unmoved inRoot.st w'.st := by
  obtain ⟨hopen, -⟩ :=
    vfs_balanced (D := Unit) (V := Nat) (F := Unit) [102] [101] (oRdwr ||| oCreat) 256
  obtain ⟨-, -, -, -, hrename, -, -, hchdir, -, -⟩ :=
    vfs_balanced (D := Unit) (V := Nat) (F := Unit) [100] [101] oRdonly 256
  exact ⟨⟨_, rfl, rfl, (hchdir tinyFs inRoot _).1 none rfl⟩,
    ⟨_, rfl, (hopen tinyFs inRoot _).1 (.ok 2) rfl⟩, _, rfl, (hrename tinyFs inRoot _).1 none rfl⟩

end Os161.Vfs
