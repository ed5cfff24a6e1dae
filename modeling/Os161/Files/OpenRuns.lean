import Os161.Files.Accounting

/-! # Runs over the table of open files

Every step keeps the invariant of the holders, whatever the threads do. -/
namespace Os161.Files.State

variable {T V : Type} [DecidableEq T] [DecidableEq V] {s s' : State T V}

/-! ## The check -/

omit [DecidableEq T] [DecidableEq V] in
theorem Inv.check {t : T} (filehandle : Int) (acc : FdAccess) (h : s.Inv) (ht : t ∈ s.threads)
    (hp : s.phase t = .running) :
    (checkFdAccess s.oft (s.fdt t) filehandle acc = .ebadf) ∨
    ∃ i, checkFdAccess s.oft (s.fdt t) filehandle acc = .ok i ∧ 0 ≤ filehandle ∧
      s.Holds (.slot t filehandle.toNat) i := by
  unfold checkFdAccess
  by_cases hrange : filehandle < 0 ∨ filehandle ≥ MAX_FD
  · exact .inl (if_pos hrange)
  rw [if_neg hrange]
  cases hfd : s.fdt t filehandle.toNat with
  | none => exact .inl rfl
  | some i =>
    have hholds : s.Holds (.slot t filehandle.toNat) i :=
      ⟨ht, by simp only [MAX_FD] at hrange ⊢; omega, hfd, by rw [hp]; exact nofun⟩
    have hmode := (h.slot t _ i hholds).2.2.2
    have hge : 0 ≤ filehandle := by omega
    dsimp only
    split
    · split
      · exact .inl rfl
      · exact .inr ⟨i, rfl, hge, hholds⟩
    · split
      · split
        · exact .inl rfl
        · exact .inr ⟨i, rfl, hge, hholds⟩
      · next h0 h1 =>
        have h2 : accmode (s.oft i).flags = 2 := by
          simp only [accmode] at h0 h1 hmode ⊢
          omega
        rw [if_pos h2]
        exact .inr ⟨i, rfl, hge, hholds⟩

/-! ## Steps -/

omit [DecidableEq T] in
theorem oftAlloc_some {oft : Nat → Ofte V} {i : Nat} (h : oftAlloc oft = some i) :
    i < MAX_OPEN_FILES ∧ (oft i).vn = .null :=
  ⟨List.mem_range.mp (List.mem_of_find?_eq_some h), by simpa using List.find?_some h⟩

theorem freeFd_some {fdt : Nat → Option Nat} {fd : Nat} (h : freeFd fdt = some fd) :
    fd < MAX_FD ∧ fdt fd = none :=
  ⟨List.mem_range.mp (List.mem_of_find?_eq_some h), by simpa using List.find?_some h⟩

section Local

variable {t : T} {fd : Nat} {o : Option Nat} {r : Except Errno Nat} {p : Phase}

omit [DecidableEq V]

theorem setSlot_fdt : (s.setSlot t fd o).fdt t = Function.update (s.fdt t) fd o :=
  Function.update_self _ _ _

theorem setPhase_phase : (s.setPhase t p).phase t = p := Function.update_self _ _ _

theorem local_setPhase (h : Local t s s') : Local t s (s'.setPhase t p) :=
  ⟨h.threads, h.fdt, fun u hu => (Function.update_of_ne hu _ _).trans (h.phase u hu)⟩

theorem local_setSlot (h : Local t s s') : Local t s (s'.setSlot t fd o) :=
  ⟨h.threads, fun u hu => (Function.update_of_ne hu _ _).trans (h.fdt u hu), h.phase⟩

theorem local_answer (h : Local t s s') : Local t s (s'.answer t r) :=
  ⟨h.threads, h.fdt, h.phase⟩

end Local

theorem claimEntry_panic {t : T} {flags : Int} {fd : Nat} :
    (s.claimEntry t flags fd).panic = s.panic := by
  unfold State.claimEntry
  split <;> rfl

/-- `oft_alloc` and the start of `vfs_open`. -/
theorem Inv.claimEntry {t : T} {flags : Int} {fd : Nat} (h : s.Inv)
    (hp : s.phase t = .running) (hfd : fd < MAX_FD) (hslot : s.fdt t fd = none) :
    (s.claimEntry t flags fd).Inv := by
  unfold State.claimEntry
  split
  · have hsame : ((s.setSlot t fd none).answer t (.error .ENFILE)).fdt = s.fdt := by
      show Function.update s.fdt t (Function.update (s.fdt t) fd none) = s.fdt
      rw [← hslot, Function.update_eq_self, Function.update_eq_self]
    refine h.keep (fun i => .refl _) rfl rfl (fun o i ho => ?_) fun u fd' flags' i hu hph => ?_
    · cases o with
      | slot u fd' =>
        obtain ⟨hu, hlt, hs, hph⟩ := ho
        rw [hsame] at hs
        exact ⟨hu, hlt, hs, hph⟩
      | opener u => exact ho
    · rw [hsame]
      exact h.opening u fd' flags' i hu hph
  · next i hi =>
    obtain ⟨hlt, hfree⟩ := oftAlloc_some hi
    have hloc : Local t s ({ s with
        oft := Function.update s.oft i { s.oft i with vn := .busy, count := 1 } }.setPhase t
          (.opening fd flags i)) := local_setPhase ⟨rfl, fun _ _ => rfl, fun _ _ => rfl⟩
    refine h.claim (u := t) hfree hlt (e := { s.oft i with vn := .busy, count := 1 }) ⟨rfl, rfl⟩
      rfl rfl rfl (fun o j ho => ?_) (hloc.opening h.opening fun fd' flags' j hph => ?_)
    · by_cases ht : o.thread = t
      · cases o with
        | slot u fd' =>
          obtain rfl : u = t := ht
          obtain ⟨hu, hlt', hs, _⟩ := ho
          exact .inl ⟨hu, hlt', hs, by rw [hp]; exact nofun⟩
        | opener u =>
          obtain rfl : u = t := ht
          obtain ⟨_, fd', flags', hph⟩ := ho
          rw [setPhase_phase] at hph
          cases hph
          exact .inr ⟨rfl, rfl⟩
      · exact .inl (hloc.holds ho ht)
    · rw [setPhase_phase] at hph
      cases hph
      exact ⟨hfd, hslot⟩

omit [DecidableEq V] in
/-- The return of `vfs_open`. -/
theorem Inv.openReturn {t : T} {flags : Int} {fd i : Nat} {r : Except Errno V} (h : s.Inv)
    (ht : t ∈ s.threads) (hp : s.phase t = .opening fd flags i)
    (hr : ∀ v, r = .ok v → accmode flags ≠ 3) :
    ((s.openReturn t fd flags i r).setPhase t .running).Inv := by
  obtain ⟨hfd, hslot⟩ := h.opening t fd flags i ht hp
  have hopener : s.Holds (.opener t) i := ⟨ht, fd, flags, hp⟩
  obtain ⟨_, hcount, hbusy⟩ := h.opener t i hopener
  cases r with
  | error e =>
    have hloc : Local t s ((s.openReturn t fd flags i (.error e)).setPhase t .running) :=
      local_setPhase (local_answer (local_setSlot ⟨rfl, fun _ _ => rfl, fun _ _ => rfl⟩))
    refine h.free hopener rfl rfl (.inr ⟨hbusy, rfl⟩) (fun o j ho => ?_)
      (hloc.opening h.opening fun fd' flags' j hph => ?_)
    · by_cases hot : o.thread = t
      · cases o with
        | slot u fd' =>
          obtain rfl : u = t := hot
          obtain ⟨hu, hlt, hs, _⟩ := ho
          refine ⟨⟨hu, hlt, ?_, by rw [hp]; exact nofun⟩, nofun⟩
          have hs' : Function.update s.fdt u
            (Function.update (s.fdt u) fd none) u fd' = some j := hs
          rw [Function.update_self] at hs'
          by_cases hfd' : fd' = fd
          · rw [hfd', Function.update_self] at hs'
            cases hs'
          · rwa [Function.update_of_ne hfd'] at hs'
        | opener u =>
          obtain rfl : u = t := hot
          obtain ⟨_, fd', flags', hph⟩ := ho
          rw [setPhase_phase] at hph
          cases hph
      · refine ⟨hloc.holds ho hot, ?_⟩
        intro hx
        obtain rfl := hx
        exact hot rfl
    · rw [setPhase_phase] at hph
      cases hph
  | ok v =>
    have hloc : Local t s ((s.openReturn t fd flags i (.ok v)).setPhase t .running) :=
      local_setPhase (local_answer (local_setSlot ⟨rfl, fun _ _ => rfl, fun _ _ => rfl⟩))
    refine h.fill fd hopener
      (e := { s.oft i with vn := .node v s.opened, fp := 0, flags := flags })
      ⟨hcount, ⟨v, s.opened, rfl⟩, hr v rfl⟩ rfl rfl rfl rfl (fun o j ho => ?_)
      (hloc.opening h.opening fun fd' flags' j hph => ?_)
    · by_cases hot : o.thread = t
      · cases o with
        | slot u fd' =>
          obtain rfl : u = t := hot
          obtain ⟨hu, hlt, hs, _⟩ := ho
          have hs' : Function.update s.fdt u
            (Function.update (s.fdt u) fd (some i)) u fd' = some j :=
            hs
          rw [Function.update_self] at hs'
          by_cases hfd' : fd' = fd
          · rw [hfd', Function.update_self] at hs'
            cases hs'
            exact .inr ⟨by rw [hfd'], rfl⟩
          · rw [Function.update_of_ne hfd'] at hs'
            exact .inl ⟨⟨hu, hlt, hs', by rw [hp]; exact nofun⟩, nofun⟩
        | opener u =>
          obtain rfl : u = t := hot
          obtain ⟨_, fd', flags', hph⟩ := ho
          rw [setPhase_phase] at hph
          cases hph
      · refine .inl ⟨hloc.holds ho hot, ?_⟩
        intro hx
        obtain rfl := hx
        exact hot rfl
    · rw [setPhase_phase] at hph
      cases hph

omit [DecidableEq V] in
/-- `sys_close` lets the entry go: the descriptor is cleared, or its thread waits in
`vfs_close`. -/
theorem Inv.closeEntry {t : T} {fd i : Nat} (h : s.Inv) (hi : s.Holds (.slot t fd) i)
    (hp : s.phase t = .running) (hloc : Local t s s') (hoft : s'.oft = oftFree s.oft i)
    (hopened : s'.opened = s.opened) (hclosed : s'.closed = (s.closeEntry i).closed)
    (hmine : s'.phase t = .closing fd ∧ s'.fdt t = s.fdt t ∨
      s'.phase t = .running ∧ s'.fdt t = Function.update (s.fdt t) fd none) : s'.Inv := by
  obtain ⟨_, hcount, ⟨v, k, hv⟩, _⟩ := h.slot t fd i hi
  have hclosed' : s'.closed = k :: s.closed := by
    rw [hclosed]
    simp [State.closeEntry, hcount, hv]
  refine h.free hi hoft hopened (.inl ⟨v, k, hv, hclosed'⟩) (fun o j ho => ?_)
    (hloc.opening h.opening fun fd' flags' j hph => ?_)
  · by_cases hot : o.thread = t
    · cases o with
      | slot u fd' =>
        obtain rfl : u = t := hot
        obtain ⟨hu, hlt, hs, hph⟩ := ho
        rw [hloc.threads] at hu
        rcases hmine with ⟨hc, hf⟩ | ⟨_, hf⟩
        · rw [hf] at hs
          rw [hc] at hph
          refine ⟨⟨hu, hlt, hs, by rw [hp]; exact nofun⟩, ?_⟩
          intro hx
          obtain ⟨⟩ := hx
          exact hph rfl
        · rw [hf] at hs
          by_cases hfd : fd' = fd
          · rw [hfd, Function.update_self] at hs
            cases hs
          · rw [Function.update_of_ne hfd] at hs
            refine ⟨⟨hu, hlt, hs, by rw [hp]; exact nofun⟩, ?_⟩
            intro hx
            obtain ⟨⟩ := hx
            exact hfd rfl
      | opener u =>
        obtain rfl : u = t := hot
        obtain ⟨_, fd', flags', hph⟩ := ho
        rcases hmine with ⟨hc, _⟩ | ⟨hc, _⟩ <;> rw [hc] at hph <;> cases hph
    · refine ⟨hloc.holds ho hot, ?_⟩
      intro hx
      obtain rfl := hx
      exact hot rfl
  · rcases hmine with ⟨hc, _⟩ | ⟨hc, _⟩ <;> rw [hc] at hph <;> cases hph

/-! ## The invariant -/

omit [DecidableEq T] [DecidableEq V] in
theorem Inv.boot : (State.boot : State T V).Inv where
  unique := fun o o' i ho => by cases o <;> exact absurd ho.1 (Finset.notMem_empty _)
  slot := fun t fd i ho => absurd ho.1 (Finset.notMem_empty _)
  opener := fun t i ho => absurd ho.1 (Finset.notMem_empty _)
  entry := fun i => .inl ⟨rfl, rfl⟩
  opening := fun t fd flags i ht => absurd ht (Finset.notMem_empty _)
  ticket := nofun
  distinct := nofun
  kept := fun k hk => absurd hk (Nat.not_lt_zero k)
  once := List.nodup_nil
  matched := nofun

omit [DecidableEq T] [DecidableEq V] in
/-- The destroyed thread takes its descriptors with it; the table hears nothing of it. -/
theorem Inv.destroyed {threads : Finset T} (h : s.Inv) (hsub : threads ⊆ s.threads) :
    Inv { s with threads := threads } := by
  refine h.keep (fun i => .refl _) rfl rfl (fun o i ho => ?_) fun u fd flags i hu hph =>
    h.opening u fd flags i (hsub hu) hph
  cases o with
  | slot u fd => exact ⟨hsub ho.1, ho.2⟩
  | opener u => exact ⟨hsub ho.1, ho.2⟩

omit [DecidableEq V] in
theorem Inv.forked {child : T} (h : s.Inv) :
    Inv ({ s with
      threads := insert child s.threads
      fdt := Function.update s.fdt child fun _ => none }.setPhase child .running) := by
  have old {u : T} (hu : u ∈ insert child s.threads) (hne : u ≠ child) : u ∈ s.threads :=
    (Finset.mem_insert.mp hu).resolve_left hne
  refine h.keep (fun i => .refl _) rfl rfl (fun o i ho => ?_) fun u fd flags i hu hph => ?_
  · cases o with
    | slot u fd =>
      obtain ⟨hu, hlt, hs, hph⟩ := ho
      change Function.update s.fdt child (fun _ => none) u fd = some i at hs
      change Function.update s.phase child .running u ≠ .closing fd at hph
      by_cases hne : u = child
      · rw [hne, Function.update_self] at hs
        cases hs
      · rw [Function.update_of_ne hne] at hs hph
        exact ⟨old hu hne, hlt, hs, hph⟩
    | opener u =>
      obtain ⟨hu, fd, flags, hph⟩ := ho
      change Function.update s.phase child .running u = .opening fd flags i at hph
      by_cases hne : u = child
      · rw [hne, Function.update_self] at hph
        cases hph
      · rw [Function.update_of_ne hne] at hph
        exact ⟨old hu hne, fd, flags, hph⟩
  · change Function.update s.phase child .running u = .opening fd flags i at hph
    change fd < MAX_FD ∧ Function.update s.fdt child (fun _ => none) u fd = none
    by_cases hne : u = child
    · rw [hne, Function.update_self] at hph
      cases hph
    · rw [Function.update_of_ne hne] at hph ⊢
      exact h.opening u fd flags i (old hu hne) hph

omit [DecidableEq V] in
/-- A thread at rest changes its phase, or clears a descriptor it was closing. -/
theorem Inv.rest {t : T} (h : s.Inv) (hloc : Local t s s') (hoft : s'.oft = s.oft)
    (hopened : s'.opened = s.opened) (hclosed : s'.closed = s.closed)
    (hph : ∀ fd flags i, s'.phase t ≠ .opening fd flags i)
    (hmine : ∀ fd i, s'.fdt t fd = some i → s.fdt t fd = some i ∧ s.phase t ≠ .closing fd) :
    s'.Inv := by
  refine h.keep (fun i => hoft ▸ .refl _) hopened hclosed (fun o i ho => ?_)
    (hloc.opening h.opening fun fd flags i hp => absurd hp (hph fd flags i))
  by_cases hot : o.thread = t
  · cases o with
    | slot u fd =>
      obtain rfl : u = t := hot
      obtain ⟨hu, hlt, hs, _⟩ := ho
      rw [hloc.threads] at hu
      obtain ⟨hs, hc⟩ := hmine fd i hs
      exact ⟨hu, hlt, hs, hc⟩
    | opener u =>
      obtain rfl : u = t := hot
      obtain ⟨_, fd, flags, hp⟩ := ho
      exact absurd hp (hph fd flags i)
  · exact hloc.holds ho hot

omit [DecidableEq V] in
theorem Inv.answered {t : T} {r : Except Errno Nat} (h : s.Inv) : (s.answer t r).Inv :=
  h.keep (fun i => .refl _) rfl rfl (fun o i ho => by cases o <;> exact ho) h.opening

omit [DecidableEq V] in
theorem Inv.exited {t : T} (h : s.Inv) (hp : s.phase t = .running) :
    (s.setPhase t .zombie).Inv := by
  refine h.rest (local_setPhase ⟨rfl, fun _ _ => rfl, fun _ _ => rfl⟩) rfl rfl rfl ?_ ?_
  · rw [setPhase_phase]
    exact nofun
  · intro fd i hslot
    exact ⟨hslot, by rw [hp]; exact nofun⟩

omit [DecidableEq V] in
/-- What `sys_close` does after `vfs_close`. -/
theorem Inv.cleared {t : T} {fd : Nat} {r : Except Errno Nat} (h : s.Inv)
    (hp : s.phase t = .closing fd) :
    (((s.setSlot t fd none).answer t r).setPhase t .running).Inv := by
  refine h.rest (local_setPhase (local_answer (local_setSlot
    ⟨rfl, fun _ _ => rfl, fun _ _ => rfl⟩))) rfl rfl rfl ?_ ?_
  · rw [setPhase_phase]
    exact nofun
  · intro fd' i hslot
    have hslot' :
        Function.update s.fdt t (Function.update (s.fdt t) fd none) t fd' = some i := hslot
    rw [Function.update_self] at hslot'
    by_cases hfd : fd' = fd
    · rw [hfd, Function.update_self] at hslot'
      cases hslot'
    · rw [Function.update_of_ne hfd] at hslot'
      refine ⟨hslot', ?_⟩
      rw [hp]
      intro hx
      obtain ⟨⟩ := hx
      exact hfd rfl

omit [DecidableEq T] [DecidableEq V] in
/-- The position of an entry is nobody's business. -/
theorem Inv.positioned (h : s.Inv) (i : Nat) (fp : Int) :
    Inv { s with oft := Function.update s.oft i { s.oft i with fp := fp } } := by
  refine h.keep (fun j => ?_) rfl rfl (fun o i ho => by cases o <;> exact ho) h.opening
  by_cases hj : j = i
  · subst hj
    show (Function.update s.oft j _ j).Same _
    rw [Function.update_self]
    exact ⟨rfl, rfl, rfl⟩
  · show (Function.update s.oft i _ j).Same _
    rw [Function.update_of_ne hj]
    exact .refl _

/-! ## Steps as a relation -/

/-- What a step does, with what it found. -/
inductive Stepped (s : State T V) : Act T V → State T V → Prop
  | fork {child : T} (hnew : child ∉ s.threads) :
      Stepped s (.fork child) ({ s with
        threads := insert child s.threads
        fdt := Function.update s.fdt child fun _ => none }.setPhase child .running)
  | exit {t : T} (hp : s.phase t = .running) : Stepped s (.exit t) (s.setPhase t .zombie)
  | destroy {t : T} (ht : t ∈ s.threads) (hp : s.phase t = .zombie) :
      Stepped s (.destroy t) { s with threads := s.threads.erase t }
  | openRefused {t : T} {flags : Int} {copied : Option Errno} (e : Errno) :
      Stepped s (.openBegin t flags copied) (s.answer t (.error e))
  | openBegin {t : T} {flags : Int} {copied : Option Errno} {fd : Nat} (ht : t ∈ s.threads)
      (hp : s.phase t = .running) (hfd : fd < MAX_FD) (hslot : s.fdt t fd = none) :
      Stepped s (.openBegin t flags copied) (s.claimEntry t flags fd)
  | kopenRefused {t : T} {flags : Int} {fd : Nat} :
      Stepped s (.kopenBegin t flags fd) (s.answer t (.error .EMFILE))
  | kopenBegin {t : T} {flags : Int} {fd : Nat} (ht : t ∈ s.threads)
      (hp : s.phase t = .running) (hfd : fd < MAX_FD) (hslot : s.fdt t fd = none) :
      Stepped s (.kopenBegin t flags fd) (s.claimEntry t flags fd)
  | openEnd {t : T} {r : Except Errno V} {flags : Int} {fd i : Nat} (ht : t ∈ s.threads)
      (hp : s.phase t = .opening fd flags i) :
      Stepped s (.openEnd t r) ((s.openReturn t fd flags i (vfsOpen flags r)).setPhase t .running)
  | closeRefused {t : T} {filehandle : Int} :
      Stepped s (.close t filehandle) (s.answer t (.error .EBADF))
  | close {t : T} {filehandle : Int} {i : Nat} (hp : s.phase t = .running)
      (hi : s.Holds (.slot t filehandle.toNat) i) :
      Stepped s (.close t filehandle)
        (((s.closeEntry i).setSlot t filehandle.toNat none).answer t (.ok 0))
  | closeBegin {t : T} {filehandle : Int} {i : Nat} (hp : s.phase t = .running)
      (hi : s.Holds (.slot t filehandle.toNat) i) :
      Stepped s (.closeBegin t filehandle) ((s.closeEntry i).setPhase t (.closing filehandle.toNat))
  | closeEnd {t : T} {fd : Nat} (ht : t ∈ s.threads) (hp : s.phase t = .closing fd) :
      Stepped s (.closeEnd t) (((s.setSlot t fd none).answer t (.ok 0)).setPhase t .running)
  | move {t : T} {filehandle fp : Int} (i : Nat) :
      Stepped s (.move t filehandle fp)
        { s with oft := Function.update s.oft i { s.oft i with fp := fp } }

/-- The check does not panic where the holders are right. -/
theorem step_cases {a : Act T V} (h : s.Inv) (hs : s.step a = some s') :
    s.panic = false ∧ Stepped s a s' := by
  unfold State.step at hs
  split at hs
  · cases hs
  next hpan =>
  refine ⟨by simpa using hpan, ?_⟩
  split at hs
  · split at hs
    · cases hs
    · next hnew =>
      cases hs
      exact .fork hnew
  · split at hs
    · next hc =>
      cases hs
      exact .exit hc.2
    · cases hs
  · split at hs
    · next hc =>
      cases hs
      exact .destroy hc.1 hc.2
    · cases hs
  · split at hs
    · next hc =>
      cases hs
      unfold sysOpen
      split
      · exact .openRefused _
      · split
        · exact .openRefused _
        · next fd hfd => exact .openBegin hc.1 hc.2 (freeFd_some hfd).1 (freeFd_some hfd).2
    · cases hs
  · split at hs
    · next hc =>
      cases hs
      unfold sysKopen
      split
      · next hslot => exact .kopenBegin hc.1 hc.2.1 hc.2.2 hslot
      · exact .kopenRefused
    · cases hs
  · split at hs
    · next ht =>
      split at hs
      · next hp =>
        cases hs
        exact .openEnd ht hp
      · cases hs
    · cases hs
  · next t filehandle =>
    split at hs
    · next hc =>
      rcases h.check filehandle .F_ANY hc.1 hc.2 with hck | ⟨i, hck, _, hi⟩
      · rw [hck] at hs
        cases hs
        exact .closeRefused
      · rw [hck] at hs
        cases hs
        exact .close hc.2 hi
    · cases hs
  · next t filehandle =>
    split at hs
    · next hc =>
      rcases h.check filehandle .F_ANY hc.1 hc.2 with hck | ⟨i, hck, _, hi⟩
      · rw [hck] at hs
        cases hs
      · rw [hck] at hs
        dsimp only at hs
        split at hs
        · cases hs
          exact .closeBegin hc.2 hi
        · cases hs
    · cases hs
  · split at hs
    · next ht =>
      split at hs
      · next hp =>
        cases hs
        exact .closeEnd ht hp
      · cases hs
    · cases hs
  · split at hs
    · split at hs
      · cases hs
        exact .move _
      · cases hs
    · cases hs

/-- Every step keeps the holders right, and `check_fd_access` does not panic. -/
theorem Inv.step {a : Act T V} (h : s.Inv) (hs : s.step a = some s') :
    s'.Inv ∧ s'.panic = false := by
  obtain ⟨hpan, hstep⟩ := step_cases h hs
  cases hstep with
  | fork hnew => exact ⟨h.forked, hpan⟩
  | exit hp => exact ⟨h.exited hp, hpan⟩
  | destroy ht hp => exact ⟨h.destroyed (Finset.erase_subset _ _), hpan⟩
  | openRefused | kopenRefused | closeRefused => exact ⟨h.answered, hpan⟩
  | openBegin ht hp hfd hslot | kopenBegin ht hp hfd hslot =>
    exact ⟨h.claimEntry hp hfd hslot, claimEntry_panic.trans hpan⟩
  | openEnd ht hp =>
    refine ⟨h.openReturn ht hp fun v hv => ?_, ?_⟩
    · unfold vfsOpen at hv
      split at hv
      · cases hv
      · next hmode => exact hmode
    · unfold State.openReturn
      split <;> exact hpan
  | close hp hi =>
    exact ⟨h.closeEntry hi hp (local_answer (local_setSlot ⟨rfl, fun _ _ => rfl, fun _ _ => rfl⟩))
      rfl rfl rfl (.inr ⟨hp, setSlot_fdt⟩), hpan⟩
  | closeBegin hp hi =>
    exact ⟨h.closeEntry hi hp (local_setPhase ⟨rfl, fun _ _ => rfl, fun _ _ => rfl⟩)
      rfl rfl rfl (.inl ⟨setPhase_phase, rfl⟩), hpan⟩
  | closeEnd ht hp => exact ⟨h.cleared hp, hpan⟩
  | move i => exact ⟨h.positioned i _, hpan⟩

end Os161.Files.State
