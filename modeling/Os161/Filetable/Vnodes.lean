import Os161.Filetable.Reports
import Os161.Lib.Runs

/-! # Descriptors and their vnodes

`close` of a file clears the descriptors whose `filetable_parent` it is and gives the vnode
back, whoever else refers to it. -/
namespace Os161.Filetable

open Os161.Runs

variable {V : Type}

/-- Some descriptor refers to the open file. -/
def Refers (t : Table V) (ticket : Nat) : Prop := ∃ i v, t.filetable i = .node v ticket

/-- Every descriptor that is not `NULL` has a vnode that is not closed, and a file is closed
once if no descriptor refers to it and not at all otherwise. -/
structure Alive (t : Table V) : Prop where
  live : ∀ i, t.filetable i ≠ .null →
    ∃ v ticket, t.filetable i = .node v ticket ∧ ticket ∉ t.closed
  kept : ∀ ticket < t.opened, Refers t ticket → t.closed.count ticket = 0
  closed : ∀ ticket < t.opened, ¬ Refers t ticket → t.closed.count ticket = 1

/-- The tickets in use were given out. -/
structure Issued (t : Table V) : Prop where
  held : ∀ i v ticket, t.filetable i = .node v ticket → ticket < t.opened
  closed : ∀ ticket ∈ t.closed, ticket < t.opened

/-- After `close(fd)` nobody refers to the file of `fd`, and every other file that lost a
descriptor has one left. -/
def ClosesAlone (t : Table V) (fd : Int) : Prop :=
  ∀ v ticket, t.filetable fd = .node v ticket →
    (∀ j w, j ≠ fd → t.filetable j = .node w ticket → t.parent j = fd) ∧
    ∀ j w other, t.parent j = fd → t.filetable j = .node w other → other ≠ ticket →
      ∃ j' w', t.parent j' ≠ fd ∧ t.filetable j' = .node w' other

/-- The calls that leave descriptors and vnodes in step. -/
def KeepsVnodes (t : Table V) (a : Kernel V × Call) : Prop :=
  match a.2 with
  | .openFile => (∃ i, IsFree t i) → a.1.kmalloc = true → ∃ v, a.1.vfsOpen = .ok v
  | .close fd => Closes t fd → ClosesAlone t fd
  | .dup2 oldfd newfd =>
    0 ≤ oldfd ∧ oldfd ≤ FILETABLESIZE → Closes t newfd → ClosesAlone t newfd
  | _ => True

theorem Vn.isNull_iff {x : Vn V} : x.isNull = true ↔ x = .null := by
  cases x <;> simp [Vn.isNull]

theorem Vn.isNull_eq_false {x : Vn V} : x.isNull = false ↔ x ≠ .null := by
  cases x <;> simp [Vn.isNull]

theorem Sound.null_outside {t : Table V} (hs : Sound t) {fd : Int} (h : ¬ InArrays fd) :
    t.filetable fd = .null := by
  by_contra hne
  exact h (hs.held fd (Vn.isNull_eq_false.mpr hne))

/-- The test of the source is right, also where it reads beyond the array. -/
theorem Sound.null_of_isNull {k : Kernel V} {t : Table V} (hs : Sound t) {fd : Int}
    (h : isNull k t fd = true) : t.filetable fd = .null := by
  by_cases hin : InArrays fd
  · rw [isNull_inArrays k t hin] at h
    exact Vn.isNull_iff.mp h
  · exact hs.null_outside hin

theorem Issued.boot (con : Option V) : Issued (boot con) := by
  constructor
  · intro i v ticket h
    cases con with
    | none => simp [Filetable.boot] at h
    | some w =>
      simp only [Filetable.boot] at h
      split_ifs at h
      obtain ⟨-, rfl⟩ := Vn.node.inj h
      exact Nat.zero_lt_one
  · intro ticket h
    cases h

theorem Issued.change {t t' : Table V} (hi : Issued t) (h : Change t t') : Issued t' := by
  cases h with
  | errno e => exact ⟨hi.held, hi.closed⟩
  | offset offset hfd => exact ⟨hi.held, hi.closed⟩
  | @prepared i k hslot =>
    refine ⟨fun j v ticket hj => ?_, hi.closed⟩
    simp only [prepare, Function.update_apply] at hj
    split_ifs at hj
    exact hi.held j v ticket hj
  | @opened i k v hslot =>
    refine ⟨fun j w ticket hj => ?_, fun ticket ht => Nat.lt_succ_of_lt (hi.closed ticket ht)⟩
    simp only [prepare, Function.update_apply] at hj
    split_ifs at hj
    · obtain ⟨-, rfl⟩ := Vn.node.inj hj
      exact Nat.lt_succ_self _
    · exact Nat.lt_succ_of_lt (hi.held j w ticket hj)
  | @vacated fd v ticket hin hge hdup hpar hnode =>
    constructor
    · intro j w other hj
      simp only [vacate, closeDups_eq, Function.update_apply] at hj ⊢
      split_ifs at hj
      exact hi.held j w other hj
    · intro other ho
      simp only [vacate, closeDups_eq, List.mem_cons] at ho ⊢
      rcases ho with rfl | ho
      · exact hi.held fd v other hnode
      · exact hi.closed other ho
  | @linked oldfd last newfd hold hnew hopen hw =>
    refine ⟨fun j w ticket hj => ?_, hi.closed⟩
    simp only [linkDup, Function.update_apply] at hj ⊢
    split_ifs at hj
    · exact hi.held last w ticket hj
    · exact hi.held j w ticket hj

theorem Reach.issued {con : Option V} {t : Table V} (ht : Reach con t) : Issued t :=
  ht.induct Issued (Issued.boot con) fun _ _ hi h => hi.change h

/-! ## Elementary changes -/

theorem Alive.same {t t' : Table V} (h : Alive t) (hf : t'.filetable = t.filetable)
    (ho : t'.opened = t.opened) (hc : t'.closed = t.closed) : Alive t' := by
  have hrefers (ticket : Nat) : Refers t' ticket ↔ Refers t ticket := by
    simp only [Refers, hf]
  refine ⟨by rw [hf, hc]; exact h.live, fun ticket hlt hr => ?_, fun ticket hlt hr => ?_⟩
  · rw [hc]
    exact h.kept ticket (ho ▸ hlt) ((hrefers ticket).mp hr)
  · rw [hc]
    exact h.closed ticket (ho ▸ hlt) fun hr' => hr ((hrefers ticket).mpr hr')

theorem Alive.congr {t t' : Table V} (hf : t'.filetable = t.filetable)
    (ho : t'.opened = t.opened) (hc : t'.closed = t.closed) : Alive t' ↔ Alive t :=
  ⟨fun h => h.same hf.symm ho.symm hc.symm, fun h => h.same hf ho hc⟩

theorem Alive.boot (con : Option V) : Alive (boot con) := by
  cases con with
  | none =>
    exact ⟨fun i hi => absurd rfl hi, fun ticket h => absurd h (Nat.not_lt_zero _),
      fun ticket h => absurd h (Nat.not_lt_zero _)⟩
  | some v =>
    refine ⟨fun i hi => ?_, fun ticket _ _ => rfl, fun ticket hlt hr => ?_⟩
    · by_cases h : i = 1 ∨ i = 2
      · exact ⟨v, 0, by simp [Filetable.boot, h], by simp [Filetable.boot]⟩
      · exact absurd (by simp [Filetable.boot, h]) hi
    · have hzero : ticket = 0 := by simpa [Filetable.boot] using hlt
      exact absurd ⟨1, v, by simp [Filetable.boot, hzero]⟩ hr

theorem Alive.prepared_iff {t : Table V} (h : Alive t) (k : Kernel V) {i : Int}
    (hslot : freeSlot t = some i) : Alive (prepare k t i) ↔ k.kmalloc = false := by
  have hnull := Vn.isNull_iff.mp (freeSlot_mem hslot).2.2.1
  cases hk : k.kmalloc with
  | true =>
    refine iff_of_false (fun h' => ?_) (by decide)
    have hraw : (prepare k t i).filetable i = .raw := by simp [prepare, hk]
    obtain ⟨v, ticket, hv, -⟩ := h'.live i (by simp [hraw])
    rw [hraw] at hv
    cases hv
  | false =>
    refine iff_of_true (h.same ?_ rfl rfl) rfl
    funext j
    by_cases hj : j = i
    · simp [prepare, hk, hj, hnull]
    · simp [prepare, hj]

theorem Alive.opened {t : Table V} (h : Alive t) (hi : Issued t) (k : Kernel V) {i : Int}
    (hslot : freeSlot t = some i) (v : V) : Alive { prepare k t i with
      filetable := Function.update (prepare k t i).filetable i (.node v t.opened)
      opened := t.opened + 1 } := by
  have hnull := Vn.isNull_iff.mp (freeSlot_mem hslot).2.2.1
  have hfresh : t.opened ∉ t.closed := fun hm => Nat.lt_irrefl _ (hi.closed _ hm)
  have hother {j : Int} (hj : j ≠ i) : Function.update
      (prepare k t i).filetable i (.node v t.opened) j = t.filetable j := by
    simp [prepare, hj]
  -- a file other than the new one has the descriptors it had
  have hrefers {ticket : Nat} (hr : Refers t ticket) :
      ∃ j w, Function.update (prepare k t i).filetable i (.node v t.opened) j =
        .node w ticket := by
    obtain ⟨j, w, hj⟩ := hr
    refine ⟨j, w, ?_⟩
    rw [hother, hj]
    intro hx
    obtain rfl := hx
    rw [hnull] at hj
    cases hj
  refine ⟨fun j hj => ?_, fun ticket hlt hr => ?_, fun ticket hlt hr => ?_⟩
  · by_cases hji : j = i
    · exact ⟨v, t.opened, by simp [hji], hfresh⟩
    · dsimp only at hj ⊢
      rw [hother hji] at hj ⊢
      exact h.live j hj
  · obtain ⟨j, w, hj⟩ := hr
    dsimp only at hj
    by_cases hji : j = i
    · rw [hji, Function.update_self] at hj
      obtain ⟨-, rfl⟩ := Vn.node.inj hj
      exact List.count_eq_zero.mpr hfresh
    · rw [hother hji] at hj
      exact h.kept ticket (hi.held j w ticket hj) ⟨j, w, hj⟩
  · have hne : ticket ≠ t.opened := by
      intro hx
      obtain rfl := hx
      exact hr ⟨i, v, Function.update_self _ _ _⟩
    have hlt' : ticket < t.opened := lt_of_le_of_ne (Nat.le_of_lt_succ hlt) hne
    exact h.closed ticket hlt' fun hr' => hr (hrefers hr')

theorem vacated_filetable {t : Table V} (hs : Sound t) (fd : Int) (ticket : Nat) (j : Int) :
    (vacate (closeDups t fd) fd ticket).filetable j =
      if j = fd ∨ t.parent j = fd then .null else t.filetable j := by
  simp only [vacate, closeDups_eq, Function.update_apply]
  by_cases hj : j = fd
  · simp [hj]
  · by_cases hp : t.parent j = fd
    · by_cases hin : InArrays j
      · simp [hj, hp, hin]
      · have hnull := hs.null_outside hin
        simp [hj, hp, hin, hnull]
    · simp [hj, hp]

theorem vacated_node_iff {t : Table V} (hs : Sound t) {fd j : Int} {ticket other : Nat}
    {w : V} : (vacate (closeDups t fd) fd ticket).filetable j = .node w other ↔
      (j ≠ fd ∧ t.parent j ≠ fd) ∧ t.filetable j = .node w other := by
  rw [vacated_filetable hs]
  split_ifs with hj
  · refine iff_of_false (fun hnode => by cases hnode) ?_
    tauto
  · tauto

theorem vacated_closed (t : Table V) (fd : Int) (ticket : Nat) :
    (vacate (closeDups t fd) fd ticket).closed = ticket :: t.closed := by
  simp [vacate, closeDups_eq]

theorem vacated_opened (t : Table V) (fd : Int) (ticket : Nat) :
    (vacate (closeDups t fd) fd ticket).opened = t.opened := by
  simp [vacate, closeDups_eq]

/-- The file of a descriptor was opened, and not closed. -/
theorem Alive.count_eq_zero {t : Table V} (h : Alive t) (hi : Issued t) {j : Int} {w : V}
    {ticket : Nat} (hj : t.filetable j = .node w ticket) : t.closed.count ticket = 0 :=
  h.kept ticket (hi.held j w ticket hj) ⟨j, w, hj⟩

theorem Alive.closesAlone {t : Table V} (h : Alive t) (hs : Sound t) (hi : Issued t)
    {fd : Int} {v : V} {ticket : Nat} (hnode : t.filetable fd = .node v ticket)
    (h' : Alive (vacate (closeDups t fd) fd ticket)) : ClosesAlone t fd := by
  intro v' ticket' hnode'
  obtain ⟨rfl, rfl⟩ := Vn.node.inj (hnode.symm.trans hnode')
  have hopened := vacated_opened t fd ticket
  constructor
  · intro j w hj hjt
    by_contra hp
    have hnot := h'.kept ticket (hopened ▸ hi.held j w ticket hjt)
      ⟨j, w, (vacated_node_iff hs).mpr ⟨⟨hj, hp⟩, hjt⟩⟩
    rw [vacated_closed, List.count_cons_self] at hnot
    cases hnot
  · intro j w other hp hjo hne
    by_contra hno
    have hgone : ¬ Refers (vacate (closeDups t fd) fd ticket) other := by
      intro hx
      obtain ⟨j', w', hj'⟩ := hx
      obtain ⟨⟨-, hp'⟩, hj''⟩ := (vacated_node_iff hs).mp hj'
      exact hno ⟨j', w', hp', hj''⟩
    have hone := h'.closed other (hopened ▸ hi.held j w other hjo) hgone
    rw [vacated_closed, List.count_cons_of_ne hne.symm, h.count_eq_zero hi hjo] at hone
    cases hone

theorem Alive.vacated {t : Table V} (h : Alive t) (hs : Sound t) (hi : Issued t)
    {fd : Int} {v : V} {ticket : Nat} (hnode : t.filetable fd = .node v ticket)
    (hc : ClosesAlone t fd) : Alive (vacate (closeDups t fd) fd ticket) := by
  obtain ⟨hmine, hothers⟩ := hc v ticket hnode
  have hft := vacated_filetable hs fd ticket
  have hopened := vacated_opened t fd ticket
  refine ⟨fun j hj => ?_, fun other hlt hr => ?_, fun other hlt hr => ?_⟩
  · have hj' : ¬ (j = fd ∨ t.parent j = fd) := fun hor => hj (by rw [hft j, if_pos hor])
    rw [hft j, if_neg hj'] at hj ⊢
    obtain ⟨w, other, hjo, hnot⟩ := h.live j hj
    refine ⟨w, other, hjo, ?_⟩
    rw [vacated_closed, List.mem_cons]
    intro hx
    rcases hx with rfl | hm
    · exact hj' (.inr (hmine j w (fun he => hj' (.inl he)) hjo))
    · exact hnot hm
  · obtain ⟨j, w, hj⟩ := hr
    obtain ⟨⟨hjfd, hjp⟩, hjo⟩ := (vacated_node_iff hs).mp hj
    have hne : ticket ≠ other := by
      intro hx
      obtain rfl := hx
      exact hjp (hmine j w hjfd hjo)
    rw [vacated_closed, List.count_cons_of_ne hne]
    exact h.count_eq_zero hi hjo
  · rw [vacated_closed]
    by_cases hne : ticket = other
    · subst hne
      rw [List.count_cons_self, h.count_eq_zero hi hnode]
    · rw [List.count_cons_of_ne hne]
      refine h.closed other (hopened ▸ hlt) ?_
      intro hx
      obtain ⟨j, w, hjo⟩ := hx
      have hfd {j' : Int} {w' : V} (hj' : t.filetable j' = .node w' other) : j' ≠ fd := by
        intro hx
        obtain rfl := hx
        exact hne (Vn.node.inj (hnode.symm.trans hj')).2
      -- the file had a descriptor, so it has one still
      by_cases hjp : t.parent j = fd
      · obtain ⟨j', w', hp', hj'⟩ := hothers j w other hjp hjo (fun he => hne he.symm)
        exact hr ⟨j', w', (vacated_node_iff hs).mpr ⟨⟨hfd hj', hp'⟩, hj'⟩⟩
      · exact hr ⟨j, w, (vacated_node_iff hs).mpr ⟨⟨hfd hjo, hjp⟩, hjo⟩⟩

theorem Alive.vacated_iff {t : Table V} (h : Alive t) (hs : Sound t) (hi : Issued t)
    {fd : Int} {v : V} {ticket : Nat} (hnode : t.filetable fd = .node v ticket) :
    Alive (vacate (closeDups t fd) fd ticket) ↔ ClosesAlone t fd :=
  ⟨h.closesAlone hs hi hnode, h.vacated hs hi hnode⟩

theorem Alive.linked_iff {t : Table V} {oldfd last newfd : Int}
    (hnull : t.filetable newfd = .null) : Alive (linkDup t oldfd last newfd) ↔ Alive t := by
  have hother {j : Int} (hj : j ≠ newfd) :
      (linkDup t oldfd last newfd).filetable j = t.filetable j := by simp [linkDup, hj]
  have hnew : (linkDup t oldfd last newfd).filetable newfd = t.filetable last := by
    simp [linkDup]
  have hrefers (ticket : Nat) : Refers (linkDup t oldfd last newfd) ticket ↔
      Refers t ticket := by
    constructor
    · intro hx
      obtain ⟨j, w, hj⟩ := hx
      by_cases hjn : j = newfd
      · rw [hjn, hnew] at hj
        exact ⟨last, w, hj⟩
      · exact ⟨j, w, by rwa [hother hjn] at hj⟩
    · intro hx
      obtain ⟨j, w, hj⟩ := hx
      refine ⟨j, w, ?_⟩
      rwa [hother]
      intro hx
      obtain rfl := hx
      rw [hnull] at hj
      cases hj
  constructor
  · intro h
    refine ⟨fun j hj => ?_, fun ticket hlt hr => h.kept ticket hlt ((hrefers ticket).mpr hr),
      fun ticket hlt hr => h.closed ticket hlt fun hr' => hr ((hrefers ticket).mp hr')⟩
    have hjn : j ≠ newfd := fun he => hj (he ▸ hnull)
    rw [← hother hjn] at hj ⊢
    exact h.live j hj
  · intro h
    refine ⟨fun j hj => ?_, fun ticket hlt hr => h.kept ticket hlt ((hrefers ticket).mp hr),
      fun ticket hlt hr => h.closed ticket hlt fun hr' => hr ((hrefers ticket).mpr hr')⟩
    by_cases hjn : j = newfd
    · rw [hjn, hnew] at hj ⊢
      exact h.live last hj
    · rw [hother hjn] at hj ⊢
      exact h.live j hj

/-! ## Calls -/

/-- Positions and the error number may have changed, nothing else. -/
def Quiet (t t' : Table V) : Prop := ∃ e offset, t' = { t with errno := e, offset := offset }

theorem transferred_quiet (t : Table V) (log : List Int) (fd n : Int) :
    Quiet t (transferred t log fd n).table := by
  unfold transferred
  cases updateoffset t.dup fd fuel fd
      (Function.update t.offset fd (toInt32 (t.offset fd + n))) with
  | none => exact ⟨0, t.offset, rfl⟩
  | some offset => exact ⟨0, offset, rfl⟩

theorem write_quiet (k : Kernel V) (t : Table V) (fd : Int) (nbytes : Nat) :
    Quiet t (write k t fd nbytes).table := by
  unfold write
  split_ifs
  · exact ⟨_, t.offset, rfl⟩
  · exact ⟨_, t.offset, rfl⟩
  · cases hc : k.copyin with
    | some e => exact ⟨_, t.offset, rfl⟩
    | none =>
      cases hw : k.vopWrite with
      | some e => exact ⟨_, t.offset, rfl⟩
      | none => exact transferred_quiet t _ fd nbytes
  · cases hc : k.copyin with
    | some e => exact ⟨_, t.offset, rfl⟩
    | none => exact ⟨_, t.offset, rfl⟩

theorem read_quiet (k : Kernel V) (t : Table V) (fd : Int) (buflen : Nat) :
    Quiet t (read k t fd buflen).table := by
  unfold read
  split_ifs
  · exact ⟨_, t.offset, rfl⟩
  · exact ⟨_, t.offset, rfl⟩
  · cases hr : k.vopRead with
    | some e => exact ⟨_, t.offset, rfl⟩
    | none => exact transferred_quiet t _ fd _
  · exact ⟨t.errno, t.offset, rfl⟩
  · exact ⟨t.errno, t.offset, rfl⟩

theorem lseek_quiet (k : Kernel V) (t : Table V) (fd pos whence : Int) :
    Quiet t (lseek k t fd pos whence).table := by
  unfold lseek
  split_ifs
  · exact ⟨_, t.offset, rfl⟩
  · exact ⟨_, t.offset, rfl⟩
  · cases hv : k.vopTryseek with
    | some e => exact ⟨_, t.offset, rfl⟩
    | none =>
      cases hp : seekTo k.stSize (t.offset fd) pos whence with
      | none => exact ⟨_, t.offset, rfl⟩
      | some p =>
        dsimp only
        split_ifs
        · exact ⟨_, t.offset, rfl⟩
        · exact ⟨_, Function.update t.offset fd p, rfl⟩
  · exact ⟨t.errno, t.offset, rfl⟩

theorem Alive.quiet {t t' : Table V} (h : Alive t) (hq : Quiet t t') : Alive t' := by
  obtain ⟨e, offset, rfl⟩ := hq
  exact h.same rfl rfl rfl

theorem openFile_alive {k : Kernel V} {t : Table V} (h : Alive t) (hi : Issued t) {r : Int}
    {b : Bool} (hr : (openFile k t).result = .ret r b) :
    Alive (openFile k t).table ↔ KeepsVnodes t (k, .openFile) := by
  unfold openFile at hr ⊢
  cases hslot : freeSlot t with
  | none =>
    simp only [hslot] at hr ⊢
    split_ifs at hr ⊢
    refine iff_of_true (h.same rfl rfl rfl) ?_
    intro hx
    obtain ⟨i, hfree⟩ := hx
    obtain ⟨j, hj⟩ := freeSlot_of_isFree hfree
    rw [hslot] at hj
    cases hj
  | some i =>
    cases hv : k.vfsOpen with
    | error e =>
      have hcongr : Alive { prepare k t i with errno := e.code } ↔ Alive (prepare k t i) :=
        Alive.congr rfl rfl rfl
      refine hcongr.trans ((h.prepared_iff k hslot).trans ?_)
      constructor
      · intro hk _ hk'
        rw [hk] at hk'
        cases hk'
      · intro hkeep
        by_contra hk
        obtain ⟨v, hv'⟩ := hkeep ⟨i, isFree_of_freeSlot hslot⟩ (by simpa using hk)
        rw [show (k, Call.openFile).1.vfsOpen = k.vfsOpen from rfl, hv] at hv'
        cases hv'
    | ok v =>
      exact iff_of_true ((h.opened hi k hslot v).same rfl rfl rfl) fun _ _ => ⟨v, hv⟩

/-- Where it closes a file, `close` does not fail. -/
theorem Closes.ret {k : Kernel V} {t : Table V} (hs : Sound t) {fd r : Int} {b : Bool}
    (hc : Closes t fd) (hr : (close k t fd).result = .ret r b) : r = 0 := by
  obtain ⟨-, ticket, hr', -⟩ | ⟨-, -, hcause⟩ | ⟨-, hr', -⟩ := close_outcome k hs fd
  · rw [hr] at hr'
    exact (Result.ret.inj hr').1
  · have hge := hc.1
    have hnull := (isOpen_iff k t hc.2.1.1).mp hc.2.1
    have hdup : isdupAt k t fd = 0 := by simpa [isdupAt, hc.2.1.1] using hc.2.2
    rcases hcause with hstd | hnull' | hdup'
    · omega
    · rw [hnull] at hnull'
      cases hnull'
    · exact absurd hdup hdup'
  · rw [hr] at hr'
    cases hr'

/-- What `close` does to the accounts, by itself and in `dup2`. -/
theorem close_alive {k : Kernel V} {t : Table V} (h : Alive t) (hs : Sound t) (hi : Issued t)
    {fd r : Int} {b : Bool} (hr : (close k t fd).result = .ret r b) :
    Alive (close k t fd).table ↔ (Closes t fd → ClosesAlone t fd) := by
  obtain ⟨hret, -, htable⟩ | ⟨v, ticket, -, -, hin, hge, hdup, -, hnode, htable⟩ :=
    close_cases hr
  · rw [htable]
    refine iff_of_true (h.same rfl rfl rfl) fun hc => ?_
    have hzero := hc.ret hs hr
    omega
  · rw [htable, h.vacated_iff hs hi hnode]
    have hc : Closes t fd := ⟨hge, ⟨hin, by rw [hnode]; rfl⟩, hdup⟩
    exact ⟨fun ha _ => ha, fun ha => ha hc⟩

theorem duplicate_alive {k : Kernel V} {t : Table V} {log : List Int} {oldfd newfd : Int}
    (hnull : t.filetable newfd = .null) {r : Int} {b : Bool}
    (hr : (duplicate k t log oldfd newfd).result = .ret r b) :
    Alive (duplicate k t log oldfd newfd).table ↔ Alive t := by
  obtain ⟨-, -, -, htable⟩ | ⟨last, -, -, -, -, -, -, htable⟩ := duplicate_cases hr
  · rw [htable]
    exact Alive.congr rfl rfl rfl
  · rw [htable]
    exact Alive.linked_iff hnull

theorem dup2_alive {k : Kernel V} {t : Table V} (h : Alive t) (hs : Sound t) (hi : Issued t)
    {oldfd newfd r : Int} {b : Bool} (hr : (dup2 k t oldfd newfd).result = .ret r b) :
    Alive (dup2 k t oldfd newfd).table ↔ KeepsVnodes t (k, .dup2 oldfd newfd) := by
  unfold dup2 at hr ⊢
  by_cases hrange :
      (oldfd < 0 ∨ oldfd > FILETABLESIZE) ∨ (newfd < 0 ∨ newfd > FILETABLESIZE)
  · rw [if_pos hrange]
    refine iff_of_true (h.same rfl rfl rfl) ?_
    intro hx hc
    obtain ⟨h0, h1⟩ := hx
    have hnew := hc.2.1.1
    unfold InArrays at hnew
    omega
  rw [if_neg hrange] at hr ⊢
  have hold : 0 ≤ oldfd ∧ oldfd ≤ FILETABLESIZE := by omega
  have hkeeps : KeepsVnodes t (k, .dup2 oldfd newfd) ↔
      (Closes t newfd → ClosesAlone t newfd) := ⟨fun hk => hk hold, fun hk _ => hk⟩
  rw [hkeeps]
  cases hnull : isNull k t newfd with
  | true =>
    simp only [hnull, if_true] at hr ⊢
    have hfree := hs.null_of_isNull hnull
    rw [duplicate_alive hfree hr]
    refine iff_of_true h fun hc => ?_
    have hopen := hc.2.1.2
    rw [hfree] at hopen
    cases hopen
  | false =>
    simp only [hnull, Bool.false_eq_true, if_false] at hr ⊢
    cases hclose : (close k t newfd).result with
    | ret r' b' =>
      rw [← close_alive h hs hi hclose]
      simp only [hclose] at hr ⊢
      obtain ⟨hret, -, htable⟩ | ⟨v, ticket, hret, -, -, -, -, -, hnode, htable⟩ :=
        close_cases hclose
      · rw [if_pos (by omega)] at hr ⊢
        exact Alive.congr rfl rfl rfl
      · rw [if_neg (by omega)] at hr ⊢
        refine (duplicate_alive ?_ hr).trans (Alive.congr rfl rfl rfl)
        simp [htable, vacate]
    | undefined => simp [hclose] at hr
    | diverges => simp [hclose] at hr
    | halts => simp [hclose] at hr

theorem stepOn_alive {t t' : Table V} {a : Kernel V × Call} (h : Alive t) (hs : Sound t)
    (hi : Issued t) (hstep : stepOn t a = some t') : Alive t' ↔ KeepsVnodes t a := by
  obtain ⟨k, c⟩ := a
  unfold stepOn step at hstep
  cases hr : (perform k t c).result with
  | ret r b =>
    simp only [hr, Option.some.injEq] at hstep
    subst hstep
    cases c with
    | write fd nbytes => exact iff_of_true (h.quiet (write_quiet k t fd nbytes)) trivial
    | openFile => exact openFile_alive h hi hr
    | close fd => exact close_alive h hs hi hr
    | read fd buflen => exact iff_of_true (h.quiet (read_quiet k t fd buflen)) trivial
    | lseek fd pos whence => exact iff_of_true (h.quiet (lseek_quiet k t fd pos whence)) trivial
    | dup2 oldfd newfd => exact dup2_alive h hs hi hr
  | undefined => simp [hr] at hstep
  | diverges => simp [hr] at hstep
  | halts => simp [hr] at hstep

/-- Descriptors and vnodes are in step in every state of a run exactly if each call of it
keeps them so. -/
theorem alive_iff (con : Option V) (as : List (Kernel V × Call)) :
    Throughout stepOn Alive (boot con) as ↔ EachStep stepOn KeepsVnodes (boot con) as :=
  throughout_iff (G := Reach con) (@Reach.stepOn V con)
    (fun _ _ _ ht h hstep => stepOn_alive h ht.sound ht.issued hstep) Reach.boot
    (Alive.boot con) as

/-- The duplicate of a duplicate outlives the file. -/
theorem duplicate_dangles :
    ¬ ∀ as : List (Kernel Unit × Call), Throughout stepOn Alive (boot (some ())) as := by
  intro h
  have hview : (run stepOn (boot (some ())) [(calm, .openFile), (calm, .dup2 3 4),
      (calm, .dup2 4 6), (calm, .close 3)]).map (fun t => (t.filetable 6, t.closed)) =
      some (.node () 1, [1]) := by
    decide +kernel
  obtain ⟨t, ht, hview⟩ := Option.map_eq_some_iff.mp hview
  obtain ⟨hnode, hclosed⟩ := Prod.mk.inj hview
  obtain ⟨v, ticket, hv, hnot⟩ := ((h _).last ht).live 6 (by rw [hnode]; decide)
  rw [hnode] at hv
  obtain ⟨-, rfl⟩ := Vn.node.inj hv
  exact hnot (by rw [hclosed]; decide)

end Os161.Filetable
