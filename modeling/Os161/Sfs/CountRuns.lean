import Os161.Sfs.VnodeCounts

/-! # The counts over runs

The counts are right until a reclaim is given up, since `vnode_decref` has then not lowered the
count, or until `sfs_loadvnode` uses a vnode that was freed while it waited for the lock. -/
namespace Os161.Sfs.Counts
open Os161.Runs

variable {T : Type} [DecidableEq T] {s s' : State T} {a : Act T} {t : T} {sv : Ptr}

/-! ## What a run is to satisfy -/

def held (refs : List (T × Ptr)) (sv : Ptr) : Nat := refs.countP fun r => r.2 = sv

/-- The counts of the vnodes in the table are exact, and no vnode that is referred to has been
destroyed. -/
structure Counted (s : State T) : Prop where
  exact : ∀ sv ∈ s.sfsVnodes, (s.heap sv).vnRefcount = held s.refs sv
  sound : ∀ r ∈ s.refs, r.2 ∈ s.sfsVnodes

/-- The step is not one that gives up a reclaim or uses a vnode that is not in the table. -/
def Kept (s : State T) : Act T → Prop
  | .run t o =>
    match s.pc t with
    | .incref sv => sv ∈ s.sfsVnodes
    | .reclaim sv => (s.heap sv).vnRefcount = 1
    | .truncating _ | .syncing _ =>
      match o with
      | .failed => False
      | _ => True
    | _ => True
  | _ => True

/-! ## The invariant -/

/-- The vnode whose reference the thread is giving up. -/
def Pc.gives : Pc → Option Ptr
  | .decref sv | .reclaim sv | .truncating sv | .syncing sv => some sv
  | _ => none

def Pc.reads : Pc → Option Ptr
  | .reading sv _ _ => some sv
  | _ => none

structure Inv (s : State T) : Prop where
  nodup : s.sfsVnodes.Nodup
  loaded : ∀ sv ∈ s.sfsVnodes, sv ∈ s.allocated
  owns : ∀ t sv, (s.pc t).gives = some sv → (t, sv) ∈ s.refs
  reads : ∀ t sv, (s.pc t).reads = some sv → sv ∈ s.allocated ∧ sv ∉ s.sfsVnodes
  apart : ∀ t u sv, (s.pc t).reads = some sv → (s.pc u).reads = some sv → t = u

theorem goto_pc (s : State T) (t u : T) (p : Pc) :
    (s.goto t p).pc u = if u = t then p else s.pc u := Function.update_apply ..

theorem goto_idle_gives {u : T} (h : ((s.goto t .idle).pc u).gives = some sv) :
    u ≠ t ∧ (s.pc u).gives = some sv := by
  rw [goto_pc] at h
  split at h
  · cases h
  · exact ⟨‹_›, h⟩

theorem goto_reads {u : T} {p : Pc} (hp : p.reads = none)
    (h : ((s.goto t p).pc u).reads = some sv) : u ≠ t ∧ (s.pc u).reads = some sv := by
  rw [goto_pc] at h
  split at h
  · rw [hp] at h
    cases h
  · exact ⟨‹_›, h⟩

theorem Inv.goto {p : Pc} (h : Inv s) (hg : ∀ sv, p.gives = some sv → (t, sv) ∈ s.refs)
    (hr : p.reads = none) : Inv (s.goto t p) where
  nodup := h.nodup
  loaded := h.loaded
  owns u sv hu := by
    rw [goto_pc] at hu
    split at hu
    · rename_i he
      exact he ▸ hg sv hu
    · exact h.owns u sv hu
  reads u sv hu := h.reads u sv (goto_reads hr hu).2
  apart u v sv hu hv := h.apart u v sv (goto_reads hr hu).2 (goto_reads hr hv).2

omit [DecidableEq T] in
theorem Inv.setVnode (h : Inv s) (n : SfsVnode) : Inv (s.setVnode sv n) :=
  ⟨h.nodup, h.loaded, h.owns, h.reads, h.apart⟩

theorem Inv.drop (h : Inv s) : Inv (s.drop t sv) where
  nodup := h.nodup
  loaded := h.loaded
  owns u sv' hu := by
    obtain ⟨hne, hg⟩ := goto_idle_gives hu
    exact (List.mem_erase_of_ne fun he => hne (congrArg Prod.fst he)).mpr (h.owns u sv' hg)
  reads u sv' hu := h.reads u sv' (goto_reads rfl hu).2
  apart u v sv' hu hv := h.apart u v sv' (goto_reads rfl hu).2 (goto_reads rfl hv).2

theorem Inv.gain (h : Inv s) (n : SfsVnode) : Inv (s.gain t sv n) where
  nodup := h.nodup
  loaded := h.loaded
  owns u sv' hu := List.mem_cons_of_mem _ (h.owns u sv' (goto_idle_gives hu).2)
  reads u sv' hu := h.reads u sv' (goto_reads rfl hu).2
  apart u v sv' hu hv := h.apart u v sv' (goto_reads rfl hu).2 (goto_reads rfl hv).2

/-! ## What a step does -/

/-- The last argument but one says whether the step is `Kept`. -/
inductive Effect (s : State T) (a : Act T) : Prop → State T → Prop
  | stay : Effect s a True s
  | goto (t : T) (p : Pc) (hg : ∀ sv, p.gives = some sv → (t, sv) ∈ s.refs)
      (hr : p.reads = none)
      (hw : ∀ sv, p = .incref sv → sv ∈ s.sfsVnodes ∨ (t, sv) ∈ s.refs) :
      Effect s a True (s.goto t p)
  | alloc (t : T) (sv : Ptr) (ino : UInt32) (forcetype : UInt16) (hsv : sv ∉ s.allocated)
      (hs : s.search ino forcetype s.sfsVnodes = some none)
      (ha : ∃ mem, a = .load t ino forcetype mem) :
      Effect s a True { s.goto t (.reading sv ino forcetype) with allocated := sv :: s.allocated }
  | free (t : T) (sv : Ptr) (h : (s.pc t).reads = some sv) :
      Effect s a True { s.goto t .idle with allocated := s.allocated.erase sv }
  | add (t : T) (sv : Ptr) (n : SfsVnode) (h : (s.pc t).reads = some sv) (hn : n.vnRefcount = 1)
      (ha : ∃ forcetype i, s.pc t = .reading sv n.svIno forcetype ∧ a = .run t (.done i)) :
      Effect s a True { s.gain t sv n with sfsVnodes := s.sfsVnodes ++ [sv] }
  | raise (t : T) (sv : Ptr) (h : s.pc t = .incref sv) : Effect s a (sv ∈ s.sfsVnodes)
      (s.gain t sv { s.heap sv with vnRefcount := (s.heap sv).vnRefcount + 1 })
  | lower (t : T) (sv : Ptr) (h : (s.pc t).gives = some sv) (hn : (s.heap sv).vnRefcount > 1) :
      Effect s a True
        ((s.setVnode sv { s.heap sv with vnRefcount := (s.heap sv).vnRefcount - 1 }).drop t sv)
  | giveUp (t : T) (sv : Ptr) (h : (s.pc t).gives = some sv) : Effect s a False (s.drop t sv)
  | remove (t : T) (sv : Ptr) (freemap : UInt32 → Bool) (h : (s.pc t).gives = some sv)
      (hsv : sv ∈ s.sfsVnodes) (hn : (s.heap sv).vnRefcount = 1) :
      Effect s a True { s.drop t sv with
        sfsVnodes := s.sfsVnodes.erase sv
        allocated := s.allocated.erase sv
        freemap := freemap }
  | hand (t u : T) (sv : Ptr) (ht : (s.pc t).isIdle) (h : (t, sv) ∈ s.refs) :
      Effect s a True { s with refs := (u, sv) :: s.refs.erase (t, sv) }
  | modify (sv : Ptr) (n : SfsVnode) (hn : n.vnRefcount = (s.heap sv).vnRefcount)
      (hi : n.svIno = (s.heap sv).svIno) :
      Effect s a True (s.setVnode sv n)
  | mark (freemap : UInt32 → Bool) : Effect s a True { s with freemap := freemap }

theorem Pc.isIdle_gives {p : Pc} (h : p.isIdle) : p.gives = none := by
  cases p <;> first | rfl | cases h

theorem remove_effect (hg : (s.pc t).gives = some sv) (h : s.remove t sv = some s') :
    Effect s a True s' := by
  simp only [State.remove] at h
  split at h
  · cases h
  · split at h
    · cases h
    · split at h
      · cases h
      · rename_i hsv hn
        cases h
        exact .remove t sv _ hg (not_not.mp hsv) (not_not.mp (not_or.mp hn).1)

/-- A thread that is giving up its reference goes on doing so. -/
theorem goes_effect {p : Pc} (hi : Inv s) (hg : (s.pc t).gives = some sv) (hp : p.gives = some sv)
    (hr : p.reads = none) : Effect s a True (s.goto t p) := by
  refine .goto t p (fun sv' he => ?_) hr fun sv' he => ?_
  · rw [hp] at he
    cases he
    exact hi.owns t sv hg
  · rw [he] at hp
    cases hp

theorem sfsSyncInode_effect (hg : (s.pc t).gives = some sv) (hi : Inv s)
    (h : s.sfsSyncInode t sv = some s') : Effect s a True s' := by
  simp only [State.sfsSyncInode] at h
  split at h
  · cases h
    exact goes_effect hi hg rfl rfl
  · exact remove_effect hg h

theorem init_vnode {ino : UInt32} {forcetype : UInt16} {i : SfsInode} {n : SfsVnode}
    (h : sfsLoadvnode.init ino forcetype i = .ok n) : n.vnRefcount = 1 ∧ n.svIno = ino := by
  unfold sfsLoadvnode.init at h
  split at h
  · cases h
  · generalize (if forcetype ≠ sfsTypeInval then { i with sfiType := forcetype } else i) = i' at h
    dsimp only at h
    split at h
    · cases h
      exact ⟨rfl, rfl⟩
    · split at h
      · cases h
        exact ⟨rfl, rfl⟩
      · cases h

theorem loaded_effect {ino : UInt32} {forcetype : UInt16} {i : SfsInode}
    (hr : s.pc t = .reading sv ino forcetype) (h : s.loaded t sv ino forcetype i = some s') :
    Effect s (.run t (.done i)) True s' := by
  simp only [State.loaded] at h
  split at h
  · cases h
  · rename_i n hn
    cases h
    obtain ⟨hcount, rfl⟩ := init_vnode hn
    exact .add t sv n (by rw [hr]; rfl) hcount ⟨forcetype, i, hr, rfl⟩

omit [DecidableEq T] in
theorem search_mem {ino : UInt32} {forcetype : UInt16} {l : List Ptr}
    (h : s.search ino forcetype l = some (some sv)) : sv ∈ l := by
  induction l with
  | nil => cases h
  | cons q l ih =>
    simp only [State.search] at h
    split at h
    · split at h
      · split at h
        · cases h
        · cases h
          exact List.mem_cons_self
      · exact List.mem_cons_of_mem _ (ih h)
    · cases h

theorem sfsLoadvnode_effect {ino : UInt32} {forcetype : UInt16} {mem : Option Ptr}
    (h : s.sfsLoadvnode t ino forcetype mem = some s') :
    Effect s (.load t ino forcetype mem) True s' := by
  simp only [State.sfsLoadvnode] at h
  split at h
  · cases h
  · rename_i q hq
    cases h
    refine .goto t _ (by intro _ he; cases he) rfl fun sv he => .inl ?_
    cases he
    exact search_mem hq
  · rename_i hnone
    split at h
    · cases h
      exact .stay
    · split at h
      · cases h
      · rename_i hm
        cases h
        exact .alloc t _ ino forcetype (not_or.mp hm).1 hnone ⟨_, rfl⟩

theorem resume_effect {o : Outcome} (hi : Inv s) (h : s.resume t o = some s') :
    ∃ k, (k ↔ Kept s (.run t o)) ∧ Effect s (.run t o) k s' := by
  simp only [State.resume] at h
  simp only [Kept]
  cases hpc : s.pc t with
  | idle =>
    rw [hpc] at h
    cases h
  | incref sv =>
    simp only [hpc, State.vnodeIncref] at h
    split at h
    · cases h
      exact ⟨_, Iff.rfl, .raise t sv hpc⟩
    · cases h
  | decref sv =>
    have hg : (s.pc t).gives = some sv := by rw [hpc]; rfl
    refine ⟨True, Iff.rfl, ?_⟩
    simp only [hpc, State.vnodeDecref] at h
    split at h
    · cases h
    · split at h
      · rename_i hn
        cases h
        exact .lower t sv hg hn
      · cases h
        exact goes_effect hi hg rfl rfl
  | reclaim sv =>
    have hg : (s.pc t).gives = some sv := by rw [hpc]; rfl
    simp only [hpc, State.sfsReclaim] at h
    split at h
    · rename_i hn
      cases h
      exact ⟨False, iff_of_false id hn, .giveUp t sv hg⟩
    · rename_i hn
      refine ⟨True, iff_of_true trivial (not_not.mp hn), ?_⟩
      split at h
      · cases h
        exact goes_effect hi hg rfl rfl
      · exact sfsSyncInode_effect hg hi h
  | truncating sv =>
    have hg : (s.pc t).gives = some sv := by rw [hpc]; rfl
    rw [hpc] at h
    cases o with
    | more =>
      cases h
      exact ⟨True, Iff.rfl, .stay⟩
    | done i => exact ⟨True, Iff.rfl, sfsSyncInode_effect hg hi h⟩
    | failed =>
      cases h
      exact ⟨False, Iff.rfl, .giveUp t sv hg⟩
  | syncing sv =>
    have hg : (s.pc t).gives = some sv := by rw [hpc]; rfl
    rw [hpc] at h
    cases o with
    | more =>
      cases h
      exact ⟨True, Iff.rfl, .stay⟩
    | done i => exact ⟨True, Iff.rfl, remove_effect hg h⟩
    | failed =>
      cases h
      exact ⟨False, Iff.rfl, .giveUp t sv hg⟩
  | reading sv ino forcetype =>
    have hr : (s.pc t).reads = some sv := by rw [hpc]; rfl
    refine ⟨True, Iff.rfl, ?_⟩
    rw [hpc] at h
    cases o with
    | more =>
      cases h
      exact .stay
    | done i => exact loaded_effect hpc h
    | failed =>
      cases h
      exact .free t sv hr

theorem step_effect {a : Act T} (hi : Inv s) (h : step s a = some s') :
    ∃ k, (k ↔ Kept s a) ∧ Effect s a k s' := by
  cases a with
  | run t o => exact resume_effect hi h
  | load t ino forcetype mem =>
    refine ⟨True, Iff.rfl, ?_⟩
    simp only [step] at h
    split at h
    · exact sfsLoadvnode_effect h
    · cases h
  | incref t sv =>
    refine ⟨True, Iff.rfl, ?_⟩
    simp only [step] at h
    split at h
    · rename_i hc
      cases h
      refine .goto t _ (by intro _ he; cases he) rfl fun sv' he => .inr ?_
      cases he
      exact hc.2
    · cases h
  | decref t sv =>
    refine ⟨True, Iff.rfl, ?_⟩
    simp only [step] at h
    split at h
    · rename_i hc
      cases h
      refine .goto t _ (fun sv' he => ?_) rfl fun _ he => by cases he
      cases he
      exact hc.2
    · cases h
  | hand t u sv =>
    refine ⟨True, Iff.rfl, ?_⟩
    simp only [step] at h
    split at h
    · rename_i hc
      cases h
      exact .hand t u sv hc.1 hc.2
    · cases h
  | modify sv opencount i dirty =>
    refine ⟨True, Iff.rfl, ?_⟩
    simp only [step] at h
    split at h
    · cases h
      exact .modify sv _ rfl rfl
    · cases h
  | mark block used =>
    refine ⟨True, Iff.rfl, ?_⟩
    cases h
    exact .mark _

/-! ## What the steps keep -/

theorem Inv.alloc {ino : UInt32} {forcetype : UInt16} (h : Inv s) (hsv : sv ∉ s.allocated) :
    Inv { s.goto t (.reading sv ino forcetype) with allocated := sv :: s.allocated } := by
  have hnew : ∀ u, (s.pc u).reads ≠ some sv := fun u hu => hsv (h.reads u sv hu).1
  have hpc : ∀ u q, ((s.goto t (.reading sv ino forcetype)).pc u).reads = some q →
      u = t ∧ q = sv ∨ (s.pc u).reads = some q := by
    intro u q hu
    rw [goto_pc] at hu
    split at hu
    · cases hu
      exact .inl ⟨‹_›, rfl⟩
    · exact .inr hu
  constructor
  case nodup => exact h.nodup
  case loaded => exact fun q hq => List.mem_cons_of_mem _ (h.loaded q hq)
  case owns =>
    intro u q hu
    replace hu : ((s.goto t (.reading sv ino forcetype)).pc u).gives = some q := hu
    rw [goto_pc] at hu
    split at hu
    · cases hu
    · exact h.owns u q hu
  case reads =>
    intro u q hu
    rcases hpc u q hu with ⟨-, rfl⟩ | hu
    · exact ⟨List.mem_cons_self, fun hm => hsv (h.loaded q hm)⟩
    · exact ⟨List.mem_cons_of_mem _ (h.reads u q hu).1, (h.reads u q hu).2⟩
  case apart =>
    intro u v q hu hv
    rcases hpc u q hu with ⟨hut, hq⟩ | hru
    · rcases hpc v q hv with ⟨hvt, -⟩ | hrv
      · exact hut.trans hvt.symm
      · exact absurd (hq ▸ hrv) (hnew v)
    · rcases hpc v q hv with ⟨-, hq⟩ | hrv
      · exact absurd (hq ▸ hru) (hnew u)
      · exact h.apart u v q hru hrv

/-- Another thread reads another inode. -/
theorem Inv.reads_ne {u : T} {q : Ptr} (h : Inv s) (ht : (s.pc t).reads = some sv)
    (hu : ((s.goto t .idle).pc u).reads = some q) : q ≠ sv := by
  obtain ⟨hne, hu⟩ := goto_reads rfl hu
  intro he
  exact hne (h.apart u t sv (he ▸ hu) ht)

theorem Inv.free (h : Inv s) (ht : (s.pc t).reads = some sv) :
    Inv { s.goto t .idle with allocated := s.allocated.erase sv } where
  nodup := h.nodup
  loaded q hq := by
    have hne : q ≠ sv := fun he => (h.reads t sv ht).2 (he ▸ hq)
    exact (List.mem_erase_of_ne hne).mpr (h.loaded q hq)
  owns u q hu := h.owns u q (goto_idle_gives hu).2
  reads u q hu := by
    have hq := h.reads u q (goto_reads rfl hu).2
    exact ⟨(List.mem_erase_of_ne (h.reads_ne ht hu)).mpr hq.1, hq.2⟩
  apart u v q hu hv := h.apart u v q (goto_reads rfl hu).2 (goto_reads rfl hv).2

theorem Inv.add (h : Inv s) (n : SfsVnode) (ht : (s.pc t).reads = some sv) :
    Inv { s.gain t sv n with sfsVnodes := s.sfsVnodes ++ [sv] } := by
  have hgain : Inv (s.gain t sv n) := h.gain n
  constructor
  case nodup =>
    exact h.nodup.append (List.nodup_singleton sv)
      (List.disjoint_singleton.mpr (h.reads t sv ht).2)
  case loaded =>
    intro q hq
    rcases List.mem_append.mp hq with hq | hq
    · exact h.loaded q hq
    · rw [List.mem_singleton.mp hq]
      exact (h.reads t sv ht).1
  case owns => exact hgain.owns
  case reads =>
    intro u q hu
    have hq := h.reads u q (goto_reads rfl hu).2
    refine ⟨hq.1, fun hm => ?_⟩
    rcases List.mem_append.mp hm with hm | hm
    · exact hq.2 hm
    · exact h.reads_ne ht hu (List.mem_singleton.mp hm)
  case apart => exact hgain.apart

theorem Inv.remove (h : Inv s) (hsv : sv ∈ s.sfsVnodes) (freemap : UInt32 → Bool) :
    Inv { s.drop t sv with
      sfsVnodes := s.sfsVnodes.erase sv
      allocated := s.allocated.erase sv
      freemap := freemap } := by
  have hdrop : Inv (s.drop t sv) := h.drop
  constructor
  case nodup => exact h.nodup.erase sv
  case loaded =>
    intro q hq
    obtain ⟨hne, hm⟩ := h.nodup.mem_erase_iff.mp hq
    exact (List.mem_erase_of_ne hne).mpr (h.loaded q hm)
  case owns => exact hdrop.owns
  case reads =>
    intro u q hu
    have hq := h.reads u q (goto_reads rfl hu).2
    have hne : q ≠ sv := fun he => hq.2 (he ▸ hsv)
    exact ⟨(List.mem_erase_of_ne hne).mpr hq.1, fun hm => hq.2 (List.mem_of_mem_erase hm)⟩
  case apart => exact hdrop.apart

theorem Inv.hand {u : T} (h : Inv s) (ht : (s.pc t).isIdle) :
    Inv { s with refs := (u, sv) :: s.refs.erase (t, sv) } where
  nodup := h.nodup
  loaded := h.loaded
  owns v q hv := by
    have hne : v ≠ t := by
      intro he
      rw [he, Pc.isIdle_gives ht] at hv
      cases hv
    refine List.mem_cons_of_mem _ ?_
    exact (List.mem_erase_of_ne fun he => hne (congrArg Prod.fst he)).mpr (h.owns v q hv)
  reads := h.reads
  apart := h.apart

theorem Inv.effect {k : Prop} (h : Inv s) (he : Effect s a k s') : Inv s' := by
  cases he with
  | stay => exact h
  | goto t p hg hr => exact h.goto hg hr
  | alloc t sv ino forcetype hsv => exact h.alloc hsv
  | free t sv ht => exact h.free ht
  | add t sv n ht => exact h.add n ht
  | raise t sv => exact h.gain _
  | lower t sv => exact (h.setVnode _).drop
  | giveUp t sv => exact h.drop
  | remove t sv freemap _ hsv => exact h.remove hsv freemap
  | hand t u sv ht => exact h.hand ht
  | modify sv n => exact h.setVnode n
  | mark freemap => exact ⟨h.nodup, h.loaded, h.owns, h.reads, h.apart⟩

omit [DecidableEq T] in
theorem held_cons (refs : List (T × Ptr)) (t : T) (sv q : Ptr) :
    held ((t, sv) :: refs) q = held refs q + if sv = q then 1 else 0 := by
  simp [held, List.countP_cons]

theorem held_erase {refs : List (T × Ptr)} (h : (t, sv) ∈ refs) (q : Ptr) :
    held refs q = held (refs.erase (t, sv)) q + if sv = q then 1 else 0 := by
  rw [← held_cons _ t]
  exact (List.perm_cons_erase h).countP_eq _

omit [DecidableEq T] in
theorem held_pos {refs : List (T × Ptr)} (h : (t, sv) ∈ refs) : 0 < held refs sv :=
  List.countP_pos_iff.mpr ⟨(t, sv), h, by simp⟩

theorem held_erase_ne {refs : List (T × Ptr)} {q : Ptr} (h : (t, sv) ∈ refs) (hq : q ≠ sv) :
    held (refs.erase (t, sv)) q = held refs q := by
  rw [held_erase h q, if_neg fun he => hq he.symm, Nat.add_zero]

/-- How the number of references to a vnode may be related to its count. -/
structure Tally (R : Nat → Nat → Prop) : Prop where
  one : R 1 1
  up : ∀ {a b}, R a b → R (a + 1) (b + 1)
  down : ∀ {a b}, R (a + 1) b → R a (b - 1)
  last : ∀ {a}, R (a + 1) 1 → a = 0

theorem Tally.eq : Tally (· = ·) where
  one := rfl
  up h := by rw [h]
  down h := by rw [← h, Nat.add_sub_cancel]
  last h := Nat.succ.inj h

theorem Tally.le : Tally (· ≤ ·) where
  one := Nat.le_refl 1
  up := Nat.succ_le_succ
  down := Nat.le_sub_of_add_le
  last h := Nat.le_zero.mp (Nat.le_of_succ_le_succ h)

/-- The counts of the vnodes in the table are related to their references, and those who have a
reference have one to a vnode in the table. -/
structure Related (R : Nat → Nat → Prop) (s : State T) : Prop where
  count : ∀ sv ∈ s.sfsVnodes, R (held s.refs sv) (s.heap sv).vnRefcount
  sound : ∀ r ∈ s.refs, r.2 ∈ s.sfsVnodes

namespace Related

variable {R : Nat → Nat → Prop}

omit [DecidableEq T] in
/-- What holds of one vnode stays so if its count and its references change alike, and the
references to the others do not change. -/
theorem update {heap : Ptr → SfsVnode} {refs refs' : List (T × Ptr)} {n : SfsVnode} {q : Ptr}
    (h : R (held refs q) (heap q).vnRefcount) (hn : q = sv → R (held refs' sv) n.vnRefcount)
    (hq : q ≠ sv → held refs' q = held refs q) :
    R (held refs' q) (Function.update heap sv n q).vnRefcount := by
  rw [Function.update_apply]
  split
  · rename_i he
    rw [he]
    exact hn he
  · rename_i hne
    rw [hq hne]
    exact h

theorem gain (hR : Tally R) (h : Related R s) (hsv : sv ∈ s.sfsVnodes) :
    Related R (s.gain t sv { s.heap sv with vnRefcount := (s.heap sv).vnRefcount + 1 }) where
  count q hq := by
    refine update (h.count q hq) (fun _ => ?_) (fun hne => ?_)
    · show R (held ((t, sv) :: s.refs) sv) ((s.heap sv).vnRefcount + 1)
      rw [held_cons, if_pos rfl]
      exact hR.up (h.count sv hsv)
    · show held ((t, sv) :: s.refs) q = held s.refs q
      rw [held_cons, if_neg fun he => hne he.symm, Nat.add_zero]
  sound r hr := by
    rcases List.mem_cons.mp hr with rfl | hr
    · exact hsv
    · exact h.sound r hr

theorem lower (hR : Tally R) (h : Related R s) (hm : (t, sv) ∈ s.refs) :
    Related R ((s.setVnode sv
      { s.heap sv with vnRefcount := (s.heap sv).vnRefcount - 1 }).drop t sv) where
  count q hq := by
    refine update (h.count q hq) (fun _ => ?_) (held_erase_ne hm)
    show R (held (s.refs.erase (t, sv)) sv) ((s.heap sv).vnRefcount - 1)
    have hold := h.count sv (h.sound (t, sv) hm)
    rw [held_erase hm, if_pos rfl] at hold
    exact hR.down hold
  sound r hr := h.sound r (List.mem_of_mem_erase hr)

/-- The one reference to a vnode that is destroyed is that of the thread. -/
theorem remove (hR : Tally R) (h : Related R s) (hi : Inv s) (hm : (t, sv) ∈ s.refs)
    (hn : (s.heap sv).vnRefcount = 1) (freemap : UInt32 → Bool) :
    Related R { s.drop t sv with
      sfsVnodes := s.sfsVnodes.erase sv
      allocated := s.allocated.erase sv
      freemap := freemap } where
  count q hq := by
    obtain ⟨hne, hmem⟩ := hi.nodup.mem_erase_iff.mp hq
    show R (held (s.refs.erase (t, sv)) q) _
    rw [held_erase_ne hm hne]
    exact h.count q hmem
  sound r hr := by
    have hold := h.count sv (h.sound (t, sv) hm)
    rw [held_erase hm, if_pos rfl, hn] at hold
    have hnone : held (s.refs.erase (t, sv)) sv = 0 := hR.last hold
    have hpos : 0 < held (s.refs.erase (t, sv)) r.2 := held_pos hr
    have hne : r.2 ≠ sv := fun he => hpos.ne' (he ▸ hnone)
    exact (List.mem_erase_of_ne hne).mpr (h.sound r (List.mem_of_mem_erase hr))

theorem add {n : SfsVnode} (hR : Tally R) (h : Related R s) (hsv : sv ∉ s.sfsVnodes)
    (hn : n.vnRefcount = 1) :
    Related R { s.gain t sv n with sfsVnodes := s.sfsVnodes ++ [sv] } where
  count q hq := by
    show R (held ((t, sv) :: s.refs) q) (Function.update s.heap sv n q).vnRefcount
    have hnone : held s.refs sv = 0 := by
      refine List.countP_eq_zero.mpr fun r hr he => ?_
      exact hsv (of_decide_eq_true he ▸ h.sound r hr)
    rw [Function.update_apply, held_cons]
    by_cases he : q = sv
    · rw [he, if_pos rfl, if_pos rfl, hn, hnone]
      exact hR.one
    · rw [if_neg he, if_neg fun he' => he he'.symm, Nat.add_zero]
      rcases List.mem_append.mp hq with hq | hq
      · exact h.count q hq
      · exact absurd (List.mem_singleton.mp hq) he
  sound r hr := by
    rcases List.mem_cons.mp hr with rfl | hr
    · exact List.mem_append_right _ (List.mem_singleton.mpr rfl)
    · exact List.mem_append_left _ (h.sound r hr)

theorem hand {u : T} (h : Related R s) (hm : (t, sv) ∈ s.refs) :
    Related R { s with refs := (u, sv) :: s.refs.erase (t, sv) } where
  count q hq := by
    show R (held ((u, sv) :: s.refs.erase (t, sv)) q) (s.heap q).vnRefcount
    rw [held_cons, ← held_erase hm]
    exact h.count q hq
  sound r hr := by
    rcases List.mem_cons.mp hr with rfl | hr
    · exact h.sound (t, sv) hm
    · exact h.sound r (List.mem_of_mem_erase hr)

omit [DecidableEq T] in
theorem modify {n : SfsVnode} (h : Related R s) (hn : n.vnRefcount = (s.heap sv).vnRefcount) :
    Related R (s.setVnode sv n) where
  count q hq := by
    refine update (h.count q hq) (fun he => ?_) fun _ => rfl
    rw [hn]
    exact h.count sv (he ▸ hq)
  sound := h.sound

end Related

omit [DecidableEq T] in
theorem counted_iff_related : Counted s ↔ Related (· = ·) s :=
  ⟨fun h => ⟨fun sv hsv => (h.exact sv hsv).symm, h.sound⟩,
    fun h => ⟨fun sv hsv => (h.count sv hsv).symm, h.sound⟩⟩

/-- The count of a vnode whose reclaim is given up still has the reference of the thread. -/
theorem not_related_drop (h : Related (· = ·) s) (hm : (t, sv) ∈ s.refs) :
    ¬ Related (· = ·) (s.drop t sv) := by
  intro h'
  have hsv := h.sound (t, sv) hm
  have hold := h.count sv hsv
  have hnew := h'.count sv hsv
  have hone := held_erase hm sv
  rw [if_pos rfl, hold] at hone
  exact Nat.succ_ne_self (held (s.refs.erase (t, sv)) sv) (hone.symm.trans hnew.symm)

theorem counted_effect {k : Prop} (hi : Inv s) (h : Counted s) (he : Effect s a k s') :
    Counted s' ↔ k := by
  rw [counted_iff_related] at h ⊢
  cases he with
  | stay => exact iff_of_true h trivial
  | goto t p hg hr => exact iff_of_true ⟨h.count, h.sound⟩ trivial
  | alloc t sv ino forcetype hsv => exact iff_of_true ⟨h.count, h.sound⟩ trivial
  | free t sv ht => exact iff_of_true ⟨h.count, h.sound⟩ trivial
  | add t sv n ht hn => exact iff_of_true (h.add .eq (hi.reads t sv ht).2 hn) trivial
  | raise t sv =>
    constructor
    · intro h'
      exact h'.sound (t, sv) List.mem_cons_self
    · exact h.gain .eq
  | lower t sv hg => exact iff_of_true (h.lower .eq (hi.owns t sv hg)) trivial
  | giveUp t sv hg => exact iff_of_false (not_related_drop h (hi.owns t sv hg)) id
  | remove t sv freemap hg hsv hn =>
    exact iff_of_true (h.remove .eq hi (hi.owns t sv hg) hn freemap) trivial
  | hand t u sv ht hm => exact iff_of_true (h.hand hm) trivial
  | modify sv n hn => exact iff_of_true (h.modify hn) trivial
  | mark freemap => exact iff_of_true ⟨h.count, h.sound⟩ trivial

/-! ## Runs -/

omit [DecidableEq T] in
theorem Inv.boot (heap : Ptr → SfsVnode) (freemap : UInt32 → Bool) :
    Inv (boot (T := T) heap freemap) where
  nodup := List.nodup_nil
  loaded _ h := absurd h List.not_mem_nil
  owns _ _ h := by cases h
  reads _ _ h := by cases h
  apart _ _ _ h := by cases h

/-- The counts are exact, and only vnodes nobody refers to are destroyed, in all of a run if and
only if none of its steps gives up a reclaim or raises the count of a vnode that is gone. -/
theorem counted_iff (heap : Ptr → SfsVnode) (freemap : UInt32 → Bool) (acts : List (Act T)) :
    Throughout step Counted (boot heap freemap) acts ↔
      EachStep step Kept (boot heap freemap) acts := by
  refine throughout_iff (G := Inv) (fun s a s' hi h => ?_) (fun s a s' hi hc h => ?_)
    (Inv.boot heap freemap) ?_ acts
  · obtain ⟨k, -, he⟩ := step_effect hi h
    exact hi.effect he
  · obtain ⟨k, hk, he⟩ := step_effect hi h
    exact (counted_effect hi hc he).trans hk
  · exact ⟨fun _ h => absurd h List.not_mem_nil, fun _ h => absurd h List.not_mem_nil⟩

/-- A directory with one link. -/
def linked : SfsInode := ⟨0, sfsTypeDir, 1, fun _ => 0, 0, 0, 0, fun _ => 0, 0⟩

/-- One thread gives up the only reference and another looks the vnode up before it reclaims. -/
def revived : List (Act Bool) :=
  [.load true 1 sfsTypeInval (some 7), .run true (.done linked), .decref true 7, .run true .more,
    .load false 1 sfsTypeInval none, .run false .more, .run true .more]

/-- The count is then 2 and only one thread has a reference. -/
theorem counted_iff_revived : ¬ ∀ acts : List (Act Bool), Throughout step Counted
    (boot (fun _ => ⟨0, 0, .sfsFileops, linked, 0, false⟩) fun _ => true) acts := by
  intro h
  have hrun : ∃ s, run step (boot (fun _ => ⟨0, 0, .sfsFileops, linked, 0, false⟩) fun _ => true)
      revived = some s ∧ s.sfsVnodes = [7] ∧ (s.heap 7).vnRefcount = 2 ∧ held s.refs 7 = 1 :=
    ⟨_, rfl, rfl, rfl, rfl⟩
  obtain ⟨s, hs, hv, hn, hr⟩ := hrun
  have hc := ((h revived).last hs).exact 7 (hv ▸ List.mem_singleton.mpr rfl)
  rw [hn, hr] at hc
  cases hc

end Os161.Sfs.Counts
