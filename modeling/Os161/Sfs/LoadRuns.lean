import Os161.Sfs.CountRuns

/-! # One vnode for each inode

`sfs_loadvnode` looks for the inode in the table, reads it, and adds the vnode afterwards. Two
loads that read one inode at the same time make two vnodes of it. -/
namespace Os161.Sfs.Counts
open Os161.Runs

variable {T : Type} [DecidableEq T] {s s' : State T} {a : Act T} {t u : T} {sv q : Ptr}

/-- No inode has two vnodes in the table, and what `sfs_loadvnode` has returned is in the table
as long as anybody has the reference. -/
structure OneEach (s : State T) : Prop where
  unique : ∀ p ∈ s.sfsVnodes, ∀ q ∈ s.sfsVnodes, (s.heap p).svIno = (s.heap q).svIno → p = q
  returned : ∀ r ∈ s.refs, r.2 ∈ s.sfsVnodes

/-- The inode a thread asks `sfs_loadvnode` for, if that is the last call it made. -/
def asked (t : T) (acts : List (Act T)) : Option UInt32 :=
  acts.foldl (fun ino a =>
    match a with
    | .load u i _ _ => if u = t then some i else ino
    | .incref u _ | .decref u _ => if u = t then none else ino
    | _ => ino) none

/-- Where a load of the run returns a reference, it is one to the vnode in the table, of the inode
asked for. -/
def LoadsRight (s₀ : State T) (acts : List (Act T)) : Prop :=
  ∀ pre t o s s' sv ino, pre ++ [.run t o] <+: acts → run step s₀ pre = some s →
    step s (.run t o) = some s' → asked t pre = some ino → s'.refs = (t, sv) :: s.refs →
      sv ∈ s'.sfsVnodes ∧ (s'.heap sv).svIno = ino

/-- A thread that is to raise a count goes on at once: nobody sleeps with a `vn_countlock`, so
it does not have to wait for it. -/
def Unswitched (s : State T) (a : Act T) : Prop :=
  ∀ t sv, s.pc t = .incref sv → ∃ o, a = .run t o

/-- A load that does not find the inode is the only one that reads it. -/
def Apart (s : State T) (a : Act T) : Prop :=
  ∀ t ino forcetype mem, a = .load t ino forcetype mem →
    s.search ino forcetype s.sfsVnodes = some none →
      ∀ u sv forcetype', s.pc u ≠ .reading sv ino forcetype'

/-! ## The table and the loads -/

structure Tabled (s : State T) : Prop where
  unique : ∀ p ∈ s.sfsVnodes, ∀ q ∈ s.sfsVnodes, (s.heap p).svIno = (s.heap q).svIno → p = q
  absent : ∀ t sv ino forcetype, s.pc t = .reading sv ino forcetype →
    ∀ q ∈ s.sfsVnodes, (s.heap q).svIno ≠ ino
  single : ∀ t u sv sv' ino forcetype forcetype', s.pc t = .reading sv ino forcetype →
    s.pc u = .reading sv' ino forcetype' → t = u

omit [DecidableEq T] in
/-- Fewer vnodes and fewer loads. -/
theorem Tabled.sub (h : Tabled s)
    (htable : ∀ q ∈ s'.sfsVnodes, q ∈ s.sfsVnodes ∧ (s'.heap q).svIno = (s.heap q).svIno)
    (hpc : ∀ u sv ino forcetype, s'.pc u = .reading sv ino forcetype →
      s.pc u = .reading sv ino forcetype) : Tabled s' where
  unique p hp q hq he := by
    rw [(htable p hp).2, (htable q hq).2] at he
    exact h.unique p (htable p hp).1 q (htable q hq).1 he
  absent u sv ino forcetype hu q hq := by
    rw [(htable q hq).2]
    exact h.absent u sv ino forcetype (hpc _ _ _ _ hu) q (htable q hq).1
  single u v sv sv' ino f f' hu hv :=
    h.single u v sv sv' ino f f' (hpc _ _ _ _ hu) (hpc _ _ _ _ hv)

theorem reading_goto {p : Pc} {ino : UInt32} {forcetype : UInt16} (hp : p.reads = none)
    (h : (s.goto t p).pc u = .reading sv ino forcetype) : s.pc u = .reading sv ino forcetype := by
  rw [goto_pc] at h
  split at h
  · rw [h] at hp
    cases hp
  · exact h

omit [DecidableEq T] in
theorem search_none {ino : UInt32} {forcetype : UInt16} {l : List Ptr}
    (h : s.search ino forcetype l = some none) : ∀ q ∈ l, (s.heap q).svIno ≠ ino := by
  induction l with
  | nil => exact fun q hq => absurd hq List.not_mem_nil
  | cons p l ih =>
    simp only [State.search] at h
    split at h
    · split at h
      · split at h <;> cases h
      · rename_i hne
        intro q hq
        rcases List.mem_cons.mp hq with rfl | hq
        · exact hne
        · exact ih h q hq
    · cases h

omit [DecidableEq T] in
theorem setVnode_svIno {n : SfsVnode} (hn : n.svIno = (s.heap sv).svIno) (q : Ptr) :
    (Function.update s.heap sv n q).svIno = (s.heap q).svIno := by
  rw [Function.update_apply]
  split
  · rename_i he
    rw [hn, he]
  · rfl

theorem Tabled.alloc {ino : UInt32} {forcetype : UInt16} (h : Tabled s)
    (hs : s.search ino forcetype s.sfsVnodes = some none)
    (hno : ∀ u sv forcetype', s.pc u ≠ .reading sv ino forcetype') :
    Tabled { s.goto t (.reading sv ino forcetype) with allocated := sv :: s.allocated } where
  unique := h.unique
  absent u q i f hu p hp := by
    replace hu : (s.goto t (.reading sv ino forcetype)).pc u = .reading q i f := hu
    rw [goto_pc] at hu
    split at hu
    · cases hu
      exact search_none hs p hp
    · exact h.absent u q i f hu p hp
  single u v p p' i f f' hu hv := by
    replace hu : (s.goto t (.reading sv ino forcetype)).pc u = .reading p i f := hu
    replace hv : (s.goto t (.reading sv ino forcetype)).pc v = .reading p' i f' := hv
    rw [goto_pc] at hu hv
    split at hu
    · cases hu
      split at hv
      · exact ‹u = t›.trans ‹v = t›.symm
      · exact absurd hv (hno v p' f')
    · split at hv
      · cases hv
        exact absurd hu (hno u p f)
      · exact h.single u v p p' i f f' hu hv

theorem Tabled.add {n : SfsVnode} {forcetype : UInt16} (h : Tabled s) (hi : Inv s)
    (ht : s.pc t = .reading sv n.svIno forcetype) :
    Tabled { s.gain t sv n with sfsVnodes := s.sfsVnodes ++ [sv] } := by
  have hsv : sv ∉ s.sfsVnodes := (hi.reads t sv (by rw [ht]; rfl)).2
  have hself : (Function.update s.heap sv n sv).svIno = n.svIno := by rw [Function.update_self]
  have hother {q : Ptr} (hq : q ∈ s.sfsVnodes) :
      (Function.update s.heap sv n q).svIno = (s.heap q).svIno := by
    rw [Function.update_of_ne]
    intro hx
    obtain rfl := hx
    exact hsv hq
  have hnew := h.absent t sv n.svIno forcetype ht
  have hold {u : T} {p : Ptr} {i : UInt32} {f : UInt16}
      (hu : (s.goto t .idle).pc u = .reading p i f) : u ≠ t ∧ s.pc u = .reading p i f := by
    rw [goto_pc] at hu
    split at hu
    · cases hu
    · exact ⟨‹_›, hu⟩
  constructor
  · intro p hp q hq he
    replace he : (Function.update s.heap sv n p).svIno = (Function.update s.heap sv n q).svIno := he
    rcases List.mem_append.mp hp with hp | hp <;> rcases List.mem_append.mp hq with hq | hq
    · rw [hother hp, hother hq] at he
      exact h.unique p hp q hq he
    · rw [List.mem_singleton.mp hq, hother hp, hself] at he
      exact absurd he (hnew p hp)
    · rw [List.mem_singleton.mp hp, hother hq, hself] at he
      exact absurd he.symm (hnew q hq)
    · rw [List.mem_singleton.mp hp, List.mem_singleton.mp hq]
  · intro u p i f hu q hq
    obtain ⟨hne, hu⟩ := hold hu
    show (Function.update s.heap sv n q).svIno ≠ i
    rcases List.mem_append.mp hq with hq | hq
    · rw [hother hq]
      exact h.absent u p i f hu q hq
    · rw [List.mem_singleton.mp hq, hself]
      intro hx
      obtain rfl := hx
      exact hne (h.single u t p sv _ f forcetype hu ht)
  · exact fun u v p p' i f f' hu hv => h.single u v p p' i f f' (hold hu).2 (hold hv).2

theorem Tabled.effect {k : Prop} (h : Tabled s) (hi : Inv s) (ha : Apart s a)
    (he : Effect s a k s') : Tabled s' := by
  cases he with
  | stay => exact h
  | goto t p hg hr => exact h.sub (fun q hq => ⟨hq, rfl⟩) fun _ _ _ _ hu => reading_goto hr hu
  | alloc t sv ino forcetype hsv hs hl =>
    obtain ⟨mem, rfl⟩ := hl
    exact h.alloc hs (ha t ino forcetype mem rfl hs)
  | free t sv ht => exact h.sub (fun q hq => ⟨hq, rfl⟩) fun _ _ _ _ hu => reading_goto rfl hu
  | add t sv n hr hn hl =>
    obtain ⟨forcetype, i, ht, -⟩ := hl
    exact h.add hi ht
  | raise t sv =>
    have hino := setVnode_svIno (s := s)
      (n := { s.heap sv with vnRefcount := (s.heap sv).vnRefcount + 1 }) rfl
    exact h.sub (fun q hq => ⟨hq, hino q⟩) fun _ _ _ _ hu => reading_goto rfl hu
  | lower t sv =>
    have hino := setVnode_svIno (s := s)
      (n := { s.heap sv with vnRefcount := (s.heap sv).vnRefcount - 1 }) rfl
    exact h.sub (fun q hq => ⟨hq, hino q⟩) fun _ _ _ _ hu => reading_goto rfl hu
  | giveUp t sv => exact h.sub (fun q hq => ⟨hq, rfl⟩) fun _ _ _ _ hu => reading_goto rfl hu
  | remove t sv freemap hg hsv =>
    exact h.sub (fun q hq => ⟨List.mem_of_mem_erase hq, rfl⟩) fun _ _ _ _ hu => reading_goto rfl hu
  | hand t u sv => exact h.sub (fun q hq => ⟨hq, rfl⟩) fun _ _ _ _ hu => hu
  | modify sv n hn hino =>
    exact h.sub (fun q hq => ⟨hq, setVnode_svIno hino q⟩) fun _ _ _ _ hu => hu
  | mark freemap => exact h.sub (fun q hq => ⟨hq, rfl⟩) fun _ _ _ _ hu => hu

/-! ## The table and the references -/

/-- After a reclaim that was given up the count is too high, but it is never too low. -/
theorem related_drop (h : Related (· ≤ ·) s) : Related (· ≤ ·) (s.drop t sv) where
  count q hq := Nat.le_trans List.erase_sublist.countP_le (h.count q hq)
  sound r hr := h.sound r (List.mem_of_mem_erase hr)

/-- What waits to be raised is in the table. -/
def Waits (s : State T) : Prop := ∀ t sv, s.pc t = .incref sv → sv ∈ s.sfsVnodes

theorem related_effect {k : Prop} (h : Related (· ≤ ·) s) (hi : Inv s) (hw : Waits s)
    (he : Effect s a k s') : Related (· ≤ ·) s' := by
  cases he with
  | stay => exact h
  | goto t p hg hr => exact ⟨h.count, h.sound⟩
  | alloc t sv ino forcetype hsv => exact ⟨h.count, h.sound⟩
  | free t sv ht => exact ⟨h.count, h.sound⟩
  | add t sv n ht hn => exact h.add .le (hi.reads t sv ht).2 hn
  | raise t sv ht => exact h.gain .le (hw t sv ht)
  | lower t sv hg => exact h.lower .le (hi.owns t sv hg)
  | giveUp t sv => exact related_drop h
  | remove t sv freemap hg hsv hn => exact h.remove .le hi (hi.owns t sv hg) hn freemap
  | hand t u sv ht hm => exact h.hand hm
  | modify sv n hn => exact h.modify hn
  | mark freemap => exact ⟨h.count, h.sound⟩

/-! ## Runs -/

/-- A thread that waited has gone on. -/
theorem waited (hu : Unswitched s a) (h : step s a = some s') (ht : s.pc t = .incref sv) :
    s'.pc t = .idle := by
  obtain ⟨o, rfl⟩ := hu t sv ht
  simp only [step, State.resume, ht, State.vnodeIncref] at h
  split at h
  · cases h
    exact (goto_pc _ t t .idle).trans (if_pos rfl)
  · cases h

theorem incref_goto {p : Pc} (hp : ∀ q, p ≠ .incref q) (h : (s.goto t p).pc u = .incref sv) :
    s.pc u = .incref sv := by
  rw [goto_pc] at h
  split at h
  · exact absurd h (hp sv)
  · exact h

theorem Waits.after {k : Prop} (hc : Related (· ≤ ·) s) (hu : Unswitched s a)
    (h : step s a = some s') (he : Effect s a k s') : Waits s' := by
  intro u q hq
  -- whoever waits now did not wait before
  have hnew (p : Ptr) : s.pc u ≠ .incref p := by
    intro hp
    rw [waited hu h hp] at hq
    cases hq
  have hidle {v : T} (hv : (s.goto v .idle).pc u = .incref q) : False :=
    hnew q (incref_goto (fun _ he => by cases he) hv)
  cases he with
  | stay => exact absurd hq (hnew q)
  | goto t p hg hr hw =>
    rw [goto_pc] at hq
    split at hq
    · rename_i hut
      rcases hw q hq with hm | hm
      · exact hm
      · exact hc.sound _ hm
    · exact absurd hq (hnew q)
  | alloc t sv ino forcetype =>
    exact absurd (incref_goto (fun _ he => by cases he) hq) (hnew q)
  | free t sv => exact absurd hq fun hq => hidle hq
  | add t sv n => exact absurd hq fun hq => hidle hq
  | raise t sv => exact absurd hq fun hq => hidle hq
  | lower t sv => exact absurd hq fun hq => hidle hq
  | giveUp t sv => exact absurd hq fun hq => hidle hq
  | remove t sv freemap => exact absurd hq fun hq => hidle hq
  | hand t v sv => exact absurd hq (hnew q)
  | modify sv n => exact absurd hq (hnew q)
  | mark freemap => exact absurd hq (hnew q)

structure Orderly (s : State T) : Prop where
  inv : Inv s
  tabled : Tabled s
  counted : Related (· ≤ ·) s
  waits : Waits s

theorem Orderly.after (h : Orderly s) (hu : Unswitched s a) (ha : Apart s a)
    (hs : step s a = some s') : Orderly s' := by
  obtain ⟨k, -, he⟩ := step_effect h.inv hs
  exact ⟨h.inv.effect he, h.tabled.effect h.inv ha he, related_effect h.counted h.inv h.waits he,
    .after h.counted hu hs he⟩

omit [DecidableEq T] in
theorem Orderly.oneEach (h : Orderly s) : OneEach s := ⟨h.tabled.unique, h.counted.sound⟩

theorem Orderly.throughout (h : Orderly s) (acts : List (Act T))
    (hu : EachStep step Unswitched s acts) (ha : EachStep step Apart s acts) :
    Throughout step OneEach s acts :=
  throughout_of_eachStep (fun _ => Orderly.oneEach)
    (fun _ _ _ hs hc hstep => hs.after hc.1 hc.2 hstep) h (hu.and ha)

/-! ## What the loads return -/

/-- A thread in `sfs_loadvnode` has found, or reads, the inode it was asked for. -/
structure Asks (pre : List (Act T)) (s : State T) : Prop where
  found : ∀ t sv ino, s.pc t = .incref sv → asked t pre = some ino → (s.heap sv).svIno = ino
  reading : ∀ t sv ino forcetype, s.pc t = .reading sv ino forcetype → asked t pre = some ino

omit [DecidableEq T] in
theorem search_svIno {ino : UInt32} {forcetype : UInt16} {l : List Ptr}
    (h : s.search ino forcetype l = some (some sv)) : (s.heap sv).svIno = ino := by
  induction l with
  | nil => cases h
  | cons q l ih =>
    simp only [State.search] at h
    split at h
    · split at h
      · split at h
        · cases h
        · cases h
          assumption
      · exact ih h
    · cases h

theorem asked_concat (acts : List (Act T)) (a : Act T) (t : T) : asked t (acts ++ [a]) =
    match a with
    | .load u i _ _ => if u = t then some i else asked t acts
    | .incref u _ | .decref u _ => if u = t then none else asked t acts
    | _ => asked t acts := by
  rw [asked, List.foldl_append]
  rfl

/-- No step changes the number of a vnode in the table. -/
theorem svIno_effect {k : Prop} (hi : Inv s) (he : Effect s a k s') (hq : q ∈ s.sfsVnodes) :
    (s'.heap q).svIno = (s.heap q).svIno := by
  cases he with
  | add t sv n hr =>
    show (Function.update s.heap sv n q).svIno = _
    rw [Function.update_of_ne]
    intro hx
    obtain rfl := hx
    exact (hi.reads t q hr).2 hq
  | raise t sv =>
    exact setVnode_svIno (n := { s.heap sv with vnRefcount := (s.heap sv).vnRefcount + 1 }) rfl q
  | lower t sv =>
    exact setVnode_svIno (n := { s.heap sv with vnRefcount := (s.heap sv).vnRefcount - 1 }) rfl q
  | modify sv n hn hino => exact setVnode_svIno hino q
  | _ => rfl

/-- A thread that goes on does not begin to wait for a count or to read an inode. -/
theorem resume_pc {o : Outcome} {p : Pc} (h : s.resume t o = some s')
    (hp : (∃ q, p = .incref q) ∨ p.reads.isSome) (hu : s'.pc u = p) : s.pc u = p := by
  have hgoto {r : Pc} (hr : r.reads = none ∧ ∀ q, r ≠ .incref q) (hu : (s.goto t r).pc u = p) :
      s.pc u = p := by
    rw [goto_pc] at hu
    split at hu
    · subst hu
      rcases hp with ⟨q, hq⟩ | hp
      · exact absurd hq (hr.2 q)
      · rw [hr.1] at hp
        cases hp
    · exact hu
  have hremove {sv : Ptr} (h : s.remove t sv = some s') : s.pc u = p := by
    simp only [State.remove] at h
    split at h
    · cases h
    split at h
    · cases h
    split at h
    · cases h
    cases h
    exact hgoto ⟨rfl, by simp⟩ hu
  have hsync {sv : Ptr} (h : s.sfsSyncInode t sv = some s') : s.pc u = p := by
    simp only [State.sfsSyncInode] at h
    split at h
    · cases h
      exact hgoto ⟨rfl, by simp⟩ hu
    · exact hremove h
  simp only [State.resume] at h
  cases hpc : s.pc t with
  | idle => simp [hpc] at h
  | incref sv =>
    simp only [hpc, State.vnodeIncref] at h
    split at h
    · cases h
      exact hgoto ⟨rfl, by simp⟩ hu
    · cases h
  | decref sv =>
    simp only [hpc, State.vnodeDecref] at h
    split at h
    · cases h
    split at h <;>
      · cases h
        exact hgoto ⟨rfl, by simp⟩ hu
  | reclaim sv =>
    simp only [hpc, State.sfsReclaim] at h
    split at h
    · cases h
      exact hgoto ⟨rfl, by simp⟩ hu
    split at h
    · cases h
      exact hgoto ⟨rfl, by simp⟩ hu
    · exact hsync h
  | truncating sv =>
    simp only [hpc] at h
    cases o with
    | more =>
      cases h
      exact hu
    | done i => exact hsync h
    | failed =>
      cases h
      exact hgoto ⟨rfl, by simp⟩ hu
  | syncing sv =>
    simp only [hpc] at h
    cases o with
    | more =>
      cases h
      exact hu
    | done i => exact hremove h
    | failed =>
      cases h
      exact hgoto ⟨rfl, by simp⟩ hu
  | reading sv ino forcetype =>
    simp only [hpc] at h
    cases o with
    | more =>
      cases h
      exact hu
    | done i =>
      simp only [State.loaded] at h
      split at h
      · cases h
      · cases h
        exact hgoto ⟨rfl, by simp⟩ hu
    | failed =>
      cases h
      exact hgoto ⟨rfl, by simp⟩ hu

/-- A call of thread `t` begins; the others wait for what they have waited for. -/
theorem Asks.call {pre : List (Act T)} (h : Asks pre s) (hheap : s'.heap = s.heap)
    (hpc : ∀ u, u ≠ t → s'.pc u = s.pc u)
    (hasked : ∀ u, u ≠ t → asked u (pre ++ [a]) = asked u pre)
    (hfound : ∀ q ino, s'.pc t = .incref q → asked t (pre ++ [a]) = some ino →
      (s.heap q).svIno = ino)
    (hreading : ∀ q ino f, s'.pc t = .reading q ino f → asked t (pre ++ [a]) = some ino) :
    Asks (pre ++ [a]) s' where
  found u q ino hu ha := by
    rw [hheap]
    by_cases hut : u = t
    · subst hut
      exact hfound q ino hu ha
    · rw [hpc u hut] at hu
      rw [hasked u hut] at ha
      exact h.found u q ino hu ha
  reading u q ino f hu := by
    by_cases hut : u = t
    · subst hut
      exact hreading q ino f hu
    · rw [hpc u hut] at hu
      rw [hasked u hut]
      exact h.reading u q ino f hu

theorem goto_other {p : Pc} (hu : u ≠ t) : (s.goto t p).pc u = s.pc u := by
  rw [goto_pc, if_neg hu]

theorem goto_self (s : State T) (t : T) (p : Pc) : (s.goto t p).pc t = p := by
  rw [goto_pc, if_pos rfl]

theorem Asks.load {pre : List (Act T)} {i : UInt32} {f : UInt16} {mem : Option Ptr} (h : Asks pre s)
    (hs : step s (.load t i f mem) = some s') : Asks (pre ++ [.load t i f mem]) s' := by
  have hself : asked t (pre ++ [.load t i f mem]) = some i := by
    rw [asked_concat]
    exact if_pos rfl
  have hother (u : T) (hu : u ≠ t) : asked u (pre ++ [.load t i f mem]) = asked u pre := by
    rw [asked_concat]
    exact if_neg hu.symm
  simp only [step] at hs
  split at hs
  swap
  · cases hs
  rename_i hidle
  simp only [State.sfsLoadvnode] at hs
  split at hs
  · cases hs
  · rename_i q hq
    cases hs
    refine h.call rfl (fun u hu => goto_other hu) hother ?_ ?_
    · intro q' ino hq' ha
      rw [goto_self] at hq'
      cases hq'
      rw [hself] at ha
      cases ha
      exact search_svIno hq
    · intro q' ino f' hq'
      rw [goto_self] at hq'
      cases hq'
  · split at hs
    · cases hs
      refine h.call (t := t) rfl (fun _ _ => rfl) hother ?_ ?_
      · intro q ino hq
        rw [hq] at hidle
        cases hidle
      · intro q ino f' hq
        rw [hq] at hidle
        cases hidle
    · split at hs
      · cases hs
      · cases hs
        refine h.call rfl (fun u hu => goto_other hu) hother ?_ ?_
        · intro q ino hq
          replace hq : (s.goto t _).pc t = .incref q := hq
          rw [goto_self] at hq
          cases hq
        · intro q ino f' hq
          replace hq : (s.goto t _).pc t = .reading q ino f' := hq
          rw [goto_self] at hq
          cases hq
          exact hself

theorem Asks.after {pre : List (Act T)} (h : Asks pre s) (ho : Orderly s)
    (hs : step s a = some s') : Asks (pre ++ [a]) s' := by
  obtain ⟨k, -, he⟩ := step_effect ho.inv hs
  have hsame (ha : ∀ u, asked u (pre ++ [a]) = asked u pre)
      (hpc : ∀ u p, ((∃ q, p = .incref q) ∨ p.reads.isSome) → s'.pc u = p → s.pc u = p) :
      Asks (pre ++ [a]) s' := by
    refine ⟨fun u q ino hu hask => ?_, fun u q ino f hu => ?_⟩
    · have hq := hpc u _ (.inl ⟨q, rfl⟩) hu
      rw [ha] at hask
      exact (svIno_effect ho.inv he (ho.waits u q hq)).trans (h.found u q ino hq hask)
    · rw [ha]
      exact h.reading u q ino f (hpc u _ (.inr rfl) hu)
  cases a with
  | run t o => exact hsame (fun _ => asked_concat ..) fun _ _ hp hu => resume_pc hs hp hu
  | load t i f mem => exact h.load hs
  | incref t sv | decref t sv =>
    simp only [step] at hs
    split at hs
    · cases hs
      refine h.call rfl (fun u hu => goto_other hu) (fun u hu => ?_) ?_ ?_
      · rw [asked_concat]
        exact if_neg hu.symm
      · intro q ino _ ha
        rw [asked_concat] at ha
        dsimp only at ha
        rw [if_pos rfl] at ha
        cases ha
      · intro q ino f hq
        rw [goto_self] at hq
        cases hq
    · cases hs
  | hand t u sv =>
    simp only [step] at hs
    split at hs
    · cases hs
      exact hsame (fun _ => asked_concat ..) fun _ _ _ hu => hu
    · cases hs
  | modify sv n i d =>
    simp only [step] at hs
    split at hs
    · cases hs
      exact hsame (fun _ => asked_concat ..) fun _ _ _ hu => hu
    · cases hs
  | mark b used =>
    cases hs
    exact hsame (fun _ => asked_concat ..) fun _ _ _ hu => hu

/-- The reference a thread gains as it goes on is to the vnode it has waited for or has read. -/
theorem resume_gains {o : Outcome} (h : s.resume t o = some s') (hr : s'.refs = (t, sv) :: s.refs) :
    s.pc t = .incref sv ∨ ∃ ino f, s.pc t = .reading sv ino f ∧
      s'.sfsVnodes = s.sfsVnodes ++ [sv] ∧ (s'.heap sv).svIno = ino := by
  have hlen : s'.refs.length = s.refs.length + 1 := by rw [hr, List.length_cons]
  have hdrop {q : Ptr} (hq : s'.refs = s.refs.erase (t, q)) : False := by
    have := List.length_erase_le (a := (t, q)) (l := s.refs)
    rw [hq] at hlen
    omega
  have hsame (hq : s'.refs = s.refs) : False := by
    rw [hq] at hlen
    omega
  have hremove {q : Ptr} (h : s.remove t q = some s') : False := by
    simp only [State.remove] at h
    split at h
    · cases h
    split at h
    · cases h
    split at h
    · cases h
    cases h
    exact hdrop rfl
  have hsync {q : Ptr} (h : s.sfsSyncInode t q = some s') : False := by
    simp only [State.sfsSyncInode] at h
    split at h
    · cases h
      exact hsame rfl
    · exact hremove h
  simp only [State.resume] at h
  cases hpc : s.pc t with
  | idle => simp [hpc] at h
  | incref q =>
    simp only [hpc, State.vnodeIncref] at h
    split at h
    · cases h
      have hq : (t, q) :: s.refs = (t, sv) :: s.refs := hr
      cases hq
      exact .inl rfl
    · cases h
  | decref q =>
    simp only [hpc, State.vnodeDecref] at h
    split at h
    · cases h
    split at h
    · cases h
      exact (hdrop rfl).elim
    · cases h
      exact (hsame rfl).elim
  | reclaim q =>
    simp only [hpc, State.sfsReclaim] at h
    split at h
    · cases h
      exact (hdrop rfl).elim
    split at h
    · cases h
      exact (hsame rfl).elim
    · exact (hsync h).elim
  | truncating q =>
    simp only [hpc] at h
    cases o with
    | more =>
      cases h
      exact (hsame rfl).elim
    | done i => exact (hsync h).elim
    | failed =>
      cases h
      exact (hdrop rfl).elim
  | syncing q =>
    simp only [hpc] at h
    cases o with
    | more =>
      cases h
      exact (hsame rfl).elim
    | done i => exact (hremove h).elim
    | failed =>
      cases h
      exact (hdrop rfl).elim
  | reading q ino f =>
    simp only [hpc] at h
    cases o with
    | more =>
      cases h
      exact (hsame rfl).elim
    | done i =>
      simp only [State.loaded] at h
      split at h
      · cases h
      · rename_i n hn
        cases h
        have hq : (t, q) :: s.refs = (t, sv) :: s.refs := hr
        cases hq
        refine .inr ⟨ino, f, rfl, rfl, ?_⟩
        show (Function.update s.heap sv n sv).svIno = ino
        rw [Function.update_self]
        exact (init_vnode hn).2
    | failed =>
      cases h
      exact (hsame rfl).elim

/-- After every part of the run the invariant holds, and threads get what they asked for. -/
theorem Orderly.run {s₀ : State T} (h : Orderly s₀) (h₀ : Asks [] s₀) {acts pre post : List (Act T)}
    (hu : EachStep step Unswitched s₀ acts) (ha : EachStep step Apart s₀ acts)
    (hacts : acts = pre ++ post) (hrun : run step s₀ pre = some s) : Orderly s ∧ Asks pre s := by
  induction pre using List.reverseRecOn generalizing s post with
  | nil =>
    cases hrun
    exact ⟨h, h₀⟩
  | append_singleton pre a ih =>
    rw [run_concat] at hrun
    obtain ⟨s₁, hs₁, hs⟩ := Option.bind_eq_some_iff.mp hrun
    have hacts' : acts = pre ++ a :: post := by simpa using hacts
    obtain ⟨ho, hask⟩ := ih hacts' hs₁
    rw [hacts'] at hu ha
    exact ⟨ho.after (hu.at hs₁ hs) (ha.at hs₁ hs) hs, hask.after ho hs⟩

theorem Orderly.loadsRight {s₀ : State T} (h : Orderly s₀) (h₀ : Asks [] s₀) {acts : List (Act T)}
    (hu : EachStep step Unswitched s₀ acts) (ha : EachStep step Apart s₀ acts) :
    LoadsRight s₀ acts := by
  intro pre t o s s' sv ino hpre hrun hs hask hr
  obtain ⟨post, hpost⟩ := hpre
  obtain ⟨ho, hasks⟩ := h.run h₀ hu ha (hpost.symm.trans (List.append_assoc ..)) hrun
  obtain ⟨k, -, he⟩ := step_effect ho.inv hs
  rcases resume_gains hs hr with hpc | ⟨i, f, hpc, hv, hino⟩
  · have hmem := ho.waits t sv hpc
    have hrefs : (t, sv) ∈ s'.refs := hr ▸ List.mem_cons_self
    refine ⟨?_, (svIno_effect ho.inv he hmem).trans (hasks.found t sv ino hpc hask)⟩
    exact (related_effect ho.counted ho.inv ho.waits he).sound (t, sv) hrefs
  · have hi := hasks.reading t sv i f hpc
    rw [hask] at hi
    cases hi
    exact ⟨hv ▸ List.mem_append_right _ (List.mem_singleton.mpr rfl), hino⟩

omit [DecidableEq T] in
theorem Orderly.boot (heap : Ptr → SfsVnode) (freemap : UInt32 → Bool) :
    Orderly (boot (T := T) heap freemap) where
  inv := .boot heap freemap
  tabled := ⟨fun _ h => absurd h List.not_mem_nil, (fun _ _ _ _ h => by cases h),
    fun _ _ _ _ _ _ _ h => by cases h⟩
  counted := ⟨fun _ h => absurd h List.not_mem_nil, fun _ h => absurd h List.not_mem_nil⟩
  waits _ _ h := by cases h

/-- With switches at the accesses to the disk no inode has two vnodes and every load returns the
one of its inode, in all of a run in which no load begins to read an inode that another one is
reading. -/
theorem oneEach_of_apart (heap : Ptr → SfsVnode) (freemap : UInt32 → Bool) (acts : List (Act T))
    (hu : EachStep step Unswitched (boot heap freemap) acts)
    (ha : EachStep step Apart (boot heap freemap) acts) :
    Throughout step OneEach (boot heap freemap) acts ∧ LoadsRight (boot heap freemap) acts := by
  have h := Orderly.boot (T := T) heap freemap
  exact ⟨h.throughout acts hu ha,
    h.loadsRight ⟨(fun _ _ _ h => by cases h), fun _ _ _ _ h => by cases h⟩ hu ha⟩

/-- A mounted volume with all of its blocks in use. -/
def mounted : State Bool := boot (fun _ => ⟨0, 0, .sfsFileops, linked, 0, false⟩) fun _ => true

def regular : SfsInode := { linked with sfiType := sfsTypeFile }

/-- One thread looks inode 5 up, and then another one does. -/
def inTurn : List (Act Bool) :=
  [.load true 5 sfsTypeInval (some 7), .run true (.done regular), .load false 5 sfsTypeInval none,
    .run false .more]

theorem oneEach_inTurn : Throughout step OneEach mounted inTurn ∧ LoadsRight mounted inTurn := by
  refine oneEach_of_apart _ _ inTurn ?_ ?_
  · intro s₁ hx
    obtain ⟨⟩ := hx
    refine ⟨fun t sv ht => (by cases t <;> cases ht), ?_⟩
    intro s₂ hx
    obtain ⟨⟩ := hx
    refine ⟨fun t sv ht => (by cases t <;> cases ht), ?_⟩
    intro s₃ hx
    obtain ⟨⟩ := hx
    refine ⟨fun t sv ht => (by cases t <;> cases ht), ?_⟩
    intro s₄ hx
    obtain ⟨⟩ := hx
    exact ⟨fun t sv ht => (by cases t with | true => cases ht | false => exact ⟨_, rfl⟩), trivial⟩
  · intro s₁ hx
    obtain ⟨⟩ := hx
    refine ⟨fun t ino f mem he hs u sv f' hp => (by cases u <;> cases hp), ?_⟩
    intro s₂ hx
    obtain ⟨⟩ := hx
    refine ⟨fun t ino f mem he => (by cases he), ?_⟩
    intro s₃ hx
    obtain ⟨⟩ := hx
    refine ⟨fun t ino f mem he hs u sv f' hp => (by cases u <;> cases hp), ?_⟩
    intro s₄ hx
    obtain ⟨⟩ := hx
    exact ⟨fun t ino f mem he => (by cases he), trivial⟩

/-- Two threads look inode 5 up at the same time: both find no vnode, read the inode and add
one. -/
def atOnce : List (Act Bool) :=
  [.load true 5 sfsTypeInval (some 7), .load false 5 sfsTypeInval (some 8),
    .run true (.done regular), .run false (.done regular)]

theorem oneEach_atOnce : ¬ ∀ acts : List (Act Bool),
    EachStep step Unswitched mounted acts →
      Throughout step OneEach mounted acts ∧ LoadsRight mounted acts := by
  intro h
  have hrun : ∃ s, run step mounted atOnce = some s ∧ s.sfsVnodes = [7, 8] ∧
      (s.heap 7).svIno = 5 ∧ (s.heap 8).svIno = 5 := ⟨_, rfl, rfl, rfl, rfl⟩
  obtain ⟨s, hs, hv, h7, h8⟩ := hrun
  have hu : EachStep step Unswitched mounted atOnce := by
    intro s₁ hx
    obtain ⟨⟩ := hx
    refine ⟨fun t sv ht => (by cases t <;> cases ht), ?_⟩
    intro s₂ hx
    obtain ⟨⟩ := hx
    refine ⟨fun t sv ht => (by cases t <;> cases ht), ?_⟩
    intro s₃ hx
    obtain ⟨⟩ := hx
    refine ⟨fun t sv ht => (by cases t <;> cases ht), ?_⟩
    intro s₄ hx
    obtain ⟨⟩ := hx
    exact ⟨fun t sv ht => (by cases t <;> cases ht), trivial⟩
  have hc := ((h atOnce hu).1.last hs).unique 7 (by rw [hv]; decide) 8 (by rw [hv]; decide)
    (h7.trans h8.symm)
  cases hc

end Os161.Sfs.Counts
