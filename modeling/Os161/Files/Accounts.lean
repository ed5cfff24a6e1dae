import Mathlib.Data.List.Induction
import Mathlib.Data.List.Nodup
import Os161.Files.OpenRuns
import Os161.Lib.Runs

/-! # The accounts of the table

They are right in every state of a run exactly if no step of it destroys a thread that
has descriptors, or leaves a thread waiting inside `vfs_close`. -/
namespace Os161.Files.State
open Os161.Runs

variable {T V : Type} [DecidableEq T] [DecidableEq V] {s s' : State T V}

/-! ## Runs without a loss -/

/-- Every entry in use has its holder, and nobody waits in `vfs_close`. -/
structure Clean (s : State T V) : Prop where
  held : ∀ i, (s.oft i).vn ≠ .null → ∃ o, s.Holds o i
  still : ∀ t ∈ s.threads, ∀ fd, s.phase t ≠ .closing fd

/-- The destroyed thread has closed its descriptors; `vfs_close` returns at once. -/
def Fine (s : State T V) : Act T V → Prop
  | .destroy t => ∀ fd < MAX_FD, s.fdt t fd = none
  | .closeBegin _ _ => False
  | _ => True

namespace Clean

omit [DecidableEq T] [DecidableEq V] in
/-- Only thread `t` has moved, and the entries whose holders it changed are `free` or its
own. -/
theorem moved {t : T} (h : s.Clean) (hloc : Local t s s')
    (hoft : ∀ i, (s'.oft i).vn ≠ .null → (s.oft i).vn ≠ .null ∨ ∃ o, s'.Holds o i)
    (hmine : ∀ o i, o.thread = t → s.Holds o i → (s'.oft i).vn ≠ .null → ∃ o, s'.Holds o i)
    (hstill : ∀ fd, s'.phase t ≠ .closing fd) : s'.Clean where
  held := fun i hi => by
    rcases hoft i hi with hold | hnew
    · obtain ⟨o, ho⟩ := h.held i hold
      by_cases hot : o.thread = t
      · exact hmine o i hot ho hi
      · exact ⟨o, hloc.symm.holds ho hot⟩
    · exact hnew
  still := fun u hu fd => by
    by_cases hut : u = t
    · exact hut ▸ hstill fd
    · rw [hloc.phase u hut]
      exact h.still u (hloc.threads ▸ hu) fd

theorem claimEntry {t : T} {flags : Int} {fd : Nat} (h : s.Clean) (ht : t ∈ s.threads)
    (hp : s.phase t = .running) (hslot : s.fdt t fd = none) : (s.claimEntry t flags fd).Clean := by
  unfold State.claimEntry
  split
  · have hsame : ((s.setSlot t fd none).answer t (.error .ENFILE)).fdt = s.fdt := by
      show Function.update s.fdt t (Function.update (s.fdt t) fd none) = s.fdt
      rw [← hslot, Function.update_eq_self, Function.update_eq_self]
    refine ⟨fun i hi => ?_, h.still⟩
    obtain ⟨o, ho⟩ := h.held i hi
    refine ⟨o, ?_⟩
    cases o with
    | slot u fd' =>
      obtain ⟨hu, hlt, hs, hph⟩ := ho
      exact ⟨hu, hlt, hsame ▸ hs, hph⟩
    | opener u => exact ho
  · next i hi =>
    have hopens : ({ s with
        oft := Function.update s.oft i { s.oft i with vn := .busy, count := 1 } }.setPhase t
          (.opening fd flags i)).Holds (.opener t) i := ⟨ht, fd, flags, setPhase_phase⟩
    refine h.moved (t := t) (local_setPhase ⟨rfl, fun _ _ => rfl, fun _ _ => rfl⟩)
      (fun j hj => ?_) (fun o j hot ho _ => ?_) (by rw [setPhase_phase]; exact nofun)
    · by_cases hji : j = i
      · exact .inr ⟨.opener t, by rw [hji]; exact hopens⟩
      · refine .inl ?_
        change (Function.update s.oft i _ j).vn ≠ .null at hj
        rwa [Function.update_of_ne hji] at hj
    · cases o with
      | slot u fd' =>
        obtain rfl : u = t := hot
        obtain ⟨hu, hlt, hs, _⟩ := ho
        exact ⟨.slot u fd', hu, hlt, hs, by rw [setPhase_phase]; exact nofun⟩
      | opener u =>
        obtain rfl : u = t := hot
        obtain ⟨_, fd', flags', hph⟩ := ho
        rw [hp] at hph
        cases hph

omit [DecidableEq V] in
theorem openReturn {t : T} {flags : Int} {fd i : Nat} {r : Except Errno V} (h : s.Clean)
    (hinv : s.Inv) (ht : t ∈ s.threads) (hp : s.phase t = .opening fd flags i) :
    ((s.openReturn t fd flags i r).setPhase t .running).Clean := by
  obtain ⟨hfd, hslot⟩ := hinv.opening t fd flags i ht hp
  obtain ⟨_, hcount, _⟩ := hinv.opener t i ⟨ht, fd, flags, hp⟩
  cases r with
  | error e =>
    have hself : (((s.openReturn t fd flags i (.error e)).setPhase t .running).oft i).vn = .null :=
      (Inv.oftFree_self hcount).2
    refine h.moved (t := t)
      (local_setPhase (local_answer (local_setSlot ⟨rfl, fun _ _ => rfl, fun _ _ => rfl⟩)))
      (fun j hj => .inl ?_) (fun o j hot ho hj => ?_) (by rw [setPhase_phase]; exact nofun)
    · by_cases hji : j = i
      · exact absurd hself (hji ▸ hj)
      · change (oftFree s.oft i j).vn ≠ .null at hj
        rwa [Inv.oftFree_of_ne hji] at hj
    · cases o with
      | slot u fd' =>
        obtain rfl : u = t := hot
        obtain ⟨hu, hlt, hs, _⟩ := ho
        have hne : fd' ≠ fd := by
          intro hx
          obtain rfl := hx
          rw [hslot] at hs
          cases hs
        refine ⟨.slot u fd', hu, hlt, ?_, by rw [setPhase_phase]; exact nofun⟩
        show Function.update s.fdt u (Function.update (s.fdt u) fd none) u fd' = some j
        rw [Function.update_self, Function.update_of_ne hne, hs]
      | opener u =>
        obtain rfl : u = t := hot
        obtain ⟨_, fd', flags', hph⟩ := ho
        rw [hp] at hph
        cases hph
        exact absurd hself hj
  | ok v =>
    have hnew : ((s.openReturn t fd flags i (.ok v)).setPhase t .running).Holds (.slot t fd) i := by
      refine ⟨ht, hfd, ?_, by rw [setPhase_phase]; exact nofun⟩
      show Function.update s.fdt t (Function.update (s.fdt t) fd (some i)) t fd = some i
      rw [Function.update_self, Function.update_self]
    refine h.moved (t := t)
      (local_setPhase (local_answer (local_setSlot ⟨rfl, fun _ _ => rfl, fun _ _ => rfl⟩)))
      (fun j hj => ?_) (fun o j hot ho _ => ?_) (by rw [setPhase_phase]; exact nofun)
    · by_cases hji : j = i
      · exact .inr ⟨.slot t fd, by rw [hji]; exact hnew⟩
      · refine .inl ?_
        change (Function.update s.oft i _ j).vn ≠ .null at hj
        rwa [Function.update_of_ne hji] at hj
    · cases o with
      | slot u fd' =>
        obtain rfl : u = t := hot
        obtain ⟨hu, hlt, hs, _⟩ := ho
        have hne : fd' ≠ fd := by
          intro hx
          obtain rfl := hx
          rw [hslot] at hs
          cases hs
        refine ⟨.slot u fd', hu, hlt, ?_, by rw [setPhase_phase]; exact nofun⟩
        show Function.update s.fdt u (Function.update (s.fdt u) fd (some i)) u fd' = some j
        rw [Function.update_self, Function.update_of_ne hne, hs]
      | opener u =>
        obtain rfl : u = t := hot
        obtain ⟨_, fd', flags', hph⟩ := ho
        rw [hp] at hph
        cases hph
        exact ⟨_, hnew⟩

omit [DecidableEq V] in
theorem closed {t : T} {fd i : Nat} {r : Except Errno Nat} (h : s.Clean) (hinv : s.Inv)
    (hi : s.Holds (.slot t fd) i) (hp : s.phase t = .running) :
    (((s.closeEntry i).setSlot t fd none).answer t r).Clean := by
  obtain ⟨_, hcount, _⟩ := hinv.slot t fd i hi
  have hself : ((((s.closeEntry i).setSlot t fd none).answer t r).oft i).vn = .null :=
    (Inv.oftFree_self hcount).2
  refine h.moved (t := t) (local_answer (local_setSlot ⟨rfl, fun _ _ => rfl, fun _ _ => rfl⟩))
    (fun j hj => .inl ?_) (fun o j hot ho hj => ?_) fun fd' => h.still t hi.1 fd'
  · by_cases hji : j = i
    · exact absurd hself (hji ▸ hj)
    · change (oftFree s.oft i j).vn ≠ .null at hj
      rwa [Inv.oftFree_of_ne hji] at hj
  · cases o with
    | slot u fd' =>
      obtain rfl : u = t := hot
      obtain ⟨hu, hlt, hs, hph⟩ := ho
      by_cases hfd : fd' = fd
      · have hji : j = i := by
          rw [hfd, hi.2.2.1] at hs
          cases hs
          rfl
        exact absurd hself (hji ▸ hj)
      · refine ⟨.slot u fd', hu, hlt, ?_, hph⟩
        show Function.update s.fdt u (Function.update (s.fdt u) fd none) u fd' = some j
        rw [Function.update_self, Function.update_of_ne hfd, hs]
    | opener u =>
      obtain rfl : u = t := hot
      obtain ⟨_, fd', flags', hph⟩ := ho
      rw [hp] at hph
      cases hph

omit [DecidableEq V] in
theorem forked {child : T} (h : s.Clean) (hnew : child ∉ s.threads) :
    Clean ({ s with
      threads := insert child s.threads
      fdt := Function.update s.fdt child fun _ => none }.setPhase child .running) := by
  have hne {u : T} (hu : u ∈ s.threads) : u ≠ child := by
    intro hx
    obtain rfl := hx
    exact hnew hu
  refine ⟨fun i hi => ?_, fun u hu fd => ?_⟩
  · obtain ⟨o, ho⟩ := h.held i hi
    refine ⟨o, ?_⟩
    cases o with
    | slot u fd =>
      obtain ⟨hu, hlt, hs, hph⟩ := ho
      refine ⟨Finset.mem_insert_of_mem hu, hlt, ?_, ?_⟩
      · show Function.update s.fdt child (fun _ => none) u fd = some i
        rw [Function.update_of_ne (hne hu), hs]
      · show Function.update s.phase child .running u ≠ .closing fd
        rwa [Function.update_of_ne (hne hu)]
    | opener u =>
      obtain ⟨hu, fd, flags, hph⟩ := ho
      refine ⟨Finset.mem_insert_of_mem hu, fd, flags, ?_⟩
      show Function.update s.phase child .running u = .opening fd flags i
      rw [Function.update_of_ne (hne hu), hph]
  · show Function.update s.phase child .running u ≠ .closing fd
    by_cases huc : u = child
    · rw [huc, Function.update_self]
      exact nofun
    · rw [Function.update_of_ne huc]
      exact h.still u ((Finset.mem_insert.mp hu).resolve_left huc) fd

omit [DecidableEq V] in
theorem destroyed {t : T} (h : s.Clean) (hp : s.phase t = .zombie)
    (hslots : ∀ fd < MAX_FD, s.fdt t fd = none) :
    Clean { s with threads := s.threads.erase t } where
  held := fun i hi => by
    obtain ⟨o, ho⟩ := h.held i hi
    refine ⟨o, ?_⟩
    cases o with
    | slot u fd =>
      refine ⟨Finset.mem_erase.mpr ⟨?_, ho.1⟩, ho.2⟩
      intro hx
      obtain rfl := hx
      have := ho.2.2.1
      rw [hslots fd ho.2.1] at this
      cases this
    | opener u =>
      refine ⟨Finset.mem_erase.mpr ⟨?_, ho.1⟩, ho.2⟩
      intro hx
      obtain rfl := hx
      obtain ⟨fd, flags, hph⟩ := ho.2
      rw [hp] at hph
      cases hph
  still := fun u hu => h.still u (Finset.mem_of_mem_erase hu)

omit [DecidableEq T] [DecidableEq V] in
theorem same (h : s.Clean) (hoft : ∀ i, (s'.oft i).vn = (s.oft i).vn)
    (hthreads : s'.threads = s.threads) (hfdt : s'.fdt = s.fdt) (hphase : s'.phase = s.phase) :
    s'.Clean where
  held := fun i hi => by
    rw [hoft] at hi
    obtain ⟨o, ho⟩ := h.held i hi
    refine ⟨o, ?_⟩
    cases o with
    | slot u fd => simpa only [Holds, hthreads, hfdt, hphase] using ho
    | opener u => simpa only [Holds, hthreads, hfdt, hphase] using ho
  still := by
    rw [hthreads, hphase]
    exact h.still

omit [DecidableEq V] in
theorem exited {t : T} (h : s.Clean) (hp : s.phase t = .running) :
    (s.setPhase t .zombie).Clean := by
  refine h.moved (t := t) (local_setPhase ⟨rfl, fun _ _ => rfl, fun _ _ => rfl⟩)
    (fun i hi => .inl hi) (fun o i hot ho _ => ?_) (by rw [setPhase_phase]; exact nofun)
  cases o with
  | slot u fd =>
    obtain rfl : u = t := hot
    exact ⟨.slot u fd, ho.1, ho.2.1, ho.2.2.1, by rw [setPhase_phase]; exact nofun⟩
  | opener u =>
    obtain rfl : u = t := hot
    obtain ⟨_, fd, flags, hph⟩ := ho
    rw [hp] at hph
    cases hph

/-- A fine step keeps the accounts. -/
theorem step {a : Act T V} (h : s.Clean) (hinv : s.Inv) (ha : s.Fine a)
    (hs : s.step a = some s') : s'.Clean := by
  obtain ⟨-, hstep⟩ := step_cases hinv hs
  cases hstep with
  | fork hnew => exact h.forked hnew
  | exit hp => exact h.exited hp
  | destroy ht hp => exact h.destroyed hp ha
  | openRefused | kopenRefused | closeRefused => exact h.same (fun _ => rfl) rfl rfl rfl
  | openBegin ht hp hfd hslot | kopenBegin ht hp hfd hslot => exact h.claimEntry ht hp hslot
  | openEnd ht hp => exact h.openReturn hinv ht hp
  | close hp hi => exact h.closed hinv hi hp
  | closeBegin hp hi => exact ha.elim
  | closeEnd ht hp => exact absurd hp (h.still _ ht _)
  | move i =>
    refine h.same (fun j => ?_) rfl rfl rfl
    show (Function.update s.oft i _ j).vn = _
    by_cases hj : j = i
    · rw [hj, Function.update_self]
    · rw [Function.update_of_ne hj]

end Clean

/-! ## The accounts -/

section Count

variable {i : Nat}

omit [DecidableEq T] [DecidableEq V] in
theorem refs_eq_zero (h : ∀ t fd, t ∈ s.threads → fd < MAX_FD → s.fdt t fd ≠ some i) :
    s.refs i = 0 := by
  rw [refs, Finset.card_eq_zero, Finset.filter_eq_empty_iff]
  intro p hp
  obtain ⟨ht, hfd⟩ := Finset.mem_product.mp hp
  exact h p.1 p.2 ht (Finset.mem_range.mp hfd)

omit [DecidableEq T] [DecidableEq V] in
theorem refs_eq_one {t : T} {fd : Nat} (ht : t ∈ s.threads) (hfd : fd < MAX_FD)
    (hslot : s.fdt t fd = some i)
    (hone : ∀ t' fd', t' ∈ s.threads → fd' < MAX_FD → s.fdt t' fd' = some i → t' = t ∧ fd' = fd) :
    s.refs i = 1 := by
  rw [refs, Finset.card_eq_one]
  refine ⟨(t, fd), Finset.ext fun p => ?_⟩
  rw [Finset.mem_filter, Finset.mem_product, Finset.mem_range, Finset.mem_singleton]
  constructor
  · intro hx
    obtain ⟨⟨ht', hfd'⟩, hs⟩ := hx
    obtain ⟨h1, h2⟩ := hone p.1 p.2 ht' hfd' hs
    exact Prod.ext h1 h2
  · intro hx
    obtain rfl := hx
    exact ⟨⟨ht, hfd⟩, hslot⟩

theorem Phase.opens_iff {p : Phase} : p.opens i = true ↔ ∃ fd flags, p = .opening fd flags i := by
  cases p <;> simp [Phase.opens]

omit [DecidableEq T] [DecidableEq V] in
theorem openings_eq_zero (h : ∀ t, ¬ s.Holds (.opener t) i) : s.openings i = 0 := by
  rw [openings, Finset.card_eq_zero, Finset.filter_eq_empty_iff]
  intro t ht hp
  exact h t ⟨ht, Phase.opens_iff.mp hp⟩

omit [DecidableEq T] [DecidableEq V] in
theorem openings_eq_one {t : T} (ht : s.Holds (.opener t) i)
    (hone : ∀ u, s.Holds (.opener u) i → u = t) : s.openings i = 1 := by
  rw [openings, Finset.card_eq_one]
  refine ⟨t, Finset.ext fun u => ?_⟩
  rw [Finset.mem_filter, Finset.mem_singleton, Phase.opens_iff]
  constructor
  · exact fun hu => hone u hu
  · intro hx
    obtain rfl := hx
    exact ht

end Count

omit [DecidableEq T] [DecidableEq V] in
theorem Clean.accounted (h : s.Clean) (hinv : s.Inv) : s.Accounted := by
  have hslot {t : T} {fd i : Nat} (ht : t ∈ s.threads) (hfd : fd < MAX_FD)
      (hs : s.fdt t fd = some i) : s.Holds (.slot t fd) i := ⟨ht, hfd, hs, h.still t ht fd⟩
  have hfree {i : Nat} (hi : (s.oft i).vn = .null) : s.refs i = 0 ∧ s.openings i = 0 :=
    ⟨refs_eq_zero fun t fd ht hfd hs => hinv.free_not_held hi (hslot ht hfd hs),
      openings_eq_zero fun t => hinv.free_not_held hi⟩
  have hused {i : Nat} (hi : (s.oft i).vn ≠ .null) : s.refs i + s.openings i = 1 ∧
      ((s.oft i).vn ≠ .busy → s.refs i = 1) := by
    obtain ⟨o, ho⟩ := h.held i hi
    cases o with
    | slot t fd =>
      have hone : s.refs i = 1 := refs_eq_one ho.1 ho.2.1 ho.2.2.1 fun t' fd' ht' hfd' hs => by
        cases hinv.unique _ _ _ (hslot ht' hfd' hs) ho
        exact ⟨rfl, rfl⟩
      have hzero : s.openings i = 0 := openings_eq_zero fun u hu => by
        cases hinv.unique _ _ _ hu ho
      exact ⟨by omega, fun _ => hone⟩
    | opener t =>
      have hzero : s.refs i = 0 := refs_eq_zero fun t' fd' ht' hfd' hs => by
        cases hinv.unique _ _ _ (hslot ht' hfd' hs) ho
      have hone : s.openings i = 1 := openings_eq_one ho fun u hu => by
        cases hinv.unique _ _ _ hu ho
        rfl
      exact ⟨by omega, fun hb => absurd (hinv.opener t i ho).2.2 hb⟩
  refine ⟨fun i _ => ?_, fun i _ => ?_, fun k hk => ?_, hinv.matched⟩
  · rcases hinv.entry i with ⟨hc, hv⟩ | ⟨hc, hv⟩
    · obtain ⟨h0, h1⟩ := hfree hv
      rw [hc, h0, h1]
      rfl
    · have := (hused hv).1
      omega
  · rcases hinv.entry i with ⟨_, hv⟩ | ⟨_, hv⟩
    · obtain ⟨h0, h1⟩ := hfree hv
      exact iff_of_true hv (by rw [h0, h1])
    · have := (hused hv).1
      exact iff_of_false hv (by omega)
  · by_cases hmem : k ∈ s.closed
    · refine .inr ⟨fun i _ v hv => absurd hmem (hinv.ticket i v k hv).2.2, ?_⟩
      exact List.count_eq_one_of_mem hinv.once hmem
    · obtain ⟨i, v, hv⟩ := hinv.kept k hk hmem
      refine .inl ⟨⟨i, (hinv.ticket i v k hv).1, v, hv, ?_⟩, List.count_eq_zero.mpr hmem⟩
      have := (hused (i := i) (by rw [hv]; exact nofun)).2 (by rw [hv]; exact nofun)
      omega

/-- Any other step shows in the accounts of an entry at once. -/
theorem Clean.unaccounted {a : Act T V} (h : s.Clean) (hinv : s.Inv) (hs : s.step a = some s')
    (ha : ¬ s.Fine a) : ¬ s'.Accounted := by
  intro hacc
  obtain ⟨-, hstep⟩ := step_cases hinv hs
  cases hstep with
  | @destroy t ht hp =>
    obtain ⟨fd, hfd⟩ := not_forall.mp ha
    obtain ⟨hlt, hslot⟩ := Classical.not_imp.mp hfd
    obtain ⟨i, hi⟩ := Option.ne_none_iff_exists'.mp hslot
    have hholds : s.Holds (.slot t fd) i := ⟨ht, hlt, hi, by rw [hp]; exact nofun⟩
    obtain ⟨hrange, hcount, _⟩ := hinv.slot t fd i hholds
    have hrefs : ({ s with threads := s.threads.erase t } : State T V).refs i = 0 :=
      refs_eq_zero fun t' fd' ht' hfd' hs' => by
        obtain ⟨hne, ht'⟩ := Finset.mem_erase.mp ht'
        cases hinv.unique (.slot t' fd') (.slot t fd) i ⟨ht', hfd', hs', h.still t' ht' fd'⟩ hholds
        exact hne rfl
    have hopenings : ({ s with threads := s.threads.erase t } : State T V).openings i = 0 :=
      openings_eq_zero fun u hu => by
        cases hinv.unique (.opener u) (.slot t fd) i ⟨Finset.mem_of_mem_erase hu.1, hu.2⟩ hholds
    have := hacc.count i hrange
    rw [hrefs, hopenings] at this
    change (s.oft i).count = _ at this
    rw [hcount] at this
    cases this
  | @closeBegin t filehandle i hp hi =>
    obtain ⟨hrange, hcount, _⟩ := hinv.slot t _ i hi
    have hzero : (oftFree s.oft i i).count = 0 := (Inv.oftFree_self hcount).1
    have hcnt := hacc.count i hrange
    change (oftFree s.oft i i).count = _ at hcnt
    have hrefs : 0 < ((s.closeEntry i).setPhase t (.closing filehandle.toNat)).refs i := by
      rw [refs, Finset.card_pos]
      refine ⟨(t, filehandle.toNat), Finset.mem_filter.mpr ⟨Finset.mem_product.mpr
        ⟨hi.1, Finset.mem_range.mpr hi.2.1⟩, hi.2.2.1⟩⟩
    rw [hzero] at hcnt
    omega
  | _ => exact ha trivial

/-! ## Runs -/

theorem runs_eq (s : State T V) (as : List (Act T V)) : s.runs as = run State.step s as := by
  induction as generalizing s with
  | nil => rfl
  | cons a as ih => exact congrArg _ (funext ih)

theorem runs_concat {as : List (Act T V)} {a : Act T V} :
    s.runs (as ++ [a]) = (s.runs as).bind fun s => s.step a := by
  rw [runs_eq, runs_eq, run_concat]

/-- The steps of a run are fine. -/
def AllFine (s : State T V) (as : List (Act T V)) : Prop :=
  ∀ bs a, bs ++ [a] <+: as → ∀ s', s.runs bs = some s' → s'.Fine a

def AllAccounted (s : State T V) (as : List (Act T V)) : Prop :=
  ∀ bs, bs <+: as → ∀ s', s.runs bs = some s' → s'.Accounted

theorem runs_inv {as : List (Act T V)} (hs : (boot : State T V).runs as = some s) : s.Inv := by
  rw [runs_eq] at hs
  exact run_inv (fun _ _ _ h hstep => (h.step hstep).1) Inv.boot hs

omit [DecidableEq T] [DecidableEq V] in
theorem Clean.boot : (State.boot : State T V).Clean :=
  ⟨fun _ hi => absurd rfl hi, fun _ ht => absurd ht (Finset.notMem_empty _)⟩

theorem AllFine.clean {as : List (Act T V)} (h : AllFine boot as)
    (hs : (State.boot : State T V).runs as = some s) : s.Clean := by
  induction as using List.reverseRecOn generalizing s with
  | nil =>
    cases hs
    exact Clean.boot
  | append_singleton as a ih =>
    rw [runs_concat] at hs
    obtain ⟨s₁, hs₁, hs⟩ := Option.bind_eq_some_iff.mp hs
    have hfine : AllFine (State.boot : State T V) as :=
      fun bs b hb => h bs b (hb.trans (List.prefix_append as [a]))
    exact (ih hfine hs₁).step (runs_inv hs₁) (h as a (List.prefix_refl _) s₁ hs₁) hs

theorem AllAccounted.fine {as : List (Act T V)} (h : AllAccounted boot as)
    (hs : (State.boot : State T V).runs as = some s) : AllFine (boot : State T V) as := by
  induction as using List.reverseRecOn generalizing s with
  | nil =>
    intro bs b hb
    have := hb.length_le
    simp at this
  | append_singleton as a ih =>
    have hrun := hs
    rw [runs_concat] at hs
    obtain ⟨s₁, hs₁, hs⟩ := Option.bind_eq_some_iff.mp hs
    have hinit : AllFine (State.boot : State T V) as :=
      ih (fun bs hb => h bs (hb.trans (List.prefix_append as [a]))) hs₁
    have hlast : s₁.Fine a := by
      by_contra hnot
      exact (hinit.clean hs₁).unaccounted (runs_inv hs₁) hs hnot
        (h _ (List.prefix_refl _) s hrun)
    intro bs b hb s' hs'
    rcases List.prefix_concat_iff.mp hb with heq | hb
    · obtain ⟨rfl, hba⟩ := List.append_inj' heq rfl
      cases hba
      rw [hs₁] at hs'
      cases hs'
      exact hlast
    · exact hinit bs b hb s' hs'

/-- The accounts are right in every state of a run exactly if its steps are fine. -/
theorem accounted_iff {as : List (Act T V)} (hs : (boot : State T V).runs as = some s) :
    AllAccounted (boot : State T V) as ↔ AllFine (boot : State T V) as := by
  refine ⟨fun h => h.fine hs, fun h bs hb s' hs' => ?_⟩
  have hfine : AllFine (State.boot : State T V) bs := fun cs c hc => h cs c (hc.trans hb)
  exact (hfine.clean hs').accounted (runs_inv hs')

/-- A thread opens a file and closes it again. -/
theorem accounted_iff_closed : AllAccounted (boot : State Nat Nat)
    [.fork 0, .openBegin 0 0 none, .openEnd 0 (.ok 7), .close 0 0, .exit 0] := by
  have hrun : ((boot : State Nat Nat).runs [.fork 0, .openBegin 0 0 none, .openEnd 0 (.ok 7),
      .close 0 0, .exit 0]).isSome = true := by
    decide +kernel
  obtain ⟨s, hs⟩ := Option.isSome_iff_exists.mp hrun
  refine (accounted_iff hs).mpr fun bs a hb s' _ => ?_
  have ha := hb.subset (List.mem_append_right bs (List.mem_singleton_self a))
  simp only [List.mem_cons, List.not_mem_nil, or_false] at ha
  rcases ha with rfl | rfl | rfl | rfl | rfl <;> exact trivial

/-- A thread that exits with a file open takes its reference along, and the entry stays
taken. -/
theorem destroyed_unaccounted : ¬ ∀ (as : List (Act Nat Nat)) (s : State Nat Nat),
    (boot : State Nat Nat).runs as = some s → s.Accounted := by
  intro h
  have hview : ((boot : State Nat Nat).runs [.fork 0, .openBegin 0 0 none, .openEnd 0 (.ok 7),
      .exit 0, .destroy 0]).map (fun s => ((s.oft 0).count, s.refs 0, s.openings 0)) =
      some (1, 0, 0) := by
    decide +kernel
  obtain ⟨s, hs, hview⟩ := Option.map_eq_some_iff.mp hview
  have hcount := (h _ s hs).count 0 (by decide)
  simp only [Prod.mk.injEq] at hview
  rw [hview.1, hview.2.1, hview.2.2] at hcount
  cases hcount

end Os161.Files.State
