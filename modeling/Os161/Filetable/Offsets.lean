import Os161.Filetable.Vnodes

/-! # One position for duplicated descriptors

Every descriptor has a position of its own; `updateoffset` copies it along the list of
duplicates after a transfer, and nothing else does. -/
namespace Os161.Filetable

open Os161.Runs

variable {V : Type}

/-- Open descriptors that `dup2` made of one another have one position. -/
def SameOffsets (t : Table V) : Prop :=
  ∀ i j, t.filetable i ≠ .null → t.filetable j ≠ .null → t.group i = t.group j →
    t.offset i = t.offset j

/-- After a transfer of `n` bytes, the open duplicates that the list from `fd` leaves out
are at the new position. -/
def ListReaches (t : Table V) (fd n : Int) : Prop :=
  ∀ i j, t.filetable i ≠ .null → t.filetable j ≠ .null → t.group i = t.group j →
    i ∈ visits t.dup fd fuel fd → j ∉ visits t.dup fd fuel fd →
      t.offset j = toInt32 (t.offset fd + n)

/-- The entry `newfd` has the position of `oldfd` already when `dup2` makes it a
duplicate. -/
def Prepositioned (t : Table V) (oldfd newfd : Int) : Prop :=
  InArrays newfd → IsOpen t oldfd → ∀ last, walkend t.dup oldfd fuel oldfd = some last →
    t.filetable last ≠ .null → t.offset newfd = t.offset oldfd

/-- The calls that leave the positions of duplicates equal. -/
def KeepsOffsets (t : Table V) (a : Kernel V × Call) : Prop :=
  match a.2 with
  | .write fd nbytes =>
    fd ≠ 0 → Holds t fd → a.1.copyin = none → a.1.vopWrite = none → ListReaches t fd nbytes
  | .read fd buflen =>
    ¬ (fd = 1 ∨ fd = 2) → Holds t fd → t.offset fd < a.1.stSize → a.1.vopRead = none →
      ListReaches t fd (readLength a.1.stSize (t.offset fd) buflen)
  | .lseek fd pos whence =>
    3 ≤ fd → Holds t fd → a.1.vopTryseek = none →
      ∀ p, seekTo a.1.stSize (t.offset fd) pos whence = some p → 0 ≤ p →
        ∀ j, j ≠ fd → t.filetable j ≠ .null → t.group j = t.group fd → t.offset j = p
  | .dup2 oldfd newfd =>
    (t.filetable newfd = .null → Prepositioned t oldfd newfd) ∧
      (Closes t newfd → Prepositioned (emptied t newfd) oldfd newfd)
  | _ => True

/-! ## The list of duplicates -/

theorem mem_visits_self (dup : Int → Int) (org : Int) (n : Nat) (fd : Int) :
    fd ∈ visits dup org (n + 1) fd := by
  unfold visits
  split_ifs <;> simp

/-- All the positions on the list become that of its first descriptor. -/
theorem updateoffset_eq {dup : Int → Int} {org : Int} {n : Nat} {fd : Int}
    {offset offset' : Int → Int} (horg : offset org = offset fd)
    (h : updateoffset dup org n fd offset = some offset') (i : Int) :
    offset' i = if i ∈ visits dup org n fd then offset fd else offset i := by
  induction n generalizing fd offset with
  | zero => simp [updateoffset] at h
  | succ n ih =>
    unfold updateoffset at h
    unfold visits
    by_cases hpos : dup fd > 0
    · by_cases hback : org = dup fd
      · -- the list is closed: the last round writes what is there
        rw [if_pos hpos, if_pos hback] at h
        have hstop : ¬ (dup fd > 0 ∧ dup fd ≠ org) := fun hn => hn.2 hback.symm
        obtain rfl := Option.some.inj h
        rw [if_neg hstop, ← hback, ← horg, Function.update_eq_self]
        by_cases hi : i = fd
        · simp [hi, horg]
        · simp [hi]
      · rw [if_pos hpos, if_neg hback] at h
        have hnext : dup fd > 0 ∧ dup fd ≠ org := ⟨hpos, fun he => hback he.symm⟩
        have hrest := ih (by rw [Function.update_self, Function.update_of_ne hback, horg]) h
        rw [if_pos hnext, hrest, Function.update_self]
        by_cases hi : i ∈ visits dup org n (dup fd)
        · simp [hi]
        · have hne : i ≠ dup fd := by
            intro hx
            obtain rfl := hx
            cases n with
            | zero => simp [updateoffset] at h
            | succ n => exact hi (mem_visits_self dup org n (dup fd))
          by_cases hfd : i = fd
          · rw [if_neg hi, Function.update_of_ne hne, hfd]
            simp
          · simp [hi, hfd, Function.update_of_ne hne]
    · rw [if_neg hpos] at h
      have hstop : ¬ (dup fd > 0 ∧ dup fd ≠ org) := fun hn => hpos hn.1
      obtain rfl := Option.some.inj h
      rw [if_neg hstop]
      by_cases hi : i = fd
      · simp [hi]
      · simp [hi]

/-! ## Elementary changes -/

/-- The numbers of the groups in use were given out. -/
def Grouped (t : Table V) : Prop := ∀ i, InArrays i → t.group i < t.groups

theorem Grouped.prepare {t : Table V} (hg : Grouped t) (k : Kernel V) (i : Int) :
    Grouped (prepare k t i) := by
  intro j hj
  by_cases hji : j = i
  · simp [Filetable.prepare, hji]
  · simpa [Filetable.prepare, hji] using Nat.lt_succ_of_lt (hg j hj)

theorem Grouped.change {t t' : Table V} (hg : Grouped t) (h : Change t t') : Grouped t' := by
  cases h with
  | errno e => exact hg
  | offset offset hfd => exact hg
  | @prepared i k hslot => exact hg.prepare k i
  | @opened i k v hslot => exact hg.prepare k i
  | vacated _ _ _ _ _ =>
    intro j hj
    simpa [vacate, closeDups_eq] using hg j hj
  | @linked oldfd last newfd hold hnew hopen hw =>
    intro j hj
    by_cases hjn : j = newfd
    · simpa [linkDup, hjn] using hg oldfd hold
    · simpa [linkDup, hjn] using hg j hj

theorem Reach.grouped {con : Option V} {t : Table V} (ht : Reach con t) : Grouped t := by
  refine ht.induct Grouped (fun i hi => ?_) fun _ _ hg h => hg.change h
  have hlt := hi.2
  simp only [FILETABLESIZE] at hlt
  simp only [Filetable.boot]
  omega

namespace SameOffsets

theorem boot (con : Option V) : SameOffsets (boot con) := fun _ _ _ _ _ => rfl

theorem same {t t' : Table V} (h : SameOffsets t) (hf : t'.filetable = t.filetable)
    (ho : t'.offset = t.offset) (hg : t'.group = t.group) : SameOffsets t' := by
  intro i j
  rw [hf, ho, hg]
  exact h i j

theorem congr {t t' : Table V} (hf : t'.filetable = t.filetable)
    (ho : t'.offset = t.offset) (hg : t'.group = t.group) :
    SameOffsets t' ↔ SameOffsets t :=
  ⟨fun h => h.same hf.symm ho.symm hg.symm, fun h => h.same hf ho hg⟩

/-- A slot in a new group, alone. -/
theorem slot {t : Table V} (h : SameOffsets t) (hs : Sound t) (hg : Grouped t)
    (k : Kernel V) (i : Int) (x : Vn V) {t' : Table V}
    (hf : t'.filetable = Function.update t.filetable i x)
    (ho : t'.offset = (prepare k t i).offset) (hgr : t'.group = (prepare k t i).group) :
    SameOffsets t' := by
  have hfresh {j : Int} (hj : t.filetable j ≠ .null) : t.group j ≠ t.groups :=
    Nat.ne_of_lt (hg j (hs.held j (Vn.isNull_eq_false.mpr hj)))
  intro a b ha hb hab
  rw [ho]
  rw [hf] at ha hb
  rw [hgr] at hab
  by_cases hai : a = i
  · by_cases hbi : b = i
    · rw [hai, hbi]
    · rw [Function.update_of_ne hbi] at hb
      simp only [prepare, hai, Function.update_self, Function.update_of_ne hbi] at hab
      exact absurd hab.symm (hfresh hb)
  · rw [Function.update_of_ne hai] at ha
    by_cases hbi : b = i
    · simp only [prepare, hbi, Function.update_self, Function.update_of_ne hai] at hab
      exact absurd hab (hfresh ha)
    · rw [Function.update_of_ne hbi] at hb
      simp only [prepare, Function.update_of_ne hai, Function.update_of_ne hbi] at hab ⊢
      exact h a b ha hb hab

theorem vacated {t : Table V} (h : SameOffsets t) (hs : Sound t) (fd : Int) (ticket : Nat) :
    SameOffsets (vacate (closeDups t fd) fd ticket) := by
  have hstays {j : Int} (hj : (vacate (closeDups t fd) fd ticket).filetable j ≠ .null) :
      j ≠ fd ∧ t.filetable j ≠ .null := by
    rw [vacated_filetable hs] at hj
    split_ifs at hj with hor
    · exact absurd rfl hj
    · exact ⟨fun he => hor (.inl he), hj⟩
  intro i j hi hj hij
  obtain ⟨hifd, hi⟩ := hstays hi
  obtain ⟨hjfd, hj⟩ := hstays hj
  simp only [vacate, closeDups_eq, Function.update_of_ne hifd, Function.update_of_ne hjfd]
    at hij ⊢
  exact h i j hi hj hij

theorem transferred_iff {t t' : Table V} (h : SameOffsets t) {fd n : Int}
    (hf : t'.filetable = t.filetable) (hg : t'.group = t.group)
    (ho : ∀ i, t'.offset i =
      if i ∈ visits t.dup fd fuel fd then toInt32 (t.offset fd + n) else t.offset i) :
    SameOffsets t' ↔ ListReaches t fd n := by
  constructor
  · intro h' i j hi hj hij hion hjoff
    have hij' := h' i j (hf ▸ hi) (hf ▸ hj) (by rw [hg]; exact hij)
    rw [ho i, ho j, if_pos hion, if_neg hjoff] at hij'
    exact hij'.symm
  · intro hl i j hi hj hij
    rw [hf] at hi hj
    rw [hg] at hij
    rw [ho i, ho j]
    by_cases hion : i ∈ visits t.dup fd fuel fd
    · by_cases hjon : j ∈ visits t.dup fd fuel fd
      · rw [if_pos hion, if_pos hjon]
      · rw [if_pos hion, if_neg hjon]
        exact (hl i j hi hj hij hion hjon).symm
    · by_cases hjon : j ∈ visits t.dup fd fuel fd
      · rw [if_neg hion, if_pos hjon]
        exact hl j i hj hi hij.symm hjon hion
      · rw [if_neg hion, if_neg hjon]
        exact h i j hi hj hij

theorem sought_iff {t t' : Table V} (h : SameOffsets t) {fd p : Int}
    (hopen : t.filetable fd ≠ .null) (hf : t'.filetable = t.filetable)
    (hg : t'.group = t.group) (ho : t'.offset = Function.update t.offset fd p) :
    SameOffsets t' ↔
      ∀ j, j ≠ fd → t.filetable j ≠ .null → t.group j = t.group fd → t.offset j = p := by
  constructor
  · intro h' j hjfd hj hjg
    have hjf := h' j fd (hf ▸ hj) (hf ▸ hopen) (by rw [hg]; exact hjg)
    rwa [ho, Function.update_self, Function.update_of_ne hjfd] at hjf
  · intro hall i j hi hj hij
    rw [hf] at hi hj
    rw [hg] at hij
    rw [ho]
    by_cases hifd : i = fd
    · by_cases hjfd : j = fd
      · rw [hifd, hjfd]
      · rw [hifd, Function.update_self, Function.update_of_ne hjfd]
        exact (hall j hjfd hj (by rw [← hifd]; exact hij.symm)).symm
    · by_cases hjfd : j = fd
      · rw [hjfd, Function.update_self, Function.update_of_ne hifd]
        exact hall i hifd hi (by rw [← hjfd]; exact hij)
      · rw [Function.update_of_ne hifd, Function.update_of_ne hjfd]
        exact h i j hi hj hij

theorem linked_iff {t : Table V} (h : SameOffsets t) {oldfd last newfd : Int}
    (hnew : t.filetable newfd = .null) (hold : t.filetable oldfd ≠ .null) :
    SameOffsets (linkDup t oldfd last newfd) ↔
      (t.filetable last ≠ .null → t.offset newfd = t.offset oldfd) := by
  have hne : oldfd ≠ newfd := by
    intro hx
    obtain rfl := hx
    exact hold hnew
  have hfn : (linkDup t oldfd last newfd).filetable newfd = t.filetable last := by
    simp [linkDup]
  have hfo {j : Int} (hj : j ≠ newfd) :
      (linkDup t oldfd last newfd).filetable j = t.filetable j := by simp [linkDup, hj]
  have hgn : (linkDup t oldfd last newfd).group newfd = t.group oldfd := by simp [linkDup]
  have hgo {j : Int} (hj : j ≠ newfd) :
      (linkDup t oldfd last newfd).group j = t.group j := by simp [linkDup, hj]
  constructor
  · intro h' hlast
    refine h' newfd oldfd (by rwa [hfn]) (by rwa [hfo hne]) ?_
    rw [hgn, hgo hne]
  · intro hpos i j hi hj hij
    -- `newfd` is where `oldfd` is, and in its group
    have hcase {a b : Int} (ha : a = newfd) (hb : b ≠ newfd)
        (hfa : (linkDup t oldfd last newfd).filetable a ≠ .null)
        (hfb : (linkDup t oldfd last newfd).filetable b ≠ .null)
        (hab : (linkDup t oldfd last newfd).group a = (linkDup t oldfd last newfd).group b) :
        t.offset a = t.offset b := by
      subst ha
      rw [hfn] at hfa
      rw [hfo hb] at hfb
      rw [hgn, hgo hb] at hab
      rw [hpos hfa]
      exact h oldfd b hold hfb hab
    by_cases hin : i = newfd
    · by_cases hjn : j = newfd
      · rw [hin, hjn]
      · exact hcase hin hjn hi hj hij
    · by_cases hjn : j = newfd
      · exact (hcase hjn hin hj hi hij.symm).symm
      · rw [hfo hin] at hi
        rw [hfo hjn] at hj
        rw [hgo hin, hgo hjn] at hij
        exact h i j hi hj hij

end SameOffsets

/-! ## Calls -/

theorem Holds.ne_null {t : Table V} {fd : Int} (h : Holds t fd) : t.filetable fd ≠ .null := by
  intro hnull
  have hnode := h.2
  rw [hnull] at hnode
  cases hnode

theorem Holds.not_isNull (k : Kernel V) {t : Table V} {fd : Int} (h : Holds t fd) :
    isNull k t fd = false := by
  rw [isNull_inArrays k t h.1]
  exact Vn.isNull_eq_false.mpr h.ne_null

theorem transferred_sameOffsets {t : Table V} (h : SameOffsets t) {log : List Int}
    {fd n r : Int} {b : Bool} (hr : (transferred t log fd n).result = .ret r b) :
    SameOffsets (transferred t log fd n).table ↔ ListReaches t fd n := by
  unfold transferred at hr ⊢
  cases hu : updateoffset t.dup fd fuel fd
      (Function.update t.offset fd (toInt32 (t.offset fd + n))) with
  | none => simp [hu] at hr
  | some offset =>
    refine h.transferred_iff rfl rfl fun i => ?_
    dsimp only
    rw [updateoffset_eq rfl hu i, Function.update_self]
    by_cases hi : i = fd
    · have hself : fd ∈ visits t.dup fd fuel fd := mem_visits_self t.dup fd 18 fd
      simp [hi, hself]
    · rw [Function.update_of_ne hi]

theorem write_sameOffsets {k : Kernel V} {t : Table V} (h : SameOffsets t) {fd : Int}
    {nbytes : Nat} {r : Int} {b : Bool} (hr : (write k t fd nbytes).result = .ret r b) :
    SameOffsets (write k t fd nbytes).table ↔ KeepsOffsets t (k, .write fd nbytes) := by
  unfold write at hr ⊢
  by_cases h0 : fd = 0
  · rw [if_pos h0]
    exact iff_of_true (h.same rfl rfl rfl) fun hne => absurd h0 hne
  rw [if_neg h0] at hr ⊢
  cases hnull : isNull k t fd with
  | true =>
    refine iff_of_true (h.same rfl rfl rfl) fun _ hh => ?_
    rw [hh.not_isNull k] at hnull
    cases hnull
  | false =>
    simp only [hnull, Bool.false_eq_true, if_false] at hr ⊢
    cases hc : k.copyin with
    | some e =>
      refine iff_of_true (h.same rfl rfl rfl) fun _ _ hc' => ?_
      rw [show (k, Call.write fd nbytes).1.copyin = k.copyin from rfl, hc] at hc'
      cases hc'
    | none =>
      simp only [hc] at hr ⊢
      by_cases hh : Holds t fd
      · rw [if_pos hh] at hr ⊢
        cases hw : k.vopWrite with
        | some e =>
          refine iff_of_true (h.same rfl rfl rfl) fun _ _ _ hw' => ?_
          rw [show (k, Call.write fd nbytes).1.vopWrite = k.vopWrite from rfl, hw] at hw'
          cases hw'
        | none =>
          simp only [hw] at hr ⊢
          rw [transferred_sameOffsets h hr]
          exact ⟨fun hl _ _ _ _ => hl, fun hl => hl h0 hh hc hw⟩
      · simp [hh] at hr

theorem read_sameOffsets {k : Kernel V} {t : Table V} (h : SameOffsets t) {fd : Int}
    {buflen : Nat} {r : Int} {b : Bool} (hr : (read k t fd buflen).result = .ret r b) :
    SameOffsets (read k t fd buflen).table ↔ KeepsOffsets t (k, .read fd buflen) := by
  unfold read at hr ⊢
  cases hnull : isNull k t fd with
  | true =>
    refine iff_of_true (h.same rfl rfl rfl) fun _ hh => ?_
    rw [hh.not_isNull k] at hnull
    cases hnull
  | false =>
    simp only [hnull, Bool.false_eq_true, if_false] at hr ⊢
    by_cases hout : fd = 1 ∨ fd = 2
    · rw [if_pos hout]
      exact iff_of_true (h.same rfl rfl rfl) fun hne => absurd hout hne
    rw [if_neg hout] at hr ⊢
    by_cases hh : Holds t fd
    · rw [if_pos hh] at hr ⊢
      by_cases hsize : t.offset fd < k.stSize
      · rw [if_pos hsize] at hr ⊢
        cases hv : k.vopRead with
        | some e =>
          refine iff_of_true (h.same rfl rfl rfl) fun _ _ _ hv' => ?_
          rw [show (k, Call.read fd buflen).1.vopRead = k.vopRead from rfl, hv] at hv'
          cases hv'
        | none =>
          simp only [hv] at hr ⊢
          rw [transferred_sameOffsets h hr]
          exact ⟨fun hl _ _ _ _ => hl, fun hl => hl hout hh hsize hv⟩
      · rw [if_neg hsize]
        exact iff_of_true h fun _ _ hlt => absurd hlt hsize
    · simp [hh] at hr

theorem lseek_sameOffsets {k : Kernel V} {t : Table V} (h : SameOffsets t)
    {fd pos whence r : Int} {b : Bool} (hr : (lseek k t fd pos whence).result = .ret r b) :
    SameOffsets (lseek k t fd pos whence).table ↔
      KeepsOffsets t (k, .lseek fd pos whence) := by
  unfold lseek at hr ⊢
  by_cases hstd : fd = 0 ∨ fd = 1 ∨ fd = 2
  · rw [if_pos hstd]
    exact iff_of_true (h.same rfl rfl rfl) fun hge => by omega
  rw [if_neg hstd] at hr ⊢
  cases hnull : isNull k t fd with
  | true =>
    refine iff_of_true (h.same rfl rfl rfl) fun _ hh => ?_
    rw [hh.not_isNull k] at hnull
    cases hnull
  | false =>
    simp only [hnull, Bool.false_eq_true, if_false] at hr ⊢
    by_cases hh : Holds t fd
    · rw [if_pos hh] at hr ⊢
      cases hv : k.vopTryseek with
      | some e =>
        refine iff_of_true (h.same rfl rfl rfl) fun _ _ hv' => ?_
        rw [show (k, Call.lseek fd pos whence).1.vopTryseek = k.vopTryseek from rfl, hv] at hv'
        cases hv'
      | none =>
        simp only [hv] at hr ⊢
        cases hp : seekTo k.stSize (t.offset fd) pos whence with
        | none =>
          refine iff_of_true (h.same rfl rfl rfl) fun _ _ _ p hp' => ?_
          rw [show (k, Call.lseek fd pos whence).1.stSize = k.stSize from rfl, hp] at hp'
          cases hp'
        | some p =>
          simp only [hp] at hr ⊢
          by_cases hneg : p < 0
          · rw [if_pos hneg]
            refine iff_of_true (h.same rfl rfl rfl) fun _ _ _ q hq hq0 => ?_
            obtain rfl := Option.some.inj (hp.symm.trans hq)
            omega
          · rw [if_neg hneg]
            have hsought : SameOffsets
                { t with errno := 0, offset := Function.update t.offset fd p } ↔ _ :=
              h.sought_iff hh.ne_null rfl rfl rfl
            refine hsought.trans ?_
            have hge := hh.1.1
            constructor
            · intro hall _ _ _ q hq _
              obtain rfl := Option.some.inj (hp.symm.trans hq)
              exact hall
            · intro hall
              exact hall (by omega) hh hv p hp (by omega)
    · simp [hh] at hr

theorem openFile_sameOffsets {k : Kernel V} {t : Table V} (h : SameOffsets t)
    (hs : Sound t) (hg : Grouped t) {r : Int} {b : Bool}
    (hr : (openFile k t).result = .ret r b) : SameOffsets (openFile k t).table := by
  unfold openFile at hr ⊢
  cases hslot : freeSlot t with
  | none =>
    simp only [hslot] at hr ⊢
    split_ifs at hr ⊢
    exact h.same rfl rfl rfl
  | some i =>
    cases hv : k.vfsOpen with
    | error e => exact h.slot hs hg k i (if k.kmalloc then .raw else .null) rfl rfl rfl
    | ok v =>
      refine h.slot hs hg k i (.node v t.opened) ?_ rfl rfl
      simp [prepare]

theorem close_sameOffsets {k : Kernel V} {t : Table V} (h : SameOffsets t) (hs : Sound t)
    {fd r : Int} {b : Bool} (hr : (close k t fd).result = .ret r b) :
    SameOffsets (close k t fd).table := by
  obtain ⟨-, -, htable⟩ | ⟨v, ticket, -, -, -, -, -, -, -, htable⟩ := close_cases hr
  · rw [htable]
    exact h.same rfl rfl rfl
  · rw [htable]
    exact h.vacated hs fd ticket

theorem duplicate_sameOffsets {k : Kernel V} {t : Table V} (h : SameOffsets t)
    {log : List Int} {oldfd newfd : Int} (hnull : t.filetable newfd = .null) {r : Int}
    {b : Bool} (hr : (duplicate k t log oldfd newfd).result = .ret r b) :
    SameOffsets (duplicate k t log oldfd newfd).table ↔ Prepositioned t oldfd newfd := by
  obtain ⟨hold, -, -, htable⟩ | ⟨last, hold, hnew, hopen, hw, -, -, htable⟩ :=
    duplicate_cases hr
  · rw [htable]
    refine iff_of_true (h.same rfl rfl rfl) fun _ ho => ?_
    rw [(isOpen_iff k t ho.1).mp ho] at hold
    cases hold
  · rw [htable, h.linked_iff hnull (Vn.isNull_eq_false.mp hopen)]
    constructor
    · intro hpos _ _ last' hw'
      obtain rfl := Option.some.inj (hw.symm.trans hw')
      exact hpos
    · intro hpos
      exact hpos hnew ⟨hold, hopen⟩ last hw

theorem dup2_sameOffsets {k : Kernel V} {t : Table V} (h : SameOffsets t) (hs : Sound t)
    {oldfd newfd r : Int} {b : Bool} (hr : (dup2 k t oldfd newfd).result = .ret r b) :
    SameOffsets (dup2 k t oldfd newfd).table ↔ KeepsOffsets t (k, .dup2 oldfd newfd) := by
  unfold dup2 at hr ⊢
  by_cases hrange :
      (oldfd < 0 ∨ oldfd > FILETABLESIZE) ∨ (newfd < 0 ∨ newfd > FILETABLESIZE)
  · rw [if_pos hrange]
    have hout : ∀ u : Table V, Prepositioned u oldfd newfd := by
      intro u hnew hopen
      have hold := hopen.1
      unfold InArrays at hnew hold
      omega
    exact iff_of_true (h.same rfl rfl rfl) ⟨fun _ => hout t, fun _ => hout _⟩
  rw [if_neg hrange] at hr ⊢
  cases hnull : isNull k t newfd with
  | true =>
    simp only [hnull, if_true] at hr ⊢
    have hfree := hs.null_of_isNull hnull
    rw [duplicate_sameOffsets h hfree hr]
    refine ⟨fun hp => ⟨fun _ => hp, fun hc => ?_⟩, fun hk => hk.1 hfree⟩
    exact absurd hfree (Vn.isNull_eq_false.mp hc.2.1.2)
  | false =>
    simp only [hnull, Bool.false_eq_true, if_false] at hr ⊢
    cases hclose : (close k t newfd).result with
    | ret r' b' =>
      have hkept := close_sameOffsets h hs hclose
      simp only [hclose] at hr ⊢
      obtain ⟨hret, -, htable⟩ | ⟨v, ticket, hret, -, hin, hge, hdup, -, hnode, htable⟩ :=
        close_cases hclose
      · rw [if_pos (by omega)] at hr ⊢
        refine iff_of_true (hkept.same rfl rfl rfl) ⟨fun hfree hnew => ?_, fun hc => ?_⟩
        · rw [isNull_inArrays k t hnew, hfree] at hnull
          cases hnull
        · have hzero := hc.ret hs hclose
          omega
      · rw [if_neg (by omega)] at hr ⊢
        have hc : Closes t newfd := ⟨hge, ⟨hin, by rw [hnode]; rfl⟩, hdup⟩
        have hfree : (close k t newfd).table.filetable newfd = .null := by
          simp [htable, vacate]
        have hkept' : SameOffsets { (close k t newfd).table with errno := r' } :=
          hkept.same rfl rfl rfl
        refine (duplicate_sameOffsets hkept' hfree hr).trans ?_
        rw [htable]
        -- the ticket and the error number play no part
        change Prepositioned (emptied t newfd) oldfd newfd ↔ _
        refine ⟨fun hp => ⟨fun hn => ?_, fun _ => hp⟩, fun hk => hk.2 hc⟩
        rw [hn] at hnode
        cases hnode
    | undefined => simp [hclose] at hr
    | diverges => simp [hclose] at hr
    | halts => simp [hclose] at hr

theorem stepOn_sameOffsets {t t' : Table V} {a : Kernel V × Call} (h : SameOffsets t)
    (hs : Sound t) (hg : Grouped t) (hstep : stepOn t a = some t') :
    SameOffsets t' ↔ KeepsOffsets t a := by
  obtain ⟨k, c⟩ := a
  unfold stepOn step at hstep
  cases hr : (perform k t c).result with
  | ret r b =>
    simp only [hr, Option.some.injEq] at hstep
    subst hstep
    cases c with
    | write fd nbytes => exact write_sameOffsets h hr
    | openFile => exact iff_of_true (openFile_sameOffsets h hs hg hr) trivial
    | close fd => exact iff_of_true (close_sameOffsets h hs hr) trivial
    | read fd buflen => exact read_sameOffsets h hr
    | lseek fd pos whence => exact lseek_sameOffsets h hr
    | dup2 oldfd newfd => exact dup2_sameOffsets h hs hr
  | undefined => simp [hr] at hstep
  | diverges => simp [hr] at hstep
  | halts => simp [hr] at hstep

/-- Duplicates have one position in every state of a run exactly if each call of it leaves
them so. -/
theorem sameOffsets_iff (con : Option V) (as : List (Kernel V × Call)) :
    Throughout stepOn SameOffsets (boot con) as ↔
      EachStep stepOn KeepsOffsets (boot con) as :=
  throughout_iff (G := Reach con) (@Reach.stepOn V con)
    (fun _ _ _ ht h hstep => stepOn_sameOffsets h ht.sound ht.grouped hstep) Reach.boot
    (SameOffsets.boot con) as

/-- `dup2` gives the new descriptor the position 0. -/
theorem duplicate_behind :
    ¬ ∀ as : List (Kernel Unit × Call),
      Throughout stepOn SameOffsets (boot (some ())) as := by
  intro h
  have hview : (run stepOn (boot (some ())) [(calm, .openFile), (calm, .write 3 10),
      (calm, .dup2 3 4)]).map (fun t => (t.filetable 3, t.filetable 4,
        t.group 3 == t.group 4, t.offset 3, t.offset 4)) =
      some (.node () 1, .node () 1, true, 10, 0) := by
    decide +kernel
  obtain ⟨t, ht, hview⟩ := Option.map_eq_some_iff.mp hview
  simp only [Prod.mk.injEq] at hview
  obtain ⟨h3, h4, hgroup, ho3, ho4⟩ := hview
  have hsame := (h _).last ht 3 4 (by rw [h3]; decide) (by rw [h4]; decide)
    (by simpa using hgroup)
  rw [ho3, ho4] at hsame
  exact absurd hsame (by decide)

end Os161.Filetable
