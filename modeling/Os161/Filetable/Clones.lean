import Os161.Filetable.Vnodes

/-! # The manual page of `dup2`

The page says that `dup2` returns `newfd`, that both descriptors are the same open file with
one position, and that a descriptor cloned onto itself stays as it is. -/
namespace Os161.Filetable

variable {V : Type}

/-- What holds when `dup2` comes back from an open `oldfd`. A descriptor is related to an open
`newfd` if `dup2` made one of the other. -/
structure Cloned (k : Kernel V) (t : Table V) (oldfd newfd : Int) : Prop where
  returns : (dup2 k t oldfd newfd).result = .ret newfd false
  file : (dup2 k t oldfd newfd).table.filetable newfd = t.filetable oldfd
  position : (dup2 k t oldfd newfd).table.offset newfd = t.offset oldfd
  unrelated : ∀ fd, fd ≠ newfd → ¬ (IsOpen t newfd ∧ t.group fd = t.group newfd) →
    (dup2 k t oldfd newfd).table.filetable fd = t.filetable fd ∧
      (dup2 k t oldfd newfd).table.offset fd = t.offset fd
  closedFirst : oldfd ≠ newfd → IsOpen t newfd → (close k t newfd).result = .ret 0 false
  itself : oldfd = newfd → SameArrays t (dup2 k t oldfd newfd).table

/-- `newfd` can be closed while `oldfd` stays open. -/
def Closable (t : Table V) (oldfd newfd : Int) : Prop :=
  ∃ k, (close k t newfd).result = .ret 0 false ∧
    (close k t newfd).table.filetable oldfd = t.filetable oldfd

def Refused (t : Table V) (o : Out V) : Prop :=
  o.result = .ret (-1) true ∧ 0 < o.table.errno ∧ SameArrays t o.table

structure MeetsManual (k : Kernel V) (t : Table V) (oldfd newfd : Int) : Prop where
  clones : IsOpen t oldfd → InArrays newfd →
    Cloned k t oldfd newfd ∧
      (oldfd ≠ newfd → Closable (dup2 k t oldfd newfd).table oldfd newfd)
  refuses : ¬ (IsOpen t oldfd ∧ InArrays newfd) → Refused t (dup2 k t oldfd newfd)

/-- An argument is out of range, or both entries are `NULL`. -/
def DeclinesCleanly (k : Kernel V) (t : Table V) (oldfd newfd : Int) : Prop :=
  ((oldfd < 0 ∨ oldfd > FILETABLESIZE) ∨ (newfd < 0 ∨ newfd > FILETABLESIZE)) ∨
    (isNull k t oldfd = true ∧ isNull k t newfd = true)

theorem refused_fail (t : Table V) (log : List Int) : Refused t (fail t log .EBADF) :=
  ⟨rfl, Errno.code_pos .EBADF, rfl, rfl, rfl, rfl, rfl⟩

/-- How `dup2` succeeds: it returns 0, and the list ends at `newfd`. -/
theorem dup2_success {k : Kernel V} {t : Table V} (hs : Sound t) {oldfd newfd r : Int}
    (h : (dup2 k t oldfd newfd).result = .ret r false) :
    r = 0 ∧
    ((t.filetable newfd = .null ∧ ∃ last, walkend t.dup oldfd fuel oldfd = some last ∧
        (dup2 k t oldfd newfd).table = linkDup t oldfd last newfd) ∨
      (3 ≤ newfd ∧ ∃ u last, (dup2 k t oldfd newfd).table = linkDup u oldfd last newfd)) := by
  unfold dup2 at h ⊢
  split_ifs at h ⊢ with hrange hnull
  · cases h
  · obtain ⟨-, -, hfail, -⟩ | ⟨last, -, -, -, hw, hret, -, htable⟩ := duplicate_cases h
    · cases hfail
    · exact ⟨hret, .inl ⟨hs.null_of_isNull hnull, last, hw, htable⟩⟩
  · cases hc : (close k t newfd).result with
    | ret r' b' =>
      simp only [hc] at h ⊢
      split_ifs at h ⊢ with hr
      · cases h
      · obtain ⟨hret, -⟩ | ⟨v, ticket, -, -, -, hge, -⟩ := close_cases hc
        · exact absurd hret (by omega)
        · obtain ⟨-, -, hfail, -⟩ | ⟨last, -, -, -, -, hret, -, htable⟩ := duplicate_cases h
          · cases hfail
          · exact ⟨hret, .inr ⟨hge, _, last, htable⟩⟩
    | undefined => simp [hc] at h
    | diverges => simp [hc] at h
    | halts => simp [hc] at h

/-- `dup2` keeps to the page, the closing apart, where it makes descriptor 0 of a descriptor
whose list ends at its own file and which is at the position that descriptor 0 had. -/
theorem cloned_iff (k : Kernel V) {t : Table V} (hs : Sound t) {oldfd newfd : Int}
    (hold : IsOpen t oldfd) (hnew : InArrays newfd) :
    Cloned k t oldfd newfd ↔
      newfd = 0 ∧ t.filetable 0 = .null ∧ t.offset 0 = t.offset oldfd ∧
        ∃ last, walkend t.dup oldfd fuel oldfd = some last ∧
          t.filetable last = t.filetable oldfd := by
  constructor
  · intro h
    obtain ⟨rfl, hcase⟩ := dup2_success hs h.returns
    obtain ⟨hnull, last, hw, htable⟩ | ⟨hge, -⟩ := hcase
    · have hfile := h.file
      have hpos := h.position
      rw [htable] at hfile hpos
      refine ⟨rfl, hnull, hpos, last, hw, ?_⟩
      simpa [linkDup] using hfile
    · exact absurd hge (by decide)
  · intro hx
    obtain ⟨rfl, hnull, hpos, last, hw, hfile⟩ := hx
    have hne : oldfd ≠ 0 := by
      intro hx
      obtain rfl := hx
      rw [IsOpen, hnull] at hold
      cases hold.2
    have hd : dup2 k t oldfd 0 =
        { log := 0 :: oldfd :: visits t.dup oldfd fuel oldfd ++ [0]
          table := linkDup t oldfd last 0
          result := .ret 0 false } := by
      have hge := hold.1
      have hrange :
          ¬ ((oldfd < 0 ∨ oldfd > FILETABLESIZE) ∨ ((0 : Int) < 0 ∨ 0 > FILETABLESIZE)) := by
        unfold InArrays FILETABLESIZE at hge
        unfold FILETABLESIZE
        omega
      have hfree : isNull k t 0 = true := by
        rw [isNull_inArrays k t hnew, hnull]
        rfl
      have hopen := (isOpen_iff k t hold.1).mp hold
      rw [dup2, if_neg hrange, if_pos hfree]
      simp [duplicate, hopen, hold.1, hw, hnew]
    refine ⟨by rw [hd], ?_, by rw [hd]; exact hpos, fun fd hfd _ => ?_, fun _ ho => ?_,
      fun he => absurd he hne⟩
    · rw [hd]
      simpa [linkDup] using hfile
    · rw [hd]
      simp [linkDup, hfd]
    · rw [IsOpen, hnull] at ho
      cases ho.2

/-- `close` refuses what `dup2` made. -/
theorem not_closable (u : Table V) (oldfd last newfd : Int) (hnew : InArrays newfd) :
    ¬ Closable (linkDup u oldfd last newfd) oldfd newfd := by
  intro hx
  obtain ⟨k, hret, -⟩ := hx
  have hclosed : ¬ Closes (linkDup u oldfd last newfd) newfd := by
    intro hc
    have hdup := hc.2.2
    simp [linkDup] at hdup
  obtain ⟨log, hclose, -⟩ := close_rejects k hnew hclosed
  rw [hclose] at hret
  cases hret

theorem not_meetsManual {k : Kernel V} {t : Table V} (hs : Sound t) {oldfd newfd : Int}
    (hold : IsOpen t oldfd) (hnew : InArrays newfd) : ¬ MeetsManual k t oldfd newfd := by
  intro h
  obtain ⟨hcloned, hclosable⟩ := h.clones hold hnew
  obtain ⟨rfl, hnull, -⟩ := (cloned_iff k hs hold hnew).mp hcloned
  have hne : oldfd ≠ 0 := by
    intro hx
    obtain rfl := hx
    rw [IsOpen, hnull] at hold
    cases hold.2
  obtain ⟨-, ⟨-, last, -, htable⟩ | ⟨hge, -⟩⟩ := dup2_success hs hcloned.returns
  · have hclose := hclosable hne
    rw [htable] at hclose
    exact not_closable t oldfd last 0 hnew hclose
  · exact absurd hge (by decide)

/-- `dup2` onto an open descriptor changes the table or reports the number -1. -/
theorem not_refused_of_open {k : Kernel V} {t : Table V} {oldfd newfd : Int}
    (hrange :
      ¬ ((oldfd < 0 ∨ oldfd > FILETABLESIZE) ∨ (newfd < 0 ∨ newfd > FILETABLESIZE)))
    (hnull : isNull k t newfd = false) : ¬ Refused t (dup2 k t oldfd newfd) := by
  intro hx
  obtain ⟨hret, hpos, hsame⟩ := hx
  rw [dup2, if_neg hrange, hnull] at hret hpos hsame
  simp only [Bool.false_eq_true, if_false] at hret hpos hsame
  cases hc : (close k t newfd).result with
  | ret r b =>
    simp only [hc] at hret hpos hsame
    obtain ⟨rfl, -, -⟩ | ⟨v, ticket, rfl, -, hin, -, -, -, hnode, htable⟩ := close_cases hc
    · simp only [ne_eq, Int.reduceNeg, reduceCtorEq, not_false_eq_true, if_true] at hpos
      exact absurd hpos (by decide)
    · simp only [ne_eq, not_true_eq_false, if_false] at hret hsame
      obtain ⟨-, -, -, hdup⟩ | ⟨last, -, -, -, -, hzero, -⟩ := duplicate_cases hret
      · have hfile := congrFun hsame.1 newfd
        rw [hdup, hnode] at hfile
        simp [htable, vacate] at hfile
      · exact absurd hzero (by decide)
  | undefined => simp [hc] at hret
  | diverges => simp [hc] at hret
  | halts => simp [hc] at hret

/-- `dup2` does what its manual page says exactly where it has nothing to do. -/
theorem meetsManual_iff {con : Option V} {t : Table V} (ht : Reach con t) (k : Kernel V)
    (oldfd newfd : Int) : MeetsManual k t oldfd newfd ↔ DeclinesCleanly k t oldfd newfd := by
  have hs := ht.sound
  by_cases hrange :
      (oldfd < 0 ∨ oldfd > FILETABLESIZE) ∨ (newfd < 0 ∨ newfd > FILETABLESIZE)
  · have hd : dup2 k t oldfd newfd = fail t [] .EBADF := if_pos hrange
    refine iff_of_true ⟨fun hold hnew => ?_, fun _ => ?_⟩ (.inl hrange)
    · have hin := hold.1
      unfold InArrays at hin hnew
      omega
    · rw [hd]
      exact refused_fail t []
  constructor
  · intro h
    have hpre : ¬ (IsOpen t oldfd ∧ InArrays newfd) := fun hpre =>
      not_meetsManual hs hpre.1 hpre.2 h
    have href := h.refuses hpre
    have hnull : isNull k t newfd = true := by
      by_contra hn
      exact not_refused_of_open hrange (by simpa using hn) href
    refine .inr ⟨?_, hnull⟩
    have hret := href.1
    rw [dup2, if_neg hrange, if_pos hnull] at hret
    obtain ⟨hold, -⟩ | ⟨last, -, -, -, -, hzero, -⟩ := duplicate_cases hret
    · exact hold
    · exact absurd hzero (by decide)
  · intro hx
    rcases hx with hout | ⟨hold, hnew⟩
    · exact absurd hout hrange
    · have hd : dup2 k t oldfd newfd = fail t [newfd, oldfd] .EBADF := by
        rw [dup2, if_neg hrange, if_pos hnew]
        simp [duplicate, hold]
      refine ⟨fun hopen _ => ?_, fun _ => ?_⟩
      · rw [(isOpen_iff k t hopen.1).mp hopen] at hold
        cases hold
      · rw [hd]
        exact refused_fail t _

theorem meetsManual_iff_oneFile :
    MeetsManual calm oneFile 3 8 ↔ DeclinesCleanly calm oneFile 3 8 :=
  meetsManual_iff oneFile_reach calm 3 8

/-- `dup2` of descriptor 3 onto 8 returns 0. -/
theorem dup2_returns_zero :
    ¬ ∀ t, Reach (some ()) t → ∀ (k : Kernel Unit) (oldfd newfd : Int),
      MeetsManual k t oldfd newfd := by
  intro h
  have hmeets := h oneFile oneFile_reach calm 3 8
  have hret := (hmeets.clones (by decide) (by decide)).1.returns
  exact absurd hret (by decide +kernel)

end Os161.Filetable
