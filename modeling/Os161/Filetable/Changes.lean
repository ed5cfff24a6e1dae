import Os161.Filetable.Calls

/-! # What a call does to the table

Every call that comes back makes a few elementary changes. `step_changes` is the only place
that looks into the functions; what holds in every reachable state is proved change by
change. -/
namespace Os161.Filetable

variable {V : Type}

@[simp] theorem fail_log (t : Table V) (log : List Int) (e : Errno) :
    (fail t log e).log = log := rfl

@[simp] theorem fail_table (t : Table V) (log : List Int) (e : Errno) :
    (fail t log e).table = { t with errno := e.code } := rfl

@[simp] theorem fail_result (t : Table V) (log : List Int) (e : Errno) :
    (fail t log e).result = .ret (-1) true := rfl

/-! ## The loop of `close` -/

/-- `l` are the indices the loop has still before it. -/
theorem foldl_closeDup (fd : Int) (l : List Int) (t : Table V) :
    l.foldl (closeDup fd) t =
      { t with
        isdup := fun i => if i ∈ l ∧ t.parent i = fd then 0 else t.isdup i
        parent := fun i => if i ∈ l ∧ t.parent i = fd then 0 else t.parent i
        filetable := fun i => if i ∈ l ∧ t.parent i = fd then .null else t.filetable i } := by
  induction l generalizing t with
  | nil => simp
  | cons a l ih =>
    rw [List.foldl_cons, ih]
    unfold closeDup
    by_cases ha : t.parent a = fd
    · simp only [ha, if_true, Function.update_apply, List.mem_cons]
      congr 1 <;> funext i <;> by_cases hi : i = a <;> simp [hi, ha]
    · simp only [ha, if_false, List.mem_cons]
      congr 1 <;> funext i <;> by_cases hi : i = a <;> simp [hi, ha]

theorem mem_indices (i : Int) : i ∈ (List.range 18).map Int.ofNat ↔ InArrays i := by
  simp only [List.mem_map, List.mem_range, InArrays, FILETABLESIZE]
  constructor
  · intro hx
    obtain ⟨n, hn, rfl⟩ := hx
    exact ⟨Int.natCast_nonneg n, by simpa using Int.ofNat_lt.mpr hn⟩
  · intro hx
    obtain ⟨h0, h1⟩ := hx
    exact ⟨i.toNat, by omega, Int.toNat_of_nonneg h0⟩

theorem closeDups_eq (t : Table V) (fd : Int) :
    closeDups t fd =
      { t with
        isdup := fun i => if InArrays i ∧ t.parent i = fd then 0 else t.isdup i
        parent := fun i => if InArrays i ∧ t.parent i = fd then 0 else t.parent i
        filetable := fun i =>
          if InArrays i ∧ t.parent i = fd then .null else t.filetable i } := by
  unfold closeDups
  rw [foldl_closeDup]
  simp only [mem_indices]

/-! ## Elementary changes -/

inductive Change : Table V → Table V → Prop where
  | errno (t : Table V) (e : Int) : Change t { t with errno := e }
  | offset {t : Table V} {fd : Int} (offset : Int → Int) :
      Holds t fd → Change t { t with offset := offset }
  | prepared {t : Table V} {i : Int} (k : Kernel V) :
      freeSlot t = some i → Change t (prepare k t i)
  | opened {t : Table V} {i : Int} (k : Kernel V) (v : V) :
      freeSlot t = some i →
        Change t { prepare k t i with
          filetable := Function.update (prepare k t i).filetable i (.node v t.opened)
          opened := t.opened + 1 }
  | vacated {t : Table V} {fd : Int} {v : V} {ticket : Nat} :
      InArrays fd → 3 ≤ fd → t.isdup fd = 0 → t.parent fd ≠ fd →
        t.filetable fd = .node v ticket → Change t (vacate (closeDups t fd) fd ticket)
  | linked {t : Table V} {oldfd last newfd : Int} :
      InArrays oldfd → InArrays newfd → (t.filetable oldfd).isNull = false →
        walkend t.dup oldfd fuel oldfd = some last → Change t (linkDup t oldfd last newfd)

/-- A few elementary changes. -/
def Changes : Table V → Table V → Prop := Relation.ReflTransGen Change

theorem Changes.one {t t' : Table V} (h : Change t t') : Changes t t' :=
  Relation.ReflTransGen.single h

theorem Changes.errno {t t' : Table V} (h : Changes t t') (e : Int) :
    Changes t { t' with errno := e } :=
  Relation.ReflTransGen.tail h (.errno t' e)

theorem Changes.keeps {P : Table V → Prop} {t t' : Table V} (h : Changes t t')
    (hchange : ∀ t t', P t → Change t t' → P t') (ht : P t) : P t' := by
  induction h with
  | refl => exact ht
  | tail _ hlast ih => exact hchange _ _ ih hlast

theorem freeSlot_mem {t : Table V} {i : Int} (h : freeSlot t = some i) :
    3 ≤ i ∧ InArrays i ∧ (t.filetable i).isNull = true ∧ t.isdup i = 0 := by
  have hmem := List.mem_of_find?_eq_some h
  have hfree := List.find?_some h
  simp only [List.mem_map, List.mem_range'] at hmem
  simp only [Bool.and_eq_true, decide_eq_true_eq] at hfree
  obtain ⟨n, ⟨j, hj, rfl⟩, rfl⟩ := hmem
  refine ⟨?_, ⟨?_, ?_⟩, hfree⟩ <;> simp only [FILETABLESIZE, Int.ofNat_eq_natCast] <;> omega

/-! ## One call -/

theorem transferred_changes {t : Table V} {fd : Int} (log : List Int) (n : Int)
    (hfd : Holds t fd) : Changes t (transferred t log fd n).table := by
  unfold transferred
  cases hu : updateoffset t.dup fd fuel fd
      (Function.update t.offset fd (toInt32 (t.offset fd + n))) with
  | none => exact Changes.one (.errno t 0)
  | some offset => exact (Changes.one (.offset offset hfd)).errno 0

theorem write_changes {k : Kernel V} {t : Table V} {fd : Int} {nbytes : Nat} {r : Int}
    {b : Bool} (h : (write k t fd nbytes).result = .ret r b) :
    Changes t (write k t fd nbytes).table := by
  unfold write at h ⊢
  split_ifs at h ⊢ with h0 hnull hfd
  · exact Changes.one (.errno t _)
  · exact Changes.one (.errno t _)
  · cases hc : k.copyin with
    | some e => exact Changes.one (.errno t _)
    | none =>
      cases hw : k.vopWrite with
      | some e => exact Changes.one (.errno t _)
      | none =>
        simp only [hc, hw] at h ⊢
        exact transferred_changes _ _ hfd
  · cases hc : k.copyin with
    | some e => exact Changes.one (.errno t _)
    | none => simp [hc] at h

theorem read_changes {k : Kernel V} {t : Table V} {fd : Int} {buflen : Nat} {r : Int}
    {b : Bool} (h : (read k t fd buflen).result = .ret r b) :
    Changes t (read k t fd buflen).table := by
  unfold read at h ⊢
  split_ifs at h ⊢ with hnull hout hfd hsize
  · exact Changes.one (.errno t _)
  · exact Changes.one (.errno t _)
  · cases hr : k.vopRead with
    | some e => exact Changes.one (.errno t _)
    | none =>
      simp only [hr] at h ⊢
      exact transferred_changes _ _ hfd
  · exact Relation.ReflTransGen.refl

theorem lseek_changes {k : Kernel V} {t : Table V} {fd pos whence : Int} {r : Int} {b : Bool}
    (h : (lseek k t fd pos whence).result = .ret r b) :
    Changes t (lseek k t fd pos whence).table := by
  unfold lseek at h ⊢
  split_ifs at h ⊢ with hstd hnull hfd
  · exact Changes.one (.errno t _)
  · exact Changes.one (.errno t _)
  · cases hs : k.vopTryseek with
    | some e => exact Changes.one (.errno t _)
    | none =>
      simp only [hs] at h ⊢
      cases hp : seekTo k.stSize (t.offset fd) pos whence with
      | none => exact Changes.one (.errno t 0)
      | some p =>
        simp only [hp] at h ⊢
        split_ifs
        · exact Changes.one (.errno t _)
        · exact (Changes.one (.offset (Function.update t.offset fd p) hfd)).errno 0

theorem openFile_changes {k : Kernel V} {t : Table V} {r : Int} {b : Bool}
    (h : (openFile k t).result = .ret r b) : Changes t (openFile k t).table := by
  unfold openFile at h ⊢
  cases hslot : freeSlot t with
  | none =>
    simp only [hslot] at h ⊢
    split_ifs at h ⊢
    exact Changes.one (.errno t _)
  | some i =>
    cases hopen : k.vfsOpen with
    | error e => exact (Changes.one (.prepared k hslot)).errno _
    | ok v => exact (Changes.one (.opened k v hslot)).errno 0

/-- How `close` comes back: with an error, or with the file closed. -/
theorem close_cases {k : Kernel V} {t : Table V} {fd : Int} {r : Int} {b : Bool}
    (h : (close k t fd).result = .ret r b) :
    (r = -1 ∧ b = true ∧ (close k t fd).table = { t with errno := Errno.EBADF.code }) ∨
    (∃ v ticket, r = 0 ∧ b = false ∧ InArrays fd ∧ 3 ≤ fd ∧ t.isdup fd = 0 ∧
      t.parent fd ≠ fd ∧ t.filetable fd = .node v ticket ∧
      (close k t fd).table = vacate (closeDups t fd) fd ticket) := by
  unfold close at h ⊢
  split_ifs at h ⊢ with hstd hnull hdup hfd
  · simp only [fail_result, Result.ret.injEq] at h
    exact .inl ⟨h.1.symm, h.2.symm, rfl⟩
  · simp only [fail_result, Result.ret.injEq] at h
    exact .inl ⟨h.1.symm, h.2.symm, rfl⟩
  · simp only [fail_result, Result.ret.injEq] at h
    exact .inl ⟨h.1.symm, h.2.symm, rfl⟩
  · have hzero : t.isdup fd = 0 := by simpa [isdupAt, hfd.1] using hdup
    have hge : 3 ≤ fd := by
      have := hfd.1.1
      omega
    cases hf : (closeDups t fd).filetable fd with
    | null => simp [hf] at h
    | raw => simp [hf] at h
    | node v ticket =>
      simp only [hf, Result.ret.injEq] at h
      have hnode := hf
      simp only [closeDups_eq] at hnode
      split_ifs at hnode with hp
      exact .inr ⟨v, ticket, h.1.symm, h.2.symm, hfd.1, hge, hzero,
        fun hpar => hp ⟨hfd.1, hpar⟩, hnode, rfl⟩

theorem close_changes {k : Kernel V} {t : Table V} {fd : Int} {r : Int} {b : Bool}
    (h : (close k t fd).result = .ret r b) : Changes t (close k t fd).table := by
  obtain ⟨-, -, htable⟩ | ⟨v, ticket, -, -, hin, hge, hdup, hpar, hnode, htable⟩ :=
    close_cases h
  · rw [htable]
    exact Changes.one (.errno t _)
  · rw [htable]
    exact Changes.one (.vacated hin hge hdup hpar hnode)

/-- How the second half of `dup2` comes back. -/
theorem duplicate_cases {k : Kernel V} {t : Table V} {log : List Int} {oldfd newfd : Int}
    {r : Int} {b : Bool} (h : (duplicate k t log oldfd newfd).result = .ret r b) :
    (isNull k t oldfd = true ∧ r = -1 ∧ b = true ∧
      (duplicate k t log oldfd newfd).table = { t with errno := Errno.EBADF.code }) ∨
    (∃ last, InArrays oldfd ∧ InArrays newfd ∧ (t.filetable oldfd).isNull = false ∧
      walkend t.dup oldfd fuel oldfd = some last ∧ r = 0 ∧ b = false ∧
      (duplicate k t log oldfd newfd).table = linkDup t oldfd last newfd) := by
  unfold duplicate at h ⊢
  split_ifs at h ⊢ with hnull hold hnew
  · simp only [fail_result, Result.ret.injEq] at h
    exact .inl ⟨hnull, h.1.symm, h.2.symm, rfl⟩
  · cases hw : walkend t.dup oldfd fuel oldfd with
    | none => simp [hw] at h
    | some last =>
      simp only [hw, Result.ret.injEq] at h ⊢
      exact .inr ⟨last, hold, hnew, by simpa [isNull, hold] using hnull, rfl, h.1.symm,
        h.2.symm, rfl⟩
  · cases hw : walkend t.dup oldfd fuel oldfd with
    | none => simp [hw] at h
    | some last => simp [hw] at h

theorem duplicate_changes {k : Kernel V} {t : Table V} {log : List Int} {oldfd newfd : Int}
    {r : Int} {b : Bool} (h : (duplicate k t log oldfd newfd).result = .ret r b) :
    Changes t (duplicate k t log oldfd newfd).table := by
  obtain ⟨-, -, -, htable⟩ | ⟨last, hold, hnew, hopen, hw, -, -, htable⟩ := duplicate_cases h
  · rw [htable]
    exact Changes.one (.errno t _)
  · rw [htable]
    exact Changes.one (.linked hold hnew hopen hw)

theorem dup2_changes {k : Kernel V} {t : Table V} {oldfd newfd : Int} {r : Int} {b : Bool}
    (h : (dup2 k t oldfd newfd).result = .ret r b) : Changes t (dup2 k t oldfd newfd).table := by
  unfold dup2 at h ⊢
  split_ifs at h ⊢ with hrange hnull
  · exact Changes.one (.errno t _)
  · exact duplicate_changes h
  · cases hc : (close k t newfd).result with
    | ret r' b' =>
      simp only [hc] at h ⊢
      have hclose := (close_changes hc).errno r'
      split_ifs at h ⊢ with hr
      · exact hclose
      · exact hclose.trans (duplicate_changes h)
    | undefined => simp [hc] at h
    | diverges => simp [hc] at h
    | halts => simp [hc] at h

theorem step_changes {k : Kernel V} {t t' : Table V} {c : Call} (h : step k t c = some t') :
    Changes t t' := by
  unfold step at h
  cases hr : (perform k t c).result with
  | ret r b =>
    simp only [hr, Option.some.injEq] at h
    subst h
    cases c with
    | write fd nbytes => exact write_changes hr
    | openFile => exact openFile_changes hr
    | close fd => exact close_changes hr
    | read fd buflen => exact read_changes hr
    | lseek fd pos whence => exact lseek_changes hr
    | dup2 oldfd newfd => exact dup2_changes hr
  | undefined => simp [hr] at h
  | diverges => simp [hr] at h
  | halts => simp [hr] at h

theorem Reach.stepOn {con : Option V} (t : Table V) (a : Kernel V × Call) (t' : Table V)
    (ht : Reach con t) (h : Filetable.stepOn t a = some t') : Reach con t' := .step ht h

/-- What every elementary change keeps holds in every reachable state. -/
theorem Reach.induct {con : Option V} {t : Table V} (ht : Reach con t) (P : Table V → Prop)
    (hboot : P (Filetable.boot con)) (hchange : ∀ t t', P t → Change t t' → P t') : P t := by
  induction ht with
  | boot => exact hboot
  | step _ hstep ih => exact (step_changes hstep).keeps hchange ih

end Os161.Filetable
