import Os161.Filetable.Seeks
import Os161.Lib.Bytes
import Os161.User.Copies

/-! # What `read` does to user memory

`read` of assignment 2 goes through a kernel buffer as long as the user's: the file fills its
front, and all of it is copied out. -/
namespace Os161.Filetable
open Os161.Lib Os161.User

section Read

variable {V : Type} (k : Kernel V) (t : Table V) (fd : Int) (buf buflen : UInt32)
  (file : Nat → UInt8) (mapped : Nat → Bool) (mem : Mem)

/-- `read` with the contents of the file, of the heap behind `kbuffer` and of user memory. -/
def readInto (heap : Nat → UInt8) : Out V × Mem :=
  if isNull k t fd then (fail t [fd] .EBADF, mem)
  else if fd = 1 ∨ fd = 2 then (fail t [fd] .EBADF, mem)
  else if Holds t fd then
    if t.offset fd < k.stSize then
      match k.vopRead with
      | some e => (fail t [fd] e, mem)
      | none =>
        let readLength := readLength k.stSize (t.offset fd) buflen.toNat
        let kbuffer := kbuffer (slice file (t.offset fd).toNat readLength.toNat) heap
        let out := transferred t [fd] fd readLength
        -- a walk that does not end never gets to `copyout`, whose result is not looked at
        if out.result = .diverges then (out, mem)
        else (out, (copyout mapped mem kbuffer buf buflen).dest)
    else ({ log := [fd], table := t, result := .ret 0 false }, mem)
  else ({ log := [fd], table := t, result := .undefined }, mem)

theorem readInto_fst (heap : Nat → UInt8) :
    (readInto k t fd buf buflen file mapped mem heap).1 = read k t fd buflen.toNat := by
  unfold readInto read
  split_ifs
  · rfl
  · rfl
  · cases k.vopRead with
    | some e => rfl
    | none =>
      dsimp only
      split_ifs <;> rfl
  · rfl
  · rfl

/-- A read touches the bytes it returns, and no others. -/
structure TouchesReturned : Prop where
  returned : ∀ heap n, (readInto k t fd buf buflen file mapped mem heap).1.result = .ret n false →
    (∀ i : Nat, (i : Int) < n → (readInto k t fd buf buflen file mapped mem heap).2
      (buf + UInt32.ofNat i) = file ((t.offset fd).toNat + i)) ∧
    ∀ x : UInt32, ¬ ((x - buf).toNat : Int) < n →
      (readInto k t fd buf buflen file mapped mem heap).2 x = mem x
  heap : ∀ heap heap', (readInto k t fd buf buflen file mapped mem heap).2 =
    (readInto k t fd buf buflen file mapped mem heap').2
  efault : ¬ Present mapped buf buflen → ∀ heap,
    (readInto k t fd buf buflen file mapped mem heap).1.result = .ret (-1) true ∧
      (readInto k t fd buf buflen file mapped mem heap).1.table.errno = EFAULT.code ∧
      (readInto k t fd buf buflen file mapped mem heap).1.table.offset fd = t.offset fd

/-- With the buffer in place: nothing is copied out, or the file has all of `buflen`. Without it:
the file system itself fails with `EFAULT`. -/
def ReadCondition : Prop :=
  (Present mapped buf buflen ∧ ((fd = 1 ∨ fd = 2) ∨ k.stSize ≤ t.offset fd ∨ k.vopRead ≠ none ∨
    walkend t.dup fd fuel fd = none ∨ (buflen.toNat : Int) ≤ k.stSize - t.offset fd)) ∨
  (¬ Present mapped buf buflen ∧ ¬ (fd = 1 ∨ fd = 2) ∧ t.offset fd < k.stSize ∧
    ∃ e, k.vopRead = some e ∧ e.code = EFAULT.code)

end Read

section Proofs

variable {V : Type} {k : Kernel V} {t : Table V} {fd : Int} {buf buflen : UInt32}
  {file : Nat → UInt8} {mapped : Nat → Bool} {mem : Mem} {heap : Nat → UInt8}

/-- An open file, at a position a file can have. -/
structure Opened (k : Kernel V) (t : Table V) (fd : Int) : Prop where
  holds : Holds t fd
  low : 0 ≤ t.offset fd
  size : k.stSize < 2147483648

theorem Opened.not_isNull (h : Opened k t fd) : ¬ isNull k t fd = true := by
  rw [h.holds.not_isNull]
  exact Bool.false_ne_true

theorem Opened.readInto_std (h : Opened k t fd) (hstd : fd = 1 ∨ fd = 2) :
    readInto k t fd buf buflen file mapped mem heap = (fail t [fd] .EBADF, mem) := by
  rw [readInto, if_neg h.not_isNull, if_pos hstd]

theorem Opened.readInto_eq (h : Opened k t fd) (hstd : ¬ (fd = 1 ∨ fd = 2)) :
    readInto k t fd buf buflen file mapped mem heap =
      if t.offset fd < k.stSize then
        match k.vopRead with
        | some e => (fail t [fd] e, mem)
        | none =>
          if (transferred t [fd] fd (readLength k.stSize (t.offset fd) buflen.toNat)).result =
            .diverges then
            (transferred t [fd] fd (readLength k.stSize (t.offset fd) buflen.toNat), mem)
          else (transferred t [fd] fd (readLength k.stSize (t.offset fd) buflen.toNat),
            (copyout mapped mem (kbuffer (slice file (t.offset fd).toNat
              (readLength k.stSize (t.offset fd) buflen.toNat).toNat) heap) buf buflen).dest)
      else ({ log := [fd], table := t, result := .ret 0 false }, mem) := by
  rw [readInto, if_neg h.not_isNull, if_neg hstd, if_pos h.holds]

theorem Opened.readInto_eof (h : Opened k t fd) (hstd : ¬ (fd = 1 ∨ fd = 2))
    (hend : ¬ t.offset fd < k.stSize) : readInto k t fd buf buflen file mapped mem heap =
      ({ log := [fd], table := t, result := .ret 0 false }, mem) := by
  rw [h.readInto_eq hstd, if_neg hend]

theorem Opened.readInto_error (h : Opened k t fd) (hstd : ¬ (fd = 1 ∨ fd = 2))
    (hlt : t.offset fd < k.stSize) {e : Errno} (he : k.vopRead = some e) :
    readInto k t fd buf buflen file mapped mem heap = (fail t [fd] e, mem) := by
  rw [h.readInto_eq hstd, if_pos hlt, he]

theorem Opened.read_success (h : Opened k t fd) (hstd : ¬ (fd = 1 ∨ fd = 2))
    (hlt : t.offset fd < k.stSize) (hv : k.vopRead = none) : read k t fd buflen.toNat =
      transferred t [fd] fd (readLength k.stSize (t.offset fd) buflen.toNat) := by
  rw [read, if_neg h.not_isNull, if_neg hstd, if_pos h.holds, if_pos hlt, hv]

/-- Within the file the lengths do not wrap around. -/
theorem Opened.readLength_eq (h : Opened k t fd) (hlt : t.offset fd < k.stSize) :
    readLength k.stSize (t.offset fd) buflen.toNat =
      min (buflen.toNat : Int) (k.stSize - t.offset fd) := by
  have h0 := h.low
  have h1 := h.size
  have hmod : (k.stSize - t.offset fd) % (wordSize : Int) = k.stSize - t.offset fd :=
    Int.emod_eq_of_lt (by omega) (by unfold wordSize; omega)
  rw [readLength, hmod, toInt32, wordSize, Int.bmod_def]
  omega

theorem transferred_diverges {n : Int} :
    (transferred t [fd] fd n).result = .diverges ↔ walkend t.dup fd fuel fd = none := by
  rw [← updateoffset_eq_none t.dup fd fuel fd
    (Function.update t.offset fd (toInt32 (t.offset fd + n)))]
  unfold transferred
  cases updateoffset t.dup fd fuel fd (Function.update t.offset fd (toInt32 (t.offset fd + n))) with
  | none => exact iff_of_true rfl rfl
  | some offset => exact iff_of_false (fun h => nomatch h) fun h => nomatch h

theorem transferred_result (n : Int) : (transferred t [fd] fd n).result = .diverges ∨
    (transferred t [fd] fd n).result = .ret (toInt32 n) false := by
  unfold transferred
  cases updateoffset t.dup fd fuel fd (Function.update t.offset fd (toInt32 (t.offset fd + n))) with
  | none => exact .inl rfl
  | some offset => exact .inr rfl

theorem Opened.readInto_endless (h : Opened k t fd) (hstd : ¬ (fd = 1 ∨ fd = 2))
    (hlt : t.offset fd < k.stSize) (hv : k.vopRead = none) (hw : walkend t.dup fd fuel fd = none) :
    readInto k t fd buf buflen file mapped mem heap =
      (transferred t [fd] fd (readLength k.stSize (t.offset fd) buflen.toNat), mem) := by
  rw [h.readInto_eq hstd, if_pos hlt, hv]
  exact if_pos (transferred_diverges.mpr hw)

/-- The bytes of the file are in front of those of the heap, and `buflen` of both go out. -/
theorem Opened.readInto_copied (h : Opened k t fd) (hstd : ¬ (fd = 1 ∨ fd = 2))
    (hlt : t.offset fd < k.stSize) (hv : k.vopRead = none) (hw : walkend t.dup fd fuel fd ≠ none)
    (hp : Present mapped buf buflen) : readInto k t fd buf buflen file mapped mem heap =
      (transferred t [fd] fd (min (buflen.toNat : Int) (k.stSize - t.offset fd)),
        store mem buf buflen.toNat (kbuffer (slice file (t.offset fd).toNat
          (min (buflen.toNat : Int) (k.stSize - t.offset fd)).toNat) heap)) := by
  rw [h.readInto_eq hstd, if_pos hlt, hv]
  dsimp only
  rw [if_neg (mt transferred_diverges.mp hw), h.readLength_eq hlt, copyout_present hp]

/-! ## With the buffer in place -/

/-- Calls that copy nothing out and do not fail for the buffer. -/
theorem TouchesReturned.of_unchanged (hp : Present mapped buf buflen) {o : Out V}
    (h : ∀ heap, readInto k t fd buf buflen file mapped mem heap = (o, mem))
    (hret : ∀ n, o.result = .ret n false → n ≤ 0) :
    TouchesReturned k t fd buf buflen file mapped mem where
  returned heap n hr := by
    rw [h] at hr ⊢
    have := hret n hr
    exact ⟨fun i hi => absurd hi (by omega), fun x _ => rfl⟩
  heap heap heap' := by rw [h, h]
  efault hn := absurd hp hn

theorem fail_ret {log : List Int} {e : Errno} (n : Int)
    (h : (fail t log e).result = .ret n false) : n ≤ 0 := by
  rw [fail_result] at h
  cases h

/-- As long as the file has all of `buflen`, nothing of the heap is copied. -/
theorem TouchesReturned.of_within (h : Opened k t fd) (hstd : ¬ (fd = 1 ∨ fd = 2))
    (hlt : t.offset fd < k.stSize) (hv : k.vopRead = none) (hw : walkend t.dup fd fuel fd ≠ none)
    (hp : Present mapped buf buflen) (hle : (buflen.toNat : Int) ≤ k.stSize - t.offset fd) :
    TouchesReturned k t fd buf buflen file mapped mem := by
  have hmin : min (buflen.toNat : Int) (k.stSize - t.offset fd) = buflen.toNat := min_eq_left hle
  have hbuf : ∀ heap, ∀ i < buflen.toNat, kbuffer (slice file (t.offset fd).toNat
      (buflen.toNat : Int).toNat) heap i = file ((t.offset fd).toNat + i) := by
    intro heap i hi
    rw [Int.toNat_natCast, kbuffer_of_lt (by rw [length_slice]; exact hi), getElem_slice]
  have hmem : ∀ heap, (readInto k t fd buf buflen file mapped mem heap).2 =
      store mem buf buflen.toNat fun i => file ((t.offset fd).toNat + i) := by
    intro heap
    rw [h.readInto_copied hstd hlt hv hw hp, hmin]
    dsimp only
    funext x
    unfold store
    split_ifs with hx
    · exact hbuf heap _ hx
    · rfl
  refine ⟨fun heap n hr => ?_, fun heap heap' => by rw [hmem, hmem], fun hn => absurd hp hn⟩
  have hn : n = buflen.toNat := by
    rw [h.readInto_copied hstd hlt hv hw hp, hmin] at hr
    rcases (transferred_result buflen.toNat : _ ∨ (transferred t [fd] fd buflen.toNat).result = _)
      with ht | ht
    · rw [ht] at hr
      cases hr
    · have hnowrap : toInt32 (buflen.toNat : Int) = buflen.toNat := by
        have h0 := h.low
        have h1 := h.size
        rw [toInt32, wordSize, Int.bmod_def]
        omega
      rw [ht, hnowrap] at hr
      exact (Result.ret.inj hr).1.symm
  have hword := Nat.le_of_lt buflen.toNat_lt
  rw [hmem, hn]
  constructor
  · intro i hi
    exact store_of_lt (Int.ofNat_lt.mp hi) hword
  · intro x hx
    exact store_of_not fun hlt => hx (Int.ofNat_lt.mpr hlt)

/-- Beyond the end of the file the heap shows. -/
theorem not_touchesReturned_beyond (h : Opened k t fd) (hstd : ¬ (fd = 1 ∨ fd = 2))
    (hlt : t.offset fd < k.stSize) (hv : k.vopRead = none) (hw : walkend t.dup fd fuel fd ≠ none)
    (hp : Present mapped buf buflen) (hgt : k.stSize - t.offset fd < (buflen.toNat : Int)) :
    ¬ TouchesReturned k t fd buf buflen file mapped mem := by
  intro ht
  obtain ⟨n, hn⟩ : ∃ n : Nat, k.stSize - t.offset fd = n :=
    ⟨_, (Int.toNat_of_nonneg (by omega)).symm⟩
  have hlen : n < buflen.toNat := by omega
  have hbyte : ∀ heap, (readInto k t fd buf buflen file mapped mem heap).2
      (buf + UInt32.ofNat n) = heap n := by
    intro heap
    rw [h.readInto_copied hstd hlt hv hw hp, min_eq_right (le_of_lt hgt), hn, Int.toNat_natCast]
    dsimp only
    rw [store_of_lt hlen (Nat.le_of_lt buflen.toNat_lt),
      kbuffer_of_ge (Nat.le_of_eq (length_slice file _ _))]
  have heq := congrFun (ht.heap (fun _ => 0) (fun _ => 1)) (buf + UInt32.ofNat n)
  rw [hbyte, hbyte] at heq
  exact absurd heq (by decide)

theorem touchesReturned_of_present (h : Opened k t fd) (hp : Present mapped buf buflen) :
    TouchesReturned k t fd buf buflen file mapped mem ↔
      ((fd = 1 ∨ fd = 2) ∨ k.stSize ≤ t.offset fd ∨ k.vopRead ≠ none ∨
        walkend t.dup fd fuel fd = none ∨ (buflen.toNat : Int) ≤ k.stSize - t.offset fd) := by
  by_cases hstd : fd = 1 ∨ fd = 2
  · exact iff_of_true (.of_unchanged hp (fun _ => h.readInto_std hstd) fail_ret) (.inl hstd)
  rw [or_iff_right hstd]
  by_cases hlt : t.offset fd < k.stSize
  · rw [or_iff_right (not_le.mpr hlt)]
    cases hv : k.vopRead with
    | some e =>
      exact iff_of_true (.of_unchanged hp (fun _ => h.readInto_error hstd hlt hv) fail_ret)
        (.inl fun hn => nomatch hn)
    | none =>
      rw [or_iff_right fun hn => hn rfl]
      by_cases hw : walkend t.dup fd fuel fd = none
      · refine iff_of_true (.of_unchanged hp (fun _ => h.readInto_endless hstd hlt hv hw)
          fun n hr => ?_) (.inl hw)
        rw [transferred_diverges.mpr hw] at hr
        cases hr
      · rw [or_iff_right hw]
        by_cases hle : (buflen.toNat : Int) ≤ k.stSize - t.offset fd
        · exact iff_of_true (.of_within h hstd hlt hv hw hp hle) hle
        · exact iff_of_false (not_touchesReturned_beyond h hstd hlt hv hw hp (not_le.mp hle)) hle
  · refine iff_of_true (.of_unchanged hp (fun _ => h.readInto_eof hstd hlt) fun n hr => ?_)
      (.inl (not_lt.mp hlt))
    cases hr
    exact le_refl 0

/-! ## Without it -/

theorem touchesReturned_of_absent (h : Opened k t fd) (hp : ¬ Present mapped buf buflen) :
    TouchesReturned k t fd buf buflen file mapped mem ↔
      (¬ (fd = 1 ∨ fd = 2) ∧ t.offset fd < k.stSize ∧
        ∃ e, k.vopRead = some e ∧ e.code = EFAULT.code) := by
  by_cases hstd : fd = 1 ∨ fd = 2
  · refine iff_of_false (fun ht => ?_) fun hc => hc.1 hstd
    have herrno := (ht.efault hp fun _ => 0).2.1
    rw [h.readInto_std hstd] at herrno
    cases herrno
  rw [and_iff_right hstd]
  by_cases hlt : t.offset fd < k.stSize
  · rw [and_iff_right hlt]
    cases hv : k.vopRead with
    | some e =>
      have hread : ∀ heap, readInto k t fd buf buflen file mapped mem heap = (fail t [fd] e, mem) :=
        fun heap => h.readInto_error hstd hlt hv
      constructor
      · intro ht
        have herrno := (ht.efault hp fun _ => 0).2.1
        rw [hread] at herrno
        exact ⟨e, rfl, herrno⟩
      · intro hx
        obtain ⟨e', he', hcode⟩ := hx
        obtain rfl := Option.some.inj he'
        refine ⟨fun heap n hr => ?_, fun heap heap' => by rw [hread, hread], fun _ heap => ?_⟩
        · rw [hread] at hr
          cases hr
        · rw [hread]
          exact ⟨rfl, hcode, rfl⟩
    | none =>
      refine iff_of_false (fun ht => ?_) fun ⟨e, he, _⟩ => nomatch he
      have hresult := (ht.efault hp fun _ => 0).1
      rw [readInto_fst, h.read_success hstd hlt hv] at hresult
      rcases transferred_result (readLength k.stSize (t.offset fd) buflen.toNat) with htr | htr
      · rw [htr] at hresult
        cases hresult
      · rw [htr] at hresult
        exact absurd (Result.ret.inj hresult).2 Bool.false_ne_true
  · refine iff_of_false (fun ht => ?_) fun hc => hlt hc.1
    have hresult := (ht.efault hp fun _ => 0).1
    rw [h.readInto_eof hstd hlt] at hresult
    cases hresult

/-! ## Reads of an open file -/

/-- A read touches the bytes it returns exactly when the request does not reach beyond the end of
the file, or nothing is read at all. -/
theorem touchesReturned_iff (k : Kernel V) (t : Table V) (fd : Int) (h : Opened k t fd)
    (buf buflen : UInt32) (file : Nat → UInt8) (mapped : Nat → Bool) (mem : Mem) :
    TouchesReturned k t fd buf buflen file mapped mem ↔ ReadCondition k t fd buf buflen mapped := by
  by_cases hp : Present mapped buf buflen
  · rw [ReadCondition, or_iff_left fun hn => hn.1 hp, and_iff_right hp]
    exact touchesReturned_of_present h hp
  · rw [ReadCondition, or_iff_right fun hn => hp hn.1, and_iff_right hp]
    exact touchesReturned_of_absent h hp

end Proofs

/-! ## A file of 100 bytes -/

theorem touchesReturned_iff_hundred :
    TouchesReturned calm tableOn3 3 0x1000 200 (fun _ => 7) (fun _ => true) (fun _ => 0) ↔
      ReadCondition calm tableOn3 3 0x1000 200 fun _ => true :=
  touchesReturned_iff calm tableOn3 3 ⟨⟨by decide, rfl⟩, by decide, by decide⟩ 0x1000 200
    (fun _ => 7) (fun _ => true) fun _ => 0

theorem present_page : Present (fun _ => true) 0x1000 200 :=
  ⟨(inUser_iff (by decide)).mpr (by decide), fun _ _ _ => rfl⟩

/-- `read` of 200 bytes returns 100, and the byte behind them is that of the heap. A bad buffer is
not reported, and the position moves. -/
theorem read_shows_heap :
    (readInto calm tableOn3 3 0x1000 200 (fun _ => 7) (fun _ => true) (fun _ => 0)
        fun _ => 9).1.result = .ret 100 false ∧
      (readInto calm tableOn3 3 0x1000 200 (fun _ => 7) (fun _ => true) (fun _ => 0)
        fun _ => 9).2 (0x1000 + UInt32.ofNat 100) = 9 ∧
      (readInto calm tableOn3 3 0x1000 200 (fun _ => 7) (fun _ => false) (fun _ => 0)
        fun _ => 9).1.result = .ret 100 false ∧
      (readInto calm tableOn3 3 0x1000 200 (fun _ => 7) (fun _ => false) (fun _ => 0)
        fun _ => 9).1.table.offset 3 = 100 ∧
      ¬ TouchesReturned calm tableOn3 3 0x1000 200 (fun _ => 7) (fun _ => true) fun _ => 0 := by
  have h : Opened calm tableOn3 3 := ⟨⟨by decide, rfl⟩, by decide, by decide⟩
  have hw : walkend tableOn3.dup 3 fuel 3 ≠ none := by decide
  have hbyte : (readInto calm tableOn3 3 0x1000 200 (fun _ => 7) (fun _ => true) (fun _ => 0)
      fun _ => 9).2 (0x1000 + UInt32.ofNat 100) = 9 := by
    rw [h.readInto_copied (by decide) (by decide) rfl hw present_page]
    dsimp only
    rw [store_of_lt (by decide) (by decide)]
    rfl
  refine ⟨?_, hbyte, ?_, ?_, ?_⟩
  · rw [readInto_fst]
    decide
  · rw [readInto_fst]
    decide
  · rw [readInto_fst]
    decide
  · exact not_touchesReturned_beyond h (by decide) (by decide) rfl hw present_page (by decide)

end Os161.Filetable
