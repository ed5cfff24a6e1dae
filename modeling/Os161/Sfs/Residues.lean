import Os161.Sfs.FileArray

/-! # What `uiomove` transfers

A chunk is as long as the iovec and the caller's block allow; the residue only ends the loop. A
chunk that is longer than the residue makes it wrap around. -/
namespace Os161.Sfs
open Os161.Lib Kern

variable {k : Kernel} {w : World} {u : Uio} {ptr : List UInt8} {n : Nat}

/-- The uio after `chunk`, with a residue that does not wrap around. -/
def Uio.after (u : Uio) (chunk : List UInt8) : Uio :=
  { u with
    iovPos := u.iovPos + chunk.length
    iovLen := u.iovLen - chunk.length
    iovOut := if u.uioRw = .uioRead then u.iovOut ++ chunk else u.iovOut
    uioOffset := i32 (u.uioOffset + chunk.length)
    uioResid := u.uioResid - chunk.length }

/-- The memory behind the iovec is there, and it is enough for the residue. -/
structure Uio.Backed (u : Uio) (k : Kernel) : Prop where
  room : u.uioResid ≤ u.iovLen
  small : u.iovLen < 2 ^ 32
  mapped : u.iovPos + u.iovLen ≤ u.iovMapped
  source : u.uioRw = .uioWrite → u.iovPos + u.iovLen ≤ (u.iovBase k).length

/-- A program ends with `a` and changes nothing. -/
def only {α : Type} (a : α) (w : World) : Post machine α :=
  ⟨fun b w' => b = a ∧ w' = w, fun _ _ => False, fun _ _ => False⟩

/-- `min n uio_resid` bytes go through the uio. -/
def MovesResidue (ptr : List UInt8) (n : Nat) (u : Uio) (w : World) : Prop :=
  (uiomove ptr n u).wp (only
    (u.chunk w.st ptr (min n u.uioResid) ++ ptr.drop (min n u.uioResid),
      u.after (u.chunk w.st ptr (min n u.uioResid)), none) w) w

/-- The same with zeros. -/
def ZerosResidue (n : Nat) (u : Uio) (w : World) : Prop :=
  (uiomovezeros n u).wp (only (u.after (List.replicate (min n u.uioResid) 0), none) w) w

theorem only_wp {α : Type} {p : Kern α} {a : α} {R : Post machine α} (h : p.wp (only a w) w)
    (hR : p.wp R w) : R.ok a w := by
  obtain ⟨b, w', -, ⟨rfl, rfl⟩, hb⟩ := Prog.ok_of_wp ((h.and hR).mono (fun _ _ hx => hx)
    (fun _ _ hx => hx.1) fun _ _ hx => hx.1)
  exact hb

theorem wp_of_only {α : Type} {p : Kern α} {a : α} {R : Post machine α} (h : p.wp (only a w) w) :
    p.wp R w ↔ R.ok a w := by
  refine ⟨only_wp h, fun hR => h.mono ?_ (fun _ _ hx => hx.elim) fun _ _ hx => hx.elim⟩
  intro _ _ hy
  obtain ⟨rfl, rfl⟩ := hy
  exact hR

/-! ## Chunks -/

theorem Uio.Backed.length_chunk (h : u.Backed k) {s : Nat} (hs : s ≤ u.iovLen)
    (hp : s ≤ ptr.length) : (u.chunk k ptr s).length = s := by
  unfold Uio.chunk
  split
  · exact List.length_take_of_le hp
  · next hr =>
    have hw : u.uioRw = .uioWrite := by
      cases hrw : u.uioRw with
      | uioRead => exact absurd hrw hr
      | uioWrite => rfl
    have := h.source hw
    rw [Uio.source, List.length_take, List.length_drop]
    omega

theorem Uio.advance_eq_after {chunk : List UInt8} (h : chunk.length ≤ u.uioResid)
    (hs : u.uioResid < 2 ^ 32) : u.advance chunk = u.after chunk := by
  have hr : u32 ((u.uioResid : Int) - chunk.length) = u.uioResid - chunk.length := by
    rw [u32_eq (by omega) (by omega)]
    omega
  rw [Uio.advance, Uio.after, hr]

theorem Uio.after_nil (hoff : i32 u.uioOffset = u.uioOffset) : u.after [] = u := by
  ext1 <;> simp [Uio.after, hoff]

/-- One round of the loop. -/
theorem uiomove_loop_round {m s : Nat} (hs : s = min u.iovLen (m + 1)) (h0 : 0 < s)
    (hr : 0 < u.uioResid) (hm : u.iovPos + s ≤ u.iovMapped) :
    uiomove.loop k (m + 1) [] ptr (m + 1) u = uiomove.loop k m (u.chunk k ptr s) (ptr.drop s)
      (m + 1 - s) (u.advance (u.chunk k ptr s)) := by
  rw [uiomove.loop, if_pos ⟨Nat.succ_pos m, hr⟩]
  simp only [← hs, List.nil_append]
  rw [if_neg (by omega), if_neg (by omega)]
  rfl

theorem uiomove_loop_done {fuel : Nat} {moved : List UInt8} (h : u.uioResid = 0) :
    uiomove.loop k fuel moved ptr n u = .ok (moved ++ ptr, u, none) := by
  cases fuel with
  | zero => rfl
  | succ fuel => rw [uiomove.loop, if_neg (by omega)]

/-- The residue goes on beyond the end of the iovec. -/
theorem uiomove_loop_panic {fuel : Nat} {moved : List UInt8} (hn : 0 < n) (hr : u.uioResid ≠ 0)
    (hl : u.iovLen = 0) : uiomove.loop k (fuel + 1) moved ptr n u = .error .uiomoveSize := by
  have h0 : min u.iovLen n = 0 := by omega
  rw [uiomove.loop, if_pos ⟨hn, by omega⟩]
  simp only [h0, if_true]

theorem uiomove_wp {Q : Post machine (List UInt8 × Uio × Result)} :
    (uiomove ptr n u).wp Q w ↔ (ofExcept (uiomove.loop w.st n [] ptr n u)).wp Q w := by
  simp only [uiomove, Prog.wp_bind, wp_getKernel]

/-! ## When the residue is respected -/

/-- An offset is kept as an `off_t`. -/
def Uio.OffT (u : Uio) : Prop := i32 u.uioOffset = u.uioOffset

theorem movesResidue_of (hb : u.Backed w.st) (hoff : u.OffT) (hp : n ≤ ptr.length)
    (h : n ≤ u.uioResid ∨ u.uioResid = u.iovLen ∨ u.uioResid = 0) : MovesResidue ptr n u w := by
  have hroom := hb.room
  have hsmall := hb.small
  have hmap := hb.mapped
  rw [MovesResidue, uiomove_wp]
  by_cases hr : u.uioResid = 0
  · rw [uiomove_loop_done hr, hr, Nat.min_zero, wp_ofExcept_ok]
    have hnil : u.chunk w.st ptr 0 = [] := by simp [Uio.chunk, Uio.source]
    rw [hnil, Uio.after_nil hoff]
    exact ⟨rfl, rfl⟩
  by_cases hn0 : n = 0
  · subst hn0
    have hnil : u.chunk w.st ptr 0 = [] := by simp [Uio.chunk, Uio.source]
    rw [uiomove_loop_zero, Nat.zero_min, wp_ofExcept_ok, hnil, Uio.after_nil hoff]
    exact ⟨rfl, rfl⟩
  have hlen : (u.chunk w.st ptr (min n u.uioResid)).length = min n u.uioResid :=
    hb.length_chunk (by omega) (by omega)
  have hadv : u.advance (u.chunk w.st ptr (min n u.uioResid)) =
      u.after (u.chunk w.st ptr (min n u.uioResid)) := Uio.advance_eq_after (by omega) (by omega)
  by_cases hle : n ≤ u.uioResid
  · rw [Nat.min_eq_left hle] at hadv ⊢
    rw [uiomove_loop_eq (by omega) (by omega) (by omega), if_neg (by omega), wp_ofExcept_ok, hadv]
    exact ⟨rfl, rfl⟩
  · have heq : u.uioResid = u.iovLen := h.elim (absurd · hle) fun h => h.resolve_right hr
    obtain ⟨m, rfl⟩ : ∃ m, n = m + 1 := ⟨n - 1, by omega⟩
    rw [Nat.min_eq_right (by omega)] at hlen hadv ⊢
    have hdone : (u.advance (u.chunk w.st ptr u.uioResid)).uioResid = 0 := by
      simp only [hadv, Uio.after, hlen, Nat.sub_self]
    rw [uiomove_loop_round (s := u.uioResid) (by omega) (by omega) (by omega) (by omega),
      uiomove_loop_done hdone, wp_ofExcept_ok, hadv]
    exact ⟨rfl, rfl⟩

/-- What goes wrong: the loop panics, or more than the residue is gone from the iovec. -/
theorem uiomove_excess (hb : u.Backed w.st) (hp : n ≤ ptr.length) (hr : 0 < u.uioResid)
    (hn : u.uioResid < n) (hl : u.uioResid < u.iovLen) :
    uiomove.loop w.st n [] ptr n u = .error .uiomoveSize ∨
      n ≤ u.iovLen ∧ uiomove.loop w.st n [] ptr n u =
        .ok (u.chunk w.st ptr n ++ ptr.drop n, u.advance (u.chunk w.st ptr n), none) := by
  have hsmall := hb.small
  have hmap := hb.mapped
  by_cases hle : n ≤ u.iovLen
  · refine .inr ⟨hle, ?_⟩
    rw [uiomove_loop_eq (by omega) hle hr, if_neg (by omega)]
  · refine .inl ?_
    obtain ⟨m, rfl⟩ : ∃ m, n = m + 2 := ⟨n - 2, by omega⟩
    have hlen : (u.chunk w.st ptr u.iovLen).length = u.iovLen :=
      hb.length_chunk (Nat.le_refl _) (by omega)
    have hwrap : (u.advance (u.chunk w.st ptr u.iovLen)).uioResid ≠ 0 := by
      simp only [Uio.advance, hlen, u32]
      omega
    have hnone : (u.advance (u.chunk w.st ptr u.iovLen)).iovLen = 0 := by
      simp only [Uio.advance, hlen, Nat.sub_self]
    rw [uiomove_loop_round (s := u.iovLen) (by omega) (by omega) hr hmap,
      uiomove_loop_panic (by omega) hwrap hnone]

theorem movesResidue_iff (hb : u.Backed w.st) (hoff : u.OffT) (hp : n ≤ ptr.length) :
    MovesResidue ptr n u w ↔ n ≤ u.uioResid ∨ u.uioResid = u.iovLen ∨ u.uioResid = 0 := by
  refine ⟨fun h => ?_, movesResidue_of hb hoff hp⟩
  by_contra hno
  obtain ⟨hn, hl, hr⟩ : ¬ n ≤ u.uioResid ∧ u.uioResid ≠ u.iovLen ∧ u.uioResid ≠ 0 := by
    simpa only [not_or] using hno
  have hroom := hb.room
  have hmin : min n u.uioResid = u.uioResid := by omega
  rw [MovesResidue, uiomove_wp, hmin] at h
  rcases uiomove_excess hb hp (by omega) (by omega) (by omega) with he | ⟨hle, he⟩
  · rw [he, wp_ofExcept_error] at h
    exact h
  · rw [he, wp_ofExcept_ok] at h
    have hlen := congrArg (fun x : List UInt8 × Uio × Result => x.2.1.iovLen) h.1
    simp only [Uio.advance, Uio.after, hb.length_chunk hle hp,
      hb.length_chunk hb.room (Nat.le_trans (Nat.le_of_lt (Nat.not_le.mp hn)) hp)] at hlen
    omega

/-! ## Zeros -/

theorem uiomove_loop_iovLen {fuel : Nat} {moved : List UInt8}
    {x : List UInt8 × Uio × Result} (h : uiomove.loop k fuel moved ptr n u = .ok x) :
    x.2.1.iovLen ≤ u.iovLen := by
  induction fuel generalizing moved ptr n u with
  | zero =>
    cases h
    exact Nat.le_refl _
  | succ fuel ih =>
    rw [uiomove.loop] at h
    split at h
    · dsimp only at h
      split at h
      · cases h
      · split at h
        · cases h
          exact Nat.le_refl _
        · exact Nat.le_trans (ih h) (Nat.sub_le _ _)
    · cases h
      exact Nat.le_refl _

theorem uiomovezeros_iovLen (fuel : Nat) : (uiomovezeros.loop fuel n u).wp
    ⟨fun x _ => x.1.iovLen ≤ u.iovLen, fun _ _ => True, fun _ _ => True⟩ w := by
  induction fuel generalizing n u with
  | zero =>
    rw [uiomovezeros.loop, Prog.wp_pure]
  | succ fuel ih =>
    rw [uiomovezeros.loop]
    split
    · rw [Prog.wp_bind, uiomove_wp]
      cases he : uiomove.loop w.st (min 16 n) [] (List.replicate 16 0) (min 16 n) u with
      | error m =>
        rw [wp_ofExcept_error]
        exact trivial
      | ok x =>
        have hle := uiomove_loop_iovLen he
        obtain ⟨l, u', r⟩ := x
        rw [wp_ofExcept_ok]
        cases r with
        | some e =>
          dsimp only
          rw [Prog.wp_pure]
          exact hle
        | none =>
          exact (ih (n := n - min 16 n) (u := u')).mono (fun _ _ hx => Nat.le_trans hx hle)
            (fun _ _ _ => trivial) fun _ _ _ => trivial
    · rw [Prog.wp_pure]

theorem Uio.after_after {a b : List UInt8} : (u.after a).after b = u.after (a ++ b) := by
  have hlen : (a ++ b).length = a.length + b.length := List.length_append
  ext1
  · rfl
  · simp only [Uio.after, hlen]
    omega
  · simp only [Uio.after, hlen]
    omega
  · simp only [Uio.after]
    split <;> simp
  · rfl
  · simp only [Uio.after, hlen, i32]
    omega
  · simp only [Uio.after, hlen]
    omega
  · rfl

theorem Uio.offT_after (chunk : List UInt8) : (u.after chunk).OffT := by
  simp only [Uio.OffT, Uio.after, i32]
  omega

theorem Uio.Backed.after (h : u.Backed k) {chunk : List UInt8} (hl : chunk.length ≤ u.uioResid) :
    (u.after chunk).Backed k where
  room := by
    have := h.room
    simp only [Uio.after]
    omega
  small := by
    have := h.small
    simp only [Uio.after]
    omega
  mapped := by
    have h1 := h.mapped
    have h2 := h.room
    simp only [Uio.after]
    omega
  source hw := by
    have h1 := h.source hw
    have h2 := h.room
    simp only [Uio.after]
    omega

/-- The zeros that are in place after the loop: a round of the loop moves 16 of them, or what is
left. -/
theorem zeros_loop_iff (fuel : Nat) (hf : n ≤ fuel) (hr : u.uioRw = .uioRead) (hb : u.Backed w.st)
    (hoff : u.OffT) :
    (uiomovezeros.loop fuel n u).wp
        (only (u.after (List.replicate (min n u.uioResid) 0), none) w) w ↔
      n ≤ u.uioResid ∨ u.uioResid = u.iovLen ∨ u.uioResid % 16 = 0 := by
  induction fuel generalizing n u with
  | zero =>
    obtain rfl := Nat.le_zero.mp hf
    refine iff_of_true ?_ (.inl (Nat.zero_le _))
    rw [Nat.zero_min, List.replicate_zero, Uio.after_nil hoff, uiomovezeros.loop, Prog.wp_pure]
    exact ⟨rfl, rfl⟩
  | succ fuel ih =>
    have hroom := hb.room
    by_cases hn : n = 0
    · subst hn
      refine iff_of_true ?_ (.inl (Nat.zero_le _))
      rw [Nat.zero_min, List.replicate_zero, Uio.after_nil hoff, uiomovezeros.loop,
        if_neg (Nat.lt_irrefl 0), Prog.wp_pure]
      exact ⟨rfl, rfl⟩
    rw [uiomovezeros.loop, if_pos (Nat.pos_of_ne_zero hn), Prog.wp_bind]
    have hp : min 16 n ≤ (List.replicate 16 (0 : UInt8)).length := by
      rw [List.length_replicate]
      exact Nat.min_le_left _ _
    by_cases hc : min 16 n ≤ u.uioResid ∨ u.uioResid = u.iovLen ∨ u.uioResid = 0
    · have hmove := movesResidue_of hb hoff hp hc
      generalize ht : min (min 16 n) u.uioResid = t at hmove
      have hchunk : u.chunk w.st (List.replicate 16 0) t = List.replicate t 0 := by
        rw [Uio.chunk, if_pos hr, List.take_replicate, Nat.min_eq_left (by omega)]
      have hlen : (List.replicate t (0 : UInt8)).length = t := List.length_replicate
      rw [MovesResidue, ht, hchunk] at hmove
      have hrest : (uiomovezeros.loop fuel (n - min 16 n) (u.after (List.replicate t 0))).wp
          (only (u.after (List.replicate (min n u.uioResid) 0), none) w) w ↔
            n ≤ u.uioResid ∨ u.uioResid = u.iovLen ∨ u.uioResid % 16 = 0 := by
        have hresid : (u.after (List.replicate t 0)).uioResid = u.uioResid - t := by
          rw [Uio.after, hlen]
        have hiov : (u.after (List.replicate t 0)).iovLen = u.iovLen - t := by
          rw [Uio.after, hlen]
        have h := ih (n := n - min 16 n) (u := u.after (List.replicate t 0)) (by omega) hr
          (hb.after (by omega)) (Uio.offT_after _)
        have hsum : t + min (n - min 16 n) (u.uioResid - t) = min n u.uioResid := by omega
        rw [hresid, hiov, Uio.after_after,
          List.replicate_append_replicate, hsum] at h
        rw [h]
        omega
      constructor
      · intro h
        exact hrest.mp (only_wp hmove h)
      · intro h
        refine hmove.mono ?_ (fun _ _ hx => hx.elim) fun _ _ hx => hx.elim
        intro _ _ hy
        obtain ⟨rfl, rfl⟩ := hy
        exact hrest.mpr h
    · obtain ⟨hlt, hne, h0⟩ : ¬ min 16 n ≤ u.uioResid ∧ u.uioResid ≠ u.iovLen ∧ u.uioResid ≠ 0 := by
        simpa only [not_or] using hc
      refine iff_of_false (fun h => ?_) (by omega)
      rw [uiomove_wp] at h
      rcases uiomove_excess hb hp (by omega) (by omega) (by omega) with he | ⟨hle, he⟩
      · rw [he, wp_ofExcept_error] at h
        exact h
      · rw [he, wp_ofExcept_ok] at h
        have hle' := only_wp h (uiomovezeros_iovLen fuel)
        simp only [Uio.advance, Uio.after, hb.length_chunk hle hp, List.length_replicate] at hle'
        omega

/-- A move takes just the residue if the block is not longer than it, or the iovec ends with it,
or nothing is left; 16 zeros at a time may end with it as well. -/
theorem residue_respected_iff (ptr : List UInt8) (n : Nat) (u : Uio) (w : World)
    (hb : u.Backed w.st) (hoff : u.OffT) (hp : n ≤ ptr.length) :
    (MovesResidue ptr n u w ↔ n ≤ u.uioResid ∨ u.uioResid = u.iovLen ∨ u.uioResid = 0) ∧
      (u.uioRw = .uioRead → (ZerosResidue n u w ↔
        n ≤ u.uioResid ∨ u.uioResid = u.iovLen ∨ u.uioResid % 16 = 0)) := by
  refine ⟨movesResidue_iff hb hoff hp, fun hr => ?_⟩
  rw [ZerosResidue, uiomovezeros, if_pos hr]
  exact zeros_loop_iff n (Nat.le_refl n) hr hb hoff

/-- A block of two bytes with a residue of one. -/
def shortUio (n : Nat) : Uio where
  iovBase := fun _ => []
  iovPos := 0
  iovLen := 2
  iovOut := []
  iovMapped := 2
  uioOffset := 0
  uioResid := n
  uioRw := .uioRead

theorem shortUio_backed {n : Nat} (h : n ≤ 2) (k : Kernel) : (shortUio n).Backed k :=
  ⟨h, (by decide : 2 < 2 ^ 32), Nat.le_refl 2, fun hw => nomatch hw⟩

theorem residue_respected_iff_short :
    (MovesResidue [7] 1 (shortUio 1) smallVolume ↔ 1 ≤ 1 ∨ 1 = 2 ∨ 1 = 0) ∧
      (ZerosResidue 1 (shortUio 1) smallVolume ↔ 1 ≤ 1 ∨ 1 = 2 ∨ 1 % 16 = 0) :=
  ⟨(residue_respected_iff [7] 1 (shortUio 1) smallVolume (shortUio_backed (by decide) _) rfl
      (Nat.le_refl 1)).1,
    (residue_respected_iff [7] 1 (shortUio 1) smallVolume (shortUio_backed (by decide) _) rfl
      (Nat.le_refl 1)).2 rfl⟩

/-- Two bytes for a residue of one: both are moved, and the residue wraps around. -/
theorem residue_wraps :
    (uiomove [7, 9] 2 (shortUio 1)).wp ⟨fun x _ => x.2.1.iovOut = [7, 9] ∧
        x.2.1.uioResid = 4294967295 ∧ x.2.2 = none, fun _ _ => False, fun _ _ => False⟩
          smallVolume ∧
      ¬ MovesResidue [7, 9] 2 (shortUio 1) smallVolume ∧
        ¬ ZerosResidue 2 (shortUio 1) smallVolume := by
  have hrun : (uiomove [7, 9] 2 (shortUio 1)).run machine smallVolume =
      (.ok ([7, 9], (shortUio 1).advance [7, 9], none), smallVolume) := rfl
  have hb := shortUio_backed (n := 1) (by decide) smallVolume.st
  refine ⟨?_, fun h => ?_, fun h => ?_⟩
  · rw [Prog.wp, hrun]
    exact ⟨rfl, rfl, rfl⟩
  · exact absurd ((movesResidue_iff hb rfl (Nat.le_refl 2)).mp h) (by decide)
  · have hread : (shortUio 1).uioRw = .uioRead := rfl
    rw [ZerosResidue, uiomovezeros, if_pos hread] at h
    exact absurd ((zeros_loop_iff 2 (Nat.le_refl 2) rfl hb rfl).mp h) (by decide)

end Os161.Sfs
