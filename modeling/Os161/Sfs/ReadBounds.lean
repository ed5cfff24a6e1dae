import Os161.Sfs.FileArray
import Os161.Sfs.RetrySpec

/-! # Reads and the end of the file

What a read hands out, whatever is on the volume and whatever fails: the reads of `sfs_io` end
at the end of the file as long as the end of the request is a position of a file. -/
namespace Os161.Sfs
open Os161.Lib Kern

variable {w : World} {sv : Ptr} {src : List UInt8} {u : Uio}

/-- The first byte behind all blocks that `sfs_bmap` accepts. -/
@[irreducible] def mapEnd : Nat := (doubleLimit + 128 * 128 * 128) * 512

theorem mapEnd_lt : mapEnd < 2 ^ 31 := by
  rw [mapEnd]
  decide

theorem mapEnd_small : mapEnd < 2 ^ 30 + 2 ^ 27 := by
  rw [mapEnd]
  decide

/-- A read hands out at most `n` bytes, as many if it succeeds, none of them behind the blocks a
file can have. -/
def Handed (u : Uio) (n : Nat) : Post machine (Uio × Result) :=
  ⟨fun r _ => ∃ l, r.1 = u.advance l ∧ l.length ≤ n ∧ u.pos + l.length ≤ max u.pos mapEnd ∧
      (r.2 = none → l.length = n),
    fun _ _ => False, fun _ _ => True⟩

section Block

variable {Q : Post machine (Uio × Result)}

/-- Reading a sector, wherever it is. -/
theorem wp_lhdIo_read_any {q : Int} (hoff : u.uioOffset = q * 512) (hresid : u.uioResid = 512)
    (hlen : 512 ≤ u.iovLen) (hrw : u.uioRw = .uioRead)
    (hok : ∀ l w', l.length = 512 → Q.ok (u.advance l, none) w')
    (hfail : ∀ e w', Q.ok (u, some e) w') : (lhdIo u).wp Q w := by
  refine wp_lhdIo_one hoff hresid (fun _ => hfail _ _) fun _ => ?_
  simp only [lhdIo.loop, Prog.wp_bind, wp_diskWait, hrw]
  rw [diskRequest, Prog.wp_request]
  generalize machine.serve w.st _ w.env = x
  obtain ⟨⟨result, data⟩, env⟩ := x
  cases result with
  | some e =>
    simp only [Prog.wp_pure]
    exact hfail e _
  | none =>
    simp only [Prog.wp_bind]
    refine wp_uiomove (by decide) hlen (by rw [hresid]; decide) ?_ ?_
    · intro _
      simp only [Prog.wp_pure]
      refine hok _ _ ?_
      rw [Uio.chunk, if_pos hrw, List.length_take, Sector.length_bytes]
      rfl
    · intro _
      simp only [Prog.wp_pure]
      exact hfail _ _

theorem wp_sfsRwblock_read_any {q : Int} (hoff : u.uioOffset = q * 512)
    (hresid : u.uioResid = 512) (hlen : 512 ≤ u.iovLen) (hrw : u.uioRw = .uioRead)
    (hok : ∀ l w', l.length = 512 → Q.ok (u.advance l, none) w')
    (hfail : ∀ e w', Q.ok (u, some e) w') (hstop : ∀ m w', Q.stopped m w') :
    (sfsRwblock u).wp Q w := by
  rw [sfsRwblock]
  generalize 10 = n
  induction n generalizing w with
  | zero =>
    rw [sfsRwblock.retry, Prog.wp_bind]
    refine wp_lhdIo_read_any hoff hresid hlen hrw ?_ ?_
    · intro l w' hl
      simpa using hok l w' hl
    · intro e w'
      dsimp only
      split
      · simpa only [Prog.wp_stop] using hstop _ _
      · split <;> simpa only [Prog.wp_pure] using hfail _ _
  | succ n ih =>
    rw [sfsRwblock.retry, Prog.wp_bind]
    refine wp_lhdIo_read_any hoff hresid hlen hrw ?_ ?_
    · intro l w' hl
      simpa using hok l w' hl
    · intro e w'
      dsimp only
      split
      · simpa only [Prog.wp_stop] using hstop _ _
      · split
        · exact ih
        · simpa only [Prog.wp_pure] using hfail _ _

theorem handed_nothing (hs : u.Sound src) (n : Nat) (e : Errno) (w' : World) :
    (Handed u n).ok (u, some e) w' := by
  refine ⟨[], hs.advance_nil.symm, Nat.zero_le _, ?_, fun h => by cases h⟩
  rw [List.length_nil, Nat.add_zero]
  exact Nat.le_max_left ..

/-- A block that a file can have ends before `mapEnd`. -/
theorem end_le_mapEnd (hlt : u.block < doubleLimit + 128 * 128 * 128) {n : Nat}
    (hfit : u.pos % 512 + n ≤ 512) : u.pos + n ≤ mapEnd := by
  have hmul := Nat.mul_le_mul_right 512 (Nat.succ_le_of_lt hlt)
  unfold Uio.block at hmul
  unfold mapEnd
  omega

theorem handed_some (hlt : u.block < doubleLimit + 128 * 128 * 128) {n : Nat}
    (hfit : u.pos % 512 + n ≤ 512) {l : List UInt8} (hl : l.length ≤ n) {r : Result}
    (hr : r = none → l.length = n) (w' : World) : (Handed u n).ok (u.advance l, r) w' := by
  refine ⟨l, rfl, hl, ?_, hr⟩
  have := end_le_mapEnd hlt (n := l.length) (by omega)
  omega

theorem wp_sfsBlockio_read (hs : u.Sound src) (hr : u.uioRw = .uioRead)
    (hfit : 512 ≤ u.uioResid) (hal : u.pos % 512 = 0) :
    (sfsBlockio sv u).wp (Handed u 512) w := by
  have hfb : u32 (u.uioOffset.tdiv ((512 : Nat) : Int)) = u.block := hs.tdiv
  simp only [sfsBlockio, sfsBlocksize, Prog.wp_bind]
  rw [wp_attempt, hfb]
  by_cases hlt : u.block < doubleLimit + 128 * 128 * 128
  · refine Prog.wp_any (fun d w₁ => ?_) (fun e w₁ => ?_) fun m w₁ => trivial
    · dsimp only
      by_cases hz : d = 0
      · have hend := end_le_mapEnd hlt (n := 512) (by omega)
        have hmap := mapEnd_lt
        rw [if_pos hz, if_pos hr, uiomovezeros, if_pos hr]
        refine wp_uiomovezeros_loop 512 512 u (Nat.le_refl _) hs hr hfit (by omega) ?_ ?_
        · exact handed_some hlt (by omega) (Nat.le_of_eq List.length_replicate)
            (fun _ => List.length_replicate) _
        · intro k hk _
          have hl : (List.replicate k (0 : UInt8)).length ≤ 512 := by rwa [List.length_replicate]
          exact handed_some hlt (by omega) hl (fun h => by cases h) _
      · rw [if_neg hz, if_neg (Nat.not_lt.mpr hfit), sfsBlockio.transfer, Prog.wp_bind]
        obtain ⟨q, hq⟩ : ∃ q : Int, i32 ((d.toNat : Int) * (512 : Nat)) = q * 512 := by
          unfold i32
          split
          · exact ⟨((d.toNat : Int) * 512 % 2 ^ 32) / 512, by omega⟩
          · exact ⟨((d.toNat : Int) * 512 % 2 ^ 32) / 512 - 2 ^ 23, by omega⟩
        have hroom := hs.room
        generalize i32 ((d.toNat : Int) * (512 : Nat)) = o at hq ⊢
        subst hq
        refine wp_sfsRwblock_read_any (q := q) rfl rfl (Nat.le_trans hfit hroom) hr ?_ ?_ ?_
        · intro l w₂ hl
          simp only [Prog.wp_pure]
          rw [restore_advance hs hl hfit]
          exact handed_some hlt (by omega) (Nat.le_of_eq hl) (fun _ => hl) _
        · intro e w₂
          simp only [Prog.wp_pure, restore_same hs]
          exact handed_nothing hs _ _ _
        · exact fun m w₂ => trivial
    · simp only [Prog.wp_pure]
      exact handed_nothing hs _ _ _
  · refine wp_sfsBmap_beyond (Nat.not_lt.mp hlt) ?_
    simp only [Prog.wp_pure]
    exact handed_nothing hs _ _ _

theorem wp_sfsPartialio_read {skip n : Nat} (hs : u.Sound src) (hr : u.uioRw = .uioRead)
    (hn : n ≤ u.uioResid) (hskip : skip = u.pos % 512) (hfit : skip + n ≤ 512) :
    (sfsPartialio sv u skip n).wp (Handed u n) w := by
  have hfb : u32 (u.uioOffset.tdiv sfsBlocksize) = u.block := hs.tdiv
  have hlen : ¬ u32 ((skip : Int) + n) > sfsBlocksize := by
    rw [u32_eq (by omega) (by omega), sfsBlocksize]
    omega
  have hinside : ¬ (n > 0 ∧ skip + n > sfsBlocksize) := by
    rw [sfsBlocksize]
    omega
  have hfail (e : Errno) (w' : World) : (Handed u n).ok (u, some e) w' := handed_nothing hs n e w'
  rw [sfsPartialio, if_neg hlen, Prog.wp_bind]
  dsimp only
  rw [wp_attempt, hfb]
  by_cases hlt : u.block < doubleLimit + 128 * 128 * 128
  · refine Prog.wp_any ?_ (fun e w₁ => by simpa only [Prog.wp_pure] using hfail e w₁)
      fun m w₁ => trivial
    intro hx w₁
    obtain ⟨d, s⟩ := hx
    dsimp only
    rw [sfsPartialio.move, Prog.wp_bind, wp_modifyBufs]
    dsimp only
    rw [if_neg hinside, Prog.wp_bind]
    refine wp_uiomove_part hs hn ?_ ?_
    · intro chunk hchunk
      have hl : chunk.length = n := by
        rw [hchunk, Uio.chunk, if_pos hr, List.length_take, List.length_drop,
          Sector.length_bytes]
        omega
      have hread : ¬ (u.advance chunk).uioRw = .uioWrite := UioRw.not_write.mpr hr
      simp only [Prog.wp_bind, wp_modifyBufs, if_neg hread, Prog.wp_pure]
      exact handed_some hlt (hskip ▸ hfit) (Nat.le_of_eq hl) (fun _ => hl) _
    · intro _
      simpa only [Prog.wp_pure] using hfail _ _
  · rw [sfsPartialio.load, Prog.wp_bind]
    refine wp_sfsBmap_beyond (Nat.not_lt.mp hlt) ?_
    simpa only [Prog.wp_pure] using hfail _ _

end Block

/-! ## The whole transfer -/

section Whole

theorem pos_lt_of_handed (hs : u.Sound src) {n : Nat} (h : u.pos + n ≤ max u.pos mapEnd) :
    u.pos + n < 2 ^ 31 := by
  have hpos := hs.pos_lt
  have hmap := mapEnd_lt
  omega

/-- What comes after `l` comes after it for the whole request. -/
theorem handed_seq (hs : u.Sound src) {l : List UInt8} {m n : Nat}
    (hfit : l.length + m ≤ u.uioResid)
    (hin : u.pos + l.length ≤ max u.pos mapEnd) (hn : l.length + m = n) {r : Uio × Result}
    {w' : World} (h : (Handed (u.advance l) m).ok r w') : (Handed u n).ok r w' := by
  obtain ⟨l', hr, hlen, hin', hall⟩ := h
  have hpos := hs.pos_advance (pos_lt_of_handed hs hin)
  rw [hpos] at hin'
  have hmax : u.pos + (l.length + l'.length) ≤ max u.pos mapEnd := by omega
  have happ : (l ++ l').length = l.length + l'.length := List.length_append
  refine ⟨l ++ l', ?_, by omega, by omega, fun hnone => by rw [happ, hall hnone, hn]⟩
  have hlt := pos_lt_of_handed hs hmax
  rw [hr, hs.advance_advance (by omega) (pos_lt_of_handed hs hin) (by omega) (by omega)]

/-- One piece of a transfer and the rest of it. -/
theorem wp_handed_bind {p : Kern (Uio × Result)} {f : Uio × Result → Kern (Uio × Result)}
    {m n : Nat} (hs : u.Sound src) (hmn : m ≤ n) (hn : n ≤ u.uioResid)
    (hp : p.wp (Handed u m) w)
    (hfail : ∀ v e, f (v, some e) = pure (v, some e))
    (hrest : ∀ l w', l.length = m → (u.advance l).Sound src →
      (u.advance l).pos = u.pos + m → (u.advance l).uioResid = u.uioResid - m →
      (f (u.advance l, none)).wp (Handed (u.advance l) (n - m)) w') :
    (p >>= f).wp (Handed u n) w := by
  rw [Prog.wp_bind]
  refine hp.mono ?_ (fun _ _ h => h) fun _ _ h => h
  intro hy w' hz
  obtain ⟨v, r⟩ := hy
  obtain ⟨l, rfl, hlen, hin, hall⟩ := hz
  dsimp only
  cases r with
  | some e =>
    rw [hfail, Prog.wp_pure]
    exact ⟨l, rfl, Nat.le_trans hlen hmn, hin, fun hnone => by cases hnone⟩
  | none =>
    have hm := hall rfl
    have hlt := pos_lt_of_handed hs hin
    refine (hrest l w' hm (hs.advance (by omega) hlt) ?_ ?_).mono ?_ (fun _ _ h => h)
      fun _ _ h => h
    · rw [hs.pos_advance hlt, hm]
    · rw [hs.resid_advance (by omega), hm]
    · intro x w'' hx
      exact handed_seq hs (by omega) hin (by omega) hx

theorem wp_sfsIo_blocks_read (hr : u.uioRw = .uioRead) (n : Nat) (hs : u.Sound src)
    (hfit : n * 512 ≤ u.uioResid) (hal : u.pos % 512 = 0) :
    (sfsIo.blocks sv n u).wp (Handed u (n * 512)) w := by
  induction n generalizing u w with
  | zero =>
    rw [sfsIo.blocks, Prog.wp_pure]
    refine ⟨[], hs.advance_nil.symm, Nat.zero_le _, ?_, fun _ => rfl⟩
    exact Nat.le_max_left ..
  | succ n ih =>
    rw [sfsIo.blocks]
    refine wp_handed_bind hs (by omega) hfit (wp_sfsBlockio_read hs hr (by omega) hal)
      (fun _ _ => rfl) fun l w' hl hs' hpos hres => ?_
    have he : (n + 1) * 512 - 512 = n * 512 := by omega
    rw [he]
    have hfit' : n * 512 ≤ (u.advance l).uioResid := by
      rw [hres]
      exact Nat.le_sub_of_add_le (Nat.succ_mul n 512 ▸ hfit)
    have hal' : (u.advance l).pos % 512 = 0 := by
      rw [hpos, Nat.add_mod_right]
      exact hal
    exact ih hr hs' hfit' hal'

theorem wp_sfsIo_aligned_read (hs : u.Sound src) (hr : u.uioRw = .uioRead)
    (hal : 0 < u.uioResid → u.pos % 512 = 0) :
    (sfsIo.aligned sv u).wp (Handed u u.uioResid) w := by
  rw [sfsIo.aligned]
  by_cases h0 : u.uioResid = 0
  · rw [if_pos h0, Prog.wp_pure, h0]
    exact ⟨[], hs.advance_nil.symm, Nat.zero_le _, Nat.le_max_left .., fun _ => rfl⟩
  · have hmod : ¬ u.uioOffset.tmod sfsBlocksize ≠ 0 := by
      have hpos := hal (by omega)
      rw [hs.offset_eq, Int.tmod_eq_emod_of_nonneg (by omega)]
      simp only [sfsBlocksize]
      omega
    rw [if_neg h0, if_neg hmod]
    dsimp only [sfsBlocksize]
    refine wp_handed_bind hs (m := u.uioResid / 512 * 512) (by omega) (Nat.le_refl _)
      (wp_sfsIo_blocks_read hr _ hs (by omega) (hal (by omega))) (fun _ _ => rfl)
      fun l w' hl hs' hpos hres => ?_
    dsimp only
    rw [if_neg (by omega), hres]
    by_cases h1 : u.uioResid - u.uioResid / 512 * 512 > 0
    · rw [if_pos h1]
      have hal' := hal (by omega)
      exact wp_sfsPartialio_read hs' hr (by omega) (by omega) (by omega)
    · rw [if_neg h1, Prog.wp_pure]
      refine ⟨[], hs'.advance_nil.symm, Nat.zero_le _, Nat.le_max_left .., fun _ => ?_⟩
      rw [List.length_nil]
      omega

theorem wp_sfsIo_body_read (hs : u.Sound src) (hr : u.uioRw = .uioRead) :
    (sfsIo.body sv u).wp (Handed u u.uioResid) w := by
  have hb : u32 (u.uioOffset.tmod sfsBlocksize) = u.pos % 512 := hs.tmod
  rw [sfsIo.body, hb]
  by_cases h0 : u.pos % 512 ≠ 0
  · rw [if_pos h0]
    have hlen : min (u32 (((sfsBlocksize : Nat) : Int) - ((u.pos % 512 : Nat) : Int))) u.uioResid =
        min (512 - u.pos % 512) u.uioResid := by
      rw [u32_eq (by simp only [sfsBlocksize]; omega) (by simp only [sfsBlocksize]; omega)]
      simp only [sfsBlocksize]
      omega
    dsimp only
    rw [hlen]
    refine wp_handed_bind hs (m := min (512 - u.pos % 512) u.uioResid) (Nat.min_le_right ..)
      (Nat.le_refl _) (wp_sfsPartialio_read hs hr (Nat.min_le_right ..) rfl (by omega))
      (fun _ _ => rfl) fun l w' hl hs' hpos hres => ?_
    dsimp only
    rw [← hres]
    exact wp_sfsIo_aligned_read hs' hr (by omega)
  · rw [if_neg h0]
    exact wp_sfsIo_aligned_read hs hr fun _ => by omega

end Whole

/-! ## The end of the file -/

/-- No byte at or after the end of the file came out, and `uio_resid` counts what did not. -/
def Within (u : Uio) (size : UInt32) : Post machine (Uio × Result) :=
  ⟨fun r _ => ∃ l, r.1.iovOut = u.iovOut ++ l ∧
      (l ≠ [] → u.uioOffset + l.length ≤ size.toNat) ∧ r.1.uioResid + l.length = u.uioResid,
    fun _ _ => False, fun _ _ => True⟩

/-- Every read of `resid` bytes at `offset` of a file of this size stays within the file,
whatever the rest of the volume holds and whatever fails. -/
def WithinFile (size : UInt32) (offset : Int) (resid : Nat) : Prop :=
  ∀ (w : World) (sv : Ptr) (src : List UInt8) (u : Uio),
    (w.st.fs.heap sv).svI.sfiSize = size → u.Sound src → u.uioRw = .uioRead →
      u.uioOffset = offset → u.uioResid = resid → (sfsIo sv u).wp (Within u size) w

/-- What is left to do once the request is clipped to `c`. -/
theorem wp_sfsIo_run_read {size : UInt32} {c : Uio} {extra : Nat} (hs : u.Sound src)
    (hr : u.uioRw = .uioRead) (hc : c = { u with uioResid := u.uioResid - extra })
    (hex : extra ≤ u.uioResid)
    (hend : ∀ n, n ≤ c.uioResid → u.pos + n ≤ max u.pos mapEnd → n ≠ 0 →
      u.uioOffset + n ≤ size.toNat) :
    (sfsIo.body sv c >>= fun x => sfsIo.out sv x.1 extra x.2).wp (Within u size) w := by
  have hsmall := hs.small
  have hcr : c.uioRw = .uioRead := by rw [hc]; exact hr
  have hpos : c.pos = u.pos := by rw [hc]; rfl
  have hcres : c.uioResid = u.uioResid - extra := by rw [hc]
  have hcs : c.Sound src := by
    have hroom := hs.room
    have henough := hs.enough
    rw [hc]
    exact ⟨hs.base, by simp only; omega, by simp only; omega,
      fun hw => by have := henough hw; simp only; omega, hs.low, hs.high⟩
  rw [Prog.wp_bind]
  refine (wp_sfsIo_body_read hcs hcr).mono ?_ (fun _ _ h => h) fun _ _ h => h
  intro hx w' hy
  obtain ⟨v, r⟩ := hx
  obtain ⟨l, rfl, hlen, hin, -⟩ := hy
  refine wp_sfsIo_out fun w'' _ _ => ⟨l, ?_, fun hne => ?_, ?_⟩
  · have hout : (c.advance l).iovOut = c.iovOut ++ l := by
      simp only [Uio.advance, hcr, if_true]
    rw [hout, hc]
  · rw [hpos] at hin
    exact hend l.length hlen hin fun h0 => hne (List.length_eq_zero_iff.mp h0)
  · dsimp only
    rw [hcs.resid_advance hlen, u32_eq (by omega) (by omega)]
    omega

/-- The end of the request is a position, or the file is as long as a file can be. -/
theorem withinFile_of {size : UInt32} {offset : Int} {resid : Nat}
    (h : i32 size.toNat ≤ offset ∨ offset + resid < 2 ^ 31 ∨ mapEnd ≤ size.toNat) :
    WithinFile size offset resid := by
  intro w sv src u hsize hs hr hx hy
  obtain rfl := hx
  obtain rfl := hy
  rw [sfsIo, Prog.wp_bind, wp_getVnode]
  dsimp only
  rw [hsize]
  by_cases heof : u.uioRw = .uioRead ∧ u.uioOffset ≥ i32 size.toNat
  · rw [if_pos heof, Prog.wp_pure]
    refine ⟨[], (List.append_nil _).symm, fun hne => absurd rfl hne, rfl⟩
  · have hlt : u.uioOffset < i32 size.toNat := by
      by_contra hge
      exact heof ⟨hr, by omega⟩
    have hcond := h.resolve_left (by omega)
    have hlow := hs.low
    have hsz : i32 size.toNat = size.toNat := by
      have hmax := size.toNat_lt
      refine i32_eq (by omega) ?_
      unfold i32 at hlt
      split at hlt <;> omega
    have hpos := hs.offset_eq
    rw [if_neg heof]
    by_cases hend : u.uioRw = .uioRead ∧ i32 (u.uioOffset + u.uioResid) > i32 size.toNat
    · have hex := hs.extra (z := i32 size.toNat) (i32_lt _) hlt hend.2
      rw [if_pos hend, if_pos hex.1]
      refine wp_sfsIo_run_read hs hr rfl (Nat.le_of_lt hex.1) fun n hn _ _ => ?_
      have hn' : n ≤ u.uioResid - u32 (i32 (u.uioOffset + u.uioResid) - i32 size.toNat) := hn
      have := hex.2
      omega
    · rw [if_neg hend]
      refine wp_sfsIo_run_read hs hr rfl (Nat.zero_le _) fun n hn hin hne => ?_
      have hn' : n ≤ u.uioResid - 0 := hn
      have hle : i32 (u.uioOffset + u.uioResid) ≤ i32 size.toNat := by
        by_contra hgt
        exact hend ⟨hr, by omega⟩
      rcases hcond with hsum | hmap
      · rw [i32_eq (by omega) hsum] at hle
        omega
      · omega

/-! ## A file without blocks -/

section Hole

variable {Q : Post machine (Uio × Result)}

/-- The file in `sv` has no block. -/
def Blockless (sv : Ptr) (w : World) : Prop := ∀ s, (w.st.fs.heap sv).svI.root s = 0

theorem Blockless.congr {w' : World} (h : Blockless sv w) (hfs : w'.st.fs = w.st.fs) :
    Blockless sv w' := by
  unfold Blockless
  rw [hfs]
  exact h

theorem wp_sfsBmap_blockless {Q : Post machine UInt32} (h : Blockless sv w) {fb : Nat}
    (hlt : fb < doubleLimit + 128 * 128 * 128) (hok : Q.ok 0 w) :
    (sfsBmap sv fb false).wp Q w := by
  by_cases hfb : fb < 15
  · have hroot := h (.direct ⟨fb, hfb⟩)
    change (w.st.fs.heap sv).svI.sfiDirect ⟨fb, hfb⟩ = 0 at hroot
    simp only [sfsBmap, sfsNdirect, dif_pos hfb, Prog.wp_bind, wp_getVnode, hroot]
    simpa [bmapReturn] using hok
  · have hbig : ¬ (fb - 15) / (128 + 128 * 128 + 128 * 128 * 128) > 0 := by
      simp only [doubleLimit] at hlt
      omega
    simp only [sfsBmap, sfsNdirect, sfsDbperidb, dif_neg hfb]
    rw [if_neg hbig, Prog.wp_bind, wp_getVnode]
    dsimp only
    have hroots : ∀ lv : Nat, (if lv = 1 then (w.st.fs.heap sv).svI.sfiIndirect
        else if lv = 2 then (w.st.fs.heap sv).svI.sfiDoubleindirect
        else (w.st.fs.heap sv).svI.sfiTripleindirect) = 0 := by
      intro lv
      split
      · exact h .indirect
      · split
        · exact h .double
        · exact h .triple
    rw [hroots, if_pos ⟨rfl, Bool.false_ne_true⟩, Prog.wp_pure]
    exact hok

/-- All the memory of the request can be written to. -/
structure AllMapped (u : Uio) : Prop where
  read : u.uioRw = .uioRead
  mapped : u.iovPos + u.uioResid ≤ u.iovMapped

theorem AllMapped.advance (h : AllMapped u) (hs : u.Sound src) {l : List UInt8}
    (hl : l.length ≤ u.uioResid) : AllMapped (u.advance l) := by
  refine ⟨h.read, ?_⟩
  have hm := h.mapped
  rw [hs.resid_advance hl]
  simp only [Uio.advance]
  omega

theorem wp_sfsBlockio_blockless (hs : u.Sound src) (hm : AllMapped u) (hb : Blockless sv w)
    (hlt : u.block < doubleLimit + 128 * 128 * 128) (hal : u.pos % 512 = 0)
    (hfit : 512 ≤ u.uioResid) (hok : ∀ l, l.length = 512 → Q.ok (u.advance l, none) w) :
    (sfsBlockio sv u).wp Q w := by
  have hr := hm.read
  have hfb : u32 (u.uioOffset.tdiv ((512 : Nat) : Int)) = u.block := hs.tdiv
  have hread : decide (u.uioRw = .uioWrite) = false := decide_eq_false (UioRw.not_write.mpr hr)
  have hend := end_le_mapEnd hlt (n := 512) (by omega)
  have hmap := mapEnd_lt
  simp only [sfsBlockio, sfsBlocksize, Prog.wp_bind]
  rw [wp_attempt, hfb, hread]
  refine wp_sfsBmap_blockless hb hlt ?_
  dsimp only
  rw [if_pos rfl, if_pos hr, uiomovezeros, if_pos hr]
  refine wp_uiomovezeros_loop 512 512 u (Nat.le_refl _) hs hr hfit (by omega)
    (hok _ List.length_replicate) fun k _ hfault => ?_
  have hmapped := hm.mapped
  omega

theorem wp_sfsPartialio_blockless {skip n : Nat} (hs : u.Sound src) (hm : AllMapped u)
    (hb : Blockless sv w) (hlt : u.block < doubleLimit + 128 * 128 * 128)
    (hn : n ≤ u.uioResid) (hfit : skip + n ≤ 512)
    (hok : ∀ l w', l.length = n → w'.st.fs = w.st.fs → Q.ok (u.advance l, none) w') :
    (sfsPartialio sv u skip n).wp Q w := by
  have hr := hm.read
  have hfb : u32 (u.uioOffset.tdiv sfsBlocksize) = u.block := hs.tdiv
  have hread : decide (u.uioRw = .uioWrite) = false := decide_eq_false (UioRw.not_write.mpr hr)
  have hlen : ¬ u32 ((skip : Int) + n) > sfsBlocksize := by
    rw [u32_eq (by omega) (by omega), sfsBlocksize]
    omega
  have hinside : ¬ (n > 0 ∧ skip + n > sfsBlocksize) := by
    rw [sfsBlocksize]
    omega
  rw [sfsPartialio, if_neg hlen, Prog.wp_bind]
  dsimp only
  rw [wp_attempt, hfb, sfsPartialio.load, Prog.wp_bind, hread]
  refine wp_sfsBmap_blockless hb hlt ?_
  dsimp only
  rw [if_pos rfl, if_pos hr, Prog.wp_pure]
  dsimp only
  rw [sfsPartialio.move, Prog.wp_bind, wp_modifyBufs]
  dsimp only
  rw [if_neg hinside, Prog.wp_bind]
  refine wp_uiomove_part hs hn ?_ ?_
  · intro chunk hchunk
    have hl : chunk.length = n := by
      rw [hchunk, Uio.chunk, if_pos hr, List.length_take, List.length_drop, Sector.length_bytes]
      omega
    have hno : ¬ (u.advance chunk).uioRw = .uioWrite := UioRw.not_write.mpr hr
    simp only [Prog.wp_bind, wp_modifyBufs, if_neg hno, Prog.wp_pure]
    exact hok chunk _ hl rfl
  · intro hfault
    have hmapped := hm.mapped
    omega

/-- A request beyond the last block a file can have gets as far as that. -/
theorem wp_sfsIo_blocks_blockless (k n : Nat) (hs : u.Sound src) (hm : AllMapped u)
    (hb : Blockless sv w) (hal : u.pos % 512 = 0) (hk : u.pos + k * 512 = mapEnd) (hn : k < n)
    (hfit : n * 512 ≤ u.uioResid)
    (hok : ∀ l, l.length = k * 512 → Q.ok (u.advance l, some .einval) w) :
    (sfsIo.blocks sv n u).wp Q w := by
  induction k generalizing u n with
  | zero =>
    obtain ⟨n, rfl⟩ : ∃ m, n = m + 1 := ⟨n - 1, by omega⟩
    have hfb : u32 (u.uioOffset.tdiv ((512 : Nat) : Int)) = u.block := hs.tdiv
    have hbig : doubleLimit + 128 * 128 * 128 ≤ u.block := by
      unfold Uio.block
      unfold mapEnd at hk
      omega
    have hdone := hok [] (by rw [List.length_nil, Nat.zero_mul])
    rw [hs.advance_nil] at hdone
    simp only [sfsIo.blocks, Prog.wp_bind, sfsBlockio, sfsBlocksize]
    rw [wp_attempt, hfb]
    refine wp_sfsBmap_beyond hbig ?_
    simpa only [Prog.wp_pure] using hdone
  | succ k ih =>
    obtain ⟨n, rfl⟩ : ∃ m, n = m + 1 := ⟨n - 1, by omega⟩
    have hmap := mapEnd_lt
    have hlt : u.block < doubleLimit + 128 * 128 * 128 := by
      unfold Uio.block
      unfold mapEnd at hk
      omega
    have hfit' : n * 512 + 512 ≤ u.uioResid := by
      rw [← Nat.succ_mul]
      exact hfit
    have hk' : u.pos + (k * 512 + 512) = mapEnd := by
      rw [← Nat.succ_mul]
      exact hk
    have hdone : ∀ l, l.length = k * 512 + 512 → Q.ok (u.advance l, some .einval) w := by
      rw [← Nat.succ_mul]
      exact hok
    rw [sfsIo.blocks, Prog.wp_bind]
    refine wp_sfsBlockio_blockless hs hm hb hlt hal (by omega) fun l hl => ?_
    clear hfit hk hok hlt
    have hle : l.length ≤ u.uioResid := by omega
    have hlow : u.pos + l.length < 2 ^ 31 := by omega
    have hal' : (u.pos + l.length) % 512 = 0 := by omega
    have hk'' : u.pos + l.length + k * 512 = mapEnd := by
      rw [hl, Nat.add_assoc, Nat.add_comm 512]
      exact hk'
    have hn' : n * 512 ≤ u.uioResid - l.length := by
      rw [hl]
      exact Nat.le_sub_of_add_le hfit'
    have hboth : ∀ l' : List UInt8, l'.length = k * 512 →
        (u.advance l).advance l' = u.advance (l ++ l') := fun l' hl' =>
      hs.advance_advance hle hlow (by omega) (by omega)
    rw [← hs.pos_advance hlow] at hal' hk''
    rw [← hs.resid_advance hle] at hn'
    dsimp only
    refine ih n (hs.advance hle hlow) (hm.advance hs hle) hal' hk'' (by omega) hn'
      fun l' hl' => ?_
    rw [hboth l' hl']
    refine hdone _ ?_
    rw [List.length_append, hl, hl', Nat.add_comm]

theorem mapEnd_mod : mapEnd % 512 = 0 := by
  rw [mapEnd]
  exact Nat.mul_mod_left ..

theorem wp_sfsIo_aligned_blockless (hs : u.Sound src) (hm : AllMapped u) (hb : Blockless sv w)
    (hal : u.pos % 512 = 0) (hle : u.pos ≤ mapEnd) (h512 : 512 ≤ u.uioResid)
    (hreach : mapEnd ≤ u.pos + (u.uioResid - 512))
    (hok : ∀ l, u.pos + l.length = mapEnd → Q.ok (u.advance l, some .einval) w) :
    (sfsIo.aligned sv u).wp Q w := by
  have hmod : ¬ u.uioOffset.tmod sfsBlocksize ≠ 0 := by
    rw [hs.offset_eq, Int.tmod_eq_emod_of_nonneg (by omega)]
    simp only [sfsBlocksize]
    omega
  obtain ⟨k, hk⟩ : ∃ k, u.pos + k * 512 = mapEnd := by
    have hend := mapEnd_mod
    exact ⟨(mapEnd - u.pos) / 512, by omega⟩
  have hmore : k * 512 + 512 ≤ u.uioResid := by
    rw [← hk] at hreach
    omega
  have hcount : k + 1 ≤ u.uioResid / 512 := by
    rw [Nat.le_div_iff_mul_le (by decide), Nat.succ_mul]
    exact hmore
  rw [sfsIo.aligned, if_neg (by omega), if_neg hmod]
  dsimp only [sfsBlocksize]
  rw [Prog.wp_bind]
  refine wp_sfsIo_blocks_blockless k _ hs hm hb hal hk hcount (Nat.div_mul_le_self ..)
    fun l hl => ?_
  simp only [Prog.wp_pure]
  exact hok l (by rw [hl]; exact hk)

theorem wp_sfsIo_body_blockless (hs : u.Sound src) (hm : AllMapped u) (hb : Blockless sv w)
    (hlt : u.pos < mapEnd) (h512 : 512 ≤ u.uioResid)
    (hreach : mapEnd ≤ u.pos + (u.uioResid - 512))
    (hok : ∀ l w', u.pos + l.length = mapEnd → Q.ok (u.advance l, some .einval) w') :
    (sfsIo.body sv u).wp Q w := by
  have hmod : u32 (u.uioOffset.tmod sfsBlocksize) = u.pos % 512 := hs.tmod
  have hmap := mapEnd_lt
  have hend := mapEnd_mod
  rw [sfsIo.body, hmod]
  by_cases h0 : u.pos % 512 ≠ 0
  · rw [if_pos h0]
    have hlen : min (u32 (((sfsBlocksize : Nat) : Int) - ((u.pos % 512 : Nat) : Int))) u.uioResid =
        512 - u.pos % 512 := by
      rw [u32_eq (by simp only [sfsBlocksize]; omega) (by simp only [sfsBlocksize]; omega)]
      simp only [sfsBlocksize]
      omega
    have hblock : u.block < doubleLimit + 128 * 128 * 128 := by
      unfold Uio.block
      unfold mapEnd at hlt
      omega
    dsimp only
    rw [hlen, Prog.wp_bind]
    refine wp_sfsPartialio_blockless hs hm hb hblock (by omega) (by omega) fun l w' hl hfs => ?_
    have hle : l.length ≤ u.uioResid := by omega
    have hlow : u.pos + l.length < 2 ^ 31 := by omega
    have hpos := hs.pos_advance hlow
    have hres := hs.resid_advance hle
    dsimp only
    refine wp_sfsIo_aligned_blockless (hs.advance hle hlow) (hm.advance hs hle) (hb.congr hfs)
      (by omega) (by omega) (by omega) (by omega) fun l' hl' => ?_
    rw [hs.advance_advance hle hlow (by omega) (by omega)]
    refine hok _ _ ?_
    rw [List.length_append]
    omega
  · rw [if_neg h0]
    exact wp_sfsIo_aligned_blockless hs hm hb (by omega) (by omega) h512 hreach
      fun l => hok l w

end Hole

/-- A volume with a file of this size and no block. -/
def sparse (size : UInt32) : World :=
  { smallVolume with
    st := { smallVolume.st with fs := smallVolume.st.fs.modifyInode 0 fun i =>
      { i with sfiSize := size } } }

theorem sparse_blockless (size : UInt32) : Blockless 0 (sparse size) := by
  intro s
  cases s <;> rfl

/-- A request whose end is no position reads on to the last block a file can have. -/
theorem not_withinFile {size : UInt32} {offset : Int} {resid : Nat} (h0 : 0 ≤ offset)
    (hr : resid < 2 ^ 32) (hlt : offset < i32 size.toNat) (hsum : 2 ^ 31 ≤ offset + resid)
    (hmap : size.toNat < mapEnd) : ¬ WithinFile size offset resid := by
  intro h
  have hlim := mapEnd_small
  have hsz : i32 size.toNat = size.toNat := i32_eq (by omega) (by omega)
  rw [hsz] at hlt
  let u : Uio := mkKuio (fun _ => []) resid offset .uioRead
  have hs : u.Sound [] :=
    ⟨fun _ => rfl, Nat.le_refl _, hr, fun hw => (by cases hw), h0, (by show offset < 2 ^ 31; omega)⟩
  have hm : AllMapped u := ⟨rfl, Nat.le_of_eq (Nat.zero_add _)⟩
  have hpos : (u.pos : Int) = offset := Int.toNat_of_nonneg h0
  have hres : u.uioResid = resid := rfl
  have hend : ¬ (u.uioRw = .uioRead ∧ i32 (u.uioOffset + u.uioResid) > i32 size.toNat) := by
    intro hx
    obtain ⟨-, hgt⟩ := hx
    rw [hsz] at hgt
    change i32 (offset + resid) > _ at hgt
    unfold i32 at hgt
    split at hgt <;> omega
  have hpast : (sfsIo 0 u).wp ⟨fun r _ => r.1.iovOut.length + u.pos = mapEnd,
      fun _ _ => False, fun _ _ => False⟩ (sparse size) := by
    rw [sfsIo, Prog.wp_bind, wp_getVnode]
    have hsize : ((sparse size).st.fs.heap 0).svI.sfiSize = size := rfl
    dsimp only
    have heof : ¬ (u.uioRw = .uioRead ∧ u.uioOffset ≥ i32 size.toNat) := by
      intro hx
      obtain ⟨-, hge⟩ := hx
      change offset ≥ _ at hge
      omega
    rw [hsize, if_neg heof, if_neg hend, Prog.wp_bind]
    refine wp_sfsIo_body_blockless hs hm (sparse_blockless size) (by omega) (by omega) (by omega)
      fun l w' hl => ?_
    refine wp_sfsIo_out fun w'' _ _ => ?_
    have hout : (u.advance l).iovOut = l := List.nil_append l
    dsimp only
    rw [hout, Nat.add_comm]
    exact hl
  obtain ⟨r, w', hrun, hlen⟩ := Prog.ok_of_wp hpast
  have hwithin := (Prog.wp_iff ..).mp (h (sparse size) 0 [] u rfl hs rfl rfl rfl)
  rw [hrun] at hwithin
  obtain ⟨l, hl, hin, -⟩ := hwithin
  have hout : r.1.iovOut = l := hl
  rw [hout] at hlen
  have hne : l ≠ [] := by
    intro hx
    obtain rfl := hx
    rw [List.length_nil] at hlen
    omega
  have hin' : offset + l.length ≤ size.toNat := hin hne
  omega

/-- Exactly which reads stay within the file on every volume. -/
theorem withinFile_iff (size : UInt32) {offset : Int} {resid : Nat} (h0 : 0 ≤ offset)
    (hr : resid < 2 ^ 32) :
    WithinFile size offset resid ↔
      i32 size.toNat ≤ offset ∨ offset + resid < 2 ^ 31 ∨ mapEnd ≤ size.toNat := by
  constructor
  · intro h
    by_contra hcond
    rw [not_or, not_or] at hcond
    obtain ⟨hlt, hsum, hmap⟩ := hcond
    exact not_withinFile h0 hr (by omega) (by omega) (by omega) h
  · exact withinFile_of

theorem withinFile_iff_small : WithinFile 1000 0 100 ↔
    i32 (1000 : UInt32).toNat ≤ 0 ∨ (0 : Int) + (100 : Nat) < 2 ^ 31 ∨ mapEnd ≤ 1000 :=
  withinFile_iff 1000 (Int.le_refl 0) (by decide)

/-- `read(fd, buf, 0x80000000)` at the start of a file of 1000 bytes. -/
theorem reads_past_end : ¬ ∀ (size : UInt32) (offset : Int) (resid : Nat), 0 ≤ offset →
    offset < 2 ^ 31 → resid < 2 ^ 32 → WithinFile size offset resid := by
  intro h
  refine not_withinFile (Int.le_refl 0) (by decide) (by decide) (by decide) ?_
    (h 1000 0 (2 ^ 31) (Int.le_refl 0) (by decide) (by decide))
  rw [mapEnd]
  decide

end Os161.Sfs
