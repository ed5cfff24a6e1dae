import Mathlib.Data.Finset.Card
import Os161.Sfs.Lookups

/-! # The last free block

A lookup below a missing pointer block of the double indirect tree needs a free block. An
allocation that takes the last one strands those lookups. -/
namespace Os161.Sfs
open Os161.Lib Kern Vol

variable {v v' : Vol} {sv : Ptr} {s : Slot} {l : Path} {w w' : World} {fb : Nat} {d : UInt32}

/-! ## Counting blocks -/

/-- The free blocks of a volume. -/
def Vol.free (v : Vol) : Finset Nat :=
  (Finset.range v.nblocks).filter fun j => v.fs.sfsFreemap.isset j = false

/-- The depths at which the path to a place lacks its block. -/
def Vol.gaps (v : Vol) (sv : Ptr) (s : Slot) (l : Path) : Finset Nat :=
  (Finset.range (l.length + 1)).filter fun k => v.place sv s (l.take k) = 0

/-- How many blocks `sfs_bmap` has to take for a file block. -/
def missing (v : Vol) (sv : Ptr) (fb : Nat) : Nat :=
  match fbPath fb with
  | some (s, l) => (v.gaps sv s l).card
  | none => 0

theorem mem_free {j : Nat} : j ∈ v.free ↔ j < v.nblocks ∧ v.fs.sfsFreemap.isset j = false := by
  rw [Vol.free, Finset.mem_filter, Finset.mem_range]

theorem toNat_ofNat_of_lt {j : Nat} (h : j < v.nblocks) : (UInt32.ofNat j).toNat = j := by
  have : v.nblocks < 2 ^ 32 := UInt32.toNat_lt _
  rw [UInt32.toNat_ofNat']
  omega

theorem full_iff : Full v ↔ v.free = ∅ := by
  rw [Finset.eq_empty_iff_forall_notMem]
  constructor
  · intro h j hj
    obtain ⟨hlt, hc⟩ := mem_free.mp hj
    have hto := toNat_ofNat_of_lt hlt
    have hset := h (UInt32.ofNat j) (by rwa [hto])
    rw [Vol.isset, hto, hc] at hset
    cases hset
  · intro h b hb
    by_contra hc
    exact h b.toNat (mem_free.mpr ⟨hb, eq_false_of_ne_true hc⟩)

namespace Filled

theorem free_eq (hf : Filled sv s l v v') (hl : l.length = s.depth) :
    v.free = v'.free ∪ (v.gaps sv s l).image fun k => (v'.place sv s (l.take k)).toNat := by
  have hn : v'.nblocks = v.nblocks := hf.here.nblocks_eq
  ext j
  rw [Finset.mem_union, mem_free, mem_free, Finset.mem_image, hn]
  constructor
  · intro hx
    obtain ⟨hlt, hc⟩ := hx
    by_cases hc' : v'.fs.sfsFreemap.isset j = false
    · exact .inl ⟨hlt, hc'⟩
    · have hto := toNat_ofNat_of_lt hlt
      have hset : v'.isset (UInt32.ofNat j) = true := by
        rw [Vol.isset, hto]
        exact eq_true_of_ne_false hc'
      rcases (hf.isset _).mp hset with h | ⟨m, hm, h0, he⟩
      · rw [Vol.isset, hto, hc] at h
        cases h
      · have htake : l.take m.length = m := (List.prefix_iff_eq_take.mp hm).symm
        refine .inr ⟨m.length, ?_, ?_⟩
        · rw [Vol.gaps, Finset.mem_filter, Finset.mem_range, htake]
          exact ⟨Nat.lt_succ_of_le hm.length_le, h0⟩
        · rw [htake, ← he, hto]
  · intro hx
    rcases hx with ⟨hlt, hc⟩ | ⟨k, hk, rfl⟩
    · refine ⟨hlt, ?_⟩
      by_contra hset
      have hto := toNat_ofNat_of_lt hlt
      have hset' := (hf.isset (UInt32.ofNat j)).mpr
        (.inl (by rw [Vol.isset, hto]; exact eq_true_of_ne_false hset))
      rw [Vol.isset, hto, hc] at hset'
      cases hset'
    · rw [Vol.gaps, Finset.mem_filter] at hk
      have hpre := l.take_prefix k
      have hle : (l.take k).length ≤ s.depth := hl ▸ hpre.length_le
      refine ⟨?_, hf.clear _ hpre hk.2⟩
      rw [← hn]
      exact hf.wf.range s _ hle (place_ne_zero_above hpre hf.there)

/-- What is free before and not after went into the gaps of the path. -/
theorem card_free (hf : Filled sv s l v v') (hl : l.length = s.depth) :
    v.free.card = v'.free.card + (v.gaps sv s l).card := by
  have hle (k : Nat) : (l.take k).length ≤ s.depth := hl ▸ (l.take_prefix k).length_le
  have hne (k : Nat) : v'.place sv s (l.take k) ≠ 0 :=
    place_ne_zero_above (l.take_prefix k) hf.there
  rw [hf.free_eq hl, Finset.card_union_of_disjoint, Finset.card_image_of_injOn]
  · intro k hk k' hk' he
    rw [Finset.mem_coe, Vol.gaps, Finset.mem_filter, Finset.mem_range] at hk hk'
    have htake := (hf.wf.inj s _ s _ (hle k) (hle k') (UInt32.toNat_inj.mp he) (hne k)).2
    have hlen := congrArg List.length htake
    rw [List.length_take, List.length_take] at hlen
    omega
  · rw [Finset.disjoint_left]
    intro j hj hj'
    obtain ⟨k, -, rfl⟩ := Finset.mem_image.mp hj'
    have hset := hf.wf.marked s _ (hle k) (hne k)
    rw [Vol.isset, (mem_free.mp hj).2] at hset
    cases hset

end Filled

/-! ## Lookups in the double indirect tree -/

theorem fbPath_double (i j : Fin 128) :
    fbPath (143 + 128 * i.val + j.val) = some (.double, [i, j]) := by
  have hi := i.isLt
  have hj := j.isLt
  rw [fbPath, dif_neg (by omega)]
  dsimp only
  rw [if_neg (by omega), if_pos (by omega)]
  have hfst : Fin.ofNat 128 ((143 + 128 * i.val + j.val - 15 - 128) / 128) = i := by
    ext
    simp only [Fin.ofNat]
    omega
  have hsnd : Fin.ofNat 128 (143 + 128 * i.val + j.val - 15 - 128) = j := by
    ext
    simp only [Fin.ofNat]
    omega
  rw [hfst, hsnd]

/-- A file block of the ranges lies in the double indirect tree, or below at most one pointer
block. -/
theorem fbPath_ranges (h : fbPath fb = some (s, l)) (hfb : fb < doubleLimit) :
    (fb < 143 ∧ s ≠ .double ∧ l.length ≤ 1) ∨
      ∃ i j : Fin 128, s = .double ∧ l = [i, j] ∧ fb = 143 + 128 * i.val + j.val := by
  by_cases hlow : fb < 143
  · refine .inl ⟨hlow, ?_⟩
    unfold fbPath at h
    split at h
    · cases h
      exact ⟨by simp, Nat.zero_le _⟩
    · dsimp only at h
      rw [if_pos (by omega)] at h
      cases h
      exact ⟨by simp, Nat.le_refl 1⟩
  · simp only [doubleLimit] at hfb
    have := fbPath_double ⟨(fb - 143) / 128, by omega⟩ ⟨(fb - 143) % 128, by omega⟩
    rw [show 143 + 128 * ((fb - 143) / 128) + (fb - 143) % 128 = fb by omega, h] at this
    cases this
    exact .inr ⟨_, _, rfl, rfl, by dsimp only; omega⟩

/-- The double indirect block is there, and its entry `i` is not. -/
def Hole (v : Vol) (sv : Ptr) (i : Fin 128) : Prop :=
  v.place sv .double [] ≠ 0 ∧ v.place sv .double [i] = 0

theorem wp_getBlock_here {b : UInt32} {i : Fin 128} {Q : Post machine UInt32}
    (h : w.st.bufs.blockbuf i = 0) (hok : Q.ok 0 w) : (getBlock sv false b i.val).wp Q w := by
  simpa only [getBlock, sfsDbperidb, dif_pos i.isLt, Prog.wp_bind, wp_getKernel, Bool.false_eq_true,
    and_false, if_false, Prog.wp_pure, Fin.eta, h] using hok

/-- A lookup in a hole needs a free block. -/
theorem wp_lookup_hole {i j : Fin 128} {Q : Post machine UInt32} (hg : Geo (vol w))
    (hwf : WellFormed (vol w) sv) (hw : w.env.writeFaults = []) (hr : w.env.readFaults = [])
    (hhole : Hole (vol w) sv i) (hok : ¬ Full (vol w) → ∀ w', Q.ok 0 w')
    (herr : Full (vol w) → ∀ w', Q.err .enospc w') :
    (sfsBmap sv (143 + 128 * i.val + j.val) false).wp Q w := by
  have hpath := fbPath_double i j
  have hlim := fbPath_lt hpath
  obtain ⟨n, heq⟩ := sfsBmap_eq sv false (by omega) (.of_lt hlim)
  rw [heq, visits_of_path hpath]
  simp only [Prog.wp_bind, wp_getVnode]
  show (if (vol w).place sv .double [] = 0 ∧ ¬false = true then _ else
    loadbuffer sv 2 ((vol w).place sv .double []) ((vol w).place sv .double []) 0 >>= _ :
      Kern _).wp _ w
  rw [if_neg fun hc => hhole.1 hc.1, Prog.wp_bind]
  refine wp_loadbuffer_at (.nothing hg hwf hhole.1) (Nat.zero_le _) hr fun w₁ hc₁ hv₁ hat => ?_
  dsimp only
  rw [Prog.wp_bind]
  show (getBlock sv false _ i.val >>= fun block => descend sv 2 block >>=
    fun idblock => getBlock sv false idblock j.val).wp _ w₁
  have hentry : w₁.st.bufs.blockbuf i = 0 := by
    rw [hat.entry (by rw [hv₁]; exact hhole.1) i, hv₁]
    exact hhole.2
  rw [← hv₁] at hg hok herr
  rw [Prog.wp_bind]
  refine wp_getBlock_here hentry ?_
  dsimp only
  rw [Prog.wp_bind, descend, Prog.wp_bind, wp_modifyBufs]
  refine wp_loadbuffer_leak (by simpa using hg) (hc₁.writes hw) (fun c w₂ hc hc₂ hv₂ hbuf => ?_)
    fun hfull => herr (by simpa using hfull) _
  have hnot : ¬ Full (vol w₁) := fun hfull => by
    have := hfull c (by simpa using hc.lt)
    rw [show (vol w₁).isset c = false by simpa using hc.clear] at this
    cases this
  dsimp only
  refine wp_getBlock_empty hbuf (fun _ => ?_) fun hn => absurd j.isLt hn
  simpa [bmapReturn] using hok hnot _

/-- Outside the holes no lookup needs one. -/
theorem not_meetsHole (hg : Geo v) (hwf : WellFormed v sv) (hfb : fb < doubleLimit)
    (h : ∀ i j : Fin 128, fb = 143 + 128 * i.val + j.val → ¬ Hole v sv i) :
    ¬ MeetsHole v sv fb := by
  intro hm
  obtain ⟨s, l, hpath⟩ := fbPath_of_lt (lt_bufferLimit hfb)
  rw [MeetsHole, visits_of_path hpath] at hm
  obtain ⟨h0, hbelow⟩ := hm
  rcases fbPath_ranges hpath hfb with ⟨-, -, hlen⟩ | ⟨i, j, rfl, rfl, he⟩
  · cases l with
    | nil => exact hbelow
    | cons i l =>
      cases l with
      | nil => exact hbelow
      | cons j l => exact absurd hlen (by simp)
  · obtain ⟨-, hi, hz | hf⟩ := hbelow
    · refine h i j he ⟨h0, ?_⟩
      have hlt := hwf.range .double [] (Nat.zero_le _) h0
      have hsector : sectorOf (v.place sv .double []) = (v.place sv .double []).toNat := by
        refine sectorOf_of_lt ?_
        have h1 := hg.device
        have h2 := hg.offsets
        omega
      show v.place sv .double ([] ++ [i]) = 0
      rw [place_snoc, ← hsector, if_neg (show v.place sv .double [] ≠ 0 from h0)]
      exact hz
    · exact hf

/-! ## Agreement -/

/-- What an allocation of `fb` that handed back `d` should have done: every other file block
resolves to what it was mapped to. -/
structure Agrees (sv : Ptr) (fb : Nat) (d : UInt32) (w w' : World) : Prop
    extends Allocated sv fb d w w' where
  resolves : ∀ fb' < doubleLimit, fb' ≠ fb → (sfsBmap sv fb' false).wp
    ⟨fun d' _ => d' = (vol w).mapped sv fb', fun _ _ => False, fun _ _ => False⟩ w'

/-- With its place for `fb` the file has a double indirect block that lacks an entry. -/
def LeavesHole (v : Vol) (sv : Ptr) (fb : Nat) : Prop :=
  ∃ i : Fin 128, v.place sv .double [i] = 0 ∧ (v.place sv .double [] ≠ 0 ∨ 143 ≤ fb) ∧
    ¬ (143 ≤ fb ∧ (fb - 143) / 128 = i.val)

theorem Filled.hole_iff (hf : Filled sv s l v v') (hpath : fbPath fb = some (s, l))
    (hfb : fb < doubleLimit) (i : Fin 128) :
    Hole v' sv i ↔ v.place sv .double [i] = 0 ∧ (v.place sv .double [] ≠ 0 ∨ 143 ≤ fb) ∧
      ¬ (143 ≤ fb ∧ (fb - 143) / 128 = i.val) := by
  rcases fbPath_ranges hpath hfb with ⟨hlow, hs, -⟩ | ⟨i', j, rfl, rfl, he⟩
  · have hsame (m : Path) (hm : m.length ≤ 2) : v'.place sv .double m = v.place sv .double m :=
      hf.same .double m hm fun h => hs h.1.symm
    rw [Hole, hsame [] (by simp), hsame [i] (by simp)]
    constructor
    · exact fun h => ⟨h.2, .inl h.1, fun hc => by omega⟩
    · exact fun h => ⟨h.2.1.resolve_right (by omega), h.1⟩
  · have hroot : v'.place sv .double [] ≠ 0 := place_ne_zero_above (by simp) hf.there
    have hown : v'.place sv .double [i'] ≠ 0 := place_ne_zero_above (by simp) hf.there
    have hi : (fb - 143) / 128 = i'.val := by omega
    rw [Hole, hi]
    by_cases hii : i' = i
    · subst hii
      exact iff_of_false (fun h => hown h.2) fun h => h.2.2 ⟨by omega, rfl⟩
    · have hsame : v'.place sv .double [i] = v.place sv .double [i] := by
        refine hf.same .double [i] (by simp [Slot.depth]) fun h => hii ?_
        exact (List.cons_prefix_cons.mp h.2).1.symm
      rw [hsame]
      constructor
      · exact fun h => ⟨h.2, .inr (by omega), fun hc => hii (Fin.ext hc.2)⟩
      · exact fun h => ⟨hroot, h.1⟩

/-- After an allocation all other file blocks resolve, unless it left a hole and no free block. -/
theorem Filled.agrees_iff (hf : Filled sv s l (vol w) (vol w')) (hpath : fbPath fb = some (s, l))
    (hfb : fb < doubleLimit) (hr : w'.env.readFaults = []) (hw : w'.env.writeFaults = []) :
    Agrees sv fb ((vol w').place sv s l) w w' ↔
      ¬ Full (vol w') ∨ ¬ ∃ i, Hole (vol w') sv i := by
  have halloc := hf.allocated hpath hr hw
  constructor
  · intro h
    by_contra hno
    rw [not_or, not_not, not_not] at hno
    obtain ⟨hfull, i, hhole⟩ := hno
    have hi := i.isLt
    have hne : 143 + 128 * i.val + (0 : Fin 128).val ≠ fb := by
      rintro rfl
      rw [fbPath_double i 0] at hpath
      cases hpath
      exact place_ne_zero_above (by simp) hf.there hhole.2
    have hfound := h.resolves _ (by simp only [doubleLimit]; omega) hne
    have hfails : (sfsBmap sv (143 + 128 * i.val + (0 : Fin 128).val) false).wp
        ⟨fun _ _ => False, fun _ _ => True, fun _ _ => False⟩ w' :=
      wp_lookup_hole hf.geo hf.wf hw hr hhole (fun h => absurd hfull h) fun _ _ => trivial
    obtain ⟨_, _, -, -, hx⟩ := Prog.ok_of_wp ((hfound.and hfails).mono (fun _ _ h => h)
      (fun _ _ h => h.1) fun _ _ h => h.1)
    exact hx
  · intro h
    refine ⟨halloc, fun fb' hfb' hne => ?_⟩
    rw [← halloc.others fb' hfb' hne]
    by_cases hhole : ∃ i j : Fin 128, fb' = 143 + 128 * i.val + j.val ∧ Hole (vol w') sv i
    · obtain ⟨i, j, rfl, hhole⟩ := hhole
      have hfree := h.resolve_right fun hno => hno ⟨i, hhole⟩
      refine wp_lookup_hole hf.geo hf.wf hw hr hhole (fun _ _ => ?_) fun hfull => absurd hfull hfree
      rw [mapped_of_path (fbPath_double i j)]
      exact (place_snoc_of_zero hhole.2 j).symm
    · have hno : ¬ MeetsHole (vol w') sv fb' :=
        not_meetsHole hf.geo hf.wf hfb' fun i j he hx => hhole ⟨i, j, he, hx⟩
      refine ((wp_sfsBmap_lookup hf.geo hf.wf hw hr (lt_bufferLimit hfb')).and
        (leaves_sfsBmap (fun _ => hno) w' rfl)).mono (fun _ _ h => h.1) (fun _ _ h => ?_)
        fun _ _ h => h.1
      exact h.2.2 h.1

/-- In every well formed file, allocation of a block and lookup agree if and only if a free block
is left after it or the double indirect block lacks no entry then. -/
theorem bmap_agrees_iff (sv : Ptr) (fb : Nat) (w : World) (hg : Geo (vol w))
    (hwf : WellFormed (vol w) sv) (hr : w.env.readFaults = []) (hw : w.env.writeFaults = [])
    (hfb : fb < doubleLimit) :
    (sfsBmap sv fb true).wp ⟨fun d w' => Agrees sv fb d w w' ↔
      missing (vol w) sv fb < (vol w).free.card ∨ ¬ LeavesHole (vol w) sv fb,
      fun e _ => e = .enospc, fun _ _ => False⟩ w := by
  obtain ⟨s, l, hpath⟩ := fbPath_of_lt (lt_bufferLimit hfb)
  refine wp_sfsBmap_filled hg hwf hw hr hpath (.inl rfl) (fun w' hc hf => ?_) fun _ _ => rfl
  have hcount := hf.card_free (fbPath_length hpath)
  have hmissing : missing (vol w) sv fb = ((vol w).gaps sv s l).card := by rw [missing, hpath]
  dsimp only
  rw [hf.agrees_iff hpath hfb (hc.reads hr) (hc.writes hw)]
  refine or_congr ?_ (not_congr (exists_congr fun i => hf.hole_iff hpath hfb i))
  rw [full_iff, ← Finset.card_eq_zero]
  omega

set_option maxRecDepth 4000 in
/-- File block 400 takes three of the four free blocks. -/
theorem bmap_agrees_iff_three : ∃ d w', (sfsBmap 0 400 true).run machine smallVolume = (.ok d, w') ∧
    Agrees 0 400 d smallVolume w' := by
  have h := bmap_agrees_iff 0 400 smallVolume smallVolume_ready.core.toGeo
    (smallVolume_ready.core.wellFormed smallVolume_ready.vnode) smallVolume_ready.reads
    smallVolume_ready.writes (by decide)
  have hrun : ((sfsBmap 0 400 true).run machine smallVolume).1 = .ok 6 := rfl
  rw [Prog.wp_iff] at h
  generalize (sfsBmap 0 400 true).run machine smallVolume = r at h hrun ⊢
  obtain ⟨o, w'⟩ := r
  subst hrun
  exact ⟨6, w', rfl, h.mpr (.inl (by decide +kernel))⟩

/-! ## The last block taken -/

theorem sparseVolume_filled : Filled 0 .double [1, 0] (vol smallVolume) sparseVolume := by
  have hg := smallVolume_ready.core.toGeo
  have hwf := smallVolume_ready.core.wellFormed smallVolume_ready.vnode
  have h₁ : Filled 0 .double [] (vol smallVolume) ((vol smallVolume).plant 0 .double 4) :=
    .plant hg hwf ⟨rfl, by decide⟩ rfl
  have h₂ : Filled 0 .double [1] (vol smallVolume)
      (((vol smallVolume).plant 0 .double 4).graft 0 4 1 5) :=
    h₁.graft (by decide) ⟨by decide +kernel, by decide⟩ (by decide +kernel)
  have hentry : (((vol smallVolume).plant 0 .double 4).graft 0 4 1 5).place 0 .double [1] = 5 := by
    decide +kernel
  have h₃ := h₂.graft (j := 0) (c := 6) (by decide) ⟨by decide +kernel, by decide⟩
    (by decide +kernel)
  rw [hentry] at h₃
  exact h₃

/-- The last free block of the volume goes to file block 0. The double indirect block has entry 1
and no other: file block 143 is a hole, and looking it up fails from then on. -/
theorem bmap_takes_last : WellFormed sparseVolume 0 ∧
    (sfsBmap 0 143 false).Returns (quietWorld sparseVolume) 0 ∧
    ∃ w', (sfsBmap 0 0 true).run machine (quietWorld sparseVolume) = (.ok 7, w') ∧
      (sfsBmap 0 143 false).wp ⟨fun _ _ => False, fun e _ => e = .enospc, fun _ _ => False⟩ w' ∧
      ¬ Agrees 0 0 7 (quietWorld sparseVolume) w' := by
  have hf := sparseVolume_filled
  have hpath : fbPath 0 = some (.direct 0, []) := rfl
  have hone : (vol (quietWorld sparseVolume)).free.card = 1 := by decide +kernel
  have hbefore : Hole (vol (quietWorld sparseVolume)) 0 0 :=
    ⟨by decide +kernel, by decide +kernel⟩
  have hfree : ¬ Full (vol (quietWorld sparseVolume)) := by
    rw [full_iff, ← Finset.card_eq_zero, hone]
    exact Nat.one_ne_zero
  have h : (sfsBmap 0 0 true).wp ⟨fun d w' =>
      (sfsBmap 0 143 false).wp ⟨fun _ _ => False, fun e _ => e = .enospc, fun _ _ => False⟩ w' ∧
        ¬ Agrees 0 0 d (quietWorld sparseVolume) w', fun _ _ => True, fun _ _ => False⟩
      (quietWorld sparseVolume) := by
    refine wp_sfsBmap_filled (w := quietWorld sparseVolume) hf.geo hf.wf rfl rfl hpath (.inl rfl)
      (fun w' hc hfill => ?_) fun _ _ => trivial
    have hcount := hfill.card_free rfl
    have hgap : ((vol (quietWorld sparseVolume)).gaps 0 (.direct 0) []).card = 1 := by
      decide +kernel
    have hfull : Full (vol w') := full_iff.mpr (Finset.card_eq_zero.mp (by omega))
    have hhole : Hole (vol w') 0 0 := (hfill.hole_iff hpath (by decide) 0).mpr
      ⟨hbefore.2, .inl hbefore.1, by decide⟩
    refine ⟨wp_lookup_hole (i := 0) (j := 0) hfill.geo hfill.wf (hc.writes rfl) (hc.reads rfl)
      hhole (fun hx => absurd hfull hx) fun _ _ => rfl, fun ha => ?_⟩
    rcases (hfill.agrees_iff hpath (by decide) (hc.reads rfl) (hc.writes rfl)).mp ha with hx | hx
    · exact hx hfull
    · exact hx ⟨0, hhole⟩
  refine ⟨hf.wf, ?_, ?_⟩
  · exact wp_lookup_hole (w := quietWorld sparseVolume) (i := 0)
      (j := 0) hf.geo hf.wf rfl rfl hbefore
      (fun _ _ => rfl) fun hx => absurd hx hfree
  · have hrun : ((sfsBmap 0 0 true).run machine (quietWorld sparseVolume)).1 = .ok 7 := rfl
    rw [Prog.wp_iff] at h
    generalize (sfsBmap 0 0 true).run machine (quietWorld sparseVolume) = r at h hrun ⊢
    obtain ⟨o, w'⟩ := r
    subst hrun
    exact ⟨w', rfl, h⟩

end Os161.Sfs
