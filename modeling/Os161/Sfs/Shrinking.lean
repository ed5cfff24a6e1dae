import Os161.Sfs.Truncation

/-! # Shrinking a file

A truncation that fails leaves everything marked that still has a place. One that succeeds does
what it should exactly if no mapped block is the first behind the new end in the indirect block or
beyond that block, no tree is given up together with the indirect block, and the write of the
indirect block does not fail. -/
namespace Os161.Sfs
open Os161.Lib Kern Vol

variable {v v' : Vol} {sv : Ptr} {w : World} {n fb : Nat} {s : Slot} {l : Path} {len : Int}

/-! ## A file with one far block -/

/-- A file of which only file block 142 is mapped, the last one of the indirect block. -/
def cutVolume : Vol := ((vol smallVolume).plant 0 .indirect 4).graft 0 4 127 5

def cutWorld : World :=
  ⟨⟨cutVolume.fs, smallVolume.st.bufs⟩, { smallVolume.env with disk := cutVolume.disk }⟩

theorem cutVolume_filled : Filled 0 .indirect [127] (vol smallVolume) cutVolume := by
  have hg := smallVolume_ready.core.toGeo
  have hwf := smallVolume_ready.core.wellFormed smallVolume_ready.vnode
  have h₀ : Fresh (vol smallVolume) 4 := ⟨rfl, by decide⟩
  have h₁ : Filled 0 .indirect [] (vol smallVolume) ((vol smallVolume).plant 0 .indirect 4) :=
    .plant hg hwf h₀ rfl
  have h₂ : Fresh ((vol smallVolume).plant 0 .indirect 4) 5 := ⟨by decide, by decide⟩
  have hhole : (vol smallVolume).place 0 .indirect ([] ++ [127]) = 0 := place_snoc_of_zero rfl 127
  refine h₁.graft Nat.one_pos h₂ ?_
  show ((vol smallVolume).plant 0 .indirect 4).place 0 .indirect [127] = 0
  rw [plant_place hwf h₀ rfl .indirect [127] (Nat.le_refl 1), if_neg (by simp)]
  exact hhole

/-! ## Failing truncations -/

/-- When `sfs_truncate` fails, every block that still has a place in the file is marked. -/
theorem truncate_fails_marked (sv : Ptr) (len : Int) (w : World) (hg : Geo (vol w))
    (hwf : WellFormed (vol w) sv) :
    (sfsTruncate sv len).wp ⟨fun _ _ => True, fun _ w' => ∀ s l, l.length ≤ s.depth →
      (vol w').place sv s l ≠ 0 → (vol w').isset ((vol w').place sv s l) = true,
      fun _ _ => True⟩ w :=
  wp_sfsTruncate ⟨hg, hwf, fun _ _ _ => trivial, fun _ _ _ => trivial, fun _ _ _ _ _ => trivial,
    fun _ _ _ => trivial, fun _ _ _ h => h.marked, fun _ _ _ => trivial⟩

/-- The same volume behind a disk that refuses the next eleven reads. -/
def refusingWorld : World :=
  { cutWorld with env := { cutWorld.env with readFaults := List.replicate 11 true } }

/-- Cut to nothing: the indirect block cannot be read, and what it leads to keeps its mark. -/
theorem truncate_fails_marked_refused : ∃ w',
    (sfsTruncate 0 0).run machine refusingWorld = (.err .eio, w') ∧
    ∀ s l, l.length ≤ s.depth → (vol w').place 0 s l ≠ 0 →
      (vol w').isset ((vol w').place 0 s l) = true := by
  have h := truncate_fails_marked 0 0 refusingWorld cutVolume_filled.geo cutVolume_filled.wf
  have hrun : ((sfsTruncate 0 0).run machine refusingWorld).1 = .err .eio := rfl
  rw [Prog.wp_iff] at h
  generalize (sfsTruncate 0 0).run machine refusingWorld = r at h hrun ⊢
  obtain ⟨o, w'⟩ := r
  subst hrun
  exact ⟨w', rfl, h⟩

/-! ## What a truncation should do -/

/-- A block with a place in the file. -/
def Placed (v : Vol) (sv : Ptr) (b : UInt32) : Prop :=
  ∃ s l, l.length ≤ s.depth ∧ v.place sv s l = b ∧ b ≠ 0

/-- A pointer block that is left has an entry left, if it had one. -/
def NoneEmptied (sv : Ptr) (v v' : Vol) : Prop :=
  ∀ s l, l.length < s.depth → v'.place sv s l ≠ 0 → (∃ j, v.place sv s (l ++ [j]) ≠ 0) →
    ∃ j, v'.place sv s (l ++ [j]) ≠ 0

/-- A file cut to `len` bytes: the blocks given back are those that lost their place, and a
pointer block that lost its last entry lost its place too. -/
structure Truncated (sv : Ptr) (len : Int) (v v' : Vol) : Prop where
  unmapped : ∀ fb : Nat, len ≤ fb * 512 → v'.mapped sv fb = 0
  kept : ∀ fb : Nat, fb * 512 < len → v'.mapped sv fb = v.mapped sv fb
  size : ((v'.fs.heap sv).svI.sfiSize.toNat : Int) = len
  cleared : ∀ b, v'.isset b = true ↔
    v.isset b = true ∧ ¬ (Placed v sv b ∧ ¬ Placed v' sv b)
  emptied : NoneEmptied sv v v'

/-- A cut is right if it takes the places behind the new end, and gives back what it takes. -/
theorem Cut.truncated {gone freed : Slot → Path → Prop} {size : UInt32}
    (hc : Cut sv gone freed size v v') (hwf : WellFormed v sv) (hsize : (size.toNat : Int) = len) :
    Truncated sv len v v' ↔
      (∀ fb s l, fbPath fb = some (s, l) → v.place sv s l ≠ 0 →
        (gone s l ↔ len ≤ (fb : Int) * 512)) ∧
      (∀ s l, l.length ≤ s.depth → v.place sv s l ≠ 0 → (gone s l ↔ freed s l)) ∧
      NoneEmptied sv v v' := by
  have hback {s : Slot} {l : Path} (hl : l.length ≤ s.depth) (h0 : v'.place sv s l ≠ 0) :
      ¬ gone s l ∧ v'.place sv s l = v.place sv s l := by
    have hg : ¬ gone s l := fun hg => h0 (hc.lost s l hl hg)
    exact ⟨hg, hc.kept s l hl hg⟩
  have hplaced {s : Slot} {l : Path} (hl : l.length ≤ s.depth) (h0 : v.place sv s l ≠ 0) :
      Placed v' sv (v.place sv s l) ↔ ¬ gone s l := by
    constructor
    · intro hy
      obtain ⟨t, m, hm, he, -⟩ := hy
      have hb' : v'.place sv t m ≠ 0 := by
        rw [he]
        exact h0
      obtain ⟨hg, hk⟩ := hback hm hb'
      have he' : v.place sv t m = v.place sv s l := hk.symm.trans he
      obtain ⟨rfl, rfl⟩ := hwf.inj t m s l hm hl he' (by rw [he']; exact h0)
      exact hg
    · exact fun hg => ⟨s, l, hl, hc.kept s l hl hg, h0⟩
  have hfreed {s : Slot} {l : Path} (hl : l.length ≤ s.depth) (h0 : v.place sv s l ≠ 0) :
      v'.isset (v.place sv s l) = true ↔ ¬ freed s l := by
    rw [hc.isset, and_iff_right (hwf.marked s l hl h0)]
    refine not_congr ⟨?_, fun hf => ⟨s, l, hl, hf, rfl, h0⟩⟩
    intro hy
    obtain ⟨t, m, hm, hf, he, -⟩ := hy
    obtain ⟨rfl, rfl⟩ := hwf.inj t m s l hm hl he (he ▸ h0)
    exact hf
  constructor
  · intro h
    refine ⟨fun fb s l hp h0 => ?_, fun s l hl h0 => ?_, h.emptied⟩
    · have hl := Nat.le_of_eq (fbPath_length hp)
      constructor
      · intro hg
        by_contra hn
        have := h.kept fb (by omega)
        rw [mapped_of_path hp, mapped_of_path hp, hc.lost s l hl hg] at this
        exact h0 this.symm
      · intro hle
        by_contra hg
        have := h.unmapped fb hle
        rw [mapped_of_path hp, hc.kept s l hl hg] at this
        exact h0 this
    · have hcl := h.cleared (v.place sv s l)
      rw [hfreed hl h0, and_iff_right (hwf.marked s l hl h0), hplaced hl h0, not_not] at hcl
      constructor
      · intro hg
        by_contra hf
        exact hcl.mp hf ⟨⟨s, l, hl, rfl, h0⟩, hg⟩
      · intro hf
        by_contra hg
        exact hcl.mpr (fun hx => hg hx.2) hf
  · intro hy
    obtain ⟨hpath, hgf, hempty⟩ := hy
    refine ⟨fun fb hle => ?_, fun fb hlt => ?_, hc.size ▸ hsize, fun b => ?_, hempty⟩
    · cases hp : fbPath fb with
      | none => simp [Vol.mapped, hp]
      | some k =>
        have hl := Nat.le_of_eq (fbPath_length hp)
        rw [mapped_of_path hp]
        by_cases h0 : v.place sv k.1 k.2 = 0
        · by_contra hne
          exact hne ((hback hl hne).2.trans h0)
        · exact hc.lost _ _ hl ((hpath fb _ _ hp h0).mpr hle)
    · cases hp : fbPath fb with
      | none => simp [Vol.mapped, hp]
      | some k =>
        have hl := Nat.le_of_eq (fbPath_length hp)
        rw [mapped_of_path hp, mapped_of_path hp]
        by_cases h0 : v.place sv k.1 k.2 = 0
        · rw [h0]
          by_contra hne
          exact hne ((hback hl hne).2.trans h0)
        · refine hc.kept _ _ hl fun hg => ?_
          have := (hpath fb _ _ hp h0).mp hg
          omega
    · by_cases hp : Placed v sv b
      · obtain ⟨s, l, hl, rfl, h0⟩ := hp
        rw [hfreed hl h0, and_iff_right (hwf.marked s l hl h0), hplaced hl h0, not_not,
          ← hgf s l hl h0]
        exact not_congr ⟨fun hg => ⟨⟨s, l, hl, rfl, h0⟩, hg⟩, fun hx => hx.2⟩
      · rw [hc.isset b]
        refine and_congr_right fun _ => iff_of_true ?_ fun hx => hp hx.1
        intro hy
        obtain ⟨s, l, hl, -, he, hb⟩ := hy
        exact hp ⟨s, l, hl, he, hb⟩

/-! ## File blocks and their places -/

theorem fbPath_direct (i : Fin 15) : fbPath i.val = some (.direct i, []) := by
  rw [fbPath, dif_pos i.isLt]

theorem fbPath_indirect (j : Fin 128) : fbPath (15 + j.val) = some (.indirect, [j]) := by
  have hj := j.isLt
  rw [fbPath, dif_neg (by omega)]
  dsimp only
  rw [if_pos (by omega)]
  congr 3
  ext
  simp only [Fin.ofNat]
  omega

theorem place_of_mapped (h : v.mapped sv fb ≠ 0) :
    ∃ s l, fbPath fb = some (s, l) ∧ v.place sv s l ≠ 0 := by
  cases hp : fbPath fb with
  | none => exact absurd (by rw [mapped, hp]) h
  | some r => exact ⟨r.1, r.2, rfl, by rwa [mapped_of_path hp] at h⟩

/-- In which tree a file block lies. -/
theorem fbPath_tree (h : fbPath fb = some (s, l)) :
    (∃ i : Fin 15, s = .direct i ∧ l = [] ∧ fb = i.val) ∨
      (∃ j : Fin 128, s = .indirect ∧ l = [j] ∧ fb = 15 + j.val) ∨
      143 ≤ fb ∧ (s = .double ∨ s = .triple) := by
  by_cases h1 : fb < 15
  · have := fbPath_direct ⟨fb, h1⟩
    rw [h] at this
    cases this
    exact .inl ⟨⟨fb, h1⟩, rfl, rfl, rfl⟩
  by_cases h2 : fb < 143
  · have := fbPath_indirect ⟨fb - 15, by omega⟩
    rw [show 15 + (⟨fb - 15, by omega⟩ : Fin 128).val = fb by simp only; omega, h] at this
    cases this
    exact .inr (.inl ⟨⟨fb - 15, by omega⟩, rfl, rfl, by simp only; omega⟩)
  · refine .inr (.inr ⟨by omega, ?_⟩)
    unfold fbPath at h
    rw [dif_neg h1] at h
    dsimp only at h
    rw [if_neg (by omega)] at h
    split at h
    · cases h
      exact .inl rfl
    split at h
    · cases h
      exact .inr rfl
    · cases h

theorem truncBlocklen_le (h0 : 0 ≤ len) (h1 : len < 2 ^ 31) (hfb : fb < bufferLimit) :
    truncBlocklen len ≤ fb ↔ len ≤ (fb : Int) * 512 := by
  simp only [bufferLimit, doubleLimit] at hfb
  rw [truncBlocklen]
  simp only [sfsBlocksize]
  by_cases hsmall : len + 511 < 2 ^ 31
  · rw [i32_eq (by omega) (by omega), Int.tdiv_eq_ediv_of_nonneg (by omega),
      u32_eq (by omega) (by omega)]
    omega
  · -- the sum wraps around, and the block count is beyond every file block
    have hi : i32 (len + (512 : Nat) - 1) = -(2 ^ 32 - 511 - len) := by
      unfold i32
      split <;> omega
    have hq : (2 ^ 32 - 511 - len).tdiv (512 : Nat) = (2 ^ 32 - 511 - len) / 512 :=
      Int.tdiv_eq_ediv_of_nonneg (by omega)
    rw [hi, Int.neg_tdiv, hq, u32]
    omega

/-- The truncation deals with everything behind the new end: of the blocks from the new end on
only direct ones are mapped, or, if it looks at the indirect block, entries of that other than the
first; and no other tree goes with the indirect block. -/
def CutsRight (v : Vol) (sv : Ptr) (n : Nat) : Prop :=
  (∀ fb, n ≤ fb → v.mapped sv fb ≠ 0 → fb < 15 ∨ n < 142 ∧ fb < 143 ∧ fb ≠ n) ∧
    (Drops v sv n → v.place sv .double [] = 0 ∧ v.place sv .triple [] = 0)

section Cases

variable {size : UInt32} (hsize : (size.toNat : Int) = len) (hwf : WellFormed v sv)
  (hlen : ∀ fb < bufferLimit, n ≤ fb ↔ len ≤ (fb : Int) * 512)
include hsize hwf hlen

omit hsize hwf in
theorem behind_iff (h : fbPath fb = some (s, l)) : len ≤ (fb : Int) * 512 ↔ n ≤ fb :=
  (hlen fb (fbPath_lt h)).symm

theorem truncated_short (hc : Cut sv (DirectFrom n) (DirectFrom n) size v v')
    (hno : ¬ Reaches v sv n) : Truncated sv len v v' ↔ CutsRight v sv n := by
  rw [hc.truncated hwf hsize]
  constructor
  · intro hx
    obtain ⟨hpath, -, -⟩ := hx
    refine ⟨fun fb hn h0 => ?_, fun hd => absurd hd.1 hno⟩
    cases hp : fbPath fb with
    | none => simp [Vol.mapped, hp] at h0
    | some k =>
      rw [mapped_of_path hp] at h0
      obtain ⟨i, hi, -⟩ := (hpath fb _ _ hp h0).mpr ((behind_iff hlen hp).mpr hn)
      rcases fbPath_tree hp with ⟨i, -, -, he⟩ | ⟨j, hj, -⟩ | ⟨-, hj | hj⟩
      · exact .inl (he ▸ i.isLt)
      all_goals
        rw [hi] at hj
        cases hj
  · intro hcr
    refine ⟨fun fb s l hp h0 => ?_, fun _ _ _ _ => Iff.rfl, ?_⟩
    · rw [behind_iff hlen hp]
      constructor
      · intro hx
        obtain ⟨i, rfl, hn⟩ := hx
        rcases fbPath_tree hp with ⟨i', he, -, hi⟩ | ⟨j, hj, -⟩ | ⟨-, hj | hj⟩
        · cases he
          omega
        all_goals cases hj
      · intro hn
        have hm := hcr.1 fb hn (by rwa [mapped_of_path hp])
        rcases fbPath_tree hp with ⟨i, rfl, -, hi⟩ | ⟨j, rfl, rfl, hj⟩ | ⟨hge, -⟩
        · exact ⟨i, rfl, hi ▸ hn⟩
        · refine absurd ⟨?_, place_ne_zero_above (List.prefix_append [] [j]) h0⟩ hno
          omega
        · omega
    · intro s l hl h0 hex
      obtain ⟨j, hj⟩ := hex
      refine ⟨j, ?_⟩
      rw [hc.kept s _ (Filled.snoc_le hl j)]
      · exact hj
      · intro hx
        obtain ⟨i, rfl, -⟩ := hx
        exact absurd hl (Nat.not_lt_zero _)

theorem truncated_drop (hc : Cut sv (fun s l => DirectFrom n s l ∨ 0 < s.depth)
    (fun s l => DirectFrom n s l ∨ s = .indirect) size v v') (hd : Drops v sv n) :
    Truncated sv len v v' ↔ CutsRight v sv n := by
  rw [hc.truncated hwf hsize]
  have hdeep {s : Slot} {l : Path} (hs : s = .double ∨ s = .triple)
      (hz : v.place sv .double [] = 0 ∧ v.place sv .triple [] = 0) : v.place sv s l = 0 := by
    rcases hs with rfl | rfl
    · exact Forest.at_append_of_zero (F := v.tree sv) (k := .double) (p := []) hz.1 l
    · exact Forest.at_append_of_zero (F := v.tree sv) (k := .triple) (p := []) hz.2 l
  have hn := hd.1.1
  constructor
  · intro hx
    obtain ⟨-, hgf, -⟩ := hx
    have hz : v.place sv .double [] = 0 ∧ v.place sv .triple [] = 0 := by
      constructor
      · by_contra h0
        rcases (hgf .double [] (Nat.zero_le _) h0).mp (.inr (by decide)) with ⟨i, hi, -⟩ | hi <;>
          cases hi
      · by_contra h0
        rcases (hgf .triple [] (Nat.zero_le _) h0).mp (.inr (by decide)) with ⟨i, hi, -⟩ | hi <;>
          cases hi
    refine ⟨fun fb _ h0 => ?_, fun _ => hz⟩
    cases hp : fbPath fb with
    | none => simp [Vol.mapped, hp] at h0
    | some k =>
      rw [mapped_of_path hp] at h0
      rcases fbPath_tree hp with ⟨i, -, -, he⟩ | ⟨j, hs, hl, he⟩ | ⟨-, hs⟩
      · exact .inl (he ▸ i.isLt)
      · rw [hs, hl] at h0
        have := hd.2 j h0
        have := j.isLt
        exact .inr ⟨hn, by omega, by omega⟩
      · exact absurd (hdeep hs hz) h0
  · intro hx
    obtain ⟨-, hz⟩ := hx
    replace hz := hz hd
    refine ⟨fun fb s l hp h0 => ?_, fun s l hl h0 => or_congr_right ?_, ?_⟩
    · rw [behind_iff hlen hp]
      rcases fbPath_tree hp with ⟨i, rfl, -, rfl⟩ | ⟨j, rfl, rfl, rfl⟩ | ⟨-, hs⟩
      · constructor
        · intro hx
          rcases hx with ⟨i', hi, hle⟩ | hpos
          · cases hi
            exact hle
          · exact absurd hpos (Nat.lt_irrefl 0)
        · exact fun hle => .inl ⟨i, rfl, hle⟩
      · exact iff_of_true (.inr (by decide)) (Nat.le_of_lt (hd.2 j h0))
      · exact absurd (hdeep hs hz) h0
    · cases s with
      | direct i => exact iff_of_false (by simp [Slot.depth]) (by simp)
      | indirect => exact iff_of_true (by decide) rfl
      | double => exact absurd (hdeep (.inl rfl) hz) h0
      | triple => exact absurd (hdeep (.inr rfl) hz) h0
    · intro s l hl h0
      exact absurd (hc.lost s l (Nat.le_of_lt hl) (.inr (Nat.zero_lt_of_lt hl))) h0

theorem truncated_write (hc : Cut sv (fun s l => DirectFrom n s l ∨ EntryBehind n s l)
    (fun s l => DirectFrom n s l ∨ EntryBehind n s l) size v v') (hr : Reaches v sv n)
    (hd : ¬ Drops v sv n) : Truncated sv len v v' ↔ CutsRight v sv n := by
  rw [hc.truncated hwf hsize]
  constructor
  · intro hx
    obtain ⟨hpath, -, -⟩ := hx
    refine ⟨fun fb hn h0 => ?_, fun hd' => absurd hd' hd⟩
    cases hp : fbPath fb with
    | none => simp [Vol.mapped, hp] at h0
    | some k =>
      rw [mapped_of_path hp] at h0
      have hg := (hpath fb _ _ hp h0).mpr ((behind_iff hlen hp).mpr hn)
      rcases fbPath_tree hp with ⟨i, -, -, he⟩ | ⟨j, hs, hl, he⟩ | ⟨-, hs⟩
      · exact .inl (he ▸ i.isLt)
      · rw [hs, hl] at hg
        rcases hg with ⟨i, hi, -⟩ | ⟨j', -, hj, hlt⟩
        · cases hi
        · cases hj
          have := j.isLt
          exact .inr ⟨hr.1, by omega, by omega⟩
      · rcases hg with ⟨i, hi, -⟩ | ⟨j', hi, -⟩ <;> rcases hs with hs | hs <;>
          rw [hi] at hs <;> cases hs
  · intro hcr
    refine ⟨fun fb s l hp h0 => ?_, fun _ _ _ _ => Iff.rfl, ?_⟩
    · rw [behind_iff hlen hp]
      constructor
      · intro hx
        rcases hx with ⟨i, rfl, hle⟩ | ⟨j, rfl, rfl, hlt⟩
        · rcases fbPath_tree hp with ⟨i', he, -, hi⟩ | ⟨j, hj, -⟩ | ⟨-, hj | hj⟩
          · cases he
            omega
          all_goals cases hj
        · have := fbPath_inj hp (fbPath_indirect j)
          omega
      · intro hn
        have hm := hcr.1 fb hn (by rwa [mapped_of_path hp])
        rcases fbPath_tree hp with ⟨i, rfl, -, hi⟩ | ⟨j, rfl, rfl, hj⟩ | ⟨hge, -⟩
        · exact .inl ⟨i, rfl, hi ▸ hn⟩
        · exact .inr ⟨j, rfl, rfl, by omega⟩
        · omega
    · intro s l hl h0 hex
      by_cases hs : s = .indirect ∧ l = []
      · obtain ⟨rfl, rfl⟩ := hs
        -- an entry that kept the block alive is still there
        have hkeep : ∃ j : Fin 128, v.place sv .indirect [j] ≠ 0 ∧ ¬ n < 15 + j.val := by
          by_contra hno
          exact hd ⟨hr, fun j hj => by_contra fun hn => hno ⟨j, hj, hn⟩⟩
        obtain ⟨j, hj, hn⟩ := hkeep
        refine ⟨j, ?_⟩
        show v'.place sv .indirect [j] ≠ 0
        rw [hc.kept .indirect [j] (Nat.le_refl 1)]
        · exact hj
        · intro hx
          rcases hx with ⟨i, hi, -⟩ | ⟨j', -, he, hlt⟩
          · cases hi
          · cases he
            exact hn hlt
      · obtain ⟨j, hj⟩ := hex
        refine ⟨j, ?_⟩
        rw [hc.kept s _ (Filled.snoc_le hl j)]
        · exact hj
        · intro hx
          rcases hx with ⟨i, rfl, -⟩ | ⟨j', rfl, he, -⟩
          · exact absurd hl (Nat.not_lt_zero _)
          · exact hs ⟨rfl, by simpa using congrArg List.length he⟩

omit hlen in
theorem not_truncated_lose (hc : Cut sv (DirectFrom n)
    (fun s l => DirectFrom n s l ∨ EntryBehind n s l) size v v')
    (hj : ∃ j : Fin 128, v.place sv .indirect [j] ≠ 0 ∧ n < 15 + j.val) :
    ¬ Truncated sv len v v' := by
  rw [hc.truncated hwf hsize]
  intro hx
  obtain ⟨-, hgf, -⟩ := hx
  obtain ⟨j, h0, hlt⟩ := hj
  obtain ⟨i, hi, -⟩ := (hgf .indirect [j] (Nat.le_refl 1) h0).mpr (.inr ⟨j, rfl, rfl, hlt⟩)
  cases hi

end Cases

/-- A truncation that returns 0 has done what it should if and only if the length is not negative,
it deals with everything behind the new end and its write of the indirect block met no fault. -/
theorem truncated_iff (sv : Ptr) (len : Int) (w : World) (hg : Geo (vol w))
    (hwf : WellFormed (vol w) sv) (h1 : len < 2 ^ 31) :
    (sfsTruncate sv len).wp ⟨fun _ w' => Truncated sv len (vol w) (vol w') ↔
      0 ≤ len ∧ CutsRight (vol w) sv (truncBlocklen len) ∧ ¬ WriteLost w sv (truncBlocklen len),
      fun _ _ => True, fun _ _ => True⟩ w := by
  by_cases h0 : 0 ≤ len
  · have hlen (fb : Nat) (hfb : fb < bufferLimit) :
        truncBlocklen len ≤ fb ↔ len ≤ (fb : Int) * 512 := truncBlocklen_le h0 h1 hfb
    have hsize : ((UInt32.ofNat (u32 len)).toNat : Int) = len := by
      rw [u32_eq h0 (by omega), UInt32.toNat_ofNat']
      omega
    refine wp_sfsTruncate ⟨hg, hwf, ?_, ?_, ?_, ?_, fun _ _ _ _ => trivial, fun _ _ _ => trivial⟩
    · intro hno w' hc
      dsimp only
      rw [truncated_short hsize hwf hlen hc hno, and_iff_right h0]
      exact (and_iff_left fun hl => hno hl.1).symm
    · intro hd w' hc
      dsimp only
      rw [truncated_drop hsize hwf hlen hc hd, and_iff_right h0]
      exact (and_iff_left fun hl => hl.2.1 hd).symm
    · intro hr hd hl w' hc
      dsimp only
      rw [truncated_write hsize hwf hlen hc hr hd, and_iff_right h0]
      exact (and_iff_left hl).symm
    · intro hl w' hc
      exact iff_of_false (not_truncated_lose hsize hwf hc hl.2.2.1) fun h => h.2.2 hl
  · -- a negative length is no size
    refine Prog.wp_any (fun _ w' => iff_of_false (fun h => ?_) fun h => h0 h.1)
      (fun _ _ => trivial) fun _ _ => trivial
    have := h.size
    omega

theorem smallVolume_place (s : Slot) (l : Path) : (vol smallVolume).place 0 s l = 0 := by
  induction l using List.reverseRecOn with
  | nil => cases s <;> rfl
  | append_singleton l j ih => exact place_snoc_of_zero ih j

set_option maxRecDepth 4000 in
/-- Cut to 100 blocks the file loses its only block, and its indirect block with it. -/
theorem truncated_iff_far : ∃ w', (sfsTruncate 0 51200).run machine cutWorld = (.ok (), w') ∧
    Truncated 0 51200 (vol cutWorld) (vol w') := by
  have hf := cutVolume_filled
  have hblocks : truncBlocklen 51200 = 100 := by decide
  have hright : CutsRight (vol cutWorld) 0 (truncBlocklen 51200) := by
    have hsame (s : Slot) (l : Path) (hl : l.length ≤ s.depth)
        (hno : ¬ (s = .indirect ∧ l <+: [127])) : (vol cutWorld).place 0 s l = 0 :=
      (hf.same s l hl hno).trans (smallVolume_place s l)
    rw [hblocks]
    refine ⟨fun fb _ h0 => ?_, fun _ => ⟨hsame .double [] (Nat.zero_le _) (by simp),
      hsame .triple [] (Nat.zero_le _) (by simp)⟩⟩
    obtain ⟨s, l, hp, h0⟩ := place_of_mapped h0
    have hpath := fun hno => h0 (hsame s l (fbPath_length hp).le hno)
    rcases fbPath_tree hp with ⟨i, rfl, rfl, hi⟩ | ⟨j, rfl, rfl, hj⟩ | ⟨-, rfl | rfl⟩
    · exact .inl (hi ▸ i.isLt)
    · refine .inr ⟨by decide, by omega, fun he => hpath fun hx => ?_⟩
      have := hx.2
      simp at this
      omega
    · exact (hpath (by simp)).elim
    · exact (hpath (by simp)).elim
  have hwrite : ¬ WriteLost cutWorld 0 (truncBlocklen 51200) := fun h => absurd h.2.2.2 (by decide)
  have h := truncated_iff 0 51200 cutWorld hf.geo hf.wf (by decide)
  have hrun : ((sfsTruncate 0 51200).run machine cutWorld).1 = .ok () := rfl
  rw [Prog.wp_iff] at h
  generalize (sfsTruncate 0 51200).run machine cutWorld = r at h hrun ⊢
  obtain ⟨o, w'⟩ := r
  subst hrun
  exact ⟨w', rfl, h.mpr ⟨by decide, hright, hwrite⟩⟩

/-! ## A block that stays -/

/-- File block 142 is not cut off. -/
theorem truncate_leaves_last : ¬ (sfsTruncate 0 (142 * 512)).wp ⟨fun _ w' =>
    Truncated 0 (142 * 512) (vol cutWorld) (vol w'), fun _ _ => True, fun _ _ => True⟩
      cutWorld := by
  intro h
  have hblocks : truncBlocklen (142 * 512) = 142 := by decide
  have hno : ¬ Reaches (vol cutWorld) 0 (truncBlocklen (142 * 512)) := by
    rw [hblocks]
    exact fun hr => absurd hr.1 (Nat.lt_irrefl 142)
  have hpath : fbPath 142 = some (.indirect, [127]) := fbPath_indirect 127
  have hf := cutVolume_filled
  have hwrong : (sfsTruncate 0 (142 * 512)).wp ⟨fun _ w' =>
      ¬ Truncated 0 (142 * 512) (vol cutWorld) (vol w'), fun _ _ => False, fun _ _ => False⟩
        cutWorld := by
    refine wp_sfsTruncate ⟨hf.geo, hf.wf, fun _ w' hc ht => ?_, fun hd => absurd hd.1 hno,
      fun hr => absurd hr hno, fun hl => absurd hl.1 hno, fun hr => absurd hr hno,
      fun hr => absurd hr hno⟩
    have h0 := ht.unmapped 142 (Int.le_refl _)
    rw [mapped_of_path hpath, hc.kept .indirect [127] (Nat.le_refl 1)] at h0
    · exact hf.there h0
    · intro hy
      obtain ⟨i, hi, -⟩ := hy
      cases hi
  obtain ⟨_, _, -, ht, hn⟩ := Prog.ok_of_wp ((h.and hwrong).mono (fun _ _ hx => hx)
    (fun _ _ hx => hx.2) fun _ _ hx => hx.2)
  exact hn ht

end Os161.Sfs
