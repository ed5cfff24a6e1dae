import Os161.Sfs.Lookups
import Os161.Sfs.Prune

/-! # Truncation

What the loops of `sfs_truncate` do to the tree of a file and to the free map. A truncation that
fails has only gone through the direct blocks. -/
namespace Os161.Sfs
open Os161.Lib Kern Vol

variable {v v' : Vol} {sv : Ptr} {w : World} {n : Nat}

/-! ## Giving blocks back -/

namespace Local

theorem unmarked (v : Vol) (p : Ptr) (b : Nat) : Local p v ⟨{ v.fs with
    sfsFreemap := v.fs.sfsFreemap.unmark b, sfsFreemapdirty := true }, v.disk⟩ := by
  constructor <;> intros <;> rfl

variable {fs : SfsFs} {d : Nat → Sector}

theorem modifyInode (h : Local sv v ⟨fs, d⟩) (f : SfsInode → SfsInode) :
    Local sv v ⟨fs.modifyInode sv f, d⟩ :=
  h.trans (Local.modifyVnode ⟨fs, d⟩ sv fun _ => rfl)

theorem setDirty (h : Local sv v ⟨fs, d⟩) :
    Local sv v ⟨fs.modifyVnode sv fun n => { n with svDirty := true }, d⟩ :=
  h.trans (Local.modifyVnode ⟨fs, d⟩ sv fun _ => rfl)

end Local

theorem wp_sfsBfree {b : UInt32} {Q : Post machine Unit}
    (hb : b.toNat < (vol w).fs.sfsFreemap.nbits) (hset : (vol w).isset b = true)
    (hok : Q.ok () { w with st := { w.st with fs := { w.st.fs with
      sfsFreemap := w.st.fs.sfsFreemap.unmark b.toNat, sfsFreemapdirty := true } } }) :
    (sfsBfree b).wp Q w := by
  rw [sfsBfree, Prog.wp_bind, wp_getFs]
  dsimp only
  have h : bitmapUnmark w.st.fs.sfsFreemap b.toNat = .ok (w.st.fs.sfsFreemap.unmark b.toNat) :=
    bitmapUnmark_eq hb hset
  rw [h, Prog.wp_bind, wp_ofExcept_ok]
  dsimp only
  rw [wp_modifyFs]
  exact hok

/-- A family of blocks that can be given back: those of indices in `P`, all marked, no two of
them the same. -/
structure Freeable {ι : Type} (fm : Bitmap) (d : ι → UInt32) (P : ι → Prop) : Prop where
  lt : ∀ i, P i → d i ≠ 0 → (d i).toNat < fm.nbits
  set : ∀ i, P i → d i ≠ 0 → fm.isset (d i).toNat = true
  inj : ∀ i j, P i → P j → d i ≠ 0 → d i = d j → i = j

/-- After one of them the others can still be given back. -/
theorem Freeable.unmark {ι : Type} {fm : Bitmap} {d : ι → UInt32} {P R : ι → Prop}
    (h : Freeable fm d P) {i : ι} (hi : P i) (hR : ∀ j, R j → P j ∧ j ≠ i) :
    Freeable (fm.unmark (d i).toNat) d R where
  lt j hj hz := h.lt j (hR j hj).1 hz
  set j hj hz := by
    rw [Bitmap.isset_unmark, h.set j (hR j hj).1 hz, Bool.true_and, decide_eq_true_iff]
    intro he
    exact (hR j hj).2 (h.inj j i (hR j hj).1 hi hz (UInt32.toNat_inj.mp he))
  inj j k hj hk := h.inj j k (hR j hj).1 (hR k hk).1

theorem Freeable.mono {ι : Type} {fm : Bitmap} {d : ι → UInt32} {P R : ι → Prop}
    (h : Freeable fm d P) (hR : ∀ j, R j → P j) : Freeable fm d R :=
  ⟨fun j hj => h.lt j (hR j hj), fun j hj => h.set j (hR j hj),
    fun j k hj hk => h.inj j k (hR j hj) (hR k hk)⟩

theorem Freeable.family {ι : Type} {fm : Bitmap} {d d' : ι → UInt32} {P : ι → Prop}
    (h : Freeable fm d P) (hd : ∀ i, P i → d' i = d i) : Freeable fm d' P where
  lt i hi h0 := by
    rw [hd i hi] at h0 ⊢
    exact h.lt i hi h0
  set i hi h0 := by
    rw [hd i hi] at h0 ⊢
    exact h.set i hi h0
  inj i j hi hj h0 he := by
    rw [hd i hi] at h0 he
    rw [hd j hj] at he
    exact h.inj i j hi hj h0 he

/-- The blocks of the indices in `P` were given back. -/
def Freed {ι : Type} (d : ι → UInt32) (P : ι → Prop) (fm fm' : Bitmap) : Prop :=
  fm'.nbits = fm.nbits ∧ ∀ b, fm'.isset b = true ↔
    fm.isset b = true ∧ ¬ ∃ i, P i ∧ d i ≠ 0 ∧ (d i).toNat = b

theorem Freed.none {ι : Type} {d : ι → UInt32} {P : ι → Prop} (h : ∀ i, P i → d i = 0)
    (fm : Bitmap) : Freed d P fm fm := by
  refine ⟨rfl, fun b => ⟨fun hb => ⟨hb, ?_⟩, fun hb => hb.1⟩⟩
  intro hx
  obtain ⟨i, hi, h0, -⟩ := hx
  exact h0 (h i hi)

theorem Freed.cons {ι : Type} {d : ι → UInt32} {P R : ι → Prop} {fm fm' : Bitmap} {i : ι}
    (h : Freed d R (fm.unmark (d i).toNat) fm') (h0 : d i ≠ 0) (hP : ∀ j, P j ↔ j = i ∨ R j) :
    Freed d P fm fm' := by
  refine ⟨h.1, fun b => ?_⟩
  rw [h.2 b, Bitmap.isset_unmark, Bool.and_eq_true, decide_eq_true_iff, and_assoc]
  refine and_congr_right fun _ => ⟨?_, ?_⟩
  · intro hx hy
    obtain ⟨hne, hno⟩ := hx
    obtain ⟨j, hj, hj0, he⟩ := hy
    rcases (hP j).mp hj with rfl | hj
    · exact hne he.symm
    · exact hno ⟨j, hj, hj0, he⟩
  · intro hno
    refine ⟨fun he => hno ⟨i, (hP i).mpr (.inl rfl), h0, he.symm⟩, ?_⟩
    intro hx
    obtain ⟨j, hj, hj0, he⟩ := hx
    exact hno ⟨j, (hP j).mpr (.inr hj), hj0, he⟩

theorem Freed.congr {ι : Type} {d : ι → UInt32} {P R : ι → Prop} {fm fm' : Bitmap}
    (h : Freed d P fm fm') (hP : ∀ j, d j ≠ 0 → (P j ↔ R j)) : Freed d R fm fm' := by
  refine ⟨h.1, fun b => (h.2 b).trans (and_congr_right fun _ => not_congr ?_)⟩
  refine exists_congr fun j => ⟨?_, ?_⟩
  · intro hx
    obtain ⟨hj, h0, he⟩ := hx
    exact ⟨(hP j h0).mp hj, h0, he⟩
  · intro hx
    obtain ⟨hj, h0, he⟩ := hx
    exact ⟨(hP j h0).mpr hj, h0, he⟩

theorem Freed.family {ι : Type} {d d' : ι → UInt32} {P : ι → Prop} {fm fm' : Bitmap}
    (h : Freed d P fm fm') (hd : ∀ i, P i → d' i = d i) : Freed d' P fm fm' := by
  refine ⟨h.1, fun b => (h.2 b).trans (and_congr_right fun _ => not_congr ?_)⟩
  refine exists_congr fun j => and_congr_right fun hj => ?_
  rw [hd j hj]

/-! ## The loop over the direct blocks -/

/-- The direct blocks of `is` from `n` on are gone. -/
structure DirectCut (sv : Ptr) (n : Nat) (is : List (Fin 15)) (w w' : World) : Prop where
  here : Local sv (vol w) (vol w')
  env : w'.env = w.env
  bufs : w'.st.bufs = w.st.bufs
  direct : ∀ i, (w'.st.fs.heap sv).svI.sfiDirect i =
    if i ∈ is ∧ n ≤ i.val then 0 else (w.st.fs.heap sv).svI.sfiDirect i
  root : ∀ s, 0 < s.depth → (w'.st.fs.heap sv).svI.root s = (w.st.fs.heap sv).svI.root s
  freed : Freed (w.st.fs.heap sv).svI.sfiDirect (fun i => i ∈ is ∧ n ≤ i.val)
    w.st.fs.sfsFreemap w'.st.fs.sfsFreemap

theorem wp_truncate_direct {is : List (Fin 15)} {Q : Post machine Unit} (hnodup : is.Nodup)
    (h : Freeable w.st.fs.sfsFreemap (w.st.fs.heap sv).svI.sfiDirect fun i => i ∈ is ∧ n ≤ i.val)
    (hok : ∀ w', DirectCut sv n is w w' → Q.ok () w') :
    (sfsTruncate.direct sv n is).wp Q w := by
  induction is generalizing w with
  | nil =>
    rw [sfsTruncate.direct, Prog.wp_pure]
    exact hok w ⟨.refl _ _, rfl, rfl, fun i => by simp, fun _ _ => rfl,
      .none (fun i hi => absurd hi.1 (by simp)) _⟩
  | cons i is ih =>
    obtain ⟨hi, hnodup⟩ := List.nodup_cons.mp hnodup
    rw [sfsTruncate.direct, Prog.wp_bind, wp_getVnode]
    dsimp only
    by_cases hcut : i.val ≥ n ∧ (w.st.fs.heap sv).svI.sfiDirect i ≠ 0
    · have hP : i ∈ i :: is ∧ n ≤ i.val := ⟨List.mem_cons_self, hcut.1⟩
      rw [if_pos hcut, Prog.wp_bind]
      refine wp_sfsBfree (h.lt i hP hcut.2) (h.set i hP hcut.2) ?_
      simp only [Prog.wp_bind, wp_modifyInode, wp_setDirty]
      generalize hw₁ : (⟨⟨_, w.st.bufs⟩, w.env⟩ : World) = w₁
      have hdir (j : Fin 15) : (w₁.st.fs.heap sv).svI.sfiDirect j =
          if j = i then 0 else (w.st.fs.heap sv).svI.sfiDirect j := by
        rw [← hw₁]
        simp [SfsFs.modifyInode, SfsFs.modifyVnode, SfsFs.setVnode]
      have hmap : w₁.st.fs.sfsFreemap =
          w.st.fs.sfsFreemap.unmark ((w.st.fs.heap sv).svI.sfiDirect i).toNat := by
        rw [← hw₁]
        rfl
      have hloc : Local sv (vol w) (vol w₁) := by
        rw [← hw₁]
        rw [vol_mk]
        exact ((Local.unmarked (vol w) sv _).modifyInode _).setDirty
      have henv : w₁.env = w.env := by rw [← hw₁]
      have hbufs : w₁.st.bufs = w.st.bufs := by rw [← hw₁]
      have hroot (s : Slot) (hs : 0 < s.depth) :
          (w₁.st.fs.heap sv).svI.root s = (w.st.fs.heap sv).svI.root s := by
        rw [← hw₁]
        cases s with
        | direct i => cases hs
        | _ => simp [SfsFs.modifyInode, SfsFs.modifyVnode, SfsFs.setVnode, SfsInode.root]
      clear hw₁
      have hsame (j : Fin 15) (hj : j ∈ is ∧ n ≤ j.val) :
          (w₁.st.fs.heap sv).svI.sfiDirect j = (w.st.fs.heap sv).svI.sfiDirect j := by
        rw [hdir, if_neg]
        intro hx
        obtain rfl := hx
        exact hi hj.1
      have hfree := h.unmark (R := fun j => j ∈ is ∧ n ≤ j.val) hP fun j hj =>
        ⟨⟨List.mem_cons_of_mem _ hj.1, hj.2⟩, fun he => hi (he ▸ hj.1)⟩
      rw [← hmap] at hfree
      refine ih hnodup (hfree.family hsame) fun w' hw' => hok w' ?_
      have hfreed := hw'.freed.family fun j hj => (hsame j hj).symm
      rw [hmap] at hfreed
      refine ⟨hloc.trans hw'.here, hw'.env.trans henv, hw'.bufs.trans hbufs, fun j => ?_,
        fun s hs => (hw'.root s hs).trans (hroot s hs), hfreed.cons hcut.2 fun j => ?_⟩
      · rw [hw'.direct j, hdir j]
        by_cases hj : j = i
        · subst hj
          simp [hcut.1]
        · simp [hj]
      · constructor
        · intro hx
          obtain ⟨hj, hn⟩ := hx
          rcases List.mem_cons.mp hj with rfl | hj
          · exact .inl rfl
          · exact .inr ⟨hj, hn⟩
        · intro hx
          rcases hx with rfl | hj
          · exact hP
          · exact ⟨List.mem_cons_of_mem _ hj.1, hj.2⟩
    · rw [if_neg hcut]
      have hz : n ≤ i.val → (w.st.fs.heap sv).svI.sfiDirect i = 0 := by
        intro hn
        by_contra h0
        exact hcut ⟨hn, h0⟩
      refine ih hnodup (h.mono fun j hj => ⟨List.mem_cons_of_mem _ hj.1, hj.2⟩) fun w' hw' => ?_
      refine hok w' ⟨hw'.here, hw'.env, hw'.bufs, fun j => ?_, hw'.root, ?_⟩
      · rw [hw'.direct j]
        by_cases hj : j = i
        · subst hj
          rw [if_neg fun hc => hi hc.1]
          split
          · next hc => exact hz hc.2
          · rfl
        · simp [hj]
      · refine hw'.freed.congr fun j h0 => ?_
        constructor
        · exact fun hj => ⟨List.mem_cons_of_mem _ hj.1, hj.2⟩
        · intro hx
          obtain ⟨hj, hn⟩ := hx
          rcases List.mem_cons.mp hj with rfl | hj
          · exact absurd (hz hn) h0
          · exact ⟨hj, hn⟩

/-! ## Trees that lose places -/

/-- Clearing places and giving back only blocks that were in them keeps a tree well formed. -/
theorem WellFormed.prune (h : WellFormed v sv) (hn : v'.nblocks = v.nblocks)
    (hplace : ∀ s l, l.length ≤ s.depth → v'.place sv s l = v.place sv s l ∨ v'.place sv s l = 0)
    (hset : ∀ s l, l.length ≤ s.depth → v'.place sv s l ≠ 0 →
      v.isset (v.place sv s l) = true → v'.isset (v.place sv s l) = true) :
    WellFormed v' sv := by
  have hkeep {s : Slot} {l : Path} (hl : l.length ≤ s.depth) (h0 : v'.place sv s l ≠ 0) :
      v'.place sv s l = v.place sv s l ∧ v.place sv s l ≠ 0 := by
    have := (hplace s l hl).resolve_right h0
    exact ⟨this, this ▸ h0⟩
  constructor
  · intro s l s' l' hl hl' he h0
    have h1 := hkeep hl h0
    have h2 := hkeep hl' (he ▸ h0)
    rw [h1.1, h2.1] at he
    exact h.inj s l s' l' hl hl' he h1.2
  · intro s l hl h0
    have h1 := hkeep hl h0
    rw [h1.1]
    exact hset s l hl h0 (h.marked s l hl h1.2)
  · intro s l hl h0
    have h1 := hkeep hl h0
    rw [hn, h1.1]
    exact h.range s l hl h1.2

/-- The blocks at different places of a well formed tree can be given back. -/
theorem WellFormed.freeable {ι : Type} (hb : v.nblocks ≤ v.fs.sfsFreemap.nbits)
    (h : WellFormed v sv) {s : ι → Slot} {l : ι → Path} (hl : ∀ i, (l i).length ≤ (s i).depth)
    (hinj : ∀ i j, s i = s j → l i = l j → i = j) (P : ι → Prop) :
    Freeable v.fs.sfsFreemap (fun i => v.place sv (s i) (l i)) P where
  lt i _ h0 := Nat.lt_of_lt_of_le (h.range (s i) (l i) (hl i) h0) hb
  set i _ h0 := h.marked (s i) (l i) (hl i) h0
  inj i j _ _ h0 he := by
    obtain ⟨h1, h2⟩ := h.inj (s i) (l i) (s j) (l j) (hl i) (hl j) he h0
    exact hinj i j h1 h2

theorem DirectCut.place {is : List (Fin 15)} {w' : World} (h : DirectCut sv n is w w') (s : Slot)
    (l : Path) (hl : l.length ≤ s.depth) : (vol w').place sv s l =
      if (∃ i ∈ is, s = .direct i ∧ n ≤ i.val) then 0 else (vol w).place sv s l := by
  cases s with
  | direct i =>
    obtain rfl : l = [] := List.length_eq_zero_iff.mp (Nat.le_zero.mp hl)
    rw [place_nil, place_nil]
    show (w'.st.fs.heap sv).svI.sfiDirect i = _
    rw [h.direct i]
    refine if_congr ?_ rfl rfl
    constructor
    · exact fun hc => ⟨i, hc.1, rfl, hc.2⟩
    · intro hx
      obtain ⟨j, hj, he, hn⟩ := hx
      cases he
      exact ⟨hj, hn⟩
  | _ =>
    rw [if_neg (by rintro ⟨i, -, he, -⟩; cases he)]
    refine Forest.at_congr (F := (vol w).tree sv) (G := (vol w').tree sv)
      (K := fun s => 0 < s.depth) (fun s hs => h.root s hs) ?_ _ (by decide) l hl
    intro s _ m _ _ j
    show (w'.env.disk _).word j = (w.env.disk _).word j
    rw [h.env]

/-- The loop over the direct blocks keeps a tree well formed. -/
theorem DirectCut.wellFormed {is : List (Fin 15)} {w' : World} (h : DirectCut sv n is w w')
    (hwf : WellFormed (vol w) sv) : WellFormed (vol w') sv := by
  refine hwf.prune h.here.nblocks_eq (fun s l hl => ?_) fun s l hl h0 hset => ?_
  · rw [h.place s l hl]
    split
    · exact .inr rfl
    · exact .inl rfl
  · have hp := h.place s l hl
    have hno : ¬ ∃ i ∈ is, s = .direct i ∧ n ≤ i.val := by
      intro hc
      rw [if_pos hc] at hp
      exact h0 hp
    rw [if_neg hno] at hp
    refine (h.freed.2 _).mpr ⟨hset, ?_⟩
    intro hx
    obtain ⟨i, ⟨hi, hn⟩, hz, he⟩ := hx
    have he' : (vol w).place sv (.direct i) [] = (vol w).place sv s l := UInt32.toNat_inj.mp he
    obtain ⟨rfl, -⟩ := hwf.inj (.direct i) [] s l (Nat.zero_le _) hl he' hz
    exact hno ⟨i, hi, rfl, hn⟩

/-! ## The loop over the entries of the indirect block -/

/-- The entries `js` for file blocks behind `n` are gone from the buffer. -/
structure EntriesCut (sv : Ptr) (n : Nat) (js : List (Fin 128)) (w w' : World) : Prop where
  here : Local sv (vol w) (vol w')
  env : w'.env = w.env
  root : ∀ s, (w'.st.fs.heap sv).svI.root s = (w.st.fs.heap sv).svI.root s
  idbuf : ∀ j, w'.st.bufs.idbuf j =
    if j ∈ js ∧ n < 15 + j.val then 0 else w.st.bufs.idbuf j
  freed : Freed w.st.bufs.idbuf (fun j => j ∈ js ∧ n < 15 + j.val)
    w.st.fs.sfsFreemap w'.st.fs.sfsFreemap

theorem wp_truncate_entries {js : List (Fin 128)} {hasnonzero iddirty : Bool}
    {Q : Post machine (Bool × Bool)} (hnodup : js.Nodup)
    (h : Freeable w.st.fs.sfsFreemap w.st.bufs.idbuf fun j => j ∈ js ∧ n < 15 + j.val)
    (hok : ∀ x y w', EntriesCut sv n js w w' →
      (x = true ↔ hasnonzero = true ∨ ∃ j ∈ js, ¬ n < 15 + j.val ∧ w.st.bufs.idbuf j ≠ 0) →
      (y = true ↔ iddirty = true ∨ ∃ j ∈ js, n < 15 + j.val ∧ w.st.bufs.idbuf j ≠ 0) →
      Q.ok (x, y) w') :
    (sfsTruncate.entries sv n 15 js hasnonzero iddirty).wp Q w := by
  induction js generalizing w hasnonzero iddirty with
  | nil =>
    rw [sfsTruncate.entries, Prog.wp_pure]
    refine hok _ _ w ⟨.refl _ _, rfl, fun _ => rfl, fun j => by simp,
      .none (fun j hj => absurd hj.1 (by simp)) _⟩ ?_ ?_
    · simp
    · simp
  | cons j js ih =>
    obtain ⟨hj, hnodup⟩ := List.nodup_cons.mp hnodup
    rw [sfsTruncate.entries, Prog.wp_bind, wp_getKernel]
    dsimp only
    by_cases hcut : n < 15 + j.val ∧ w.st.bufs.idbuf j ≠ 0
    · have hP : j ∈ j :: js ∧ n < 15 + j.val := ⟨List.mem_cons_self, hcut.1⟩
      rw [if_pos hcut, Prog.wp_bind]
      refine wp_sfsBfree (h.lt j hP hcut.2) (h.set j hP hcut.2) ?_
      simp only [Prog.wp_bind, wp_modifyInode, wp_modifyBufs]
      generalize hw₁ : (⟨⟨_, _⟩, w.env⟩ : World) = w₁
      have hbuf (k : Fin 128) : w₁.st.bufs.idbuf k = if k = j then 0 else w.st.bufs.idbuf k := by
        rw [← hw₁]
      have hmap : w₁.st.fs.sfsFreemap = w.st.fs.sfsFreemap.unmark (w.st.bufs.idbuf j).toNat := by
        rw [← hw₁]
        rfl
      have hloc : Local sv (vol w) (vol w₁) := by
        rw [← hw₁]
        exact (Local.unmarked (vol w) sv (w.st.bufs.idbuf j).toNat).modifyInode fun n =>
          { n with sfiBlocks := n.sfiBlocks - 1 }
      have henv : w₁.env = w.env := by rw [← hw₁]
      have hroot (s : Slot) :
          (w₁.st.fs.heap sv).svI.root s = (w.st.fs.heap sv).svI.root s := by
        rw [← hw₁]
        cases s <;> simp [SfsFs.modifyInode, SfsFs.modifyVnode, SfsFs.setVnode, SfsInode.root]
      clear hw₁
      have hother {k : Fin 128} (hk : k ∈ js) : k ≠ j := fun he => hj (he ▸ hk)
      have hsame (k : Fin 128) (hk : k ∈ js) : w₁.st.bufs.idbuf k = w.st.bufs.idbuf k := by
        rw [hbuf, if_neg (hother hk)]
      have hfree := h.unmark (R := fun k => k ∈ js ∧ n < 15 + k.val) hP fun k hk =>
        ⟨⟨List.mem_cons_of_mem _ hk.1, hk.2⟩, hother hk.1⟩
      rw [← hmap] at hfree
      refine ih hnodup (hfree.family fun k hk => hsame k hk.1) fun x y w' hw' hx hy => ?_
      have hfreed := hw'.freed.family fun k hk => (hsame k hk.1).symm
      rw [hmap] at hfreed
      refine hok x y w' ⟨hloc.trans hw'.here, hw'.env.trans henv,
        fun s => (hw'.root s).trans (hroot s), fun k => ?_, hfreed.cons hcut.2 fun k => ?_⟩ ?_ ?_
      · rw [hw'.idbuf k, hbuf k]
        by_cases hk : k = j
        · subst hk
          simp [hcut.1]
        · simp [hk]
      · constructor
        · intro hu
          obtain ⟨hk, hn⟩ := hu
          rcases List.mem_cons.mp hk with rfl | hk
          · exact .inl rfl
          · exact .inr ⟨hk, hn⟩
        · intro hu
          rcases hu with rfl | hk
          · exact hP
          · exact ⟨List.mem_cons_of_mem _ hk.1, hk.2⟩
      · rw [hx]
        refine or_congr_right ⟨?_, ?_⟩
        · intro hu
          obtain ⟨k, hk, hn, h0⟩ := hu
          rw [hsame k hk] at h0
          exact ⟨k, List.mem_cons_of_mem _ hk, hn, h0⟩
        · intro hu
          obtain ⟨k, hk, hn, h0⟩ := hu
          rcases List.mem_cons.mp hk with rfl | hk
          · exact absurd hcut.1 hn
          · exact ⟨k, hk, hn, by rwa [hsame k hk]⟩
      · rw [hy]
        refine iff_of_true (.inl rfl) (.inr ⟨j, List.mem_cons_self, hcut.1, hcut.2⟩)
    · rw [if_neg hcut]
      have hz : n < 15 + j.val → w.st.bufs.idbuf j = 0 := by
        intro hn
        by_contra h0
        exact hcut ⟨hn, h0⟩
      refine ih hnodup (h.mono fun k hk => ⟨List.mem_cons_of_mem _ hk.1, hk.2⟩)
        fun x y w' hw' hx hy => ?_
      refine hok x y w' ⟨hw'.here, hw'.env, hw'.root, fun k => ?_, hw'.freed.congr fun k h0 => ?_⟩
        ?_ ?_
      · rw [hw'.idbuf k]
        by_cases hk : k = j
        · subst hk
          rw [if_neg fun hc => hj hc.1]
          split
          · next hc => exact hz hc.2
          · rfl
        · simp [hk]
      · constructor
        · exact fun hk => ⟨List.mem_cons_of_mem _ hk.1, hk.2⟩
        · intro hu
          obtain ⟨hk, hn⟩ := hu
          rcases List.mem_cons.mp hk with rfl | hk
          · exact absurd (hz hn) h0
          · exact ⟨hk, hn⟩
      · rw [hx, Bool.or_eq_true, decide_eq_true_iff, or_assoc]
        refine or_congr_right ⟨?_, ?_⟩
        · intro hu
          rcases hu with h0 | ⟨k, hk, hn, h0⟩
          · exact ⟨j, List.mem_cons_self, fun hn => h0 (hz hn), h0⟩
          · exact ⟨k, List.mem_cons_of_mem _ hk, hn, h0⟩
        · intro hu
          obtain ⟨k, hk, hn, h0⟩ := hu
          rcases List.mem_cons.mp hk with rfl | hk
          · exact .inl h0
          · exact .inr ⟨k, hk, hn, h0⟩
      · rw [hy]
        refine or_congr_right ⟨?_, ?_⟩
        · intro hu
          obtain ⟨k, hk, hn, h0⟩ := hu
          exact ⟨k, List.mem_cons_of_mem _ hk, hn, h0⟩
        · intro hu
          obtain ⟨k, hk, hn, h0⟩ := hu
          rcases List.mem_cons.mp hk with rfl | hk
          · exact absurd (hz hn) h0
          · exact ⟨k, hk, hn, h0⟩

/-! ## The whole of `sfs_truncate` -/

/-- The places in `gone` are gone, the blocks of those in `freed` were given back, and the size
is `size`. -/
structure Cut (sv : Ptr) (gone freed : Slot → Path → Prop) (size : UInt32) (v v' : Vol) :
    Prop where
  lost : ∀ s l, l.length ≤ s.depth → gone s l → v'.place sv s l = 0
  kept : ∀ s l, l.length ≤ s.depth → ¬ gone s l → v'.place sv s l = v.place sv s l
  isset : ∀ b, v'.isset b = true ↔ v.isset b = true ∧
    ¬ ∃ s l, l.length ≤ s.depth ∧ freed s l ∧ v.place sv s l = b ∧ b ≠ 0
  size : (v'.fs.heap sv).svI.sfiSize = size

/-- Direct blocks from `n` on. -/
def DirectFrom (n : Nat) (s : Slot) (_ : Path) : Prop := ∃ i : Fin 15, s = .direct i ∧ n ≤ i.val

/-- Entries of the indirect block behind `n`: the one for `n` itself is not among them. -/
def EntryBehind (n : Nat) (s : Slot) (l : Path) : Prop :=
  ∃ j : Fin 128, s = .indirect ∧ l = [j] ∧ n < 15 + j.val

/-- The loop over the indirect block is reached. -/
def Reaches (v : Vol) (sv : Ptr) (n : Nat) : Prop := n < 142 ∧ v.place sv .indirect [] ≠ 0

/-- It keeps no entry. -/
def Drops (v : Vol) (sv : Ptr) (n : Nat) : Prop :=
  Reaches v sv n ∧ ∀ j : Fin 128, v.place sv .indirect [j] ≠ 0 → n < 15 + j.val

/-- It clears some entries and keeps others, and the write of the block meets a pending fault. -/
def WriteLost (w : World) (sv : Ptr) (n : Nat) : Prop :=
  Reaches (vol w) sv n ∧ ¬ Drops (vol w) sv n ∧
    (∃ j : Fin 128, (vol w).place sv .indirect [j] ≠ 0 ∧ n < 15 + j.val) ∧
    w.env.writeFaults.headD false = true

theorem isset_of_freed {ι : Type} {d : ι → UInt32} {P : ι → Prop} {s : ι → Slot} {l : ι → Path}
    (h : Freed d P v.fs.sfsFreemap v'.fs.sfsFreemap) (hd : ∀ i, d i = v.place sv (s i) (l i))
    (b : UInt32) : v'.isset b = true ↔
      v.isset b = true ∧ ¬ ∃ i, P i ∧ v.place sv (s i) (l i) = b ∧ b ≠ 0 := by
  refine (h.2 b.toNat).trans (and_congr_right fun _ => not_congr (exists_congr fun i => ?_))
  rw [hd i, UInt32.toNat_inj]
  refine and_congr_right fun _ => ⟨?_, ?_⟩
  · intro hx
    obtain ⟨h0, he⟩ := hx
    exact ⟨he, he ▸ h0⟩
  · intro hx
    obtain ⟨he, h0⟩ := hx
    exact ⟨he ▸ h0, he⟩

theorem DirectCut.isset {w' : World} (h : DirectCut sv n (List.finRange 15) w w') (b : UInt32) :
    (vol w').isset b = true ↔ (vol w).isset b = true ∧
      ¬ ∃ s l, l.length ≤ s.depth ∧ DirectFrom n s l ∧ (vol w).place sv s l = b ∧ b ≠ 0 := by
  have hfreed : Freed (fun i => (vol w).place sv (.direct i) [])
      (fun i => i ∈ List.finRange 15 ∧ n ≤ i.val) (vol w).fs.sfsFreemap (vol w').fs.sfsFreemap :=
    h.freed
  rw [isset_of_freed hfreed (s := Slot.direct) (l := fun _ => []) (fun _ => rfl) b]
  refine and_congr_right fun _ => not_congr ⟨?_, ?_⟩
  · intro hx
    obtain ⟨i, ⟨-, hn⟩, he⟩ := hx
    exact ⟨.direct i, [], Nat.zero_le _, ⟨i, rfl, hn⟩, he⟩
  · intro hx
    obtain ⟨s, l, hl, ⟨i, rfl, hn⟩, he⟩ := hx
    obtain rfl : l = [] := List.length_eq_zero_iff.mp (Nat.le_zero.mp hl)
    exact ⟨i, ⟨List.mem_finRange i, hn⟩, he⟩

theorem DirectCut.place_iff {w' : World} (h : DirectCut sv n (List.finRange 15) w w') (s : Slot)
    (l : Path) (hl : l.length ≤ s.depth) :
    (DirectFrom n s l → (vol w').place sv s l = 0) ∧
      (¬ DirectFrom n s l → (vol w').place sv s l = (vol w).place sv s l) := by
  have hiff : (∃ i ∈ List.finRange 15, s = .direct i ∧ n ≤ i.val) ↔ DirectFrom n s l := by
    constructor
    · intro hx
      obtain ⟨i, -, hi⟩ := hx
      exact ⟨i, hi⟩
    · intro hx
      obtain ⟨i, hi⟩ := hx
      exact ⟨i, List.mem_finRange i, hi⟩
  rw [h.place s l hl]
  refine ⟨fun hd => if_pos (hiff.mpr hd), fun hd => if_neg fun hc => hd (hiff.mp hc)⟩

/-- Setting the size changes neither places nor marks. -/
theorem place_of_fs {fs : SfsFs} {d : Nat → Sector}
    (hroot : ∀ s, (fs.heap sv).svI.root s = (v.fs.heap sv).svI.root s) (hd : d = v.disk) (s : Slot)
    (l : Path) : (⟨fs, d⟩ : Vol).place sv s l = v.place sv s l := by
  subst hd
  have htree : (⟨fs, v.disk⟩ : Vol).tree sv = v.tree sv := by
    simp only [Vol.tree, hroot]
  rw [Vol.place, htree]
  rfl

/-- What is left to do when the blocks are dealt with. -/
theorem wp_truncate_size {size : UInt32} {g k : Slot → Path → Prop}
    {Q : Post machine Unit}
    (hgone : ∀ s l, l.length ≤ s.depth → g s l → (vol w).place sv s l = 0)
    (hkept : ∀ s l, l.length ≤ s.depth → ¬ g s l → (vol w).place sv s l = v.place sv s l)
    (hisset : ∀ b, (vol w).isset b = true ↔ v.isset b = true ∧
      ¬ ∃ s l, l.length ≤ s.depth ∧ k s l ∧ v.place sv s l = b ∧ b ≠ 0)
    (hok : ∀ w', Cut sv g k size v (vol w') → Q.ok () w') :
    (Kern.modifyInode sv (fun i => { i with sfiSize := size }) >>= fun _ =>
      setDirty sv).wp Q w := by
  simp only [Prog.wp_bind, wp_modifyInode, wp_setDirty]
  refine hok _ ?_
  have hplace (s : Slot) (l : Path) : (vol ⟨⟨(w.st.fs.modifyInode sv fun i =>
      { i with sfiSize := size }).modifyVnode sv fun n => { n with svDirty := true }, w.st.bufs⟩,
      w.env⟩).place sv s l = (vol w).place sv s l := by
    refine place_of_fs (v := vol w) (fun s => ?_) rfl s l
    simp only [SfsFs.modifyInode, SfsFs.modifyVnode, SfsFs.setVnode, if_true]
    cases s <;> rfl
  refine ⟨fun s l hl hg => ?_, fun s l hl hg => ?_, hisset, ?_⟩
  · rw [hplace]
    exact hgone s l hl hg
  · rw [hplace]
    exact hkept s l hl hg
  · simp [SfsFs.modifyInode, SfsFs.modifyVnode, SfsFs.setVnode]

/-- How a truncation ends, for each way the indirect block is dealt with. -/
structure TruncateSpec (sv : Ptr) (n : Nat) (size : UInt32) (w : World) (Q : Post machine Unit) :
    Prop where
  geo : Geo (vol w)
  wf : WellFormed (vol w) sv
  short : ¬ Reaches (vol w) sv n → ∀ w',
    Cut sv (DirectFrom n) (DirectFrom n) size (vol w) (vol w') → Q.ok () w'
  drop : Drops (vol w) sv n → ∀ w',
    Cut sv (fun s l => DirectFrom n s l ∨ 0 < s.depth)
      (fun s l => DirectFrom n s l ∨ s = .indirect) size (vol w) (vol w') → Q.ok () w'
  write : Reaches (vol w) sv n → ¬ Drops (vol w) sv n → ¬ WriteLost w sv n → ∀ w',
    Cut sv (fun s l => DirectFrom n s l ∨ EntryBehind n s l)
      (fun s l => DirectFrom n s l ∨ EntryBehind n s l) size (vol w) (vol w') → Q.ok () w'
  lose : WriteLost w sv n → ∀ w',
    Cut sv (DirectFrom n) (fun s l => DirectFrom n s l ∨ EntryBehind n s l) size (vol w) (vol w') →
      Q.ok () w'
  err : Reaches (vol w) sv n → ∀ e w', WellFormed (vol w') sv → Q.err e w'
  stopped : Reaches (vol w) sv n → ∀ m w', Q.stopped m w'

section Whole

variable {size : UInt32} {Q : Post machine Unit}

theorem root_dropDouble (n : SfsInode) (s : Slot) : (if n.sfiDoubleindirect ≠ 0 then
    { n with sfiBlocks := n.sfiBlocks - 1, sfiDoubleindirect := 0 } else n).root s =
      if s = .double then 0 else n.root s := by
  split
  · cases s <;> rfl
  · next h =>
    cases s with
    | double => exact not_not.mp h
    | _ => rfl

theorem root_dropTriple (n : SfsInode) (s : Slot) : (if n.sfiTripleindirect ≠ 0 then
    { n with sfiBlocks := n.sfiBlocks - 1, sfiTripleindirect := 0 } else n).root s =
      if s = .triple then 0 else n.root s := by
  split
  · cases s <;> rfl
  · next h =>
    cases s with
    | triple => exact not_not.mp h
    | _ => rfl

theorem svI_modifyInode (fs : SfsFs) (p : Ptr) (f : SfsInode → SfsInode) :
    ((fs.modifyInode p f).heap p).svI = f (fs.heap p).svI := by
  simp only [SfsFs.modifyInode, SfsFs.modifyVnode, SfsFs.setVnode, if_true]

/-- Whatever the inode had for an indirect block, it has none afterwards. -/
theorem wp_dropIndirect {b : UInt32} {Q : Post machine Unit}
    (hb : b.toNat < (vol w).fs.sfsFreemap.nbits) (hset : (vol w).isset b = true)
    (hok : ∀ w', Local sv (vol w) (vol w') → w'.env = w.env →
      w'.st.fs.sfsFreemap = w.st.fs.sfsFreemap.unmark b.toNat →
      (∀ s, 0 < s.depth → (w'.st.fs.heap sv).svI.root s = 0) →
      (∀ i, (w'.st.fs.heap sv).svI.sfiDirect i = (w.st.fs.heap sv).svI.sfiDirect i) →
      Q.ok () w') :
    (sfsTruncate.dropIndirect sv b).wp Q w := by
  rw [sfsTruncate.dropIndirect, Prog.wp_bind]
  refine wp_sfsBfree hb hset ?_
  simp only [Prog.wp_bind, wp_modifyInode, wp_setDirty]
  have hsvi : ∀ fs : SfsFs, ((fs.modifyVnode sv fun n => { n with svDirty := true }).heap sv).svI =
      (fs.heap sv).svI := fun fs => by simp only [SfsFs.modifyVnode, SfsFs.setVnode, if_true]
  refine hok _ ?_ rfl rfl (fun s hs => ?_) fun i => ?_
  · rw [vol_mk]
    exact ((((Local.unmarked (vol w) sv _).modifyInode _).modifyInode _).modifyInode _).setDirty
  · rw [hsvi, svI_modifyInode, svI_modifyInode, svI_modifyInode, root_dropTriple, root_dropDouble]
    cases s with
    | direct i => exact absurd hs (Nat.lt_irrefl 0)
    | _ => rfl
  · show SfsInode.root _ (.direct i) = _
    rw [hsvi, svI_modifyInode, svI_modifyInode, svI_modifyInode, root_dropTriple, root_dropDouble]
    rfl

/-- A write to a block of the device, failed or not: it returns 0. -/
theorem wp_sfsWblock_faulty {data : Kernel → Sector} {b : UInt32}
    (hok : ∀ w', w'.st = w.st → w'.env.disk = (if w.env.writeFaults.headD false = true then
      w.env.disk else fun x => if x = sectorOf b then data w.st else w.env.disk x) → Q.ok () w')
    (hstop : ∀ m w', Q.stopped m w') : (sfsWblock data b).wp Q w := by
  refine wp_of_logged (l := []) (wp_sfsWblock_logged (fun _ _ => hstop _ _) fun hlt _ => ?_)
  refine hok _ rfl ?_
  have hlt : ¬ w.st.fs.dBlocks ≤ sectorOf b := Nat.not_le.mpr hlt
  have hserve : serve w.st (.write (sectorOf b) (data w.st)) w.env = _ := if_neg hlt
  show (serve w.st (.write (sectorOf b) (data w.st)) w.env).2.disk = _
  rw [hserve]
  split <;> rfl

/-- A new indirect block in place of the old one changes only the entries. -/
theorem place_entries {ind : UInt32} {f : Fin 128 → UInt32} (hwf : WellFormed v sv)
    (hroot : ∀ s, 0 < s.depth → (v'.fs.heap sv).svI.root s = (v.fs.heap sv).svI.root s)
    (hdisk : v'.disk = fun x => if x = ind.toNat then Sector.ofWords f else v.disk x)
    (hind : ind = v.place sv .indirect []) (h0 : ind ≠ 0) :
    (∀ s l, l.length ≤ s.depth → 0 < s.depth → s ≠ .indirect →
      v'.place sv s l = v.place sv s l) ∧
      v'.place sv .indirect [] = ind ∧ ∀ j, v'.place sv .indirect [j] = f j := by
  have hself : v'.place sv .indirect [] = ind := by
    rw [place_nil, hroot .indirect (by decide), hind, place_nil]
  refine ⟨fun s l hl hpos hs => ?_, hself, fun j => ?_⟩
  · refine Forest.at_congr (F := v.tree sv) (G := v'.tree sv)
      (K := fun s => 0 < s.depth ∧ s ≠ .indirect) (fun s hs => hroot s hs.1) ?_ s ⟨hpos, hs⟩ l hl
    intro s hx m hm hm0 j
    obtain ⟨-, hs⟩ := hx
    show (v'.disk (v.place sv s m).toNat).word j = (v.disk (v.place sv s m).toNat).word j
    rw [hdisk]
    dsimp only
    rw [if_neg]
    intro he
    rw [UInt32.toNat_inj, hind] at he
    exact hs (hwf.inj s m .indirect [] (Nat.le_of_lt hm) (Nat.zero_le _) he hm0).1
  · have := place_snoc v' sv .indirect [] j
    rw [List.nil_append] at this
    rw [this, hself, if_neg h0, hdisk]
    dsimp only
    rw [if_pos rfl, Sector.word_ofWords]

theorem place_entry (h0 : v.place sv .indirect [] ≠ 0) (j : Fin 128) :
    v.place sv .indirect [j] = (v.disk (v.place sv .indirect []).toNat).word j := by
  have := place_snoc v sv .indirect [] j
  rwa [List.nil_append, if_neg h0] at this

/-- The indirect block is read, and the entries behind `n` are dealt with in the buffer. -/
structure EntriesDone (sv : Ptr) (n : Nat) (w w' : World) : Prop where
  reaches : Reaches (vol w) sv n
  here : Local sv (vol w) (vol w')
  disk : w'.env.disk = w.env.disk
  faults : w'.env.writeFaults = w.env.writeFaults
  root : ∀ s, 0 < s.depth → (w'.st.fs.heap sv).svI.root s = (w.st.fs.heap sv).svI.root s
  direct : ∀ i : Fin 15, (w'.st.fs.heap sv).svI.sfiDirect i =
    if n ≤ i.val then 0 else (w.st.fs.heap sv).svI.sfiDirect i
  idbuf : ∀ j : Fin 128, w'.st.bufs.idbuf j =
    if n < 15 + j.val then 0 else (vol w).place sv .indirect [j]
  isset : ∀ b, (vol w').isset b = true ↔ (vol w).isset b = true ∧
    ¬ ∃ s l, l.length ≤ s.depth ∧ (DirectFrom n s l ∨ EntryBehind n s l) ∧
      (vol w).place sv s l = b ∧ b ≠ 0

/-- The places of the direct blocks afterwards. -/
theorem EntriesDone.place_direct {w' : World} (h : EntriesDone sv n w w') {fs : SfsFs}
    {d : Nat → Sector}
    (hroot : ∀ i, (fs.heap sv).svI.sfiDirect i = (w'.st.fs.heap sv).svI.sfiDirect i) (i : Fin 15)
    (l : Path) (hl : l.length ≤ (Slot.direct i).depth) : (⟨fs, d⟩ : Vol).place sv (.direct i) l =
      if n ≤ i.val then 0 else (vol w).place sv (.direct i) l := by
  obtain rfl : l = [] := List.length_eq_zero_iff.mp (Nat.le_zero.mp hl)
  show (fs.heap sv).svI.sfiDirect i = if n ≤ i.val then 0 else (w.st.fs.heap sv).svI.sfiDirect i
  rw [hroot, h.direct]

/-- The places below the pointer blocks while the disk stays as it is. -/
theorem EntriesDone.place_inner {w' : World} (h : EntriesDone sv n w w') {fs : SfsFs}
    {d : Nat → Sector} (hd : d = w.env.disk)
    (hroot : ∀ s, (fs.heap sv).svI.root s = (w'.st.fs.heap sv).svI.root s) (s : Slot) (l : Path)
    (hl : l.length ≤ s.depth) (hs : 0 < s.depth) :
    (⟨fs, d⟩ : Vol).place sv s l = (vol w).place sv s l := by
  refine Forest.at_congr (F := (vol w).tree sv) (G := (⟨fs, d⟩ : Vol).tree sv)
    (K := fun s => 0 < s.depth) (fun s hs => (hroot s).trans (h.root s hs)) ?_ s hs l hl
  intro s _ m _ _ j
  rw [hd]
  rfl

theorem EntriesDone.ind_set {w' : World} (h : EntriesDone sv n w w') (hwf : WellFormed (vol w) sv) :
    (vol w').isset ((vol w).place sv .indirect []) = true := by
  have h0 := h.reaches.2
  refine (h.isset _).mpr ⟨hwf.marked .indirect [] (Nat.zero_le _) h0, ?_⟩
  intro hx
  obtain ⟨s, l, hl, hg, he, -⟩ := hx
  obtain ⟨rfl, rfl⟩ := hwf.inj s l .indirect [] hl (Nat.zero_le _) he (he ▸ h0)
  rcases hg with ⟨i, hi, -⟩ | ⟨j, -, hj, -⟩
  · cases hi
  · cases hj

theorem indirect_path {l : Path} (hl : l.length ≤ Slot.indirect.depth) :
    l = [] ∨ ∃ j, l = [j] := by
  cases l with
  | nil => exact .inl rfl
  | cons j l =>
    obtain rfl : l = [] := List.length_eq_zero_iff.mp (Nat.le_zero.mp (Nat.le_of_succ_le_succ hl))
    exact .inr ⟨j, rfl⟩

section Rest

variable {w' w₅ : World}

namespace EntriesDone

/-! Whatever is done to the disk after the loops, as long as the state stays. -/

theorem direct_same (h : EntriesDone sv n w w') (hst : w₅.st = w'.st) (i : Fin 15) (l : Path)
    (hl : l.length ≤ (Slot.direct i).depth) : (vol w₅).place sv (.direct i) l =
      if n ≤ i.val then 0 else (vol w).place sv (.direct i) l :=
  h.place_direct (fun i => by rw [hst]) i l hl

theorem inner (h : EntriesDone sv n w w') (hst : w₅.st = w'.st)
    (hdisk : w₅.env.disk = w.env.disk) (s : Slot) (l : Path) (hl : l.length ≤ s.depth)
    (hs : 0 < s.depth) : (vol w₅).place sv s l = (vol w).place sv s l :=
  h.place_inner hdisk (fun s => by rw [hst]) s l hl hs

theorem isset_same (h : EntriesDone sv n w w') (hst : w₅.st = w'.st) (b : UInt32) :
    (vol w₅).isset b = true ↔ (vol w).isset b = true ∧
      ¬ ∃ s l, l.length ≤ s.depth ∧ (DirectFrom n s l ∨ EntryBehind n s l) ∧
        (vol w).place sv s l = b ∧ b ≠ 0 := by
  rw [← h.isset b]
  show w₅.st.fs.sfsFreemap.isset _ = true ↔ w'.st.fs.sfsFreemap.isset _ = true
  rw [hst]

theorem gone (h : EntriesDone sv n w w') (hst : w₅.st = w'.st)
    (hent : ∀ j : Fin 128, n < 15 + j.val → (vol w₅).place sv .indirect [j] = 0) (s : Slot)
    (l : Path) (hl : l.length ≤ s.depth) (hg : DirectFrom n s l ∨ EntryBehind n s l) :
    (vol w₅).place sv s l = 0 := by
  rcases hg with ⟨i, rfl, hn⟩ | ⟨j, rfl, rfl, hn⟩
  · rw [h.direct_same hst i l hl, if_pos hn]
  · exact hent j hn

theorem kept_direct (h : EntriesDone sv n w w') (hst : w₅.st = w'.st) (s : Slot) (l : Path)
    (hl : l.length ≤ s.depth) (hs : ¬ 0 < s.depth) (hg : ¬ DirectFrom n s l) :
    (vol w₅).place sv s l = (vol w).place sv s l := by
  cases s with
  | direct i => rw [h.direct_same hst i l hl, if_neg fun hn => hg ⟨i, rfl, hn⟩]
  | indirect => exact absurd (by decide) hs
  | double => exact absurd (by decide) hs
  | triple => exact absurd (by decide) hs

theorem kept (h : EntriesDone sv n w w') (hst : w₅.st = w'.st)
    (hent : ∀ j : Fin 128, ¬ n < 15 + j.val →
      (vol w₅).place sv .indirect [j] = (vol w).place sv .indirect [j])
    (hroot : (vol w₅).place sv .indirect [] = (vol w).place sv .indirect [])
    (hdeep : ∀ s l, l.length ≤ s.depth → 0 < s.depth → s ≠ .indirect →
      (vol w₅).place sv s l = (vol w).place sv s l) (s : Slot)
    (l : Path) (hl : l.length ≤ s.depth) (hg : ¬ (DirectFrom n s l ∨ EntryBehind n s l)) :
    (vol w₅).place sv s l = (vol w).place sv s l := by
  by_cases hpos : 0 < s.depth
  · by_cases hs : s = .indirect
    · subst hs
      rcases indirect_path hl with rfl | ⟨j, rfl⟩
      · exact hroot
      · exact hent j fun hn => hg (.inr ⟨j, rfl, rfl, hn⟩)
    · exact hdeep s l hl hpos hs
  · exact h.kept_direct hst s l hl hpos fun hd => hg (.inl hd)

end EntriesDone

variable {fin : Kern Unit} (h : TruncateSpec sv n size w Q) (hd : EntriesDone sv n w w')
  (hfin : fin = (Kern.modifyInode sv (fun i => { i with sfiSize := size }) >>= fun _ =>
    setDirty sv))
include h hd hfin

/-- Some entries are cleared and others kept: the indirect block is written back. -/
theorem wp_truncate_written (hnot : ¬ Drops (vol w) sv n)
    (hentry : ∃ j : Fin 128, n < 15 + j.val ∧ (vol w).place sv .indirect [j] ≠ 0) :
    (sfsWblock (fun k => Sector.ofWords k.bufs.idbuf) ((vol w).place sv .indirect []) >>=
      fun _ => fin).wp Q w' := by
  subst hfin
  have h0 := hd.reaches.2
  have hlt : ((vol w).place sv .indirect []).toNat < 2 ^ 22 := by
    have h1 := h.wf.range .indirect [] (Nat.zero_le _) h0
    have h2 := h.geo.device
    have h3 := h.geo.offsets
    omega
  rw [Prog.wp_bind]
  refine wp_sfsWblock_faulty (fun w₅ hst hdisk => ?_) fun m w₅ => h.stopped hd.reaches m w₅
  rw [hd.faults, sectorOf_of_lt hlt] at hdisk
  dsimp only
  by_cases hfault : w.env.writeFaults.headD false = true
  · rw [if_pos hfault, hd.disk] at hdisk
    have hlost : WriteLost w sv n := by
      obtain ⟨j, hn, hj⟩ := hentry
      exact ⟨hd.reaches, hnot, ⟨j, hj, hn⟩, hfault⟩
    refine wp_truncate_size (v := vol w) (g := DirectFrom n)
      (k := fun s l => DirectFrom n s l ∨ EntryBehind n s l) ?_ ?_ (hd.isset_same hst)
      (h.lose hlost)
    · intro s l hl hx
      obtain ⟨i, rfl, hn⟩ := hx
      rw [hd.direct_same hst i l hl, if_pos hn]
    · intro s l hl hg
      by_cases hpos : 0 < s.depth
      · exact hd.inner hst hdisk s l hl hpos
      · exact hd.kept_direct hst s l hl hpos hg
  · rw [if_neg hfault, hd.disk] at hdisk
    have hroots (s : Slot) (hs : 0 < s.depth) :
        ((vol w₅).fs.heap sv).svI.root s = ((vol w).fs.heap sv).svI.root s := by
      show (w₅.st.fs.heap sv).svI.root s = _
      rw [hst, hd.root s hs]
      rfl
    have hdisk₅ : (vol w₅).disk = fun x => if x = ((vol w).place sv .indirect []).toNat then
        Sector.ofWords w'.st.bufs.idbuf else (vol w).disk x := hdisk
    obtain ⟨hdeep, hroot, hent⟩ := place_entries h.wf hroots hdisk₅ rfl h0
    refine wp_truncate_size (v := vol w)
      (g := fun s l => DirectFrom n s l ∨ EntryBehind n s l)
      (k := fun s l => DirectFrom n s l ∨ EntryBehind n s l) (hd.gone hst fun j hn => ?_)
      (hd.kept hst (fun j hn => ?_) hroot hdeep) (hd.isset_same hst)
      (h.write hd.reaches hnot fun hc => hfault hc.2.2.2)
    · rw [hent, hd.idbuf, if_pos hn]
    · rw [hent, hd.idbuf, if_neg hn]

/-- No entry is cleared: the indirect block stays as it is. -/
theorem wp_truncate_clean (hnot : ¬ Drops (vol w) sv n)
    (hclean : ∀ j : Fin 128, n < 15 + j.val → (vol w).place sv .indirect [j] = 0) :
    fin.wp Q w' := by
  subst hfin
  refine wp_truncate_size (v := vol w)
    (g := fun s l => DirectFrom n s l ∨ EntryBehind n s l)
    (k := fun s l => DirectFrom n s l ∨ EntryBehind n s l) (hd.gone rfl fun j hn => ?_)
    (hd.kept rfl (fun j _ => ?_) ?_ ?_) (hd.isset_same rfl) (h.write hd.reaches hnot ?_)
  · rw [hd.inner rfl hd.disk .indirect [j] (Nat.le_refl 1) (by decide), hclean j hn]
  · exact hd.inner rfl hd.disk .indirect [j] (Nat.le_refl 1) (by decide)
  · exact hd.inner rfl hd.disk .indirect [] (Nat.zero_le _) (by decide)
  · exact fun s l hl hs _ => hd.inner rfl hd.disk s l hl hs
  · intro hx
    obtain ⟨-, -, ⟨j, hj, hn⟩, -⟩ := hx
    exact hj (hclean j hn)

/-- No entry is kept: the indirect block is given up. -/
theorem wp_truncate_dropped (hdrop : Drops (vol w) sv n) :
    (sfsTruncate.dropIndirect sv ((vol w).place sv .indirect []) >>= fun _ => fin).wp Q w' := by
  subst hfin
  have h0 := hd.reaches.2
  have hb : ((vol w).place sv .indirect []).toNat < (vol w').fs.sfsFreemap.nbits := by
    rw [hd.here.nbits]
    exact Nat.lt_of_lt_of_le (h.wf.range .indirect [] (Nat.zero_le _) h0) h.geo.le_nbits
  rw [Prog.wp_bind]
  refine wp_dropIndirect hb (hd.ind_set h.wf) fun w₅ hloc henv hmap hzero hdir => ?_
  refine wp_truncate_size (v := vol w) (g := fun s l => DirectFrom n s l ∨ 0 < s.depth)
    (k := fun s l => DirectFrom n s l ∨ s = .indirect) ?_ ?_ ?_ (h.drop hdrop)
  · intro s l hl hx
    rcases hx with ⟨i, rfl, hn⟩ | hs
    · rw [vol, hd.place_direct hdir i l hl, if_pos hn]
    · exact Forest.at_append_of_zero (F := (vol w₅).tree sv) (k := s) (p := []) (hzero s hs) l
  · intro s l hl hg
    cases s with
    | direct i => rw [vol, hd.place_direct hdir i l hl, if_neg fun hn => hg (.inl ⟨i, rfl, hn⟩)]
    | indirect => exact absurd (.inr (by decide)) hg
    | double => exact absurd (.inr (by decide)) hg
    | triple => exact absurd (.inr (by decide)) hg
  · intro b
    have hunmark : (vol w₅).isset b = true ↔
        (vol w').isset b = true ∧ b ≠ (vol w).place sv .indirect [] := by
      show w₅.st.fs.sfsFreemap.isset b.toNat = true ↔ _
      rw [hmap, Bitmap.isset_unmark, Bool.and_eq_true, decide_eq_true_iff]
      exact and_congr_right fun _ => not_congr UInt32.toNat_inj
    rw [hunmark, hd.isset b, and_assoc]
    refine and_congr_right fun _ => ⟨?_, ?_⟩
    · intro hx hy
      obtain ⟨hno, hne⟩ := hx
      obtain ⟨s, l, hl, hg | rfl, he, hb0⟩ := hy
      · exact hno ⟨s, l, hl, .inl hg, he, hb0⟩
      · rcases indirect_path hl with rfl | ⟨j, rfl⟩
        · exact hne he.symm
        · exact hno ⟨_, _, hl, .inr ⟨j, rfl, rfl, hdrop.2 j (he ▸ hb0)⟩, he, hb0⟩
    · intro hno
      refine ⟨?_, fun he => hno ⟨.indirect, [], Nat.zero_le _, .inr rfl, he.symm, he ▸ h0⟩⟩
      intro hx
      obtain ⟨s, l, hl, hg | ⟨j, rfl, rfl, -⟩, he, hb0⟩ := hx
      · exact hno ⟨s, l, hl, .inl hg, he, hb0⟩
      · exact hno ⟨_, _, hl, .inr rfl, he, hb0⟩

theorem wp_truncate_rest {hasnonzero iddirty : Bool}
    (hx : hasnonzero = true ↔ ∃ j : Fin 128, ¬ n < 15 + j.val ∧ (vol w).place sv .indirect [j] ≠ 0)
    (hy : iddirty = true ↔
      ∃ j : Fin 128, n < 15 + j.val ∧ (vol w).place sv .indirect [j] ≠ 0) :
    (if ¬ hasnonzero = true then
        sfsTruncate.dropIndirect sv ((vol w).place sv .indirect []) >>= fun _ => fin
      else if iddirty = true then
        sfsWblock (fun k => Sector.ofWords k.bufs.idbuf) ((vol w).place sv .indirect []) >>=
          fun _ => fin
      else fin).wp Q w' := by
  have hdrops : Drops (vol w) sv n ↔ ¬ hasnonzero = true := by
    rw [hx]
    constructor
    · intro hz hu
      obtain ⟨-, hall⟩ := hz
      obtain ⟨j, hn, hj⟩ := hu
      exact hn (hall j hj)
    · exact fun hno => ⟨hd.reaches, fun j hj => by_contra fun hn => hno ⟨j, hn, hj⟩⟩
  by_cases hdrop : hasnonzero = true
  · have hnot : ¬ Drops (vol w) sv n := fun hc => hdrops.mp hc hdrop
    rw [if_neg (not_not.mpr hdrop)]
    by_cases hdirty : iddirty = true
    · rw [if_pos hdirty]
      exact wp_truncate_written h hd hfin hnot (hy.mp hdirty)
    · rw [if_neg hdirty]
      exact wp_truncate_clean h hd hfin hnot fun j hn =>
        by_contra fun hj => hdirty (hy.mpr ⟨j, hn, hj⟩)
  · rw [if_pos hdrop]
    exact wp_truncate_dropped h hd hfin (hdrops.mpr hdrop)

end Rest

theorem wp_sfsTruncate {len : Int}
    (h : TruncateSpec sv (truncBlocklen len) (UInt32.ofNat (u32 len)) w Q) :
    (sfsTruncate sv len).wp Q w := by
  generalize hn : truncBlocklen len = n at h
  rw [sfsTruncate]
  simp only [hn, sfsNdirect, sfsDbperidb]
  rw [Prog.wp_bind]
  have hfree := h.wf.freeable h.geo.le_nbits (s := Slot.direct) (l := fun _ => [])
    (fun _ => Nat.zero_le _) (fun i j he _ => Slot.direct.inj he)
    fun i => i ∈ List.finRange 15 ∧ n ≤ i.val
  refine wp_truncate_direct (List.nodup_finRange 15) hfree fun w₁ hcut => ?_
  dsimp only
  rw [Prog.wp_bind, wp_getVnode]
  dsimp only
  have hind : (w₁.st.fs.heap sv).svI.sfiIndirect = (vol w).place sv .indirect [] :=
    hcut.root .indirect (by decide)
  rw [hind]
  by_cases hr : n < 15 + 128 - 1 ∧ (vol w).place sv .indirect [] ≠ 0
  · rw [if_pos hr, Prog.wp_bind]
    have hr' : Reaches (vol w) sv n := hr
    have hwf₁ := hcut.wellFormed h.wf
    have hframe := readsOnly_sfsRblock (v := vol w₁)
      ((vol w).place sv .indirect []) w₁ ⟨rfl, rfl⟩
    refine (hframe.and (wp_sfsRblock_sector w₁ _)).mono ?_ ?_ fun m w' _ => h.stopped hr' m w'
    · intro x w₂ hz
      obtain ⟨⟨⟨hv, hf⟩, -⟩, hx, -, -⟩ := hz
      have hlt : ((vol w).place sv .indirect []).toNat < 2 ^ 22 := by
        have h1 := h.wf.range .indirect [] (Nat.zero_le _) hr.2
        have h2 := h.geo.device
        have h3 := h.geo.offsets
        omega
      have hdisk₁ : (vol w₁).disk = (vol w).disk := congrArg Device.disk hcut.env
      rw [sectorOf_of_lt hlt, hdisk₁] at hx
      have hword (j : Fin 128) : x.words j = (vol w).place sv .indirect [j] := by
        rw [place_entry hr.2, hx]
        rfl
      have hword₁ (j : Fin 128) : (vol w₁).place sv .indirect [j] = x.words j := by
        rw [hword, hcut.place .indirect [j] (Nat.le_refl 1), if_neg]
        intro hz
        obtain ⟨i, -, he, -⟩ := hz
        cases he
      dsimp only
      rw [Prog.wp_bind, wp_modifyBufs]
      dsimp only
      rw [Prog.wp_bind]
      generalize hw₃ : (⟨⟨w₂.st.fs, _⟩, w₂.env⟩ : World) = w₃
      have hfs₃ : w₃.st.fs = w₁.st.fs := by
        rw [← hw₃]
        exact congrArg Vol.fs hv
      have hbuf₃ : w₃.st.bufs.idbuf = x.words := by rw [← hw₃]
      have henv₃ : w₃.env.disk = w.env.disk ∧ w₃.env.writeFaults = w.env.writeFaults := by
        rw [← hw₃]
        refine ⟨?_, ?_⟩
        · exact (congrArg Vol.disk hv).trans hdisk₁
        · exact hf.trans (congrArg Device.writeFaults hcut.env)
      clear hw₃
      have hbits : (vol w₁).nblocks ≤ (vol w₁).fs.sfsFreemap.nbits := by
        rw [hcut.here.nblocks_eq, hcut.here.nbits]
        exact h.geo.le_nbits
      have hfree₁ := (hwf₁.freeable hbits (s := fun _ : Fin 128 => Slot.indirect)
        (l := fun j => [j]) (fun _ => Nat.le_refl 1) (fun i j _ he => by simpa using he)
        fun j => j ∈ List.finRange 128 ∧ n < 15 + j.val).family fun j _ => (hword₁ j).symm
      have hfm₃ : (vol w₁).fs.sfsFreemap = w₃.st.fs.sfsFreemap := by
        rw [hfs₃]
        rfl
      rw [hfm₃] at hfree₁
      refine wp_truncate_entries (List.nodup_finRange 128) ?_ fun x' y w₄ hcut' hx' hy => ?_
      · rw [hbuf₃]
        exact hfree₁
      dsimp only
      refine wp_truncate_rest h ?_ rfl ?_ ?_
      · have hloc : Local sv (vol w₁) (vol w₃) := by
          have hfs : (vol w₃).fs = (vol w₁).fs := hfs₃
          constructor <;> intros <;> rw [hfs]
        refine ⟨hr', (hcut.here.trans hloc).trans hcut'.here, ?_, ?_, fun s hs => ?_, fun i => ?_,
          fun j => ?_, fun b => ?_⟩
        · rw [hcut'.env, henv₃.1]
        · rw [hcut'.env, henv₃.2]
        · rw [hcut'.root, hfs₃, hcut.root s hs]
        · have := hcut'.root (.direct i)
          rw [hfs₃] at this
          rw [show (w₄.st.fs.heap sv).svI.sfiDirect i = _ from this]
          show (w₁.st.fs.heap sv).svI.sfiDirect i = _
          rw [hcut.direct i]
          simp
        · rw [hcut'.idbuf j, hbuf₃, hword j]
          simp
        · have h₁ : (vol w₃).isset b = (vol w₁).isset b := by
            show w₃.st.fs.sfsFreemap.isset _ = w₁.st.fs.sfsFreemap.isset _
            rw [hfs₃]
          refine (hcut'.freed.2 b.toNat).trans ?_
          rw [show w₃.st.fs.sfsFreemap.isset b.toNat = _ from h₁, hcut.isset b, and_assoc, ← not_or]
          refine and_congr_right fun _ => not_congr ⟨?_, ?_⟩
          · intro hz
            rcases hz with ⟨s, l, hl, hg, he⟩ | ⟨j, ⟨-, hn⟩, h0, he⟩
            · exact ⟨s, l, hl, .inl hg, he⟩
            · rw [hbuf₃, hword] at h0 he
              have he := UInt32.toNat_inj.mp he
              exact ⟨.indirect, [j], Nat.le_refl 1, .inr ⟨j, rfl, rfl, hn⟩, he, he ▸ h0⟩
          · intro hz
            obtain ⟨s, l, hl, hg | ⟨j, rfl, rfl, hn⟩, he, h0⟩ := hz
            · exact .inl ⟨s, l, hl, hg, he, h0⟩
            · refine .inr ⟨j, ⟨List.mem_finRange j, hn⟩, ?_⟩
              rw [hbuf₃, hword]
              exact ⟨he ▸ h0, congrArg UInt32.toNat he⟩
      · rw [hx']
        simp only [hbuf₃, hword, List.mem_finRange, true_and, Bool.false_eq_true, false_or]
      · rw [hy]
        simp only [hbuf₃, hword, List.mem_finRange, true_and, Bool.false_eq_true, false_or]
    · intro e w₂ hz
      obtain ⟨⟨⟨hv, -⟩, -⟩, -⟩ := hz
      refine h.err hr' e w₂ ?_
      rw [hv]
      exact hcut.wellFormed h.wf
  · rw [if_neg hr]
    refine wp_truncate_size (v := vol w) (g := DirectFrom n) (k := DirectFrom n) ?_ ?_
      hcut.isset (h.short hr)
    · exact fun s l hl => (hcut.place_iff s l hl).1
    · exact fun s l hl => (hcut.place_iff s l hl).2

end Whole

end Os161.Sfs
