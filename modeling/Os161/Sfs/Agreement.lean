import Os161.Sfs.BlockTree
import Os161.Sfs.BmapPaths

/-! # Allocation and lookup agree

`sfs_bmap` with allocation fills in the path to one file block, and a lookup
finds what the path leads to. -/
namespace Os161.Sfs
open Os161.Lib Kern Vol

variable {sv : Ptr} {s : Slot} {l m : Path} {b : UInt32} {w : World} {v : Vol} {fb lv : Nat}
  {doalloc : Bool} {Q : Post machine UInt32}

/-- The buffer holds the block at a place of the file in `sv`. -/
structure At (sv : Ptr) (s : Slot) (l : Path) (b : UInt32) (w : World) : Prop where
  eq : b = (vol w).place sv s l
  buf : w.st.bufs.blockbuf = ((vol w).disk b.toNat).words

theorem At.entry (h : At sv s l b w) (h0 : (vol w).place sv s l ≠ 0) (j : Fin 128) :
    w.st.bufs.blockbuf j = (vol w).place sv s (l ++ [j]) := by
  rw [place_snoc, if_neg h0, ← h.eq, h.buf]
  rfl

theorem WellFormed.addressable (h : WellFormed (vol w) sv) (hg : Geo (vol w))
    (hl : l.length ≤ s.depth) (h0 : (vol w).place sv s l ≠ 0) :
    Addressable ((vol w).place sv s l) (vol w).fs :=
  hg.addressable (h.range s l hl h0)

/-! ## The walk -/

/-- Reading the block at a place into the buffer. -/
theorem wp_loadbuffer_at {level : Nat} (hf : Filled sv s l v (vol w)) (hl : l.length ≤ s.depth)
    (hr : w.env.readFaults = [])
    (hok : ∀ w', Calm w w' → vol w' = vol w → At sv s l ((vol w).place sv s l) w' →
      Q.ok ((vol w).place sv s l) w') :
    (loadbuffer sv lv ((vol w).place sv s l) ((vol w).place sv s l) level).wp Q w := by
  refine wp_loadbuffer_load hf.there (hf.wf.addressable hf.geo hl hf.there) ?_ ?_
  · intro w' hc hv hb
    exact hok w' hc hv ⟨by rw [hv], by rw [hv]; exact hb⟩
  · exact fun w' _ h0 => absurd hr h0

theorem wp_descend_at (hf : Filled sv s l v (vol w)) (hl : l.length ≤ s.depth)
    (hr : w.env.readFaults = [])
    (hok : ∀ w', Calm w w' → vol w' = vol w → At sv s l ((vol w).place sv s l) w' →
      Q.ok ((vol w).place sv s l) w') :
    (descend sv lv ((vol w).place sv s l)).wp Q w := by
  simp only [descend, Prog.wp_bind, wp_modifyBufs]
  let w₀ : World := ⟨⟨w.st.fs, { w.st.bufs with blockbuf := fun _ => 0 }⟩, w.env⟩
  refine wp_loadbuffer_at (w := w₀) (s := s) (l := l) (v := v) hf hl hr ?_
  exact fun w' hc hv hat => hok w' ⟨hc.reads, hc.writes, hc.mem⟩ hv hat

theorem wp_getBlock_filled {j : Fin 128} (hf : Filled sv s l v (vol w)) (hat : At sv s l b w)
    (hl : l.length < s.depth) (hw : w.env.writeFaults = [])
    (hneed : doalloc = true ∨ v.place sv s (l ++ [j]) ≠ 0)
    (hok : ∀ w', Calm w w' → Filled sv s (l ++ [j]) v (vol w') →
      Q.ok ((vol w').place sv s (l ++ [j])) w')
    (herr : doalloc = true → Q.err .enospc w) : (getBlock sv doalloc b j).wp Q w := by
  have hentry := hat.entry hf.there j
  have haddr := hf.wf.addressable hf.geo (Nat.le_of_lt hl) hf.there
  rw [← hat.eq] at haddr
  refine wp_getBlock_entry hf.geo hw haddr hat.buf ?_ ?_ ?_
  · intro hfound
    have h0 : (vol w).place sv s (l ++ [j]) ≠ 0 := by
      intro hz
      have hd := hfound (hentry.trans hz)
      refine hneed.resolve_left (by simp [hd]) ?_
      rw [← hf.same s (l ++ [j]) (Filled.snoc_le hl j) fun he => Filled.not_prefix he.2, hz]
    rw [hentry]
    exact hok w (.refl w) (hf.down hl h0)
  · intro _ hz c w' hc hcalm hg
    have h0 := hentry.symm.trans hz
    have hgr := hf.graft hl hc h0
    have hself := graft_place hf.wf hc hl hf.there
      (by rwa [place_snoc, if_neg hf.there] at h0) s (l ++ [j]) (Filled.snoc_le hl j)
    rw [if_pos ⟨rfl, rfl⟩] at hself
    rw [← hat.eq, ← hg] at hgr hself
    have := hok w' hcalm hgr
    rwa [hself] at this
  · exact fun hd _ => herr hd

theorem wp_walkAlong_filled (hf : Filled sv s l v (vol w)) (hat : At sv s l b w) (hm : m ≠ [])
    (hl : (l ++ m).length ≤ s.depth) (hw : w.env.writeFaults = []) (hr : w.env.readFaults = [])
    (hneed : doalloc = true ∨ v.place sv s (l ++ m) ≠ 0)
    (hok : ∀ w', Calm w w' → Filled sv s (l ++ m) v (vol w') →
      Q.ok ((vol w').place sv s (l ++ m)) w')
    (herr : doalloc = true → ∀ w', Q.err .enospc w') :
    (walkAlong sv doalloc lv b (m.map Fin.val)).wp Q w := by
  induction m generalizing l b w with
  | nil => exact absurd rfl hm
  | cons j m ih =>
    have hsplit : l ++ j :: m = (l ++ [j]) ++ m := by simp
    rw [hsplit] at hneed hok hl
    have hlt : l.length < s.depth := by
      simp only [List.length_append, List.length_singleton] at hl
      omega
    have hneed' : doalloc = true ∨ v.place sv s (l ++ [j]) ≠ 0 :=
      hneed.imp_right (place_ne_zero_above (List.prefix_append _ _))
    cases m with
    | nil =>
      simp only [List.append_nil] at hok
      exact wp_getBlock_filled hf hat hlt hw hneed' hok fun hd => herr hd _
    | cons k m =>
      show (getBlock sv doalloc b j >>= fun block => descend sv lv block >>=
        fun idblock => walkAlong sv doalloc lv idblock ((k :: m).map Fin.val)).wp Q w
      rw [Prog.wp_bind]
      refine wp_getBlock_filled hf hat hlt hw hneed' ?_ fun hd => herr hd _
      intro w' hc hf'
      dsimp only
      rw [Prog.wp_bind]
      refine wp_descend_at hf' (Filled.snoc_le hlt j) (hc.reads hr) ?_
      intro w'' hc' hv hat'
      rw [← hv] at hf'
      have hcalm := hc.trans hc'
      refine ih hf' hat' (by simp) hl (hcalm.writes hw) (hcalm.reads hr) hneed ?_
      exact fun w₃ hc₃ hf₃ => hok w₃ (hcalm.trans hc₃) hf₃

/-- In an empty buffer a lookup finds nothing on any level. -/
theorem wp_walkAlong_empty (hm : m ≠ []) (hg : Geo (vol w)) (hw : w.env.writeFaults = [])
    (hbuf : w.st.bufs.blockbuf = fun _ => 0) (hok : ∀ w', Q.ok 0 w')
    (herr : ∀ w', Q.err .enospc w') : (walkAlong sv false lv b (m.map Fin.val)).wp Q w := by
  induction m generalizing b w with
  | nil => exact absurd rfl hm
  | cons j m ih =>
    cases m with
    | nil => exact wp_getBlock_empty hbuf (fun _ => hok w) fun hn => absurd j.isLt hn
    | cons k m =>
      show (getBlock sv false b j >>= fun block => descend sv lv block >>=
        fun idblock => walkAlong sv false lv idblock ((k :: m).map Fin.val)).wp Q w
      rw [Prog.wp_bind]
      refine wp_getBlock_empty hbuf ?_ fun hn => absurd j.isLt hn
      intro _
      simp only [Prog.wp_bind, descend, wp_modifyBufs]
      refine wp_loadbuffer_leak (by simpa using hg) hw ?_ fun _ => herr _
      intro c w' hc hcalm hv hb
      simp only [vol_mk, vol_eta] at hc hv
      refine ih (by simp) ?_ (hcalm.writes hw) hb
      rw [hv]
      exact hg.mark (.leak _ sv c) rfl

/-- A lookup of a place that is missing finds no block. -/
theorem wp_walkAlong_missing (hf : Filled sv s l (vol w) (vol w)) (hat : At sv s l b w)
    (hm : m ≠ []) (hl : (l ++ m).length ≤ s.depth) (hw : w.env.writeFaults = [])
    (hr : w.env.readFaults = []) (h0 : (vol w).place sv s (l ++ m) = 0) (hok : ∀ w', Q.ok 0 w')
    (herr : ∀ w', Q.err .enospc w') : (walkAlong sv false lv b (m.map Fin.val)).wp Q w := by
  induction m generalizing l b w with
  | nil => exact absurd rfl hm
  | cons j m ih =>
    have hsplit : l ++ j :: m = (l ++ [j]) ++ m := by simp
    rw [hsplit] at h0 hl
    have hlt : l.length < s.depth := by
      simp only [List.length_append, List.length_singleton] at hl
      omega
    have haddr := hf.wf.addressable hf.geo (Nat.le_of_lt hlt) hf.there
    rw [← hat.eq] at haddr
    have hentry := hat.entry hf.there j
    have hget {R : Post machine UInt32} (h : R.ok ((vol w).place sv s (l ++ [j])) w) :
        (getBlock sv false b j).wp R w := by
      refine wp_getBlock_entry hf.geo hw haddr hat.buf ?_ ?_ ?_
      · intro _
        rwa [hentry]
      · exact fun hd => by cases hd
      · exact fun hd => by cases hd
    cases m with
    | nil =>
      rw [List.append_nil] at h0
      refine hget ?_
      rw [h0]
      exact hok w
    | cons k m =>
      show (getBlock sv false b j >>= fun block => descend sv lv block >>=
        fun idblock => walkAlong sv false lv idblock ((k :: m).map Fin.val)).wp Q w
      rw [Prog.wp_bind]
      refine hget ?_
      dsimp only
      rw [Prog.wp_bind]
      by_cases hz : (vol w).place sv s (l ++ [j]) = 0
      · rw [hz]
        simp only [Prog.wp_bind, descend, wp_modifyBufs]
        refine wp_loadbuffer_leak (by simpa using hf.geo) hw ?_ fun _ => herr _
        intro c w' hc hcalm hv hb
        simp only [vol_mk, vol_eta] at hc hv
        refine wp_walkAlong_empty (by simp) ?_ (hcalm.writes hw) hb hok herr
        rw [hv]
        exact hf.geo.mark (.leak _ sv c) rfl
      · have hf' := Filled.nothing hf.geo hf.wf hz
        refine wp_descend_at hf' (Filled.snoc_le hlt j) hr ?_
        intro w' hc hv hat'
        exact ih (by rw [hv]; exact hf') hat' (by simp) hl (hc.writes hw) (hc.reads hr)
          (by rw [hv]; exact h0)

/-! ## The whole of `sfs_bmap` -/

/-- The walk starts at the pointer and follows the subscripts of the file
block. -/
theorem visits_of_path (h : fbPath fb = some (s, l)) : visits fb = (s, l.map Fin.val) := by
  unfold fbPath at h
  dsimp only at h
  by_cases h1 : fb < 15
  · rw [dif_pos h1] at h
    cases h
    rw [visits, dif_pos h1, List.map_nil]
  rw [dif_neg h1] at h
  by_cases h2 : fb - 15 < 128
  · rw [if_pos h2] at h
    cases h
    rw [visits, dif_neg h1, if_neg (by omega), if_neg (by omega)]
    rfl
  rw [if_neg h2] at h
  by_cases h3 : fb - 15 < 128 * 128 + 128
  · rw [if_pos h3] at h
    cases h
    have : (fb - 15 - 128) / 128 % 128 = (fb - 15 - 128) / 128 := by omega
    rw [visits, dif_neg h1, if_neg (by omega), if_pos (by omega)]
    simp [subscripts, sfsDbperidb, Fin.ofNat, this]
  rw [if_neg h3] at h
  split at h
  · next h4 =>
    cases h
    have h5 : (fb - 15 - (128 * 128 - 128)) / 128 % 128 = (fb - 15 - (128 * 128 - 128)) / 128 := by
      omega
    have h6 : (fb - 15 - (128 * 128 - 128)) / (128 * 128) = 0 := by omega
    rw [visits, dif_neg h1, if_pos (by omega)]
    simp only [subscripts, sfsDbperidb, Fin.ofNat, OfNat.ofNat_ne_one, Nat.reduceEqDiff, if_false,
      List.map_cons, List.map_nil, h5, h6]
    rfl
  · cases h

theorem fbPath_of_lt (h : fb < bufferLimit) : ∃ s l, fbPath fb = some (s, l) := by
  simp only [bufferLimit, doubleLimit] at h
  unfold fbPath
  dsimp only
  split
  · exact ⟨_, _, rfl⟩
  split
  · exact ⟨_, _, rfl⟩
  split
  · exact ⟨_, _, rfl⟩
  rw [if_pos (by omega)]
  exact ⟨_, _, rfl⟩

theorem Accepted.of_lt (h : fb < bufferLimit) : Accepted fb := by
  simp only [bufferLimit, doubleLimit] at h
  simp only [Accepted]
  omega

/-- Beyond the direct blocks a file block is below a pointer block. -/
theorem fbPath_inner (h : fbPath fb = some (s, l)) (hfb : ¬ fb < 15) : 0 < s.depth ∧ l ≠ [] := by
  have hpos : 0 < s.depth := by
    have hvis := congrArg Prod.fst (visits_of_path h)
    cases s with
    | direct i =>
      simp only [visits, dif_neg hfb] at hvis
      repeat' split at hvis
      all_goals cases hvis
    | indirect => decide
    | double => decide
    | triple => decide
  refine ⟨hpos, ?_⟩
  intro hx
  obtain rfl := hx
  rw [← fbPath_length h] at hpos
  exact absurd hpos (Nat.lt_irrefl 0)

theorem wp_bmapReturn_place {n : Nat} (h : WellFormed (vol w) sv) (hl : l.length ≤ s.depth)
    (hok : Q.ok ((vol w).place sv s l) w) :
    (bmapReturn sv n ((vol w).place sv s l)).wp Q w := by
  simp only [bmapReturn, Prog.wp_bind, wp_getVnode]
  by_cases h0 : (vol w).place sv s l = 0
  · rw [h0] at hok ⊢
    simpa using hok
  · have hlt : ¬ (vol w).place sv s l ≥ w.st.fs.sfsSuper.spNblocks := by
      rw [ge_iff_le, UInt32.le_iff_toNat_le]
      exact Nat.not_le.mpr (h.range s l hl h0)
    have hset : bitmapIsset w.st.fs.sfsFreemap ((vol w).place sv s l).toNat = true := by
      rw [bitmapIsset_eq]
      exact h.marked s l hl h0
    simpa [h0, sfsBused, hlt, hset] using hok

theorem levelSlot_depth (h : 0 < s.depth) :
    levelSlot s.depth = s ∧ (s.depth = 1 ∨ s.depth = 2 ∨ s.depth = 3) := by
  cases s with
  | direct i => cases h
  | indirect => exact ⟨rfl, .inl rfl⟩
  | double => exact ⟨rfl, .inr (.inl rfl)⟩
  | triple => exact ⟨rfl, .inr (.inr rfl)⟩

/-- A run without device errors that allocates, or that looks up a block that
is there, fills in the path. -/
theorem wp_sfsBmap_filled (hg : Geo (vol w)) (h : WellFormed (vol w) sv)
    (hw : w.env.writeFaults = []) (hr : w.env.readFaults = []) (hpath : fbPath fb = some (s, l))
    (hneed : doalloc = true ∨ (vol w).place sv s l ≠ 0)
    (hok : ∀ w', Calm w w' → Filled sv s l (vol w) (vol w') → Q.ok ((vol w').place sv s l) w')
    (herr : doalloc = true → ∀ w', Q.err .enospc w') : (sfsBmap sv fb doalloc).wp Q w := by
  have hlen := fbPath_length hpath
  by_cases hfb : fb < 15
  · unfold fbPath at hpath
    rw [dif_pos hfb] at hpath
    cases hpath
    simp only [sfsBmap, sfsNdirect, dif_pos hfb, Prog.wp_bind, wp_getVnode]
    by_cases hz : (w.st.fs.heap sv).svI.sfiDirect ⟨fb, hfb⟩ = 0 ∧ doalloc = true
    · obtain ⟨hz, hd⟩ := hz
      simp only [hz, hd, and_self, if_true, Prog.wp_bind]
      refine wp_sfsBalloc hg hw ?_ fun _ => herr hd _
      intro c w' hc hcalm hv _
      obtain ⟨hfs, hdisk⟩ := Vol.mk.inj hv
      have hf := Filled.plant hg h (s := .direct ⟨fb, hfb⟩) hc hz
      have hself := plant_place h hc (s := .direct ⟨fb, hfb⟩) hz (.direct ⟨fb, hfb⟩) []
        (Nat.zero_le _)
      rw [if_pos ⟨rfl, rfl⟩] at hself
      simp only [wp_modifyInode, wp_setDirty]
      have hv' : vol ⟨⟨(w'.st.fs.modifyInode sv fun i => { i with
          sfiBlocks := i.sfiBlocks + 1
          sfiDirect := fun j => if j = ⟨fb, hfb⟩ then c else i.sfiDirect j }).modifyVnode sv
            fun n => { n with svDirty := true }, w'.st.bufs⟩, w'.env⟩ =
          (vol w).plant sv (.direct ⟨fb, hfb⟩) c := by
        simp only [vol_mk, modifyInode_eq, modifyVnode_modifyVnode, hfs, hdisk]
        rfl
      rw [← hv'] at hf hself
      have := wp_bmapReturn_place (Q := Q) (n := fb) hf.wf (s := .direct ⟨fb, hfb⟩) (l := [])
        (Nat.zero_le _) (hok _ ⟨hcalm.reads, hcalm.writes, hcalm.mem⟩ hf)
      rwa [hself] at this
    · simp only [if_neg hz]
      have h0 : (vol w).place sv (.direct ⟨fb, hfb⟩) [] ≠ 0 := by
        intro h0
        rcases hneed with hd | hne
        · exact hz ⟨h0, hd⟩
        · exact hne h0
      exact wp_bmapReturn_place h (s := .direct ⟨fb, hfb⟩) (l := []) (Nat.zero_le _)
        (hok w (.refl w) (.nothing hg h h0))
  · have hvis := visits_of_path hpath
    obtain ⟨n, heq⟩ := sfsBmap_eq sv doalloc (by omega) (.of_lt (fbPath_lt hpath))
    obtain ⟨hpos, hne⟩ := fbPath_inner hpath hfb
    obtain ⟨hslot, hlv⟩ := levelSlot_depth hpos
    rw [heq, hvis]
    simp only [Prog.wp_bind, wp_getVnode]
    show (if (vol w).place sv s [] = 0 ∧ ¬doalloc = true then _ else
      loadbuffer sv s.depth ((vol w).place sv s []) ((vol w).place sv s []) 0 >>= _ : Kern _).wp Q w
    have hroot (hz : (vol w).place sv s [] = 0) : doalloc = true := by
      refine hneed.resolve_right fun hne => hne ?_
      exact Forest.at_append_of_zero (p := []) hz l
    rw [if_neg fun hc => hc.2 (hroot hc.1), Prog.wp_bind]
    -- from the root on
    have hgo (b : UInt32) (w' : World) (hc : Calm w w') (hf : Filled sv s [] (vol w) (vol w'))
        (hat : At sv s [] b w') :
        (walkAlong sv doalloc s.depth b (l.map Fin.val) >>= bmapReturn sv n).wp Q w' := by
      rw [Prog.wp_bind]
      refine wp_walkAlong_filled hf hat hne (Nat.le_of_eq hlen) (hc.writes hw) (hc.reads hr)
        hneed ?_ herr
      intro w'' hc' hf'
      exact wp_bmapReturn_place hf'.wf (Nat.le_of_eq hlen) (hok w'' (hc.trans hc') hf')
    by_cases hz : (vol w).place sv s [] = 0
    · rw [hz]
      refine wp_loadbuffer_plant hlv hg hw ?_ (herr (hroot hz) w)
      intro c w' hc hcalm hv hb
      rw [hslot] at hv
      have hself := plant_place h hc hz s [] (Nat.zero_le _)
      rw [if_pos ⟨rfl, rfl⟩, ← hv] at hself
      refine hgo c w' hcalm (by rw [hv]; exact .plant hg h hc hz) ⟨hself.symm, ?_⟩
      rw [hb, hv]
      simp [Vol.plant, disk_alloc]
    · have hf := Filled.nothing hg h hz
      refine wp_loadbuffer_at hf (Nat.zero_le _) hr ?_
      intro w' hc hv hat
      exact hgo _ w' hc (by rw [hv]; exact hf) (by exact hat)

/-- A lookup hands back what the file block is mapped to. Below a missing
pointer block it may fail for lack of space. -/
theorem wp_sfsBmap_lookup (hg : Geo (vol w)) (h : WellFormed (vol w) sv)
    (hw : w.env.writeFaults = []) (hr : w.env.readFaults = []) (hfb : fb < bufferLimit) :
    (sfsBmap sv fb false).wp ⟨fun d _ => d = (vol w).mapped sv fb, fun e _ => e = .enospc,
      fun _ _ => False⟩ w := by
  obtain ⟨s, l, hpath⟩ := fbPath_of_lt hfb
  have hlen := Nat.le_of_eq (fbPath_length hpath)
  rw [mapped_of_path hpath]
  by_cases h0 : (vol w).place sv s l = 0
  · by_cases h15 : fb < 15
    · unfold fbPath at hpath
      rw [dif_pos h15] at hpath
      cases hpath
      simp only [sfsBmap, sfsNdirect, dif_pos h15, Prog.wp_bind, wp_getVnode, Bool.false_eq_true,
        and_false, if_false]
      exact wp_bmapReturn_place h (s := .direct ⟨fb, h15⟩) (l := []) (Nat.zero_le _) rfl
    · obtain ⟨hpos, hne⟩ := fbPath_inner hpath h15
      obtain ⟨n, heq⟩ := sfsBmap_eq sv false (by omega) (.of_lt hfb)
      rw [heq, visits_of_path hpath, h0]
      simp only [Prog.wp_bind, wp_getVnode]
      show (if (vol w).place sv s [] = 0 ∧ ¬false = true then _ else
        loadbuffer sv s.depth ((vol w).place sv s []) ((vol w).place sv s []) 0 >>= _ :
          Kern _).wp _ w
      by_cases hz : (vol w).place sv s [] = 0
      · rw [if_pos ⟨hz, by simp⟩]
        simp
      · rw [if_neg fun hc => hz hc.1, Prog.wp_bind]
        have hf := Filled.nothing hg h hz
        refine wp_loadbuffer_at hf (Nat.zero_le _) hr ?_
        intro w' hc hv hat
        dsimp only
        rw [Prog.wp_bind]
        refine wp_walkAlong_missing (by rw [hv]; exact hf) hat hne hlen (hc.writes hw)
          (hc.reads hr) (by rw [hv]; exact h0) ?_ fun _ => rfl
        intro w''
        simp [bmapReturn]
  · refine wp_sfsBmap_filled hg h hw hr hpath (.inr h0) ?_ fun hd => by cases hd
    exact fun w' _ hf => hf.keep l (List.prefix_refl _) h0

/-! ## Agreement -/

/-- A block that got a place in the file. -/
def Taken (sv : Ptr) (v v' : Vol) (b : UInt32) : Prop :=
  ∃ s l, l.length ≤ s.depth ∧ v.place sv s l = 0 ∧ b = v'.place sv s l ∧ b ≠ 0

/-- What a block of the file in `sv` holds: as a pointer block one pointer, to
a block of the file, and as a data block nothing. -/
def OnlyChild (sv : Ptr) (v : Vol) (b : UInt32) : Prop :=
  ∃ s l, l.length ≤ s.depth ∧ b = v.place sv s l ∧
    (l.length = s.depth ∧ v.disk b.toNat = Sector.zero ∨
      ∃ j, v.place sv s (l ++ [j]) ≠ 0 ∧
        v.disk b.toNat = setWord Sector.zero j (v.place sv s (l ++ [j])))

/-- What an allocation of `fb` that handed back `d` has done. -/
structure Allocated (sv : Ptr) (fb : Nat) (d : UInt32) (w w' : World) : Prop where
  ne_zero : d ≠ 0
  found : (sfsBmap sv fb false).wp ⟨fun d' _ => d' = d, fun _ _ => False, fun _ _ => False⟩ w'
  mapped : (vol w').mapped sv fb = d
  others : ∀ fb' < doubleLimit, fb' ≠ fb → (vol w').mapped sv fb' = (vol w).mapped sv fb'
  unmarked : ∀ b, Taken sv (vol w) (vol w') b → (vol w).isset b = false
  zeroed : ∀ b, Taken sv (vol w) (vol w') b → OnlyChild sv (vol w') b
  marks : ∀ b, (vol w').isset b = true ↔ (vol w).isset b = true ∨ Taken sv (vol w) (vol w') b

theorem Filled.onlyChild {v' : Vol} (h : Filled sv s l v v') (hl : l.length = s.depth)
    (hm : m <+: l) (h0 : v.place sv s m = 0) : OnlyChild sv v' (v'.place sv s m) := by
  refine ⟨s, m, Nat.le_trans hm.length_le (Nat.le_of_eq hl), rfl, ?_⟩
  obtain ⟨r, rfl⟩ := hm
  cases r with
  | nil =>
    simp only [List.append_nil] at h hl
    exact .inl ⟨hl, h.last h0⟩
  | cons j r =>
    have hj : m ++ [j] <+: m ++ j :: r := ⟨r, by simp⟩
    exact .inr ⟨j, place_ne_zero_above hj h.there, h.inner m j hj h0⟩

theorem Filled.taken_iff {v' : Vol} (h : Filled sv s l v v') (hl : l.length = s.depth)
    {b : UInt32} :
    Taken sv v v' b ↔ ∃ m, m <+: l ∧ v.place sv s m = 0 ∧ b = v'.place sv s m := by
  constructor
  · intro hx
    obtain ⟨t, m, ht, h0, hb, hne⟩ := hx
    by_cases hon : t = s ∧ m <+: l
    · obtain ⟨rfl, hm⟩ := hon
      exact ⟨m, hm, h0, hb⟩
    · rw [hb, h.same t m ht hon] at hne
      exact absurd h0 hne
  · intro hx
    obtain ⟨m, hm, h0, rfl⟩ := hx
    exact ⟨s, m, Nat.le_trans hm.length_le (Nat.le_of_eq hl), h0, rfl,
      place_ne_zero_above hm h.there⟩

theorem lt_bufferLimit (h : fb < doubleLimit) : fb < bufferLimit := by
  simp only [bufferLimit, doubleLimit] at h ⊢
  omega

/-- What is there once the path to `fb` is filled in. -/
theorem Filled.allocated {w' : World} (hf : Filled sv s l (vol w) (vol w'))
    (hpath : fbPath fb = some (s, l)) (hr : w'.env.readFaults = []) (hw : w'.env.writeFaults = []) :
    Allocated sv fb ((vol w').place sv s l) w w' := by
  have hlen := fbPath_length hpath
  refine ⟨hf.there, ?_, mapped_of_path hpath _ _, ?_, ?_, ?_, ?_⟩
  · refine wp_sfsBmap_filled hf.geo hf.wf hw hr hpath (.inr hf.there) ?_ fun hd => by cases hd
    exact fun w'' _ hf' => hf'.keep l (List.prefix_refl _) hf.there
  · intro fb' hfb' hne
    obtain ⟨t, m, hpath'⟩ := fbPath_of_lt (lt_bufferLimit hfb')
    rw [mapped_of_path hpath', mapped_of_path hpath']
    refine hf.same t m (Nat.le_of_eq (fbPath_length hpath')) ?_
    intro hx
    obtain ⟨rfl, hm⟩ := hx
    have : m = l := hm.eq_of_length (by rw [hlen, fbPath_length hpath'])
    exact hne (fbPath_inj hpath' (this ▸ hpath))
  · intro b hb
    obtain ⟨m, hm, h0, rfl⟩ := (hf.taken_iff hlen).mp hb
    exact hf.clear m hm h0
  · intro b hb
    obtain ⟨m, hm, h0, rfl⟩ := (hf.taken_iff hlen).mp hb
    exact hf.onlyChild hlen hm h0
  · intro b
    rw [hf.isset b, hf.taken_iff hlen]

end Os161.Sfs
