import Os161.Sfs.BmapSpec

/-! # The block tree of one file

The blocks the inode in a vnode leads to, whatever the other files of the
volume look like, and how the path to one place is filled in. -/
namespace Os161.Sfs
open Os161.Lib Vol

variable {v v' v'' : Vol} {p : Ptr} {s : Slot} {l : Path} {c : UInt32}

/-- The blocks the inode in `p` leads to. -/
def Vol.tree (v : Vol) (p : Ptr) : Forest Slot (Fin 128) UInt32 where
  depth := Slot.depth
  root s := (v.fs.heap p).svI.root s
  child b j := (v.disk b.toNat).word j

def Vol.place (v : Vol) (p : Ptr) (s : Slot) (l : Path) : UInt32 := (v.tree p).at' s l

/-- The data block a file block of the file in `p` resolves to, 0 for a hole. -/
def Vol.mapped (v : Vol) (p : Ptr) (fb : Nat) : UInt32 :=
  match fbPath fb with
  | some (s, l) => v.place p s l
  | none => 0

namespace Vol

@[simp] theorem place_nil (v : Vol) (p : Ptr) (s : Slot) :
    v.place p s [] = (v.fs.heap p).svI.root s := rfl

theorem place_snoc (v : Vol) (p : Ptr) (s : Slot) (l : Path) (j : Fin 128) :
    v.place p s (l ++ [j]) =
      if v.place p s l = 0 then 0 else (v.disk (v.place p s l).toNat).word j :=
  (v.tree p).at_snoc s l j

theorem place_snoc_of_zero (h : v.place p s l = 0) (j : Fin 128) :
    v.place p s (l ++ [j]) = 0 :=
  Forest.at_append_of_zero h [j]

theorem place_ne_zero_above {m : Path} (hm : m <+: l) (h : v.place p s l ≠ 0) :
    v.place p s m ≠ 0 := by
  obtain ⟨r, rfl⟩ := hm
  exact Forest.at_ne_zero_of_append h

theorem mapped_of_path {fb : Nat} (h : fbPath fb = some (s, l)) (v : Vol) (p : Ptr) :
    v.mapped p fb = v.place p s l := by
  simp [mapped, h]

end Vol

/-- The tree of the file in `p` is well formed: no block has two places in it,
and every block in it is on the volume and marked. -/
structure WellFormed (v : Vol) (p : Ptr) : Prop where
  inj : ∀ s l s' l', l.length ≤ s.depth → l'.length ≤ s'.depth →
    v.place p s l = v.place p s' l' → v.place p s l ≠ 0 → s = s' ∧ l = l'
  marked : ∀ s l, l.length ≤ s.depth → v.place p s l ≠ 0 → v.isset (v.place p s l) = true
  range : ∀ s l, l.length ≤ s.depth → v.place p s l ≠ 0 → (v.place p s l).toNat < v.nblocks

/-- In a sound volume the tree of every loaded file is well formed. -/
theorem Core.wellFormed {L : UInt32 → Prop} (h : Core L v) (hp : p ∈ v.fs.sfsVnodes) :
    WellFormed v p := by
  have hL := h.live p hp
  have hplace (s : Slot) (l : Path) (hl : l.length ≤ s.depth) :
      v.place p s l = v.ref (v.ino p) s l := by
    refine Forest.at_congr (F := (⟨Slot.depth, fun s => (v.inode (v.ino p)).root s,
      fun b j => (v.disk b.toNat).word j⟩ : Forest Slot (Fin 128) UInt32)) (G := v.tree p)
      (K := fun _ => True) ?_ (fun _ _ _ _ _ _ => rfl) s trivial l hl
    intro t _
    show (v.fs.heap p).svI.root t = (v.inode (v.ino p)).root t
    rw [h.inode_eq hp]
  constructor
  · intro s l s' l' hl hl' he h0
    rw [hplace s l hl, hplace s' l' hl'] at he
    rw [hplace s l hl] at h0
    exact (h.ref_inj hL hL hl hl' he h0).2
  · intro s l hl h0
    rw [hplace s l hl] at h0 ⊢
    exact h.marked _ hL (.node s l) hl h0
  · intro s l hl h0
    rw [hplace s l hl] at h0 ⊢
    exact (h.range _ hL (.node s l) hl h0).1

theorem Fresh.ne_place (hc : Fresh v c) (h : WellFormed v p) (hl : l.length ≤ s.depth)
    (h0 : v.place p s l ≠ 0) : v.place p s l ≠ c := by
  intro he
  have := h.marked s l hl h0
  rw [he, hc.clear] at this
  cases this

/-- Marking one more block keeps the geometry. -/
theorem Geo.mark (h : Geo v) (hl : Local p v v')
    (hm : v'.fs.sfsFreemap = v.fs.sfsFreemap.mark c.toNat) : Geo v' where
  nbits := by rw [hl.nbits, hl.nblocks_eq]; exact h.nbits
  fits := by rw [hl.nblocks_eq]; exact h.fits
  device := by rw [hl.nblocks_eq, hl.device]; exact h.device
  offsets := by rw [hl.device]; exact h.offsets
  tail j hj hb := by
    rw [hl.nblocks_eq] at hj
    rw [hl.nbits] at hb
    rw [hm, Bitmap.isset_mark, h.tail j hj hb, Bool.true_or]
  metaSet b hb := by
    rw [hl.meta_iff] at hb
    rw [Vol.isset, hm, Bitmap.isset_mark]
    have := h.metaSet b hb
    rw [Vol.isset] at this
    rw [this, Bool.true_or]

/-- One more block in the tree, and every other place as it was. -/
theorem WellFormed.add (h : WellFormed v p) (hc : Fresh v c) (hn : v'.nblocks = v.nblocks)
    (hm : v'.fs.sfsFreemap = v.fs.sfsFreemap.mark c.toNat)
    (hplace : ∀ t m, m.length ≤ t.depth →
      v'.place p t m = if t = s ∧ m = l then c else v.place p t m) : WellFormed v' p := by
  have hset (b : UInt32) : v'.isset b = (v.isset b || decide (b = c)) := by
    simp [isset, hm, UInt32.toNat_inj]
  constructor
  · intro t m t' m' ht ht' he h0
    rw [hplace t m ht, hplace t' m' ht'] at he
    rw [hplace t m ht] at h0
    by_cases h1 : t = s ∧ m = l
    · by_cases h2 : t' = s ∧ m' = l
      · exact ⟨h1.1.trans h2.1.symm, h1.2.trans h2.2.symm⟩
      · rw [if_pos h1, if_neg h2] at he
        rw [if_pos h1] at h0
        exact absurd he.symm (hc.ne_place h ht' (he ▸ h0))
    · rw [if_neg h1] at he h0
      by_cases h2 : t' = s ∧ m' = l
      · rw [if_pos h2] at he
        exact absurd he (hc.ne_place h ht h0)
      · rw [if_neg h2] at he
        exact h.inj t m t' m' ht ht' he h0
  · intro t m ht h0
    rw [hplace t m ht] at h0 ⊢
    rw [hset]
    split at h0
    · next he => simp [he]
    · next he => rw [if_neg he, h.marked t m ht h0, Bool.true_or]
  · intro t m ht h0
    rw [hn]
    rw [hplace t m ht] at h0 ⊢
    split at h0
    · next he => rw [if_pos he]; exact hc.lt
    · next he => rw [if_neg he]; exact h.range t m ht h0

theorem plant_place (h : WellFormed v p) (hc : Fresh v c) (hr : (v.fs.heap p).svI.root s = 0)
    (t : Slot) (m : Path) (ht : m.length ≤ t.depth) :
    (v.plant p s c).place p t m = if t = s ∧ m = [] then c else v.place p t m := by
  refine Forest.at_plant (F := v.tree p) (G := (v.plant p s c).tree p) (K := fun _ => True)
    (r := s) hr ?_ ?_ ?_ ?_ t trivial m ht
  · simp [Vol.tree, Vol.plant]
  · intro t _ hne
    show ((v.plant p s c).fs.heap p).svI.root t = (v.fs.heap p).svI.root t
    simp only [plant, heap_modifyVnode, if_true, heap_alloc, SfsInode.root_setRoot, if_neg hne]
    cases t <;> rfl
  · intro _ j
    simp [Vol.tree, plant, disk_alloc]
  · intro t _ m hm h0 j
    show ((v.plant p s c).disk (v.place p t m).toNat).word j = _
    simp only [plant, disk_modifyVnode, disk_alloc, if_neg (hc.ne_place h (Nat.le_of_lt hm) h0)]
    rfl

theorem graft_place (h : WellFormed v p) (hc : Fresh v c) (hl : l.length < s.depth) {j : Fin 128}
    (h0 : v.place p s l ≠ 0) (hm : (v.disk (v.place p s l).toNat).word j = 0)
    (t : Slot) (m : Path) (ht : m.length ≤ t.depth) :
    (v.graft p (v.place p s l) j c).place p t m =
      if t = s ∧ m = l ++ [j] then c else v.place p t m := by
  have hb := hc.ne_place h (Nat.le_of_lt hl) h0
  refine Forest.at_graft (F := v.tree p) (G := (v.graft p (v.place p s l) j c).tree p)
    (K := fun _ => True) (r := s) ?_ h0 hm ?_ ?_ ?_ t trivial m ht
  · intro t _
    show ((v.graft p (v.place p s l) j c).fs.heap p).svI.root t = (v.fs.heap p).svI.root t
    simp only [Vol.graft, fs_setDisk, heap_modifyVnode, if_true, heap_alloc]
    cases t <;> rfl
  · show ((v.graft p (v.place p s l) j c).disk (v.place p s l).toNat).word j = c
    rw [graft_disk, if_pos rfl, setWord, Sector.word_ofWords, if_pos rfl]
  · intro _ j'
    show ((v.graft p (v.place p s l) j c).disk c.toNat).word j' = 0
    rw [graft_disk, if_neg hb.symm, if_pos rfl, Sector.word_zero]
  · intro t _ q hq hq0 j' hne
    show ((v.graft p (v.place p s l) j c).disk (v.place p t q).toNat).word j' = _
    rw [graft_disk]
    by_cases he : v.place p t q = v.place p s l
    · obtain ⟨h2, rfl⟩ := h.inj t q s l (Nat.le_of_lt hq) (Nat.le_of_lt hl) he hq0
      rw [if_pos he, setWord, Sector.word_ofWords, if_neg fun hj => hne ⟨h2, rfl, hj⟩, ← he]
      rfl
    · rw [if_neg he, if_neg (hc.ne_place h (Nat.le_of_lt hq) hq0)]
      rfl

/-! ## Filling in a path -/

/-- All places along `l` are there in `v'`. Those that were missing in `v` hold
blocks taken since, empty but for the pointer to the next one, and nothing else
was taken or moved. -/
structure Filled (p : Ptr) (s : Slot) (l : Path) (v v' : Vol) : Prop where
  geo : Geo v'
  wf : WellFormed v' p
  here : Local p v v'
  there : v'.place p s l ≠ 0
  same : ∀ t m, m.length ≤ t.depth → ¬ (t = s ∧ m <+: l) → v'.place p t m = v.place p t m
  keep : ∀ m, m <+: l → v.place p s m ≠ 0 → v'.place p s m = v.place p s m
  clear : ∀ m, m <+: l → v.place p s m = 0 → v.isset (v'.place p s m) = false
  last : v.place p s l = 0 → v'.disk (v'.place p s l).toNat = Sector.zero
  inner : ∀ m j, m ++ [j] <+: l → v.place p s m = 0 →
    v'.disk (v'.place p s m).toNat = setWord Sector.zero j (v'.place p s (m ++ [j]))
  isset : ∀ b, v'.isset b = true ↔
    v.isset b = true ∨ ∃ m, m <+: l ∧ v.place p s m = 0 ∧ b = v'.place p s m

namespace Filled

theorem nothing (hg : Geo v) (h : WellFormed v p) (h0 : v.place p s l ≠ 0) : Filled p s l v v where
  geo := hg
  wf := h
  here := .refl p v
  there := h0
  same _ _ _ _ := rfl
  keep _ _ _ := rfl
  clear _ hm hz := absurd hz (place_ne_zero_above hm h0)
  last hz := absurd hz h0
  inner m _ hm hz :=
    absurd hz (place_ne_zero_above ((List.prefix_append m _).trans hm) h0)
  isset b := by
    refine ⟨.inl, ?_⟩
    intro hx
    rcases hx with h | ⟨m, hm, hz, -⟩
    · exact h
    · exact absurd hz (place_ne_zero_above hm h0)

theorem plant (hg : Geo v) (h : WellFormed v p) (hc : Fresh v c)
    (hr : (v.fs.heap p).svI.root s = 0) : Filled p s [] v (v.plant p s c) := by
  have hplace := plant_place h hc hr
  have hl := Local.plant v p s c
  have hself : (v.plant p s c).place p s [] = c := by
    rw [hplace s [] (Nat.zero_le _), if_pos ⟨rfl, rfl⟩]
  have hmap : (v.plant p s c).fs.sfsFreemap = v.fs.sfsFreemap.mark c.toNat := rfl
  refine ⟨hg.mark hl hmap, h.add hc hl.nblocks_eq hmap hplace, hl, ?_, ?_, ?_, ?_, ?_, ?_, ?_⟩
  · rw [hself]
    exact hc.ne_zero hg
  · intro t m ht hne
    rw [hplace t m ht, if_neg]
    intro hx
    obtain ⟨rfl, rfl⟩ := hx
    exact hne ⟨rfl, List.prefix_refl _⟩
  · intro m hm h0
    obtain rfl := List.prefix_nil.mp hm
    exact absurd hr h0
  · intro m hm _
    obtain rfl := List.prefix_nil.mp hm
    rw [hself]
    exact hc.clear
  · intro _
    rw [hself]
    simp [Vol.plant, disk_alloc]
  · intro m j hm
    exact absurd (List.prefix_nil.mp hm) (by simp)
  · intro b
    have : (v.plant p s c).isset b = (v.isset b || decide (b = c)) := by
      simp [Vol.isset, hmap, UInt32.toNat_inj]
    rw [this, Bool.or_eq_true, decide_eq_true_iff]
    refine or_congr_right ⟨?_, ?_⟩
    · intro hx
      obtain rfl := hx
      exact ⟨[], List.prefix_refl _, hr, hself.symm⟩
    · intro hx
      obtain ⟨m, hm, -, hb⟩ := hx
      obtain rfl := List.prefix_nil.mp hm
      rw [hb, hself]

/-- A prefix of `l ++ [j]` is one of `l`, or all of it. -/
theorem prefix_cases {m : Path} {j : Fin 128} (h : m <+: l ++ [j]) : m <+: l ∨ m = l ++ [j] := by
  rcases List.prefix_concat_iff.mp h with h | h
  · exact .inr h
  · exact .inl h

theorem snoc_le (hl : l.length < s.depth) (j : Fin 128) : (l ++ [j]).length ≤ s.depth := by
  rw [List.length_append]
  exact hl

theorem not_prefix {j : Fin 128} : ¬ l ++ [j] <+: l := by
  intro h
  have := h.length_le
  simp at this

/-- Going on to a place that is already there. -/
theorem down (h : Filled p s l v v') (hl : l.length < s.depth) {j : Fin 128}
    (h0 : v'.place p s (l ++ [j]) ≠ 0) : Filled p s (l ++ [j]) v v' := by
  have hold : v.place p s (l ++ [j]) ≠ 0 := by
    rwa [← h.same s (l ++ [j]) (snoc_le hl j) fun he => not_prefix he.2]
  refine ⟨h.geo, h.wf, h.here, h0, ?_, ?_, ?_, ?_, ?_, ?_⟩
  · intro t m ht hne
    refine h.same t m ht fun he => hne ⟨he.1, he.2.trans (List.prefix_append _ _)⟩
  · intro m hm hz
    rcases prefix_cases hm with hm | rfl
    · exact h.keep m hm hz
    · exact h.same s _ (snoc_le hl j) fun he => not_prefix he.2
  · intro m hm hz
    exact absurd hz (place_ne_zero_above hm hold)
  · exact fun hz => absurd hz hold
  · intro m j' hm hz
    exact absurd hz (place_ne_zero_above ((List.prefix_append m _).trans hm) hold)
  · intro b
    rw [h.isset b]
    refine or_congr_right ⟨?_, ?_⟩
    · intro hx
      obtain ⟨m, hm, hz, hb⟩ := hx
      exact ⟨m, hm.trans (List.prefix_append _ _), hz, hb⟩
    · intro hx
      obtain ⟨m, hm, hz, hb⟩ := hx
      exact absurd hz (place_ne_zero_above hm hold)

/-- Adding the next place. -/
theorem graft (h : Filled p s l v v') (hl : l.length < s.depth) {j : Fin 128} (hc : Fresh v' c)
    (h0 : v'.place p s (l ++ [j]) = 0) :
    Filled p s (l ++ [j]) v (v'.graft p (v'.place p s l) j c) := by
  have hm : (v'.disk (v'.place p s l).toNat).word j = 0 := by
    rwa [place_snoc, if_neg h.there] at h0
  have hlen := snoc_le hl j
  have hold : v.place p s (l ++ [j]) = 0 := by
    rwa [← h.same s (l ++ [j]) hlen fun he => not_prefix he.2]
  set g := v'.graft p (v'.place p s l) j c with hg
  have hplace := graft_place h.wf hc hl h.there hm
  rw [← hg] at hplace
  have hloc : Local p v' g := Local.graft v' p _ j c
  have hmap : g.fs.sfsFreemap = v'.fs.sfsFreemap.mark c.toNat := rfl
  have hself : g.place p s (l ++ [j]) = c := by rw [hplace s _ hlen, if_pos ⟨rfl, rfl⟩]
  have hother {t : Slot} {m : Path} (ht : m.length ≤ t.depth) (hne : ¬ (t = s ∧ m = l ++ [j])) :
      g.place p t m = v'.place p t m := by rw [hplace t m ht, if_neg hne]
  have hup {m : Path} (hm : m <+: l) : m.length ≤ s.depth ∧ g.place p s m = v'.place p s m := by
    have hlt := Nat.le_trans hm.length_le (Nat.le_of_lt hl)
    refine ⟨hlt, hother hlt ?_⟩
    intro hx
    obtain ⟨-, rfl⟩ := hx
    exact not_prefix hm
  have hset (b : UInt32) : g.isset b = true ↔ v'.isset b = true ∨ b = c := by
    have : g.isset b = (v'.isset b || decide (b = c)) := by
      simp [Vol.isset, hmap, UInt32.toNat_inj]
    rw [this, Bool.or_eq_true, decide_eq_true_iff]
  refine ⟨h.geo.mark hloc hmap, h.wf.add hc hloc.nblocks_eq hmap hplace, h.here.trans hloc,
    ?_, ?_, ?_, ?_, ?_, ?_, ?_⟩
  · rw [hself]
    exact hc.ne_zero h.geo
  · intro t m ht hne
    rw [hother ht fun he => hne ⟨he.1, he.2 ▸ List.prefix_refl _⟩]
    exact h.same t m ht fun he => hne ⟨he.1, he.2.trans (List.prefix_append _ _)⟩
  · intro m hm hz
    rcases prefix_cases hm with hm | rfl
    · rw [(hup hm).2]
      exact h.keep m hm hz
    · exact absurd hold hz
  · intro m hm hz
    rcases prefix_cases hm with hm | rfl
    · rw [(hup hm).2]
      exact h.clear m hm hz
    · rw [hself, ← Bool.not_eq_true]
      intro hb
      have := (h.isset c).mpr (.inl hb)
      rw [hc.clear] at this
      cases this
  · intro _
    have hb := hc.ne_place h.wf (Nat.le_of_lt hl) h.there
    rw [hself, hg, graft_disk, if_neg hb.symm, if_pos rfl]
  · intro m j' hm hz
    rcases prefix_cases hm with hm' | he
    · -- a block further up, which holds the pointer on the way already
      have hml : m <+: l := (List.prefix_append m _).trans hm'
      have hmlt : m.length < l.length := by
        have := hm'.length_le
        simp at this
        omega
      obtain ⟨hlm, hpm⟩ := hup hml
      have hm0 := place_ne_zero_above hml h.there
      rw [hpm, (hup hm').2, hg, graft_disk, if_neg, if_neg (hc.ne_place h.wf hlm hm0)]
      · exact h.inner m j' hm' hz
      · intro he
        obtain ⟨-, rfl⟩ := h.wf.inj s m s l hlm (Nat.le_of_lt hl) he hm0
        omega
    · obtain ⟨rfl, hj⟩ := List.append_inj' he rfl
      obtain rfl : j' = j := by simpa using hj
      rw [hself, (hup (List.prefix_refl _)).2, hg, graft_disk, if_pos rfl, h.last hz]
  · intro b
    rw [hset, h.isset b, or_assoc]
    refine or_congr_right ⟨?_, ?_⟩
    · intro hx
      rcases hx with ⟨m, hm, hz, hb⟩ | rfl
      · exact ⟨m, hm.trans (List.prefix_append _ _), hz, by rw [(hup hm).2, hb]⟩
      · exact ⟨_, List.prefix_refl _, hold, hself.symm⟩
    · intro hx
      obtain ⟨m, hm, hz, hb⟩ := hx
      rcases prefix_cases hm with hm | rfl
      · exact .inl ⟨m, hm, hz, by rw [hb, (hup hm).2]⟩
      · exact .inr (hb.trans hself)

end Filled

end Os161.Sfs
