import Os161.Lib.Bytes
import Os161.Sfs.BmapSpec

/-! # What a transfer does

A read or write goes through the file in pieces that end at block boundaries.
`Moves` says what was transferred so far; it composes, each piece adds to it,
and what a failed transfer moved is described by it too. -/
namespace Os161.Sfs
open Os161.Lib Kern Vol

variable {L : UInt32 → Prop} {π : Perm} {w w' : World} {sv : Ptr} {src : List UInt8} {u : Uio}

/-! ## Bookkeeping of the uio -/

/-- A uio the file system can work with: at a position a file can have, with
memory `src` behind it that nothing changes meanwhile. -/
structure Uio.Sound (u : Uio) (src : List UInt8) : Prop where
  base : ∀ k, u.iovBase k = src
  room : u.uioResid ≤ u.iovLen
  small : u.uioResid < 2 ^ 32
  enough : u.uioRw = .uioWrite → u.iovPos + u.uioResid ≤ src.length
  low : 0 ≤ u.uioOffset
  high : u.uioOffset < 2 ^ 31

/-- The position in the file. -/
def Uio.pos (u : Uio) : Nat := u.uioOffset.toNat

/-- The file block at the position. -/
def Uio.block (u : Uio) : Nat := u.pos / 512

namespace Uio.Sound

variable (h : u.Sound src)
include h

theorem offset_eq : u.uioOffset = u.pos := (Int.toNat_of_nonneg h.low).symm

theorem pos_lt : u.pos < 2 ^ 31 := by
  have := h.high
  rw [h.offset_eq] at this
  omega

theorem tdiv : u32 (u.uioOffset.tdiv 512) = u.block := by
  have := h.pos_lt
  rw [h.offset_eq, Int.tdiv_eq_ediv_of_nonneg (by omega), u32_eq (by omega) (by omega)]
  unfold Uio.block
  omega

theorem tmod : u32 (u.uioOffset.tmod 512) = u.pos % 512 := by
  have := h.pos_lt
  rw [h.offset_eq, Int.tmod_eq_emod_of_nonneg (by omega), u32_eq (by omega) (by omega)]
  omega

variable {l : List UInt8} (hl : l.length ≤ u.uioResid) (hp : u.pos + l.length < 2 ^ 31)
include hl hp

omit hl in
theorem offset_advance : (u.advance l).uioOffset = (u.pos + l.length : Nat) := by
  simp only [Uio.advance, h.offset_eq]
  rw [i32_eq (by omega) (by omega)]
  omega

omit hl in
theorem pos_advance : (u.advance l).pos = u.pos + l.length := by
  rw [Uio.pos, h.offset_advance hp, Int.toNat_natCast]

omit hp in
theorem resid_advance : (u.advance l).uioResid = u.uioResid - l.length := by
  have := h.small
  simp only [Uio.advance]
  rw [u32_eq (by omega) (by omega)]
  omega

theorem advance : (u.advance l).Sound src where
  base := h.base
  room := by
    have := h.room
    rw [h.resid_advance hl]
    simp only [Uio.advance]
    omega
  small := by
    have := h.small
    rw [h.resid_advance hl]
    omega
  enough hw := by
    have := h.enough hw
    rw [h.resid_advance hl]
    simp only [Uio.advance]
    omega
  low := by
    rw [h.offset_advance hp]
    omega
  high := by
    rw [h.offset_advance hp]
    omega

theorem advance_advance {m : List UInt8} (hm : l.length + m.length ≤ u.uioResid)
    (hpm : u.pos + l.length + m.length < 2 ^ 31) :
    (u.advance l).advance m = u.advance (l ++ m) := by
  have hlen : (l ++ m).length = l.length + m.length := List.length_append
  have h' := h.advance hl hp
  have hpos := h.pos_advance hp
  have hres := h.resid_advance hl
  have hml : m.length ≤ (u.advance l).uioResid := by omega
  ext1
  · rfl
  · simp only [Uio.advance, hlen]
    omega
  · simp only [Uio.advance, hlen]
    omega
  · simp only [Uio.advance]
    split <;> simp
  · rfl
  · rw [h'.offset_advance (by omega), h.offset_advance (by omega), hpos, hlen]
    omega
  · rw [h'.resid_advance hml, hres, h.resid_advance (by omega), hlen]
    omega
  · rfl

end Uio.Sound

theorem Uio.Sound.advance_nil (h : u.Sound src) : u.advance [] = u := by
  ext1
  · rfl
  · rfl
  · rfl
  · simp [Uio.advance]
  · rfl
  · rw [h.offset_advance (l := []) h.pos_lt, h.offset_eq]
    rfl
  · exact h.resid_advance (l := []) (Nat.zero_le _)
  · rfl

/-! ## Progress of a transfer -/

/-- The bytes `l` went between the file in `sv` and the uio. -/
structure Moves (π : Perm) (L : UInt32 → Prop) (sv : Ptr) (src : List UInt8) (u : Uio) (w : World)
    (l : List UInt8) (w' : World) : Prop where
  calm : Calm w w'
  grown : Grown L sv (vol w) (vol w')
  steps : FileSteps π sv (vol w) (vol w')
  fits : l.length ≤ u.uioResid
  high : u.pos + l.length < 2 ^ 31
  got : u.uioRw = .uioRead → l = slice ((vol w).byte ((vol w).ino sv)) u.pos l.length
  same : u.uioRw = .uioRead → ∀ fb,
    (vol w').sector ((vol w).ino sv) fb = (vol w).sector ((vol w).ino sv) fb
  put : u.uioRw = .uioWrite → l = (src.drop u.iovPos).take l.length
  wrote : u.uioRw = .uioWrite →
    (vol w').byte ((vol w).ino sv) = overlay ((vol w).byte ((vol w).ino sv)) u.pos l
  mapped : u.uioRw = .uioWrite → ∀ x, u.pos ≤ x → x < u.pos + l.length →
    (vol w').fileBlock ((vol w).ino sv) (x / 512) ≠ 0

theorem Grown.fileBlock_ne_zero {v v' : Vol} (h : Grown L sv v v') {fb : Nat}
    (h0 : v.fileBlock (v.ino sv) fb ≠ 0) : v'.fileBlock (v.ino sv) fb ≠ 0 := by
  obtain ⟨s, l, hf, hb⟩ := path_of_fileBlock h0
  rw [hb] at h0
  rw [fileBlock_of_path hf, h.keep s l (Nat.le_of_eq (fbPath_length hf)) h0]
  exact h0

namespace Moves

theorem nil (π : Perm) (h : Core L (vol w)) (hs : u.Sound src) :
    Moves π L sv src u w [] w where
  calm := .refl w
  grown := .refl h sv
  steps := .refl
  fits := Nat.zero_le _
  high := hs.pos_lt
  got _ := rfl
  same _ _ := rfl
  put _ := rfl
  wrote _ := (overlay_nil _ _).symm
  mapped _ x h1 h2 := absurd h2 (by simpa using h1)

theorem trans {l m : List UInt8} {w'' : World} (hs : u.Sound src)
    (h : Moves π L sv src u w l w') (h' : Moves π L sv src (u.advance l) w' m w'') :
    Moves π L sv src u w (l ++ m) w'' := by
  have hpos := hs.pos_advance h.high
  have hres := hs.resid_advance h.fits
  have hino := h.grown.here.ino_eq
  have hlen : (l ++ m).length = l.length + m.length := List.length_append
  have hfit := h.fits
  have hfit' := h'.fits
  have hhigh' := h'.high
  rw [hres] at hfit'
  rw [hpos] at hhigh'
  refine ⟨h.calm.trans h'.calm, h.grown.trans h'.grown, h.steps.trans h'.steps, by omega, by omega,
    ?_, ?_, ?_, ?_, ?_⟩
  · intro hr
    have hb : (vol w').byte ((vol w').ino sv) = (vol w).byte ((vol w).ino sv) := by
      funext x
      rw [hino, Vol.byte, Vol.byte, h.same hr]
    have h2 := h'.got hr
    rw [hpos, hb] at h2
    rw [hlen, slice_add, ← h.got hr, ← h2]
  · intro hr fb
    have h2 := h'.same hr fb
    rw [hino] at h2
    rw [h2, h.same hr fb]
  · intro hw
    have h1 := h.put hw
    have h2 := h'.put hw
    have hp : (u.advance l).iovPos = u.iovPos + l.length := rfl
    rw [hp, ← List.drop_drop] at h2
    rw [hlen, List.take_add, ← h1, ← h2]
  · intro hw
    have h2 := h'.wrote hw
    rw [hino, hpos, h.wrote hw] at h2
    rw [h2, overlay_append]
  · intro hw x h1 h2
    rw [hlen] at h2
    by_cases hx : x < u.pos + l.length
    · have h3 := h.mapped hw x h1 hx
      rw [← hino] at h3 ⊢
      exact h'.grown.fileBlock_ne_zero h3
    · rw [← hino]
      exact h'.mapped hw x (by omega) (by omega)

end Moves

/-! ## One block -/

/-- How a transfer of `n` bytes within the block at the position fails. -/
def BlockFails (w : World) (sv : Ptr) (u : Uio) (n : Nat) (e : Errno) : Prop :=
  BmapFails w sv u.block (decide (u.uioRw = .uioWrite)) e ∨
    e = .efault ∧ u.iovMapped < u.iovPos + n

/-- What the transfer of `n` bytes within the block at the position needs and
does. -/
structure BlockSpec (π : Perm) (L : UInt32 → Prop) (sv : Ptr) (src : List UInt8) (u : Uio)
    (w : World) (n : Nat) (Q : Post machine (Uio × Result)) : Prop where
  core : Core L (vol w)
  vnode : sv ∈ (vol w).fs.sfsVnodes
  writes : w.env.writeFaults = []
  sound : u.Sound src
  fits : n ≤ u.uioResid
  alloc : u.uioRw = .uioWrite → π.alloc
  quiet : u.uioRw = .uioWrite → QuietHole (vol w) sv u.block → π.quiet
  leak : u.uioRw = .uioRead → HoleRead (vol w) ((vol w).ino sv) u.block → π.leak
  ok : ∀ l w', Moves π L sv src u w l w' → l.length = n → Q.ok (u.advance l, none) w'
  fail : ∀ l w' e, Moves π L sv src u w l w' → l.length ≤ n → (u.uioRw = .uioWrite → l = []) →
    BlockFails w sv u n e → Q.ok (u.advance l, some e) w'
  stopped : ∀ m w', bufferLimit ≤ u.block → Q.stopped (.blockbufIndex m) w'

theorem UioRw.not_read {r : UioRw} : ¬ r = .uioRead ↔ r = .uioWrite := by cases r <;> simp
theorem UioRw.not_write {r : UioRw} : ¬ r = .uioWrite ↔ r = .uioRead := by cases r <;> simp

section Block

variable {n : Nat} {Q : Post machine (Uio × Result)}

/-- A step that only mapped the block has moved nothing. -/
theorem BlockSpec.mapped (h : BlockSpec π L sv src u w n Q) (hc : Calm w w')
    (hx : Extended π L sv (vol w) (vol w')) : Moves π L sv src u w [] w' := by
  refine ⟨hc, hx.toGrown, hx.steps, Nat.zero_le _, h.sound.pos_lt, fun _ => rfl,
    fun _ => hx.same _ (h.core.live sv h.vnode), fun _ => rfl, fun _ => ?_, ?_⟩
  · rw [overlay_nil]
    funext x
    rw [Vol.byte, Vol.byte, hx.same _ (h.core.live sv h.vnode)]
  · intro _ x h1 h2
    rw [List.length_nil] at h2
    omega

theorem Core.data_addressable {v : Vol} {fb : Nat} {d : UInt32} (h : Core L v)
    (hsv : sv ∈ v.fs.sfsVnodes) (hd : d = v.fileBlock (v.ino sv) fb) (hz : d ≠ 0) :
    Addressable d v.fs := by
  subst hd
  obtain ⟨t, l, hf, hb⟩ := path_of_fileBlock hz
  rw [hb] at hz ⊢
  exact h.toGeo.addressable (h.range _ (h.live sv hsv) (.node t l)
    (Nat.le_of_eq (fbPath_length hf)) hz).1

/-- Mapping the block of a transfer. -/
theorem BlockSpec.bmap {R : Post machine UInt32} (h : BlockSpec π L sv src u w n Q)
    (hok : ∀ d w', u.block < doubleLimit + 128 * 128 * 128 → Calm w w' →
      Extended π L sv (vol w) (vol w') → d = (vol w').fileBlock ((vol w').ino sv) u.block →
      (u.uioRw = .uioWrite → d ≠ 0) → R.ok d w')
    (herr : ∀ e w', Moves π L sv src u w [] w' → BlockFails w sv u n e → R.err e w')
    (hstop : ∀ m w', bufferLimit ≤ u.block → R.stopped (.blockbufIndex m) w') :
    (sfsBmap sv (u32 (u.uioOffset.tdiv 512)) (decide (u.uioRw = .uioWrite))).wp R w := by
  rw [h.sound.tdiv]
  refine wp_sfsBmap (π := π) (L := L) ⟨h.core, h.vnode, h.writes, ?_, ?_, ?_, ?_, ?_, hstop⟩
  · exact fun hd => h.alloc (of_decide_eq_true hd)
  · exact fun hd => h.quiet (of_decide_eq_true hd)
  · exact fun hd => h.leak (UioRw.not_write.mp (of_decide_eq_false hd))
  · exact fun d w' hlt hc hx hd hne => hok d w' hlt hc hx hd fun hw => hne (decide_eq_true hw)
  · exact fun e w' hc hx he => herr e w' (h.mapped hc hx) (.inl he)

/-- Writing a data block back with `chunk` put at `skip`. -/
theorem Moves.ofPut {w₁ w₂ : World} {chunk : List UInt8} {z : Nat}
    (h : BlockSpec π L sv src u w n Q) (hc : Calm w w₁) (hx : Extended π L sv (vol w) (vol w₁))
    (hw : u.uioRw = .uioWrite) (h0 : (vol w₁).fileBlock ((vol w₁).ino sv) u.block ≠ 0)
    (hlt : u.block < doubleLimit + 128 * 128 * 128)
    (hskip : z = u.pos % 512) (hfit : z + chunk.length ≤ 512) (hn : chunk.length ≤ n)
    (hsrc : chunk = (src.drop u.iovPos).take chunk.length) {s : Sector}
    (hs : ∀ k : Fin 512, s k = overlay (fun k => (vol w₁).sector ((vol w₁).ino sv) u.block
      (Fin.ofNat 512 k)) z chunk k)
    (hc' : Calm w₁ w₂)
    (hv : vol w₂ = (vol w₁).setDisk ((vol w₁).fileBlock ((vol w₁).ino sv) u.block) s) :
    Moves π L sv src u w chunk w₂ := by
  have hsv : sv ∈ (vol w₁).fs.sfsVnodes := by rw [hx.here.vnodes]; exact h.vnode
  have hino := hx.here.ino_eq
  have hLp := h.core.live sv h.vnode
  obtain ⟨hg, href, hsec⟩ := Grown.put hx.core hsv s h0
  rw [← hv] at hg href hsec
  have hpos : u.pos = u.block * 512 + z := by
    rw [hskip, Uio.block]
    omega
  have hhigh : u.pos + chunk.length < 2 ^ 31 := by
    simp only [doubleLimit] at hlt
    omega
  refine ⟨hc.trans hc', hx.toGrown.trans hg, hx.steps.tail ?_, hn.trans h.fits, hhigh, ?_, ?_,
    fun _ => hsrc, ?_, ?_⟩
  · rw [hv]
    exact .put (h.alloc hw) h0
  · exact fun hr => by rw [hw] at hr; cases hr
  · exact fun hr => by rw [hw] at hr; cases hr
  · intro _
    have hsec' := hsec
    simp only [hino, hx.same _ hLp] at hsec' hs
    funext x
    rw [Vol.byte, hsec']
    by_cases hb : x / 512 = u.block
    · rw [if_pos hb, hs]
      dsimp only
      by_cases h1 : z ≤ x % 512
      · by_cases h2 : x % 512 - z < chunk.length
        · rw [overlay_of_mem h1 h2, overlay_of_mem (by omega) (by omega)]
          congr 1
          omega
        · rw [overlay_of_ge (by omega), overlay_of_ge (by omega), Vol.byte, hb]
          congr 1
          simp [Fin.ext_iff]
      · rw [overlay_of_lt _ (by omega), overlay_of_lt _ (by omega), Vol.byte, hb]
        congr 1
        simp [Fin.ext_iff]
    · rw [if_neg hb]
      by_cases h1 : x < u.pos
      · rw [overlay_of_lt _ h1]
        rfl
      · rw [overlay_of_ge (by omega)]
        rfl
  · intro _ x h1 h2
    have hb : x / 512 = u.block := by omega
    rw [hb, ← hino]
    exact hg.fileBlock_ne_zero h0

/-- Handing out `chunk` of the block at the position. -/
theorem Moves.ofGet {w₁ w₂ : World} {chunk : List UInt8} {z : Nat}
    (h : BlockSpec π L sv src u w n Q) (hc : Calm w w₁) (hx : Extended π L sv (vol w) (vol w₁))
    (hr : u.uioRw = .uioRead) (hlt : u.block < doubleLimit + 128 * 128 * 128)
    (hskip : z = u.pos % 512) (hfit : z + chunk.length ≤ 512) (hn : chunk.length ≤ n)
    (hchunk : chunk =
      (((vol w₁).sector ((vol w₁).ino sv) u.block).bytes.drop z).take chunk.length)
    (hc' : Calm w₁ w₂) (hv : vol w₂ = vol w₁) : Moves π L sv src u w chunk w₂ := by
  have hLp := h.core.live sv h.vnode
  have hpos : u.pos = u.block * 512 + z := by
    rw [hskip, Uio.block]
    omega
  refine ⟨hc.trans hc', by rw [hv]; exact hx.toGrown, by rw [hv]; exact hx.steps, hn.trans h.fits,
    ?_, ?_, ?_, ?_, ?_, ?_⟩
  · simp only [doubleLimit] at hlt
    omega
  · intro _
    rw [hx.here.ino_eq, hx.same _ hLp] at hchunk
    refine hchunk.trans (List.ext_getElem ?_ ?_)
    · rw [← hchunk, length_slice]
    · intro k h1 h2
      have hk : k < chunk.length := by rwa [length_slice] at h2
      rw [getElem_slice, List.getElem_take, List.getElem_drop, Vol.byte]
      have hdiv : (u.pos + k) / 512 = u.block := by omega
      have hmod : (u.pos + k) % 512 = z + k := by omega
      rw [Sector.getElem_bytes]
      simp only [hdiv, hmod]
  · intro _ fb
    rw [hv]
    exact hx.same _ hLp fb
  · exact fun hw => by rw [hr] at hw; cases hw
  · exact fun hw => by rw [hr] at hw; cases hw
  · exact fun hw => by rw [hr] at hw; cases hw

/-- The sector `sfs_partialio` writes back. -/
theorem ofBytes_splice (s : Sector) (skip : Nat) (chunk : List UInt8)
    (hfit : skip + chunk.length ≤ 512) (k : Fin 512) :
    Sector.ofBytes (s.bytes.take skip ++ (chunk ++ (s.bytes.drop skip).drop chunk.length)) k =
      overlay (fun k => s (Fin.ofNat 512 k)) skip chunk k := by
  have hk := k.isLt
  have hlen : (s.bytes.take skip).length = skip := by
    rw [List.length_take, Sector.length_bytes]
    omega
  have hself : Fin.ofNat 512 (k : Nat) = k := by simp
  rw [Sector.ofBytes, List.getD_eq_getElem?_getD]
  by_cases h1 : (k : Nat) < skip
  · rw [List.getElem?_append_left (by omega), List.getElem?_take_of_lt h1,
      Sector.getElem?_bytes s k hk, overlay_of_lt _ h1, hself]
    rfl
  · rw [List.getElem?_append_right (by omega), hlen]
    by_cases h2 : (k : Nat) - skip < chunk.length
    · rw [List.getElem?_append_left h2, overlay_of_mem (by omega) h2,
        List.getElem?_eq_getElem h2, Option.getD_some]
    · rw [List.getElem?_append_right (by omega), List.getElem?_drop, List.getElem?_drop,
        overlay_of_ge (by omega), hself]
      have he : skip + (chunk.length + ((k : Nat) - skip - chunk.length)) = k := by omega
      rw [he, Sector.getElem?_bytes s k hk]
      rfl

/-- Moving the bytes of a partial block through the uio; `n` may be 0. -/
theorem wp_uiomove_part {R : Post machine (List UInt8 × Uio × Result)} {ptr : List UInt8}
    (hs : u.Sound src) (hn : n ≤ u.uioResid)
    (hok : ∀ chunk, chunk = u.chunk w.st ptr n →
      R.ok (chunk ++ ptr.drop n, u.advance chunk, none) w)
    (hfault : u.iovMapped < u.iovPos + n → R.ok (ptr, u, some .efault) w) :
    (uiomove ptr n u).wp R w := by
  by_cases h0 : n = 0
  · subst h0
    have hz : u.chunk w.st ptr 0 = [] := by simp [Uio.chunk, Uio.source]
    have := hok _ rfl
    rw [hz, hs.advance_nil] at this
    simpa [uiomove, uiomove_loop_zero] using this
  · have hroom := hs.room
    exact wp_uiomove (by omega) (by omega) (by omega) (fun _ => hok _ rfl) hfault

/-- Mapping and reading the block of a partial transfer. -/
theorem wp_partialio_load {fb : Nat} {R : Post machine (UInt32 × Sector)} (h : Core L (vol w))
    (hsv : sv ∈ (vol w).fs.sfsVnodes) (hw : w.env.writeFaults = [])
    (ha : u.uioRw = .uioWrite → π.alloc)
    (hq : u.uioRw = .uioWrite → QuietHole (vol w) sv fb → π.quiet)
    (hk : u.uioRw = .uioRead → HoleRead (vol w) ((vol w).ino sv) fb → π.leak)
    (hok : ∀ d w', fb < doubleLimit + 128 * 128 * 128 → Calm w w' →
      Extended π L sv (vol w) (vol w') → d = (vol w').fileBlock ((vol w').ino sv) fb →
      (u.uioRw = .uioWrite → d ≠ 0) → R.ok (d, (vol w').sector ((vol w').ino sv) fb) w')
    (herr : ∀ e w', Calm w w' → Extended π L sv (vol w) (vol w') →
      BmapFails w sv fb (decide (u.uioRw = .uioWrite)) e → R.err e w')
    (hstop : ∀ m w', bufferLimit ≤ fb → R.stopped (.blockbufIndex m) w') :
    (sfsPartialio.load sv u fb).wp R w := by
  rw [sfsPartialio.load, Prog.wp_bind]
  refine wp_sfsBmap (π := π) (L := L) ⟨h, hsv, hw, ?_, ?_, ?_, ?_, herr, hstop⟩
  · exact fun hd => ha (of_decide_eq_true hd)
  · exact fun hd => hq (of_decide_eq_true hd)
  · exact fun hd => hk (UioRw.not_write.mp (of_decide_eq_false hd))
  intro d w₁ hlt hc hx hd hne
  have hne' (hw : u.uioRw = .uioWrite) : d ≠ 0 := hne (decide_eq_true hw)
  have hsv₁ : sv ∈ (vol w₁).fs.sfsVnodes := by rw [hx.here.vnodes]; exact hsv
  by_cases hz : d = 0
  · have hr : u.uioRw = .uioRead := UioRw.not_write.mp fun hw => hne' hw hz
    have hsec : (vol w₁).sector ((vol w₁).ino sv) fb = Sector.zero := by
      rw [Vol.sector, if_pos (hd.symm.trans hz)]
    have := hok d w₁ hlt hc hx hd hne'
    rw [hsec] at this
    simpa only [if_pos hz, if_pos hr, Prog.wp_pure] using this
  · have hsec : (vol w₁).sector ((vol w₁).ino sv) fb = (vol w₁).disk d.toNat := by
      rw [Vol.sector, if_neg (hd ▸ hz), ← hd]
    simp only [if_neg hz, Prog.wp_bind]
    refine wp_sfsRblock (hx.core.data_addressable hsv₁ hd hz) ?_ ?_
    · intro w₂ hquiet
      have := hok d w₂ hlt (hc.trans hquiet.toCalm) (by rw [hquiet.vol]; exact hx)
        (by rw [hquiet.vol]; exact hd) hne'
      rw [hquiet.vol, hsec] at this
      simp only [Prog.wp_pure]
      exact this
    · intro w₂ hquiet hreads
      refine herr _ w₂ (hc.trans hquiet.toCalm) (by rw [hquiet.vol]; exact hx) ?_
      exact .inl (.inl ⟨rfl, fun h0 => hreads (hc.reads h0)⟩)

/-- The transfer into or out of the loaded block. -/
theorem wp_partialio_move {w₁ : World} {skip : Nat} {d : UInt32} {s : Sector}
    (h : BlockSpec π L sv src u w n Q) (hskip : skip = u.pos % 512) (hfit : skip + n ≤ 512)
    (hlt : u.block < doubleLimit + 128 * 128 * 128) (hc : Calm w w₁)
    (hx : Extended π L sv (vol w) (vol w₁))
    (hd : d = (vol w₁).fileBlock ((vol w₁).ino sv) u.block) (hne : u.uioRw = .uioWrite → d ≠ 0)
    (hs : s = (vol w₁).sector ((vol w₁).ino sv) u.block) :
    (sfsPartialio.move u skip n d s).wp Q w₁ := by
  have hinside : ¬ (n > 0 ∧ skip + n > sfsBlocksize) := by
    rw [sfsBlocksize]
    omega
  rw [sfsPartialio.move, Prog.wp_bind, wp_modifyBufs]
  dsimp only
  rw [if_neg hinside, Prog.wp_bind]
  refine wp_uiomove_part h.sound h.fits ?_ ?_
  · intro chunk hchunk
    simp only [Prog.wp_bind, wp_modifyBufs]
    by_cases hw : u.uioRw = .uioWrite
    · have hsrc : chunk = (src.drop u.iovPos).take n := by
        rw [hchunk, Uio.chunk, if_neg (by rw [hw]; decide), Uio.source, h.sound.base]
      have hlen : chunk.length = n := by
        have := h.sound.enough hw
        have := h.fits
        rw [hsrc, List.length_take, List.length_drop]
        omega
      have hadv : (u.advance chunk).uioRw = .uioWrite := hw
      have hsv : sv ∈ (vol w₁).fs.sfsVnodes := by rw [hx.here.vnodes]; exact h.vnode
      have h0 : (vol w₁).fileBlock ((vol w₁).ino sv) u.block ≠ 0 := hd ▸ hne hw
      have haddr := hx.core.data_addressable hsv hd (hne hw)
      rw [if_pos hadv, Prog.wp_bind, Prog.wp_mark]
      dsimp only
      rw [Prog.wp_bind, wp_attempt]
      refine wp_sfsWblock ⟨haddr.lt, haddr.offsets⟩ (hc.writes h.writes) ?_
      intro w₂ hw₂
      dsimp only
      rw [Prog.wp_bind, Prog.wp_mark]
      dsimp only
      rw [Prog.wp_pure]
      refine h.ok chunk w₂ (Moves.ofPut (s := Sector.ofBytes (s.bytes.take skip ++
        (chunk ++ (s.bytes.drop skip).drop n))) h hc hx hw h0 hlt hskip (by omega) (by omega) ?_ ?_
        ⟨hw₂.reads, hw₂.writes, hw₂.mem⟩ ?_) hlen
      · rw [hlen]; exact hsrc
      · intro k
        rw [← hlen, ofBytes_splice s skip chunk (by omega), hs]
      · rw [← hd]
        simp only [vol, hw₂.st, hw₂.disk]
        rfl
    · have hr := UioRw.not_write.mp hw
      have hget : chunk = (s.bytes.drop skip).take n := by
        rw [hchunk, Uio.chunk, if_pos hr]
      have hlen : chunk.length = n := by
        rw [hget, List.length_take, List.length_drop, Sector.length_bytes]
        omega
      have hadv : ¬ (u.advance chunk).uioRw = .uioWrite := hw
      simp only [if_neg hadv, Prog.wp_pure]
      refine h.ok chunk _ (Moves.ofGet (z := skip) h hc hx hr hlt hskip (by omega) (by omega) ?_
        ⟨id, id, id⟩ rfl) hlen
      rw [hlen, ← hs, hget]
  · intro hfault
    simp only [Prog.wp_pure]
    rw [← h.sound.advance_nil]
    refine h.fail [] _ .efault (h.mapped (hc.trans ⟨id, id, id⟩) ?_) (Nat.zero_le _)
      (fun _ => rfl) (.inr ⟨rfl, hfault⟩)
    exact hx

theorem wp_sfsPartialio {skip : Nat} (h : BlockSpec π L sv src u w n Q)
    (hskip : skip = u.pos % 512) (hfit : skip + n ≤ 512) :
    (sfsPartialio sv u skip n).wp Q w := by
  have hlen : ¬ u32 ((skip : Int) + n) > sfsBlocksize := by
    rw [u32_eq (by omega) (by omega), sfsBlocksize]
    omega
  rw [sfsPartialio, if_neg hlen, Prog.wp_bind]
  dsimp only
  rw [wp_attempt]
  have hfb : u32 (u.uioOffset.tdiv sfsBlocksize) = u.block := h.sound.tdiv
  rw [hfb]
  refine wp_partialio_load h.core h.vnode h.writes h.alloc h.quiet h.leak ?_ ?_ ?_
  · intro d w₁ hlt hc hx hd hne
    exact wp_partialio_move h hskip hfit hlt hc hx hd hne rfl
  · intro e w₁ hc hx he
    have := h.fail _ w₁ e (h.mapped hc hx) (Nat.zero_le _) (fun _ => rfl) (.inl he)
    rw [h.sound.advance_nil] at this
    simpa only [Prog.wp_pure] using this
  · exact h.stopped

/-- Zeros for a hole, sixteen at a time. -/
theorem wp_uiomovezeros_loop {R : Post machine (Uio × Result)} :
    ∀ (fuel n : Nat) (u : Uio), n ≤ fuel → u.Sound src → u.uioRw = .uioRead → n ≤ u.uioResid →
      u.pos + n < 2 ^ 31 → R.ok (u.advance (List.replicate n 0), none) w →
      (∀ k, k ≤ n → u.iovMapped < u.iovPos + n →
        R.ok (u.advance (List.replicate k 0), some .efault) w) →
      (uiomovezeros.loop fuel n u).wp R w := by
  intro fuel
  induction fuel with
  | zero =>
    intro n u hn hs _ _ _ hok _
    obtain rfl : n = 0 := by omega
    rw [List.replicate_zero, hs.advance_nil] at hok
    simpa only [uiomovezeros.loop, Prog.wp_pure] using hok
  | succ fuel ih =>
    intro n u hn hs hr hfit hpos hok hfault
    rw [uiomovezeros.loop]
    by_cases h0 : n > 0
    · rw [if_pos h0, Prog.wp_bind]
      have hroom := hs.room
      refine wp_uiomove (by omega) (by omega) (by omega) ?_ ?_
      · intro _
        have hch : u.chunk w.st (List.replicate 16 0) (min 16 n) = List.replicate (min 16 n) 0 := by
          rw [Uio.chunk, if_pos hr, List.take_replicate]
          congr 1
          omega
        dsimp only
        rw [hch]
        have hlen : (List.replicate (min 16 n) (0 : UInt8)).length = min 16 n :=
          List.length_replicate
        have hadv {k : Nat} (hk : k ≤ n - min 16 n) :
            (u.advance (List.replicate (min 16 n) 0)).advance (List.replicate k 0) =
              u.advance (List.replicate (min 16 n + k) 0) := by
          have hlk : (List.replicate k (0 : UInt8)).length = k := List.length_replicate
          rw [hs.advance_advance (by omega) (by omega) (by omega) (by omega),
            List.replicate_append_replicate]
        have hmap : (u.advance (List.replicate (min 16 n) 0)).iovPos = u.iovPos + min 16 n := by
          simp only [Uio.advance, hlen]
        refine ih (n - min 16 n) _ (by omega) (hs.advance (by omega) (by omega)) hr ?_ ?_ ?_ ?_
        · rw [hs.resid_advance (by omega)]
          omega
        · rw [hs.pos_advance (by omega)]
          omega
        · rw [hadv (Nat.le_refl _)]
          have he : min 16 n + (n - min 16 n) = n := by omega
          rw [he]
          exact hok
        · intro k hk hm
          rw [hadv hk]
          refine hfault _ (by omega) ?_
          rw [hmap] at hm
          have hm' : u.iovMapped < u.iovPos + min 16 n + (n - min 16 n) := hm
          omega
      · intro hm
        simp only [Prog.wp_pure]
        have := hfault 0 (Nat.zero_le _) (by omega)
        rwa [List.replicate_zero, hs.advance_nil] at this
    · obtain rfl : n = 0 := by omega
      rw [List.replicate_zero, hs.advance_nil] at hok
      rw [if_neg h0]
      simpa only [Prog.wp_pure] using hok

theorem i32_i32_add (a b : Int) : i32 (i32 a + b) = i32 (a + b) := by
  unfold i32
  split <;> split <;> split <;> omega

/-- The uio after a transfer at another offset, with the file's put back. -/
theorem restore_advance (hs : u.Sound src) {l : List UInt8} (hl : l.length = 512)
    (hfit : 512 ≤ u.uioResid) (o : Int) :
    { ({ u with uioOffset := o, uioResid := 512 } : Uio).advance l with
      uioOffset := i32 (i32 ((({ u with uioOffset := o, uioResid := 512 } :
        Uio).advance l).uioOffset
        - o) + u.uioOffset)
      uioResid := u32 ((({ u with uioOffset := o, uioResid := 512 } : Uio).advance l).uioResid
        - (512 : Nat) + u.uioResid) } = u.advance l := by
  have hsmall := hs.small
  ext1
  · rfl
  · rfl
  · rfl
  · rfl
  · rfl
  · simp only [Uio.advance, hl, Int.sub_eq_add_neg, i32_i32_add]
    congr 1
    omega
  · simp only [Uio.advance, hl]
    rw [u32_eq (x := ((512 : Nat) : Int) - (512 : Nat)) (by omega) (by omega),
      u32_eq (by omega) (by omega), u32_eq (by omega) (by omega)]
    omega
  · rfl

theorem restore_same (hs : u.Sound src) (o : Int) :
    { u with uioOffset := i32 (i32 (o - o) + u.uioOffset)
             uioResid := u32 (((512 : Nat) : Int) - (512 : Nat) + u.uioResid) } = u := by
  have hsmall := hs.small
  have hlow := hs.low
  have hhigh := hs.high
  ext1
  · rfl
  · rfl
  · rfl
  · rfl
  · rfl
  · simp only [i32_i32_add]
    rw [i32_eq (by omega) (by omega)]
    omega
  · simp only
    rw [u32_eq (by omega) (by omega)]
    omega
  · rfl

theorem wp_blockio_hole {w₁ : World} (h : BlockSpec π L sv src u w 512 Q)
    (hal : u.pos % 512 = 0) (hr : u.uioRw = .uioRead)
    (hlt : u.block < doubleLimit + 128 * 128 * 128) (hc : Calm w w₁)
    (hx : Extended π L sv (vol w) (vol w₁))
    (h0 : (vol w₁).fileBlock ((vol w₁).ino sv) u.block = 0) :
    (uiomovezeros 512 u).wp Q w₁ := by
  have hzero (k : Nat) (hk : k ≤ 512) : Moves π L sv src u w (List.replicate k 0) w₁ := by
    refine Moves.ofGet (z := 0) h hc hx hr hlt hal.symm ?_ ?_ ?_ (.refl w₁) rfl
    · rw [List.length_replicate]
      omega
    · rw [List.length_replicate]
      exact hk
    · have hb : Sector.zero.bytes = List.replicate 512 0 := by
        apply List.ext_getElem
        · rw [Sector.length_bytes, List.length_replicate]
        · intro i h1 h2
          rw [Sector.getElem_bytes, List.getElem_replicate]
          rfl
      rw [Vol.sector, if_pos h0, hb, List.drop_zero, List.length_replicate, List.take_replicate,
        Nat.min_eq_left hk]
  have hpos : u.pos + 512 < 2 ^ 31 := by
    have : u.pos < u.block * 512 + 512 := by
      unfold Uio.block
      omega
    simp only [doubleLimit] at hlt
    omega
  rw [uiomovezeros, if_pos hr]
  refine wp_uiomovezeros_loop 512 512 u (Nat.le_refl _) h.sound hr h.fits hpos ?_ ?_
  · exact h.ok _ w₁ (hzero 512 (Nat.le_refl _)) List.length_replicate
  · intro k hk hm
    refine h.fail _ w₁ _ (hzero k hk) (by rw [List.length_replicate]; exact hk) (fun hw => ?_)
      (.inr ⟨rfl, hm⟩)
    exact absurd hr (UioRw.not_read.mpr hw)

theorem ofBytes_whole {l : List UInt8} (hl : l.length = 512) (f : Nat → UInt8) (k : Fin 512) :
    Sector.ofBytes l k = overlay f 0 l k := by
  have hk : (k : Nat) < l.length := by
    rw [hl]
    exact k.isLt
  rw [overlay_of_mem (Nat.zero_le _) (by omega), Sector.ofBytes, List.getD_eq_getElem?_getD,
    List.getElem?_eq_getElem hk]
  rfl

theorem wp_blockio_transfer {w₁ : World} {d : UInt32} {o : Int} (h : BlockSpec π L sv src u w 512 Q)
    (hal : u.pos % 512 = 0) (hlt : u.block < doubleLimit + 128 * 128 * 128) (hc : Calm w w₁)
    (hx : Extended π L sv (vol w) (vol w₁))
    (hd : d = (vol w₁).fileBlock ((vol w₁).ino sv) u.block) (hz : d ≠ 0)
    (haddr : Addressable d (vol w₁).fs) (ho : o = d.toNat * 512) :
    (sfsBlockio.transfer u o).wp Q w₁ := by
  have h0 := hd ▸ hz
  have hdiv := h.fits
  have hask : Asks { u with uioOffset := o, uioResid := 512 } d.toNat w₁ :=
    ⟨ho, rfl, Nat.le_trans hdiv h.sound.room, haddr.lt, haddr.offsets⟩
  have hfail (w₂ : World) (hc₂ : Calm w₁ w₂) (hv : vol w₂ = vol w₁) (e : Errno)
      (he : BlockFails w sv u 512 e) : Q.ok (u, some e) w₂ := by
    have := h.fail [] w₂ e (h.mapped (hc.trans hc₂) (by rw [hv]; exact hx)) (Nat.zero_le _)
      (fun _ => rfl) he
    rwa [h.sound.advance_nil] at this
  rw [sfsBlockio.transfer, Prog.wp_bind]
  by_cases hw : u.uioRw = .uioWrite
  · have hsrc : ({ u with uioOffset := o, uioResid := 512 } : Uio).source w₁.st 512 =
        (src.drop u.iovPos).take 512 := by
      rw [Uio.source, h.sound.base]
    have hlen : ((src.drop u.iovPos).take 512).length = 512 := by
      have := h.sound.enough hw
      rw [List.length_take, List.length_drop]
      omega
    refine wp_sfsRwblock_write hask hw (hc.writes h.writes) ?_ ?_
    · intro w₂ hw₂ _
      rw [hsrc] at hw₂ ⊢
      simp only [Prog.wp_pure]
      rw [restore_advance h.sound hlen hdiv o]
      refine h.ok _ w₂ (Moves.ofPut (z := 0) h hc hx hw h0 hlt hal.symm (by omega) (by omega)
        (by rw [hlen]) (ofBytes_whole hlen _) ⟨hw₂.reads, hw₂.writes, hw₂.mem⟩ ?_) hlen
      rw [← hd]
      simp only [vol, hw₂.st, hw₂.disk]
      rfl
    · intro hm
      simp only [Prog.wp_pure, restore_same h.sound]
      exact hfail w₁ (.refl w₁) rfl _ (.inr ⟨rfl, hm⟩)
  · have hr := UioRw.not_write.mp hw
    have hsec : (vol w₁).sector ((vol w₁).ino sv) u.block = w₁.env.disk d.toNat := by
      rw [Vol.sector, if_neg h0, ← hd]
      rfl
    refine wp_sfsRwblock_read hask hr ?_ ?_ ?_
    · intro w₂ hq _
      simp only [Prog.wp_pure]
      rw [restore_advance h.sound (Sector.length_bytes _) hdiv o]
      refine h.ok _ w₂ (Moves.ofGet (z := 0) h hc hx hr hlt hal.symm ?_ ?_ ?_ hq.toCalm
        hq.vol) (Sector.length_bytes _)
      · rw [Sector.length_bytes]
      · rw [Sector.length_bytes]
      · rw [hsec, List.drop_zero, Sector.length_bytes, List.take_of_length_le]
        rw [Sector.length_bytes]
    · intro w₂ hq hm
      simp only [Prog.wp_pure, restore_same h.sound]
      exact hfail w₂ hq.toCalm hq.vol _ (.inr ⟨rfl, hm⟩)
    · intro w₂ hq hreads
      simp only [Prog.wp_pure, restore_same h.sound]
      exact hfail w₂ hq.toCalm hq.vol _ (.inl (.inl (.inl ⟨rfl, fun h1 => hreads (hc.reads h1)⟩)))

theorem wp_sfsBlockio (h : BlockSpec π L sv src u w 512 Q) (hal : u.pos % 512 = 0) :
    (sfsBlockio sv u).wp Q w := by
  simp only [sfsBlockio, sfsBlocksize, Prog.wp_bind]
  rw [wp_attempt]
  refine h.bmap ?_ ?_ ?_
  · intro d w₁ hlt hc hx hd hne
    dsimp only
    by_cases hz : d = 0
    · have hr : u.uioRw = .uioRead := UioRw.not_write.mp fun hw => hne hw hz
      rw [if_pos hz, if_pos hr]
      exact wp_blockio_hole h hal hr hlt hc hx (hd.symm.trans hz)
    · have hsv : sv ∈ (vol w₁).fs.sfsVnodes := by rw [hx.here.vnodes]; exact h.vnode
      have haddr := hx.core.data_addressable hsv hd hz
      have hoff : i32 ((d.toNat : Int) * (512 : Nat)) = d.toNat * 512 := by
        have hlow := haddr.lt
        have hhigh := haddr.offsets
        rw [i32_eq (by omega) (by omega)]
        rfl
      rw [if_neg hz, if_neg (Nat.not_lt.mpr h.fits)]
      exact wp_blockio_transfer h hal hlt hc hx hd hz haddr hoff
  · intro e w₁ hm he
    have := h.fail _ w₁ e hm (Nat.zero_le _) (fun _ => rfl) he
    rw [h.sound.advance_nil] at this
    simpa only [Prog.wp_pure] using this
  · exact h.stopped

end Block

end Os161.Sfs
