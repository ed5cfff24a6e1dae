import Os161.Sfs.Residues
import Os161.User.Copies

/-! # The name of the current directory

`vfs_getcwd` writes it through a uio on a kernel buffer, `__getcwd` copies the buffer out, and the
`getcwd` of the C library ends it with a zero. -/
namespace Os161.User
open Os161.Lib Os161.Sfs

/-- The name of the volume, a colon and the path from its root. -/
def cwd (name path : List UInt8) : List UInt8 := name ++ [58] ++ path

/-- `vfs_getcwd`, for a directory whose `VOP_NAMEFILE` writes `path`. -/
def getcwdMoves (name path : List UInt8) (u : Uio) : Kern (Uio × Result) := do
  let (_, u, result) ← uiomove name name.length u
  match result with
  | some e => return (u, some e)
  | none => do
    let (_, u, result) ← uiomove [58] 1 u
    match result with
    | some e => return (u, some e)
    | none => do
      let (_, u, result) ← uiomove path path.length u
      return (u, result)

section Calls

variable (name path : List UInt8) (mapped : Nat → Bool) (mem : Mem) (heap : Nat → UInt8)
  (buf buflen : UInt32)

/-- `__getcwd`; it returns what is left of the iovec. -/
def sysGetcwd : Kern (Int × Mem) := do
  let (ku, result) ← getcwdMoves name path (mkKuio (fun _ => []) buflen.toNat 0 .uioRead)
  match result with
  | some _ => return (-1, mem)
  | none =>
    return (i32 ku.iovLen, (copyout mapped mem (kbuffer ku.iovOut heap) buf buflen).dest)

/-- `getcwd` of the C library; `none` is `NULL`. -/
def getcwd : Kern (Option UInt32 × Mem) :=
  if buflen < 1 then return (none, mem)
  else do
    let (r, mem) ← sysGetcwd name path mapped mem heap buf (buflen - 1)
    if r < 0 then return (none, mem)
    else return (some buf, store mem (buf + UInt32.ofNat r.toNat) 1 fun _ => 0)

end Calls

/-! ## What the calls are to deliver -/

/-- The program ends, with a result that satisfies `P`. -/
def yields {α : Type} (P : α → Prop) : Post machine α :=
  ⟨fun a _ => P a, fun _ _ => False, fun _ _ => False⟩

section Properties

variable (name path : List UInt8) (mapped : Nat → Bool) (buf buflen : UInt32) (w : World)

def Returned : Prop :=
  (cwd name path).length ≤ buflen.toNat → ∀ mem heap,
    (sysGetcwd name path mapped mem heap buf buflen).wp
      (yields fun r => r.1 = (cwd name path).length) w

/-- Nothing but the string is written. -/
def Written : Prop :=
  (cwd name path).length ≤ buflen.toNat → ∀ mem heap,
    (sysGetcwd name path mapped mem heap buf buflen).wp (yields fun r =>
      r.2 = store mem buf (cwd name path).length (kbuffer (cwd name path) fun _ => 0)) w

def Terminated : Prop :=
  (cwd name path).length < buflen.toNat → ∀ mem heap,
    (getcwd name path mapped mem heap buf buflen).wp
      (yields fun r => r.1 = some buf ∧ NulTerminated r.2 buf (cwd name path)) w

/-- A buffer that is too small keeps its bounds. -/
def Bounded : Prop :=
  (buflen.toNat < (cwd name path).length → ∀ mem heap,
    (sysGetcwd name path mapped mem heap buf buflen).wp
      (yields fun r => ∀ x : UInt32, ¬ (x - buf).toNat < buflen.toNat → r.2 x = mem x) w) ∧
  (buflen.toNat ≤ (cwd name path).length → ∀ mem heap,
    (getcwd name path mapped mem heap buf buflen).wp
      (yields fun r => ∀ x : UInt32, ¬ (x - buf).toNat < buflen.toNat → r.2 x = mem x) w)

/-- The string is delivered exactly. -/
structure Delivered : Prop where
  returned : Returned name path mapped buf buflen w
  written : Written name path mapped buf buflen w
  terminated : Terminated name path mapped buf buflen w
  bounded : Bounded name path mapped buf buflen w

end Properties

/-! ## What the calls do -/

section Calls

variable {name path s p : List UInt8} {mapped : Nat → Bool} {mem : Mem} {heap : Nat → UInt8}
  {buf buflen : UInt32} {w : World}

/-- The uio of `__getcwd`, with as much of `s` in the buffer as it holds. -/
def filled (n : Nat) (s : List UInt8) : Uio := (mkKuio (fun _ => []) n 0 .uioRead).after (s.take n)

/-- The next piece of the name goes behind the ones before it. -/
theorem uiomove_filled {n : Nat} (hn : n < 2 ^ 32) {Q : Post machine (List UInt8 × Uio × Result)}
    (hok : ∀ l, Q.ok (l, filled n (s ++ p), none) w) :
    (uiomove p p.length (filled n s)).wp Q w := by
  have hlen : (s.take n).length ≤ n := List.length_take_le n s
  have hbase : (mkKuio (fun _ => []) n 0 .uioRead).Backed w.st :=
    ⟨Nat.le_refl n, hn, Nat.le_of_eq (Nat.zero_add n), fun hw => nomatch hw⟩
  have hmove : MovesResidue p p.length (filled n s) w :=
    movesResidue_of (hbase.after hlen) (Uio.offT_after _) (Nat.le_refl _) (.inr (.inl rfl))
  have hresid : (filled n s).uioResid = n - (s.take n).length := rfl
  have hchunk (m : Nat) : (filled n s).chunk w.st p m = p.take m := if_pos rfl
  have htake : p.take (min p.length (n - (s.take n).length)) = p.take (n - s.length) := by
    rw [Nat.min_comm p.length, ← List.take_eq_take_min, List.length_take]
    by_cases hle : s.length ≤ n
    · rw [Nat.min_eq_right hle]
    · have h1 : n - min n s.length = 0 := by omega
      have h2 : n - s.length = 0 := by omega
      rw [h1, h2]
  rw [MovesResidue, hchunk, hresid, htake, filled, Uio.after_after, ← List.take_append] at hmove
  refine hmove.mono ?_ (fun _ _ hx => hx.elim) fun _ _ hx => hx.elim
  intro _ _ hy
  obtain ⟨rfl, rfl⟩ := hy
  exact hok _

theorem getcwdMoves_only {n : Nat} (hn : n < 2 ^ 32) :
    (getcwdMoves name path (mkKuio (fun _ => []) n 0 .uioRead)).wp
      (only (filled n (cwd name path), none) w) w := by
  have hstart : mkKuio (fun _ => []) n 0 .uioRead = filled n [] := by
    rw [filled, List.take_nil, Uio.after_nil rfl]
  rw [hstart, getcwdMoves, Prog.wp_bind]
  refine uiomove_filled hn fun _ => ?_
  dsimp only
  rw [Prog.wp_bind]
  refine uiomove_filled hn fun _ => ?_
  dsimp only
  rw [Prog.wp_bind]
  refine uiomove_filled hn fun _ => ?_
  dsimp only
  rw [Prog.wp_pure]
  exact ⟨rfl, rfl⟩

theorem kbuffer_take {i n : Nat} (h : i < n) : kbuffer (s.take n) heap i = kbuffer s heap i := by
  rw [kbuffer, List.getElem?_take_of_lt h, kbuffer]

/-- What is left of the iovec is returned, and the whole buffer goes out. -/
theorem sysGetcwd_only (hp : Present mapped buf buflen) :
    (sysGetcwd name path mapped mem heap buf buflen).wp
      (only (i32 (buflen.toNat - (cwd name path).length : Nat),
        store mem buf buflen.toNat (kbuffer (cwd name path) heap)) w) w := by
  have hleft : (filled buflen.toNat (cwd name path)).iovLen =
      buflen.toNat - (cwd name path).length := by
    change buflen.toNat - ((cwd name path).take buflen.toNat).length = _
    rw [List.length_take]
    omega
  have hout : (filled buflen.toNat (cwd name path)).iovOut = (cwd name path).take buflen.toNat :=
    rfl
  have hstore : store mem buf buflen.toNat
      (kbuffer ((cwd name path).take buflen.toNat) heap) =
        store mem buf buflen.toNat (kbuffer (cwd name path) heap) := by
    funext x
    unfold store
    split_ifs with hx
    · exact kbuffer_take hx
    · rfl
  rw [sysGetcwd, Prog.wp_bind, wp_of_only (getcwdMoves_only buflen.toNat_lt)]
  dsimp only
  rw [Prog.wp_pure, hleft, hout, copyout_present hp, hstore]
  exact ⟨rfl, rfl⟩

/-- `getcwd` puts the zero where `__getcwd` says that the string ends. -/
theorem getcwd_only (hp : Present mapped buf buflen) (h1 : 1 ≤ buflen.toNat) :
    (getcwd name path mapped mem heap buf buflen).wp
      (only (if i32 (buflen.toNat - 1 - (cwd name path).length : Nat) < 0 then
          (none, store mem buf (buflen.toNat - 1) (kbuffer (cwd name path) heap))
        else (some buf, store (store mem buf (buflen.toNat - 1) (kbuffer (cwd name path) heap))
          (buf + UInt32.ofNat (i32 (buflen.toNat - 1 - (cwd name path).length : Nat)).toNat) 1
            fun _ => 0)) w) w := by
  have hle : (1 : UInt32) ≤ buflen := UInt32.le_iff_toNat_le.mpr h1
  have hlen : (buflen - 1).toNat = buflen.toNat - 1 := UInt32.toNat_sub_of_le _ _ hle
  have hp' : Present mapped buf (buflen - 1) :=
    ⟨fun a ha hlt => hp.user a ha (by omega), fun a ha hlt => hp.mapped a ha (by omega)⟩
  rw [getcwd, if_neg (UInt32.not_lt.mpr hle), Prog.wp_bind, wp_of_only (sysGetcwd_only hp'), hlen]
  dsimp only
  split_ifs with hneg
  · rw [Prog.wp_pure]
    exact ⟨rfl, rfl⟩
  · rw [Prog.wp_pure]
    exact ⟨rfl, rfl⟩

/-! ## What they deliver -/

theorem cwd_length_pos : 0 < (cwd name path).length := by
  rw [cwd, List.length_append, List.length_append, List.length_singleton]
  omega

theorem returned_iff (hp : Present mapped buf buflen) : Returned name path mapped buf buflen w ↔
    buflen.toNat < (cwd name path).length ∨ buflen.toNat = 2 * (cwd name path).length := by
  have hlt := buflen.toNat_lt
  constructor
  · intro h
    by_cases hle : (cwd name path).length ≤ buflen.toNat
    · have hr := (wp_of_only (sysGetcwd_only hp)).mp (h hle (fun _ => 0) fun _ => 0)
      simp only [yields] at hr
      unfold i32 at hr
      split at hr <;> omega
    · exact .inl (Nat.not_le.mp hle)
  · intro h hle mem heap
    refine (wp_of_only (sysGetcwd_only hp)).mpr ?_
    have hr : i32 (buflen.toNat - (cwd name path).length : Nat) = (cwd name path).length := by
      rw [i32_eq (by omega) (by omega)]
      omega
    simpa only [yields] using hr

theorem written_iff (hp : Present mapped buf buflen) : Written name path mapped buf buflen w ↔
    buflen.toNat ≤ (cwd name path).length := by
  constructor
  · intro h
    by_contra hgt
    have hle : (cwd name path).length ≤ buflen.toNat := by omega
    have hr := (wp_of_only (sysGetcwd_only hp)).mp (h hle (fun _ => 0) fun _ => 1)
    have hr := congrFun hr (buf + UInt32.ofNat (cwd name path).length)
    have hlt : (cwd name path).length < 2 ^ 32 := Nat.lt_of_le_of_lt hle buflen.toNat_lt
    have hend : ¬ (buf + UInt32.ofNat (cwd name path).length - buf).toNat <
        (cwd name path).length := by
      rw [toNat_add_sub hlt]
      exact Nat.lt_irrefl _
    dsimp only at hr
    rw [store_of_not hend, store_of_lt (by omega) (Nat.le_of_lt buflen.toNat_lt),
      kbuffer_of_ge (Nat.le_refl _)] at hr
    exact absurd hr (by decide)
  · intro h hle mem heap
    refine (wp_of_only (sysGetcwd_only hp)).mpr ?_
    have heq : buflen.toNat = (cwd name path).length := Nat.le_antisymm h hle
    change store mem buf buflen.toNat (kbuffer (cwd name path) heap) = _
    rw [heq]
    funext x
    unfold store
    split_ifs with hx
    · rw [kbuffer_of_lt hx, kbuffer_of_lt hx]
    · rfl

/-- The zero ends the string if as much is left as the string takes. -/
theorem Terminated.of_left (hp : Present mapped buf buflen)
    (h : buflen.toNat = 2 * (cwd name path).length + 1) :
    Terminated name path mapped buf buflen w := by
  intro hlt mem heap
  have hword := buflen.toNat_lt
  refine (wp_of_only (getcwd_only hp (Nat.one_le_of_lt hlt))).mpr ?_
  have hleft : buflen.toNat - 1 - (cwd name path).length = (cwd name path).length := by omega
  have hr : i32 ((cwd name path).length : Nat) = (cwd name path).length :=
    i32_eq (by omega) (by omega)
  have hpos : ¬ ((cwd name path).length : Int) < 0 := by omega
  rw [hleft, hr, if_neg hpos, Int.toNat_natCast]
  refine ⟨rfl, fun i hi => ?_, ?_⟩
  · have hne : ¬ buf + UInt32.ofNat i = buf + UInt32.ofNat (cwd name path).length :=
      fun he => Nat.ne_of_lt hi ((add_ofNat_inj (by omega) (by omega)).mp he)
    dsimp only
    rw [store_one, if_neg hne, store_of_lt (by omega) (by omega), kbuffer_of_lt hi]
  · dsimp only
    rw [store_one, if_pos rfl]

theorem Terminated.left (hp : Present mapped buf buflen)
    (h : Terminated name path mapped buf buflen w) (hlt : (cwd name path).length < buflen.toNat) :
    buflen.toNat = 2 * (cwd name path).length + 1 := by
  have hword := buflen.toNat_lt
  have hr := (wp_of_only (getcwd_only hp (Nat.one_le_of_lt hlt))).mp
    (h hlt (fun _ => 1) fun _ => 1)
  simp only [yields] at hr
  obtain ⟨hbuf, hnul⟩ := hr
  generalize hi : i32 (buflen.toNat - 1 - (cwd name path).length : Nat) = r at hbuf hnul
  by_cases hneg : r < 0
  · rw [if_pos hneg] at hbuf
    cases hbuf
  · rw [if_neg hneg] at hnul
    have hend := hnul.nul
    dsimp only at hend
    rw [store_one] at hend
    by_cases hs : buf + UInt32.ofNat (cwd name path).length = buf + UInt32.ofNat r.toNat
    · have hr32 : r < 2 ^ 31 := by
        rw [← hi]
        exact i32_lt _
      have hlen := (add_ofNat_inj (by omega) (by omega)).mp hs
      unfold i32 at hi
      split at hi <;> omega
    · -- no zero was written there, and neither memory nor heap has one
      rw [if_neg hs] at hend
      by_cases hin : (cwd name path).length < buflen.toNat - 1
      · rw [store_of_lt hin (by omega), kbuffer_of_ge (Nat.le_refl _)] at hend
        exact absurd hend (by decide)
      · rw [store_of_not (by rw [toNat_add_sub (by omega)]; exact hin)] at hend
        exact absurd hend (by decide)

theorem terminated_iff (hp : Present mapped buf buflen) :
    Terminated name path mapped buf buflen w ↔
      buflen.toNat ≤ (cwd name path).length ∨ buflen.toNat = 2 * (cwd name path).length + 1 := by
  constructor
  · intro h
    by_cases hlt : (cwd name path).length < buflen.toNat
    · exact .inr (h.left hp hlt)
    · exact .inl (Nat.not_lt.mp hlt)
  · intro hx
    rcases hx with hle | heq
    · exact fun hlt => absurd hlt (Nat.not_lt.mpr hle)
    · exact .of_left hp heq

theorem Bounded.of_present (hp : Present mapped buf buflen) :
    Bounded name path mapped buf buflen w := by
  refine ⟨fun _ mem heap => ?_, fun hle mem heap => ?_⟩
  · exact (wp_of_only (sysGetcwd_only hp)).mpr fun x hx => store_of_not hx
  · by_cases h0 : buflen.toNat = 0
    · have hz : buflen < 1 := UInt32.lt_iff_toNat_lt.mpr (Nat.lt_one_iff.mpr h0)
      rw [getcwd, if_pos hz, Prog.wp_pure]
      exact fun x _ => rfl
    · refine (wp_of_only (getcwd_only hp (Nat.one_le_iff_ne_zero.mpr h0))).mpr fun x hx => ?_
      have hleft : buflen.toNat - 1 - (cwd name path).length = 0 := by omega
      have hr : i32 ((0 : Nat) : Int) = 0 := by decide
      have hin : ¬ (x - buf).toNat < buflen.toNat - 1 := by omega
      have hne : ¬ x = buf + UInt32.ofNat (0 : Int).toNat := by
        intro hy
        obtain rfl := hy
        rw [Int.toNat_zero, toNat_add_sub (by decide)] at hx
        omega
      rw [hleft, hr, if_neg (Int.lt_irrefl 0)]
      dsimp only
      rw [store_one, if_neg hne, store_of_not hin]

/-- The string is delivered exactly when the buffer is too small for it. The number returned is
that of the bytes left over, so it is right only if as many are left as used. -/
theorem cwd_delivered_iff (name path : List UInt8) (mapped : Nat → Bool) (buf buflen : UInt32)
    (hp : Present mapped buf buflen) (w : World) :
    (Delivered name path mapped buf buflen w ↔ buflen.toNat < (cwd name path).length) ∧
      (Returned name path mapped buf buflen w ↔
        buflen.toNat < (cwd name path).length ∨ buflen.toNat = 2 * (cwd name path).length) ∧
      (Written name path mapped buf buflen w ↔ buflen.toNat ≤ (cwd name path).length) ∧
      (Terminated name path mapped buf buflen w ↔ buflen.toNat ≤ (cwd name path).length ∨
        buflen.toNat = 2 * (cwd name path).length + 1) := by
  refine ⟨⟨fun h => ?_, fun hlt => ?_⟩, returned_iff hp, written_iff hp, terminated_iff hp⟩
  · have hpos : 0 < (cwd name path).length := cwd_length_pos
    rcases (returned_iff hp).mp h.returned with hlt | htwice
    · exact hlt
    · have hle := (written_iff hp).mp h.written
      omega
  · exact ⟨(returned_iff hp).mpr (.inl hlt), (written_iff hp).mpr (Nat.le_of_lt hlt),
      (terminated_iff hp).mpr (.inl (Nat.le_of_lt hlt)), .of_present hp⟩

end Calls

/-! ## `emu0:` -/

theorem present_five : Present (fun _ => true) 0x1000 5 :=
  ⟨(inUser_iff (by decide)).mpr (by decide), fun _ _ _ => rfl⟩

theorem cwd_delivered_iff_emu0 :
    (Delivered [101, 109, 117, 48] [] (fun _ => true) 0x1000 5 smallVolume ↔ 5 < 5) ∧
      (Returned [101, 109, 117, 48] [] (fun _ => true) 0x1000 5 smallVolume ↔ 5 < 5 ∨ 5 = 2 * 5) ∧
      (Written [101, 109, 117, 48] [] (fun _ => true) 0x1000 5 smallVolume ↔ 5 ≤ 5) ∧
      (Terminated [101, 109, 117, 48] [] (fun _ => true) 0x1000 5 smallVolume ↔
        5 ≤ 5 ∨ 5 = 2 * 5 + 1) :=
  cwd_delivered_iff [101, 109, 117, 48] [] (fun _ => true) 0x1000 5 present_five smallVolume

/-- With room for five bytes `__getcwd` returns 0, and with room for six `getcwd` leaves the empty
string. -/
theorem getcwd_empty :
    (sysGetcwd [101, 109, 117, 48] [] (fun _ => true) (fun _ => 1) (fun _ => 1) 0x1000 5).wp
        (yields fun r => r.1 = 0) smallVolume ∧
      (getcwd [101, 109, 117, 48] [] (fun _ => true) (fun _ => 1) (fun _ => 1) 0x1000 6).wp
        (yields fun r => r.2 0x1000 = 0) smallVolume ∧
      ¬ Delivered [101, 109, 117, 48] [] (fun _ => true) 0x1000 5 smallVolume := by
  have hp : Present (fun _ => true) 0x1000 6 :=
    ⟨(inUser_iff (by decide)).mpr (by decide), fun _ _ _ => rfl⟩
  refine ⟨(wp_of_only (sysGetcwd_only present_five)).mpr ?_,
    (wp_of_only (getcwd_only hp (by decide))).mpr ?_, fun h => ?_⟩
  · have hlen : i32 (UInt32.toNat 5 - (cwd [101, 109, 117, 48] []).length : Nat) = 0 := by decide
    simpa only [yields] using hlen
  · have hlen : i32 (UInt32.toNat 6 - 1 - (cwd [101, 109, 117, 48] []).length : Nat) = 0 := by
      decide
    rw [hlen, if_neg (Int.lt_irrefl 0)]
    simp only [yields]
    rw [store_one, if_pos (by decide)]
  · exact absurd ((returned_iff present_five).mp h.returned) (by decide)

end Os161.User
