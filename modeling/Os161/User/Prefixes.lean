import Os161.User.PathArguments
import Os161.Vfs.Balance

/-! # The prefix of a path

`getdevice` on the buffer it is given: two indexes say which separator came first, and the path
is cut in place. A buffer is the bytes from the path on; reading behind its end is an outcome of
its own. -/
namespace Os161.User
open Os161.Lib Os161.Vfs

/-- The C string at the head of a buffer. -/
def cstr (buf : List UInt8) : Name := buf.takeWhile (· ≠ 0)

/-- `colon` and `slash` after the loop that locates the first of them, with -1 for none. -/
def locate : List UInt8 → Int → Option (Int × Int)
  | [], _ => none
  | c :: buf, i =>
    if c = 0 then some (-1, -1)
    else if c = 58 then some (i, -1)
    else if c = 47 then some (-1, i)
    else locate buf (i + 1)

/-- `while (path[i+1]=='/') i++`, on what is behind `i`. -/
def skipSlashes : List UInt8 → Nat → Option Nat
  | [], _ => none
  | c :: buf, i => if c = 47 then skipSlashes buf (i + 1) else some i

/-- How `getdevice` ends: with its result, the offset of the subpath and the vnode, and the buffer;
behind the end of the buffer; or in an assertion about the separators. -/
inductive Cut (V : Type) where
  | ret (result : Except Vfs.Errno (Nat × V)) (buf : List UInt8)
  | offBuffer
  | assertion

section Code

variable {D V F : Type} [DecidableEq V] [DecidableEq F]

/-- What is left for `/path` and `:path`, once the vnode is there. -/
def leadingRest (buf : List UInt8) (result : Except Vfs.Errno V) : Cut V :=
  match result with
  | .error e => .ret (.error e) buf
  | .ok startvn =>
    match skipSlashes (buf.drop 1) 0 with
    | none => .offBuffer
    | some path => .ret (.ok (path + 1, startvn)) buf

def getdeviceBuf (buf : List UInt8) : Op D V F (Cut V) :=
  match locate buf 0 with
  | none => pure .offBuffer
  | some (colon, slash) =>
    if colon < 0 ∧ slash ≠ 0 then do
      let result ← vfsGetcurdir
      pure (.ret (result.map fun vn => (0, vn)) buf)
    else if colon > 0 then
      let buf := buf.set colon.toNat 0
      match skipSlashes (buf.drop (colon.toNat + 1)) colon.toNat with
      | none => pure .offBuffer
      | some colon => do
        let result ← vfsGetrootVnode (cstr buf)
        pure (.ret (result.map fun vn => (colon + 1, vn)) buf)
    else if colon = 0 ∨ slash = 0 then
      if buf[0]? = some 47 then do
        let result ← Start.bootfs.vnode
        pure (leadingRest buf result)
      else if buf[0]? = some 58 then do
        let result ← Start.curfs.vnode
        pure (leadingRest buf result)
      else pure .assertion
    else pure .assertion

end Code

/-! ## The grammar -/

/-- Neither a colon nor a slash. -/
def Plain (name : Name) : Prop := 58 ∉ name ∧ 47 ∉ name

/-- What a path starts from, and what it leaves to the file system. -/
inductive Prefixed : Name → Start → Name → Prop
  | device {name rest : Name} (hne : name ≠ []) (hname : Plain name) :
      Prefixed (name ++ 58 :: rest) (.device name) (rest.dropWhile (· = 47))
  | bootfs {rest : Name} : Prefixed (47 :: rest) .bootfs (rest.dropWhile (· = 47))
  | curfs {rest : Name} : Prefixed (58 :: rest) .curfs (rest.dropWhile (· = 47))
  | bare {path : Name} (hpath : Plain path) : Prefixed path .curdir path
  | relative {name rest : Name} (hne : name ≠ []) (hname : Plain name) :
      Prefixed (name ++ 47 :: rest) .curdir (name ++ 47 :: rest)

/-- The first separator of a path. -/
theorem plain_or_separated (path : Name) : Plain path ∨
    ∃ name c rest, path = name ++ c :: rest ∧ Plain name ∧ (c = 58 ∨ c = 47) := by
  induction path with
  | nil => exact .inl ⟨List.not_mem_nil, List.not_mem_nil⟩
  | cons b path ih =>
    by_cases hb : b = 58 ∨ b = 47
    · exact .inr ⟨[], b, path, rfl, ⟨List.not_mem_nil, List.not_mem_nil⟩, hb⟩
    · have hcons {l : Name} (h : Plain l) : Plain (b :: l) := by
        rw [not_or] at hb
        exact ⟨fun hm => (List.mem_cons.mp hm).elim (fun he => hb.1 he.symm) h.1,
          fun hm => (List.mem_cons.mp hm).elim (fun he => hb.2 he.symm) h.2⟩
      rcases ih with h | ⟨name, c, rest, rfl, hname, hc⟩
      · exact .inl (hcons h)
      · exact .inr ⟨b :: name, c, rest, rfl, hcons hname, hc⟩

/-- Every path has a prefix. -/
theorem prefixed_exists (path : Name) : ∃ start sub, Prefixed path start sub := by
  rcases plain_or_separated path with h | ⟨name, c, rest, rfl, hname, rfl | rfl⟩
  · exact ⟨_, _, .bare h⟩
  · cases name with
    | nil => exact ⟨_, _, .curfs⟩
    | cons b name => exact ⟨_, _, .device (List.cons_ne_nil b name) hname⟩
  · cases name with
    | nil => exact ⟨_, _, .bootfs⟩
    | cons b name => exact ⟨_, _, .relative (List.cons_ne_nil b name) hname⟩

/-! ## The loops -/

theorem locate_append {name l : List UInt8} (h0 : 0 ∉ name) (hname : Plain name) (i : Int) :
    locate (name ++ l) i = locate l (i + name.length) := by
  induction name generalizing i with
  | nil => rw [List.nil_append, List.length_nil, Int.natCast_zero, Int.add_zero]
  | cons b name ih =>
    obtain ⟨h58, h47⟩ := hname
    rw [List.mem_cons, not_or] at h0 h58 h47
    rw [List.cons_append, locate, if_neg (Ne.symm h0.1), if_neg (Ne.symm h58.1),
      if_neg (Ne.symm h47.1), ih h0.2 ⟨h58.2, h47.2⟩, List.length_cons, Int.natCast_succ,
      Int.add_assoc, Int.add_comm 1]

theorem cstr_append {name l : List UInt8} (h0 : 0 ∉ name) : cstr (name ++ 0 :: l) = name := by
  rw [cstr, List.takeWhile_append_of_pos fun c hc => ?_]
  · rw [List.takeWhile_cons_of_neg (by decide), List.append_nil]
  · rw [decide_eq_true_eq]
    exact fun he => h0 (he ▸ hc)

/-- The slashes end before the NUL, and behind them is what the grammar says. -/
theorem skipSlashes_append {rest : List UInt8} (tail : List UInt8) (h0 : 0 ∉ rest) (i : Nat) :
    ∃ k ≤ rest.length, skipSlashes (rest ++ 0 :: tail) i = some (i + k) ∧
      (rest ++ 0 :: tail).drop k = rest.dropWhile (· = 47) ++ 0 :: tail := by
  induction rest generalizing i with
  | nil => exact ⟨0, Nat.le_refl _, if_neg (by decide), rfl⟩
  | cons b rest ih =>
    rw [List.mem_cons, not_or] at h0
    by_cases hb : b = 47
    · obtain ⟨k, hk, hskip, hdrop⟩ := ih h0.2 (i + 1)
      refine ⟨k + 1, Nat.succ_le_succ hk, ?_, ?_⟩
      · rw [List.cons_append, skipSlashes, if_pos hb, hskip, Nat.add_assoc, Nat.add_comm 1]
      · rw [List.cons_append, List.drop_succ_cons, hdrop,
          List.dropWhile_cons_of_pos (p := (decide <| · = 47)) (decide_eq_true hb)]
    · refine ⟨0, Nat.zero_le _, if_neg hb, ?_⟩
      rw [List.dropWhile_cons_of_neg (by rwa [decide_eq_true_eq])]
      rfl

theorem notMem_dropWhile {rest : List UInt8} (h0 : 0 ∉ rest) : 0 ∉ rest.dropWhile (· = 47) :=
  fun h => h0 ((List.dropWhile_sublist _).subset h)

/-! ## Every path is taken apart as the grammar says -/

section Proofs

variable {D V F : Type} [DecidableEq V] [DecidableEq F]

/-- The subpath is the string at this offset of the buffer, which is within the path. -/
structure Subpath (path sub : Name) (off : Nat) (buf : List UInt8) : Prop where
  string : cstr (buf.drop off) = sub
  within : off ≤ path.length

/-- `getdevice` starts where the grammar says, and leaves the subpath it says. -/
def Parses (D F : Type) [DecidableEq F] (path tail : Name) (start : Start) (sub : Name) : Prop :=
  ∃ off buf, Subpath path sub off buf ∧ (getdeviceBuf (path ++ 0 :: tail) : Op D V F (Cut V)) =
    (do
      let result ← start.vnode
      pure (.ret (result.map fun vn => (off, vn)) buf))

theorem parses_curdir {path tail : Name} (h0 : 0 ∉ path) (slash : Int) (hslash : slash ≠ 0)
    (hloc : locate (path ++ 0 :: tail) 0 = some (-1, slash)) :
    Parses (V := V) D F path tail .curdir path := by
  refine ⟨0, path ++ 0 :: tail, ⟨cstr_append h0, Nat.zero_le _⟩, ?_⟩
  unfold getdeviceBuf
  rw [hloc]
  dsimp only
  rw [if_pos ⟨by decide, hslash⟩]
  rfl

theorem parses_leading {rest tail : Name} (h0 : 0 ∉ rest) {c : UInt8} {start : Start}
    (hcode : (getdeviceBuf (c :: (rest ++ 0 :: tail)) : Op D V F (Cut V)) = (do
      let result ← start.vnode
      pure (leadingRest (c :: (rest ++ 0 :: tail)) result))) :
    Parses (V := V) D F (c :: rest) tail start (rest.dropWhile (· = 47)) := by
  obtain ⟨k, hk, hskip, hdrop⟩ := skipSlashes_append tail h0 0
  refine ⟨k + 1, c :: (rest ++ 0 :: tail), ⟨?_, Nat.succ_le_succ hk⟩, hcode.trans ?_⟩
  · rw [List.drop_succ_cons, hdrop, cstr_append (notMem_dropWhile h0)]
  · refine congrArg (start.vnode >>= ·) (funext fun result => ?_)
    cases result with
    | error e => rfl
    | ok startvn =>
      rw [leadingRest, List.drop_succ_cons, List.drop_zero, hskip, Nat.zero_add]
      rfl

theorem parses_device {name rest tail : Name} (hne : name ≠ []) (hname : Plain name)
    (h0 : 0 ∉ name) (hrest : 0 ∉ rest) :
    Parses (V := V) D F (name ++ 58 :: rest) tail (.device name) (rest.dropWhile (· = 47)) := by
  have hpos : 0 < name.length := List.length_pos_iff.mpr hne
  have hbuf : name ++ 58 :: rest ++ 0 :: tail = name ++ 58 :: (rest ++ 0 :: tail) := by
    rw [List.append_assoc, List.cons_append]
  have hloc : locate (name ++ 58 :: (rest ++ 0 :: tail)) 0 = some ((name.length : Int), -1) := by
    rw [locate_append h0 hname, Int.zero_add]
    rfl
  have hset : (name ++ 58 :: (rest ++ 0 :: tail)).set name.length 0 =
      name ++ 0 :: (rest ++ 0 :: tail) := by
    rw [List.set_append_right _ _ (Nat.le_refl _), Nat.sub_self, List.set_cons_zero]
  have hbehind (k : Nat) : (name ++ 0 :: (rest ++ 0 :: tail)).drop (name.length + (k + 1)) =
      (rest ++ 0 :: tail).drop k := by
    rw [List.drop_length_add_append, List.drop_succ_cons]
  obtain ⟨k, hk, hskip, hdrop⟩ := skipSlashes_append tail hrest name.length
  refine ⟨name.length + k + 1, name ++ 0 :: (rest ++ 0 :: tail), ⟨?_, ?_⟩, ?_⟩
  · rw [Nat.add_assoc, hbehind, hdrop, cstr_append (notMem_dropWhile hrest)]
  · rw [List.length_append, List.length_cons]
    omega
  · unfold getdeviceBuf
    rw [hbuf, hloc]
    dsimp only
    rw [if_neg (by omega), if_pos (by omega), Int.toNat_natCast, hset,
      hbehind 0, List.drop_zero, hskip]
    dsimp only
    rw [cstr_append h0]
    rfl

theorem getdeviceBuf_parses {path start sub : _} (tail : Name) (h0 : 0 ∉ path)
    (h : Prefixed path start sub) : Parses (V := V) D F path tail start sub := by
  cases h with
  | device hne hname =>
    rw [List.mem_append, List.mem_cons, not_or, not_or] at h0
    exact parses_device hne hname h0.1 h0.2.2
  | bootfs =>
    rw [List.mem_cons, not_or] at h0
    exact parses_leading h0.2 rfl
  | curfs =>
    rw [List.mem_cons, not_or] at h0
    exact parses_leading h0.2 rfl
  | bare hpath =>
    refine parses_curdir h0 (-1) (by decide) ?_
    rw [locate_append h0 hpath]
    rfl
  | @relative name rest hne hname =>
    have hpos : 0 < name.length := List.length_pos_iff.mpr hne
    refine parses_curdir h0 name.length (by omega) ?_
    rw [List.mem_append, not_or] at h0
    rw [List.append_assoc, locate_append h0.1 hname, Int.zero_add]
    rfl

/-! ## The same on names -/

theorem firstSeparator_append {name l : Name} (hname : Plain name) (k : Nat) :
    firstSeparator (name ++ l) k = firstSeparator l (k + name.length) := by
  induction name generalizing k with
  | nil => rfl
  | cons b name ih =>
    obtain ⟨h58, h47⟩ := hname
    rw [List.mem_cons, not_or] at h58 h47
    rw [List.cons_append, firstSeparator,
      if_neg (not_or.mpr ⟨Ne.symm h58.1, Ne.symm h47.1⟩), ih ⟨h58.2, h47.2⟩, List.length_cons,
      Nat.add_assoc, Nat.add_comm 1]

/-- The grammar is what `getdevice` on names computes, so a path has one prefix. -/
theorem Prefixed.getdeviceIn_eq {path sub : Name} {start : Start} (h : Prefixed path start sub)
    (mem : Mem) (p : UInt32) : (getdeviceIn mem p path).1 = (start, sub) := by
  unfold getdeviceIn
  cases h with
  | @device name rest hne hname =>
    have hpos : 0 < name.length := List.length_pos_iff.mpr hne
    have hdrop : (name ++ 58 :: rest).drop (name.length + 1) = rest := by
      rw [List.drop_length_add_append, List.drop_succ_cons, List.drop_zero]
    have hsep : firstSeparator (name ++ 58 :: rest) 0 = some (name.length, 58) := by
      rw [firstSeparator_append hname, Nat.zero_add]
      rfl
    rw [hsep]
    dsimp only
    rw [if_neg fun h => absurd h.1 (by decide), if_pos ⟨rfl, hpos⟩, List.take_left, subpathAfter,
      hdrop]
  | bootfs => rfl
  | curfs => rfl
  | bare hpath =>
    rw [← List.append_nil path, firstSeparator_append hpath]
    rfl
  | @relative name rest hne hname =>
    have hne' : name.length ≠ 0 := Nat.ne_of_gt (List.length_pos_iff.mpr hne)
    have hsep : firstSeparator (name ++ 47 :: rest) 0 = some (name.length, 47) := by
      rw [firstSeparator_append hname, Nat.zero_add]
      rfl
    rw [hsep]
    dsimp only
    rw [if_pos ⟨rfl, hne'⟩]

theorem Prefixed.unique {path sub sub' : Name} {start start' : Start}
    (h : Prefixed path start sub) (h' : Prefixed path start' sub') :
    start' = start ∧ sub' = sub := by
  have heq := (h'.getdeviceIn_eq (fun _ => 0) 0).symm.trans (h.getdeviceIn_eq (fun _ => 0) 0)
  exact Prod.mk.inj heq

/-- On a buffer `getdevice` does what it does on names. -/
theorem getdeviceBuf_refines {path tail : Name} (h0 : 0 ∉ path) :
    ∃ sub off buf, Subpath path sub off buf ∧
      (getdeviceBuf (path ++ 0 :: tail) : Op D V F (Cut V)) = (do
        let result ← Vfs.getdevice path
        pure (.ret (result.map fun x => (off, x.2)) buf)) := by
  obtain ⟨start, sub, h⟩ := prefixed_exists path
  obtain ⟨off, buf, hsub, hcode⟩ := getdeviceBuf_parses (V := V) (D := D) (F := F)
    tail h0 h
  refine ⟨sub, off, buf, hsub, hcode.trans ?_⟩
  rw [getdevice_eq (fun _ => 0) 0, h.getdeviceIn_eq, Prog.bind_assoc]
  refine congrArg (start.vnode >>= ·) (funext fun result => ?_)
  cases result <;> rfl

end Proofs

/-! ## The assertion about the current directory -/

section Sessions

variable {D V F : Type} {O : Outside (vfsSig D V F)}

/-- `dev_gettype`: devices are block or character devices. -/
def devGettype (vn : V) : Resp V := ⟨none, vn, [], false⟩

/-- The surroundings, where the vnodes on no file system are devices. -/
def withDevices (O : Outside (vfsSig D V F)) : Outside (vfsSig D V F) where
  Env := O.Env
  serve s r env :=
    match r with
    | .gettype vn =>
      match s.vnFs vn with
      | none => (devGettype vn, env)
      | some _ => O.serve s (.gettype vn) env
    | r => O.serve s r env
  toss := O.toss

/-- The current directory is on a file system. -/
def OnFs (s : State D V F) : Prop := ∀ v, s.tCwd = some v → s.vnFs v ≠ none

theorem OnFs.moved {s s' : State D V F} {r o : V → Int} (h : OnFs s)
    (hm : Moved s s' r o s.tCwd) : OnFs s' := by
  intro v hv
  rw [hm.vnFs]
  exact h v (hm.cwd ▸ hv)

variable [DecidableEq V]

/-- The states of one thread. It starts without a current directory or is forked with one, calls
`vfs_chdir`, and whatever else happens leaves its directory alone. -/
inductive Session (O : Outside (vfsSig D V F)) : World O → Prop
  | start {w : World O} (h : w.st.tCwd = none) : Session O w
  | chdir {w w' : World O} {path : Name} {result : Option Vfs.Errno} (h : Session O w)
      (hrun : (vfsChdir path).run O w = (.ok result, w')) : Session O w'
  | other {w w' : World O} (h : Session O w) (hcwd : w'.st.tCwd = w.st.tCwd)
      (hfs : ∀ v, w.st.tCwd = some v → w'.st.vnFs v = w.st.vnFs v) : Session O w'

/-- Only directories become the current one, and devices are none. -/
theorem wp_vfsSetcurdir_onFs {dir : V} {w : World (withDevices O)} (h : OnFs w.st) :
    (vfsSetcurdir dir).wp ⟨fun _ w' => OnFs w'.st, fun _ _ => True, fun _ _ => True⟩ w := by
  rw [vfsSetcurdir, Prog.wp_bind, Prog.wp_request]
  dsimp only
  cases hr : ((withDevices O).serve w.st (.gettype dir) w.env).1.result with
  | some e =>
    rw [Prog.wp_pure]
    exact h
  | none =>
    dsimp only
    split
    · rw [Prog.wp_pure]
      exact h
    · next hdir =>
      have hfs : w.st.vnFs dir ≠ none := by
        intro hnone
        unfold withDevices at hdir
        dsimp only at hdir
        rw [hnone] at hdir
        exact hdir rfl
      have hset : OnFs { w.st with tCwd := some dir } := fun v hv => by
        obtain rfl := Option.some.inj hv
        exact hfs
      rw [Prog.wp_bind, Prog.wp_getS]
      dsimp only
      rw [Prog.wp_bind, Prog.wp_setS]
      dsimp only
      cases w.st.tCwd with
      | none =>
        rw [Prog.wp_pure]
        exact hset
      | some old =>
        dsimp only
        rw [Prog.wp_bind]
        refine wp_vnodeDecref (C := False) (fun _ _ _ => trivial) False.elim fun w' hw' => ?_
        simp only [Prog.wp_pure]
        exact hset.moved hw'

theorem wp_vfsChdir_onFs {path : Name} {w : World (withDevices O)} (h : OnFs w.st) :
    (vfsChdir path).wp ⟨fun _ w' => OnFs w'.st, fun _ _ => True, fun _ _ => True⟩ w := by
  rw [vfsChdir, Prog.wp_bind]
  refine wp_vfsLookup (C := False) (fun _ _ _ => trivial) False.elim
    ⟨fun vn w1 h1 => ?_, fun e w1 h1 => ?_⟩
  · dsimp only
    rw [Prog.wp_bind]
    refine (wp_vfsSetcurdir_onFs (h.moved h1)).mono (fun result w2 h2 => ?_) (fun _ _ h => h)
      fun _ _ h => h
    cases result with
    | some e =>
      dsimp only
      rw [Prog.wp_bind]
      refine wp_vnodeDecref (C := False) (fun _ _ _ => trivial) False.elim fun w3 h3 => ?_
      simp only [Prog.wp_pure]
      exact h2.moved h3
    | none =>
      simp only [Prog.wp_pure]
      exact h2
  · simp only [Prog.wp_pure]
    exact h.moved h1

theorem Session.onFs {w : World (withDevices O)} (h : Session (withDevices O) w) : OnFs w.st := by
  induction h with
  | start h =>
    intro v hv
    rw [h] at hv
    cases hv
  | chdir _ hrun ih => exact Prog.wp_ok_iff.mp (wp_vfsChdir_onFs ih) _ _ hrun
  | other _ hcwd hfs ih =>
    intro v hv
    rw [hcwd] at hv
    rw [hfs v hv]
    exact ih v hv

/-! ## Where the lookup of a start can stop -/

section Stops

variable {P : Vfs.Stop → Prop} {vn : V}

theorem vnodeDecref_stopsOnly (hrefs : P .refcount) (hopens : P .opencount) :
    (vnodeDecref vn : Op D V F Unit).StopsOnly P := by
  refine .bind .getS fun s => ?_
  split
  · exact .stop hrefs
  · split
    · exact .setS _
    · refine .bind (.request _) fun _ => .bind .getS fun s => ?_
      split
      · exact .stop hrefs
      · split
        · exact .stop hopens
        · exact .setS _

theorem fsopGetroot_stopsOnly (fs : F) : (fsopGetroot fs : Op D V F V).StopsOnly P :=
  .bind (.request _) fun _ => .bind (.modifyS _) fun _ => .pure _

theorem vfsGetcurdir_stopsOnly : (vfsGetcurdir : Op D V F _).StopsOnly P := by
  refine .bind .getS fun s => ?_
  cases s.tCwd with
  | none => exact .pure _
  | some cwd => exact .bind (.modifyS _) fun _ => .pure _

theorem vfsGetrootVnode_stopsOnly (hdev : P .knowndev) (devname : Name) :
    (vfsGetrootVnode devname : Op D V F _).StopsOnly P := by
  refine .bind .getS fun s => ?_
  cases vfsGetroot s.getvolname devname s.knowndevs with
  | getroot fs => exact .bind (fsopGetroot_stopsOnly fs) fun _ => .pure _
  | device vn => exact .bind (.modifyS _) fun _ => .pure _
  | error e => exact .pure _
  | assertion => exact .stop hdev

end Stops

variable [DecidableEq F]

/-- With the current directory on a file system, no start fails the assertion that it is. -/
theorem wp_start_vnode {O : Outside (vfsSig D V F)} {w : World O} (h : OnFs w.st)
    (start : Start) : (start.vnode : Op D V F _).wp
      ⟨fun _ _ => True, fun _ _ => True, fun m _ => m ≠ .nullFs⟩ w := by
  cases start with
  | curdir => exact vfsGetcurdir_stopsOnly.wp
  | device devname => exact (vfsGetrootVnode_stopsOnly (by rintro ⟨⟩) devname).wp
  | bootfs =>
    refine Prog.StopsOnly.wp (.bind .getS fun s => ?_)
    cases s.bootfsVnode with
    | none => exact .pure _
    | some vn => exact .bind (.modifyS _) fun _ => .pure _
  | curfs =>
    rw [Start.vnode, Prog.wp_bind]
    refine wp_vfsGetcurdir (fun vn w' hcwd hw' => ?_) fun e => ?_
    · dsimp only
      rw [Prog.wp_bind, Prog.wp_getS]
      dsimp only
      cases hfs : w'.st.vnFs vn with
      | none =>
        rw [hw'.vnFs] at hfs
        exact absurd hfs (h vn hcwd)
      | some fs =>
        exact Prog.StopsOnly.wp (.bind (fsopGetroot_stopsOnly fs) fun _ =>
          .bind (vnodeDecref_stopsOnly (by rintro ⟨⟩) (by rintro ⟨⟩)) fun _ => .pure _)
    · simp only [Prog.wp_pure]

/-- In every state of a thread and for every path, the path is taken apart as the grammar says, in
one way, and no assertion of `getdevice` fails. What is behind the NUL makes no difference, so it
is not read. -/
theorem getdevice_grammar (O : Outside (vfsSig D V F)) (w : World (withDevices O))
    (hw : Session (withDevices O) w) (path tail : Name) (h0 : 0 ∉ path) :
    (∃ start sub, Prefixed path start sub ∧ Parses (V := V) D F path tail start sub ∧
      ∀ start' sub', Prefixed path start' sub' → start' = start ∧ sub' = sub) ∧
    ∀ w', (getdeviceBuf (path ++ 0 :: tail) : Op D V F (Cut V)).run (withDevices O) w ≠
      (.stopped .nullFs, w') := by
  obtain ⟨start, sub, h⟩ := prefixed_exists path
  have hparses := getdeviceBuf_parses (V := V) (D := D) (F := F) tail h0 h
  refine ⟨⟨start, sub, h, hparses, fun _ _ h' => h.unique h'⟩, fun w' hrun => ?_⟩
  obtain ⟨off, buf, -, hcode⟩ := hparses
  have hwp : (getdeviceBuf (path ++ 0 :: tail) : Op D V F (Cut V)).wp
      ⟨fun _ _ => True, fun _ _ => True, fun m _ => m ≠ .nullFs⟩ w := by
    rw [hcode, Prog.wp_bind]
    refine (wp_start_vnode hw.onFs start).mono (fun _ _ _ => ?_) (fun _ _ h => h) fun _ _ h => h
    simp only [Prog.wp_pure]
  rw [Prog.wp_iff, hrun] at hwp
  exact hwp rfl

end Sessions

/-! ## One path -/

/-- No vnode operation succeeds. -/
def deaf : Outside (vfsSig Nat Nat Nat) where
  Env := Unit
  serve _ _ env := (⟨some .EINVAL, 0, [], false⟩, env)
  toss env := (false, env)

/-- The table of devices is empty and there is no current directory. -/
def bare : State Nat Nat Nat where
  vnRefcount _ := 0
  vnOpencount _ := 0
  vnFs _ := none
  getvolname _ := none
  tCwd := none
  bootfsVnode := none
  knowndevs := []

theorem getdevice_grammar_emu0 :
    (∃ start sub, Prefixed fooOnEmu0 start sub ∧
      Parses (V := Nat) Nat Nat fooOnEmu0 [] start sub ∧
      ∀ start' sub', Prefixed fooOnEmu0 start' sub' → start' = start ∧ sub' = sub) ∧
    ∀ w', (getdeviceBuf (fooOnEmu0 ++ [0]) : Op Nat Nat Nat (Cut Nat)).run (withDevices deaf)
      ⟨bare, ()⟩ ≠ (.stopped .nullFs, w') :=
  getdevice_grammar deaf ⟨bare, ()⟩ (.start rfl) fooOnEmu0 [] (by decide)

end Os161.User
