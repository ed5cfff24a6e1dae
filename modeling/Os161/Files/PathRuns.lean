import Mathlib.Data.Fintype.Basic
import Mathlib.Data.List.Induction
import Os161.Files.PathBuffer
import Os161.Lib.Runs

/-! # Opens that keep out of each other's paths

In a run whose steps change nothing that another open has still to read, every open that
succeeds opens what its own path names. -/
namespace Os161.Files.Path

/-! ## Strings in the buffer -/

theorem takeWhile_drop {α : Type} (p : α → Bool) (l : List α) (k : Nat)
    (h : k ≤ (l.takeWhile p).length) : (l.drop k).takeWhile p = (l.takeWhile p).drop k := by
  induction k generalizing l with
  | zero => simp
  | succ k ih =>
    cases l with
    | nil => simp
    | cons a l =>
      by_cases ha : p a = true
      · rw [List.takeWhile_cons_of_pos ha] at h ⊢
        exact ih l (by simpa using h)
      · rw [List.takeWhile_cons_of_neg ha] at h
        simp at h

theorem drop_takeWhile_length {α : Type} (p : α → Bool) (l : List α) :
    l.drop (l.takeWhile p).length = l.dropWhile p := by
  induction l with
  | nil => rfl
  | cons a l ih =>
    by_cases ha : p a = true
    · rw [List.takeWhile_cons_of_pos ha, List.dropWhile_cons_of_pos ha, List.length_cons,
        List.drop_succ_cons, ih]
    · rw [List.takeWhile_cons_of_neg ha, List.dropWhile_cons_of_neg ha]
      rfl

theorem takeWhile_takeWhile_of_imp {α : Type} {p q : α → Bool} (l : List α)
    (h : ∀ a, p a = true → q a = true) : (l.takeWhile q).takeWhile p = l.takeWhile p := by
  induction l with
  | nil => rfl
  | cons a l ih =>
    by_cases hp : p a = true
    · rw [List.takeWhile_cons_of_pos (h a hp), List.takeWhile_cons_of_pos hp,
        List.takeWhile_cons_of_pos hp, ih]
    · rw [List.takeWhile_cons_of_neg hp]
      by_cases hq : q a = true
      · rw [List.takeWhile_cons_of_pos hq, List.takeWhile_cons_of_neg hp]
      · rw [List.takeWhile_cons_of_neg hq]
        rfl

section Strings

variable {buf : List Char} {k : Nat}

theorem cstr_cons {c : Char} (hc : c ≠ nul) : cstr (c :: buf) = c :: cstr buf := by
  simp [cstr, hc]

theorem cstr_drop (h : k ≤ (cstr buf).length) : cstr (buf.drop k) = (cstr buf).drop k :=
  takeWhile_drop _ buf k h

theorem slashes_drop (h : k ≤ (cstr buf).length) :
    slashes (buf.drop k) = slashes ((cstr buf).drop k) := by
  rw [slashes, slashes, ← cstr_drop h, cstr, takeWhile_takeWhile_of_imp]
  intro c hc
  have : c = '/' := by simpa using hc
  subst this
  decide

/-- Behind the slashes lies what `getdevice` calls the subpath. -/
theorem cstr_drop_slashes (h : k ≤ (cstr buf).length) :
    cstr (buf.drop (k + slashes (buf.drop k))) = ((cstr buf).drop k).dropWhile (· = '/') := by
  have hs := slashes_drop h
  have hle : slashes ((cstr buf).drop k) ≤ ((cstr buf).drop k).length :=
    (List.takeWhile_sublist _).length_le
  rw [List.length_drop] at hle
  rw [cstr_drop (by rw [hs]; omega), hs, ← List.drop_drop, slashes, drop_takeWhile_length]

/-- The path cut at its colon. -/
theorem cstr_set (h : k < (cstr buf).length) : cstr (buf.set k nul) = (cstr buf).take k := by
  induction k generalizing buf with
  | zero =>
    cases buf with
    | nil => rfl
    | cons c buf => simp [cstr]
  | succ k ih =>
    cases buf with
    | nil => simp [cstr] at h
    | cons c buf =>
      by_cases hc : c = nul
      · simp [cstr, hc] at h
      · rw [cstr_cons hc] at h ⊢
        rw [List.set_cons_succ, cstr_cons hc, List.take_succ_cons]
        exact congrArg (c :: ·) (ih (by simpa using h))

/-- The same further behind. -/
theorem cstr_drop_set {off : Nat} (h : k < (cstr (buf.drop off)).length) :
    cstr ((buf.set (off + k) nul).drop off) = (cstr (buf.drop off)).take k := by
  rw [List.drop_set, if_neg (by omega), Nat.add_sub_cancel_left]
  exact cstr_set h

theorem cstr_copyinstr {path : List Char} (hnul : nul ∉ path) (rest : List Char) :
    cstr (path ++ nul :: rest) = path := by
  rw [cstr, List.takeWhile_append_of_pos]
  · simp
  · intro c hc
    have : c ≠ nul := fun h => hnul (h ▸ hc)
    simpa using this

theorem nul_notMem_cstr : nul ∉ cstr buf := by
  induction buf with
  | nil => exact List.not_mem_nil
  | cons c buf ih =>
    by_cases hc : c = nul
    · simp [cstr, hc]
    · rw [cstr_cons hc, List.mem_cons, not_or]
      exact ⟨fun h => hc h.symm, ih⟩

end Strings

section Runs

variable {T O : Type} {env : Env T O} {s s' : State T O}

/-! ## What each thread knows -/

/-- What holds of a thread at each point, in terms of its own path. -/
def Sound (env : Env T O) (linked : List (O × List Char × Nat)) (buf : List Char) (t : T)
    (path : List Char) : Pc O → Prop
  | .idle (some (.ok o)) | .opening o => Names env linked t path o
  | .idle _ => True
  | .getdevice => cstr buf = path
  | .getroot off =>
    resolve env t path = (env.getroot (cstr buf)).map fun o => (o, cstr (buf.drop off))
  | .lookup start off => resolve env t path = .ok (start, cstr (buf.drop off))
  | .readdir d src _ _ found =>
    env.kind d = .sfsDir ∧ resolve env t path = .ok (d, src.read buf) ∧
      ∀ ino, found = some ino → (d, src.read buf, ino) ∈ linked
  | .compare d src _ _ found tsd =>
    env.kind d = .sfsDir ∧ resolve env t path = .ok (d, src.read buf) ∧
      (∀ ino, found = some ino → (d, src.read buf, ino) ∈ linked) ∧
      ∀ name ino, tsd = some (name, ino) → (d, name, ino) ∈ linked
  | .create d name => env.kind d = .sfsDir ∧ resolve env t path = .ok (d, name)
  | .emufsLookup d off none =>
    env.kind d = .emufsDir ∧ resolve env t path = .ok (d, cstr (buf.drop off))
  | .emufsLookup d off (some last) =>
    env.kind d = .emufsDir ∧ ∃ name i, resolve env t path = .ok (d, name) ∧
      strrchr name '/' = some i ∧ cstr (buf.drop off) = name.take i ∧ last = name.drop (i + 1)
  | .emufsCreat d name => Names env linked t path (env.emuOpen d name)

theorem Names.mono {linked linked' : List (O × List Char × Nat)} {t : T} {path : List Char} {o : O}
    (h : Names env linked t path o) (hsub : linked ⊆ linked') : Names env linked' t path o := by
  obtain ⟨d, name, hres, hcase⟩ := h
  refine ⟨d, name, hres, hcase.imp_right fun hx => hx.imp_left ?_⟩
  intro hx
  obtain ⟨hkind, ino, hmem, heq⟩ := hx
  exact ⟨hkind, ino, hsub hmem, heq⟩

/-- It goes on holding while the thread's part of the buffer stays as it is. -/
theorem Sound.mono {linked linked' : List (O × List Char × Nat)} {buf buf' : List Char} {t : T}
    {path : List Char} {pc : Pc O} (h : Sound env linked buf t path pc) (hsub : linked ⊆ linked')
    (hview : pc.view buf' = pc.view buf) : Sound env linked' buf' t path pc := by
  cases pc with
  | idle last =>
    cases last with
    | none => trivial
    | some r =>
      cases r with
      | error e => trivial
      | ok o => exact Names.mono h hsub
  | opening o => exact Names.mono h hsub
  | getdevice =>
    simp only [Pc.view, List.cons.injEq, and_true] at hview
    exact hview.trans h
  | getroot off =>
    simp only [Pc.view, List.cons.injEq, and_true] at hview
    simp only [Sound, hview.1, hview.2]
    exact h
  | lookup start off =>
    simp only [Pc.view, List.cons.injEq, and_true] at hview
    simp only [Sound, hview]
    exact h
  | readdir d src i n found =>
    have hsrc : src.read buf' = src.read buf := by
      cases src with
      | shared off => simpa only [Pc.view, Source.read, List.cons.injEq, and_true] using hview
      | own name => rfl
    simp only [Sound, hsrc]
    exact ⟨h.1, h.2.1, fun ino hino => hsub (h.2.2 ino hino)⟩
  | compare d src i n found tsd =>
    have hsrc : src.read buf' = src.read buf := by
      cases src with
      | shared off => simpa only [Pc.view, Source.read, List.cons.injEq, and_true] using hview
      | own name => rfl
    simp only [Sound, hsrc]
    exact ⟨h.1, h.2.1, fun ino hino => hsub (h.2.2.1 ino hino),
      fun name ino ht => hsub (h.2.2.2 name ino ht)⟩
  | create d name => exact h
  | emufsLookup d off name =>
    simp only [Pc.view, List.cons.injEq, and_true] at hview
    cases name with
    | none =>
      simp only [Sound, hview]
      exact h
    | some last =>
      simp only [Sound, hview]
      exact h
  | emufsCreat d name => exact Names.mono h hsub

structure Inv (env : Env T O) (s : State T O) : Prop where
  sound : ∀ t, Sound env s.linked s.pathname t (s.path t) (s.pc t)
  slots : ∀ d name ino, some (name, ino) ∈ s.slots d → (d, name, ino) ∈ s.linked

/-! ## Steps -/

/-- `getdevice` finds what `resolve` reads off the path. -/
theorem getdevice_relative {buf : List Char} {t : T} (h : getdevice buf = .relative) (o : O)
    (ho : env.cwd t = some o) : resolve env t (cstr buf) = .ok (o, cstr buf) := by
  unfold getdevice at h
  unfold resolve
  dsimp only
  cases hidx : (cstr buf).findIdx? separator with
  | none => simp only [ho]
  | some i =>
    rw [hidx] at h
    dsimp only at h ⊢
    split at h
    · split at h <;> cases h
    · next hcolon =>
      split at h
      · cases h
      · next hi => rw [if_neg hcolon, if_neg hi, ho]

theorem getdevice_device {buf : List Char} {t : T} {colon off : Nat}
    (h : getdevice buf = .device colon off) :
    resolve env t (cstr buf) = (env.getroot (cstr (buf.set colon nul))).map fun o =>
      (o, cstr ((buf.set colon nul).drop off)) := by
  unfold getdevice at h
  split at h
  · cases h
  · next i hidx =>
    have hlt : i < (cstr buf).length := (List.findIdx?_eq_some_iff_getElem.mp hidx).1
    split at h
    · next hcolon =>
      split at h
      · next hi =>
        cases h
        unfold resolve
        dsimp only
        rw [hidx]
        dsimp only
        have hdrop : (buf.set colon nul).drop (colon + 1 + slashes (buf.drop (colon + 1))) =
            buf.drop (colon + 1 + slashes (buf.drop (colon + 1))) :=
          List.drop_set_of_lt (by omega)
        rw [if_pos hcolon, if_pos hi, cstr_set hlt, hdrop, cstr_drop_slashes (by omega)]
      · cases h
    · split at h <;> cases h

theorem getdevice_boot {buf : List Char} {t : T} {off : Nat} (h : getdevice buf = .boot off) (o : O)
    (ho : env.bootfs = some o) : resolve env t (cstr buf) = .ok (o, cstr (buf.drop off)) := by
  unfold getdevice at h
  split at h
  · cases h
  · next i hidx =>
    have hlt : i < (cstr buf).length := (List.findIdx?_eq_some_iff_getElem.mp hidx).1
    split at h
    · split at h <;> cases h
    · next hcolon =>
      split at h
      · next hi =>
        cases h
        unfold resolve
        dsimp only
        rw [hidx]
        dsimp only
        rw [if_neg hcolon, if_pos hi, ho, cstr_drop_slashes (by omega)]
      · cases h

theorem getdevice_current {buf : List Char} {t : T} {off : Nat} (h : getdevice buf = .current off)
    (o : O) (ho : (env.cwd t).map env.fsroot = some o) :
    resolve env t (cstr buf) = .ok (o, cstr (buf.drop off)) := by
  unfold getdevice at h
  split at h
  · cases h
  · next i hidx =>
    have hlt : i < (cstr buf).length := (List.findIdx?_eq_some_iff_getElem.mp hidx).1
    split at h
    · next hcolon =>
      split at h
      · cases h
      · next hi =>
        cases h
        unfold resolve
        dsimp only
        rw [hidx]
        dsimp only
        rw [if_pos hcolon, if_neg hi, ho, cstr_drop_slashes (by omega)]
    · split at h <;> cases h

variable [DecidableEq T]

/-- Thread `t` moves on and the others keep what they read. -/
theorem Inv.next {a : Act T} {p : List Char} {pc : Pc O} (h : Inv env s) (hap : Apart env s a)
    (hbuf : s'.pathname = buffer env s a) (hpc : s'.pc = Function.update s.pc a.thread pc)
    (hpath : s'.path = Function.update s.path a.thread p) (hlinked : s.linked ⊆ s'.linked)
    (hslots : ∀ d name ino, some (name, ino) ∈ s'.slots d → (d, name, ino) ∈ s'.linked)
    (hs : Sound env s'.linked s'.pathname a.thread p pc) : Inv env s' where
  sound := fun u => by
    by_cases hu : u = a.thread
    · subst hu
      rw [hpc, hpath, Function.update_self, Function.update_self]
      exact hs
    · rw [hpc, hpath, Function.update_of_ne hu, Function.update_of_ne hu]
      exact (h.sound u).mono hlinked (hbuf ▸ hap u hu)
  slots := hslots

/-- The common case: nothing but the program point changes. -/
theorem Inv.goto {a : Act T} {pc : Pc O} (h : Inv env s) (hap : Apart env s a)
    (hbuf : buffer env s a = s.pathname)
    (hs : Sound env s.linked s.pathname a.thread (s.path a.thread) pc) :
    Inv env (s.goto a.thread pc) :=
  h.next hap hbuf.symm rfl (Function.update_eq_self _ _).symm (List.Subset.refl _) h.slots hs

theorem Inv.startAt {t : T} {start : Option O} {off : Nat} (h : Inv env s)
    (hap : Apart env s (.run t)) (hbuf : buffer env s (.run t) = s.pathname)
    (hs : ∀ o, start = some o → resolve env t (s.path t) = .ok (o, cstr (s.pathname.drop off))) :
    Inv env (Path.startAt s t start off) := by
  cases start with
  | none => exact h.goto hap hbuf trivial
  | some o => exact h.goto hap hbuf (hs o rfl)

theorem Inv.scan {t : T} {d : O} {src : Source} (h : Inv env s) (hap : Apart env s (.run t))
    (hbuf : buffer env s (.run t) = s.pathname) (hkind : env.kind d = .sfsDir)
    (hs : resolve env t (s.path t) = .ok (d, src.read s.pathname)) :
    Inv env (Path.scan s t d src) :=
  h.goto hap hbuf ⟨hkind, hs, nofun⟩

theorem Inv.vopLookup {t : T} {start : O} {off : Nat} (h : Inv env s)
    (hap : Apart env s (.run t)) (hbuf : buffer env s (.run t) = s.pathname)
    (hs : resolve env t (s.path t) = .ok (start, cstr (s.pathname.drop off))) :
    Inv env (Path.vopLookup env s t start off) := by
  unfold Path.vopLookup
  cases hkind : env.kind start with
  | sfsDir => exact h.scan hap hbuf hkind hs
  | emufsDir => exact h.goto hap hbuf ⟨hkind, hs⟩
  | device => exact h.goto hap hbuf trivial
  | file => exact h.goto hap hbuf trivial

omit [DecidableEq T] in
theorem buffer_run (env : Env T O) {t : T} (h : cut env s t = none) :
    buffer env s (.run t) = s.pathname := by
  rw [buffer, h]

omit [DecidableEq T] in
/-- Where a lookup for `O_CREAT` cuts the buffer. -/
theorem cut_lookup (env : Env T O) {t : T} {start : O} {off : Nat}
    (hpc : s.pc t = .lookup start off)
    (hcreat : (s.flags t).creat = true) : cut env s t =
      if env.kind start = .emufsDir then (strrchr (cstr (s.pathname.drop off)) '/').map (off + ·)
      else none := by
  rw [cut, hpc]
  simp only [hcreat, true_and]

/-- `emufs_lookparent` may cut the buffer, which the others have to stand. -/
theorem Inv.vopLookparent {t : T} {start : O} {off : Nat} (h : Inv env s)
    (hap : Apart env s (.run t)) (hpc : s.pc t = .lookup start off)
    (hcreat : (s.flags t).creat = true)
    (hs : resolve env t (s.path t) = .ok (start, cstr (s.pathname.drop off))) :
    Inv env (Path.vopLookparent env s t start off) := by
  have hcut := cut_lookup env hpc hcreat
  unfold Path.vopLookparent
  dsimp only
  cases hkind : env.kind start with
  | sfsDir =>
    have hbuf := buffer_run env (hcut.trans (if_neg (by rw [hkind]; exact nofun)))
    dsimp only
    split
    · exact h.goto hap hbuf trivial
    · exact h.scan hap hbuf hkind hs
  | emufsDir =>
    rw [if_pos hkind] at hcut
    dsimp only
    cases hslash : strrchr (cstr (s.pathname.drop off)) '/' with
    | none =>
      rw [hslash] at hcut
      have hbuf := buffer_run env hcut
      dsimp only
      split
      · exact h.goto hap hbuf trivial
      · exact h.goto hap hbuf ⟨start, _, hs, .inr (.inr ⟨hkind, .inl rfl⟩)⟩
    | some i =>
      rw [hslash] at hcut
      have hbuf : buffer env s (.run t) = s.pathname.set (off + i) nul := by rw [buffer, hcut]; rfl
      dsimp only
      split
      · exact h.next (p := s.path t) hap hbuf.symm rfl (Function.update_eq_self _ _).symm
          (List.Subset.refl _) h.slots trivial
      · refine h.next (p := s.path t) hap hbuf.symm rfl (Function.update_eq_self _ _).symm
          (List.Subset.refl _) h.slots ⟨hkind, _, i, hs, hslash, ?_, rfl⟩
        exact cstr_drop_set ((strrchr_some hslash).1)
  | device =>
    exact h.goto hap (buffer_run env (hcut.trans (if_neg (by rw [hkind]; exact nofun)))) trivial
  | file =>
    exact h.goto hap (buffer_run env (hcut.trans (if_neg (by rw [hkind]; exact nofun)))) trivial

theorem Inv.run {t : T} (h : Inv env s) (hap : Apart env s (.run t)) (hs : run env s t = some s') :
    Inv env s' := by
  have hsound := h.sound t
  unfold Path.run at hs
  split at hs
  · cases hs
  · cases hs
  · next hpc =>
    rw [hpc] at hsound
    have hpath : cstr s.pathname = s.path t := hsound
    cases hs
    split
    · next hdev =>
      have hbuf : buffer env s (.run t) = s.pathname := by
        simp only [buffer, cut, hpc, hdev]
      refine h.startAt hap hbuf fun o ho => ?_
      rw [← hpath, List.drop_zero]
      exact getdevice_relative hdev o ho
    · next colon off hdev =>
      refine h.next (p := s.path t) hap (by simp only [buffer, cut, hpc, hdev]; rfl) rfl
        (Function.update_eq_self _ _).symm (List.Subset.refl _) h.slots ?_
      show resolve env t (s.path t) = _
      rw [← hpath]
      exact getdevice_device hdev
    · next off hdev =>
      have hbuf : buffer env s (.run t) = s.pathname := by
        simp only [buffer, cut, hpc, hdev]
      refine h.startAt hap hbuf fun o ho => ?_
      rw [← hpath]
      exact getdevice_boot hdev o ho
    · next off hdev =>
      have hbuf : buffer env s (.run t) = s.pathname := by
        simp only [buffer, cut, hpc, hdev]
      refine h.startAt hap hbuf fun o ho => ?_
      rw [← hpath]
      exact getdevice_current hdev o ho
  · next off hpc =>
    rw [hpc] at hsound
    have hbuf := buffer_run env (s := s) (t := t) (by simp only [cut, hpc])
    cases hs
    split
    · next o ho =>
      refine h.goto hap hbuf ?_
      show resolve env t (s.path t) = _
      rw [show resolve env t (s.path t) = _ from hsound, ho]
      rfl
    · exact h.goto hap hbuf trivial
  · next start off hpc =>
    rw [hpc] at hsound
    cases hs
    split
    · next hcreat =>
      split
      · next hempty =>
        refine h.goto hap (buffer_run env ?_) trivial
        rw [cut_lookup env hpc hcreat, hempty]
        exact ite_self _
      · exact h.vopLookparent hap hpc hcreat hsound
    · next hcreat =>
      have hbuf := buffer_run env (s := s) (t := t) (by
        simp only [cut, hpc, hcreat, false_and, if_false, Bool.false_eq_true])
      split
      · next hempty =>
        refine h.goto hap hbuf ⟨start, [], ?_, .inl ⟨rfl, rfl⟩⟩
        exact hempty ▸ hsound
      · exact h.vopLookup hap hbuf hsound
  · next d src i n found hpc =>
    rw [hpc] at hsound
    obtain ⟨hkind, hres, hfound⟩ := hsound
    have hbuf := buffer_run env (s := s) (t := t) (by simp only [cut, hpc])
    cases hs
    split
    · refine h.goto hap hbuf ⟨hkind, hres, hfound, fun name ino htsd => ?_⟩
      exact h.slots d name ino (List.mem_of_getElem? (Option.join_eq_some_iff.mp htsd))
    · split
      · next ino =>
        split
        · exact h.goto hap hbuf trivial
        · exact h.goto hap hbuf ⟨d, _, hres, .inr (.inl ⟨hkind, ino, hfound ino rfl, rfl⟩)⟩
      · exact h.goto hap hbuf ⟨hkind, hres⟩
      · exact h.goto hap hbuf trivial
  · next d src i n found tsd hpc =>
    rw [hpc] at hsound
    obtain ⟨hkind, hres, hfound, htsd⟩ := hsound
    have hbuf := buffer_run env (s := s) (t := t) (by simp only [cut, hpc])
    cases hs
    split
    · next name ino =>
      split
      · next heq =>
        split
        · refine h.goto hap hbuf ⟨hkind, hres, fun ino' hino => ?_⟩
          cases hino
          exact heq ▸ htsd name ino rfl
        · refine ⟨fun u => ?_, h.slots⟩
          exact h.sound u
      · exact h.goto hap hbuf ⟨hkind, hres, hfound⟩
    · exact h.goto hap hbuf ⟨hkind, hres, hfound⟩
  · next d off name hpc =>
    rw [hpc] at hsound
    have hbuf := buffer_run env (s := s) (t := t) (by simp only [cut, hpc])
    cases hs
    cases name with
    | none =>
      obtain ⟨hkind, hres⟩ := hsound
      exact h.goto hap hbuf ⟨d, _, hres, .inr (.inr ⟨hkind, .inl rfl⟩)⟩
    | some last =>
      obtain ⟨hkind, name, i, hres, hslash, hdir, rfl⟩ := hsound
      dsimp only
      split
      · refine h.goto hap hbuf ⟨d, name, hres, .inr (.inr ⟨hkind, .inr ⟨i, hslash, ?_⟩⟩)⟩
        rw [hdir]
      · exact h.goto hap hbuf trivial
  · next d name hpc =>
    rw [hpc] at hsound
    have hbuf := buffer_run env (s := s) (t := t) (by simp only [cut, hpc])
    cases hs
    exact h.goto hap hbuf hsound
  · next o hpc =>
    rw [hpc] at hsound
    have hbuf := buffer_run env (s := s) (t := t) (by simp only [cut, hpc])
    cases hs
    exact h.goto hap hbuf hsound

variable [DecidableEq O]

/-- `copyinstr` puts the path where it belongs, or the call ends. -/
theorem Inv.enter {t : T} {path : List Char} {flags : Flags} {fault : Option Nat}
    {limit : Option Errno} (h : Inv env s) (hap : Apart env s (.enter t path flags fault limit))
    (hs : step env s (.enter t path flags fault limit) = some s') : Inv env s' := by
  simp only [Path.step] at hs
  split at hs
  · next last hpc =>
    have hok : (copyinstr s.pathname (cstr path) fault).2 = none →
        cstr (copyinstr s.pathname (cstr path) fault).1 = cstr path := by
      unfold copyinstr
      split
      · exact nofun
      · split
        · exact fun _ => cstr_copyinstr nul_notMem_cstr _
        · exact nofun
    have hfail {e : Errno} : Inv env (State.error { s with
        pathname := (copyinstr s.pathname (cstr path) fault).1
        path := Function.update s.path t (cstr path)
        flags := Function.update s.flags t flags } t e) :=
      h.next hap rfl rfl rfl (List.Subset.refl _) h.slots trivial
    split at hs
    · cases hs
      exact hfail
    · cases hs
      exact hfail
    · split at hs
      · cases hs
        exact hfail
      · cases hs
        exact h.next hap rfl rfl rfl (List.Subset.refl _) h.slots (hok ‹_›)
  · cases hs

/-- The new entry has the name that was looked up. -/
theorem Inv.link {t : T} {slot ino : Nat} (h : Inv env s) (hap : Apart env s (.link t slot ino))
    (hs : step env s (.link t slot ino) = some s') : Inv env s' := by
  simp only [Path.step] at hs
  split at hs
  · next d name hpc =>
    have hsound := h.sound t
    rw [hpc] at hsound
    cases hs
    refine h.next (p := s.path t) hap rfl rfl (Function.update_eq_self _ _).symm
      (List.subset_cons_self _ _) (fun d' name' ino' hmem => ?_)
      ⟨d, name, hsound.2, .inr (.inl ⟨hsound.1, ino, List.mem_cons_self, rfl⟩)⟩
    change some (name', ino') ∈ Function.update s.slots d _ d' at hmem
    by_cases hd : d' = d
    · subst hd
      rw [Function.update_self] at hmem
      split at hmem
      · rcases List.mem_or_eq_of_mem_set hmem with hmem | heq
        · exact List.mem_cons_of_mem _ (h.slots d' name' ino' hmem)
        · cases heq
          exact List.mem_cons_self
      · rcases List.mem_append.mp hmem with hmem | hmem
        · exact List.mem_cons_of_mem _ (h.slots d' name' ino' hmem)
        · cases List.mem_singleton.mp hmem
          exact List.mem_cons_self
    · rw [Function.update_of_ne hd] at hmem
      exact List.mem_cons_of_mem _ (h.slots d' name' ino' hmem)
  · cases hs

theorem Inv.fail {t : T} {e : Errno} (h : Inv env s) (hap : Apart env s (.fail t e))
    (hs : step env s (.fail t e) = some s') : Inv env s' := by
  simp only [Path.step] at hs
  split at hs
  · cases hs
  · cases hs
    exact h.goto hap rfl trivial

/-- A step that keeps apart keeps every thread on its own path. -/
theorem Inv.step {a : Act T} (h : Inv env s) (hap : Apart env s a) (hs : step env s a = some s') :
    Inv env s' := by
  cases a with
  | enter t path flags fault limit => exact h.enter hap hs
  | run t =>
    simp only [Path.step] at hs
    split at hs
    · cases hs
    · exact h.run hap hs
  | link t slot ino => exact h.link hap hs
  | fail t e => exact h.fail hap hs

omit [DecidableEq T] [DecidableEq O] in
theorem Start.inv (h : Start s) : Inv env s where
  sound := fun t => by
    rw [h.pc t]
    trivial
  slots := fun d name ino hmem => (h.linked d name ino).mpr hmem

theorem runs_eq (s : State T O) (as : List (Act T)) : runs env s as = Runs.run (step env) s as := by
  induction as generalizing s with
  | nil => rfl
  | cons a as ih => exact congrArg _ (funext ih)

theorem runs_concat {as : List (Act T)} {a : Act T} :
    runs env s (as ++ [a]) = (runs env s as).bind fun s => step env s a := by
  rw [runs_eq, runs_eq, Runs.run_concat]

theorem allApart_nil : AllApart env s [] := fun bs a hb =>
  absurd (List.prefix_nil.mp hb) (List.append_ne_nil_of_right_ne_nil bs (List.cons_ne_nil a []))

/-- A run keeps apart step by step. -/
theorem allApart_cons {a : Act T} {as : List (Act T)} : AllApart env s (a :: as) ↔
    Apart env s a ∧ ∀ s', step env s a = some s' → AllApart env s' as := by
  constructor
  · intro h
    refine ⟨h [] a (by simp) s rfl, fun s' hs bs b hb s'' hs'' => ?_⟩
    refine h (a :: bs) b (List.cons_prefix_cons.mpr ⟨rfl, hb⟩) s'' ?_
    rw [Path.runs, hs]
    exact hs''
  · rintro ⟨hhead, htail⟩ bs b hb s'' hs''
    cases bs with
    | nil =>
      obtain ⟨rfl, -⟩ := List.cons_prefix_cons.mp hb
      cases hs''
      exact hhead
    | cons c bs =>
      obtain ⟨rfl, htl⟩ := List.cons_prefix_cons.mp hb
      rw [Path.runs] at hs''
      obtain ⟨s', hs, hs''⟩ := Option.bind_eq_some_iff.mp hs''
      exact htail s' hs bs b htl s'' hs''

instance [Fintype T] (s : State T O) (a : Act T) : Decidable (Apart env s a) :=
  inferInstanceAs (Decidable (∀ u, u ≠ a.thread → _ = _))

instance decidableAllApart [Fintype T] : (s : State T O) → (as : List (Act T)) →
    Decidable (AllApart env s as)
  | _, [] => isTrue allApart_nil
  | s, a :: as =>
    match hstep : step env s a with
    | none => decidable_of_iff (Apart env s a) (by simp [allApart_cons, hstep])
    | some s' =>
      have := decidableAllApart s' as
      decidable_of_iff (Apart env s a ∧ AllApart env s' as) (by simp [allApart_cons, hstep])

theorem Inv.runs {as : List (Act T)} (h : Inv env s) (hap : AllApart env s as)
    (hs : runs env s as = some s') : Inv env s' := by
  induction as using List.reverseRecOn generalizing s' with
  | nil =>
    cases hs
    exact h
  | append_singleton as a ih =>
    rw [runs_concat] at hs
    obtain ⟨s₁, hs₁, hs⟩ := Option.bind_eq_some_iff.mp hs
    have hinit : AllApart env s as :=
      fun bs b hb => hap bs b (hb.trans (List.prefix_append as [a]))
    exact (ih hinit hs₁).step (hap as a (List.prefix_refl _) s₁ hs₁) hs

omit [DecidableEq T] [DecidableEq O] in
theorem Pc.opened_some {pc : Pc O} {o : O} (h : pc.opened = some o) :
    pc = .idle (some (.ok o)) := by
  unfold Pc.opened at h
  split at h
  · cases h
    rfl
  · cases h

/-- Opens that leave alone what the others have still to read end with what their own
paths name. -/
theorem open_own_path {as : List (Act T)} {t : T} {o : O} (h : Start s) (hap : AllApart env s as)
    (hs : runs env s as = some s') (ho : (s'.pc t).opened = some o) :
    Names env s'.linked t (s'.path t) o := by
  have hsound := (h.inv.runs hap hs).sound t
  rw [Pc.opened_some ho] at hsound
  exact hsound

end Runs

/-! ## Two paths in one buffer -/

/-- One volume whose root directory is 0; the vnode of inode `n` is `n + 10`. -/
def oneVolume (T : Type) : Env T Nat where
  cwd := fun _ => some 0
  getroot := fun _ => .error .ENOENT
  fsroot := fun _ => 0
  bootfs := some 0
  kind := fun d => if d = 0 then .sfsDir else .file
  vnode := fun _ ino => ino + 10
  emuOpen := fun d _ => d

/-- Files `a` and `b`. -/
def twoFiles (T : Type) : State T Nat where
  pathname := List.replicate PATH_MAX nul
  slots := fun d => if d = 0 then [some (['a'], 2), some (['b'], 3)] else []
  linked := [(0, ['a'], 2), (0, ['b'], 3)]
  path := fun _ => []
  flags := fun _ => ⟨0, false, false⟩
  pc := fun _ => .idle none
  panic := false

/-- The open of `b` starts while the one of `a` is about to return. -/
def overlappingOpens : List (Act Bool) :=
  [.enter false ['a'] ⟨0, false, false⟩ none none, .run false, .run false, .run false, .run false,
    .run false, .run false, .run false,
    .enter true ['b'] ⟨0, false, false⟩ none none, .run true, .run true,
    .run false, .run true, .run true, .run true, .run true, .run true, .run true]

theorem twoFiles_start (T : Type) : Start (twoFiles T) where
  pc := fun _ => rfl
  linked := fun d name ino => by
    by_cases hd : d = 0
    · simp [twoFiles, hd]
    · simp [twoFiles, hd]

/-- The first thread waits for the disk in its scan for `a` while the second one copies
its path `b` in; the scan goes on, for `b`. -/
theorem scan_other_path : ¬ ∀ (env : Env Nat Nat) (s s' : State Nat Nat) (as : List (Act Nat))
    (t o : Nat), Start s → runs env s as = some s' → (s'.pc t).opened = some o →
    Names env s'.linked t (s'.path t) o := by
  intro h
  have hview : (runs (oneVolume Nat) (twoFiles Nat)
      [.enter 0 ['a'] ⟨0, false, false⟩ none none, .run 0, .run 0, .run 0,
        .enter 1 ['b'] ⟨0, false, false⟩ none none,
        .run 0, .run 0, .run 0, .run 0, .run 0]).map
      (fun s => ((s.pc 0).opened, s.path 0, s.linked)) =
      some (some 13, ['a'], [(0, ['a'], 2), (0, ['b'], 3)]) := by
    decide +kernel
  obtain ⟨s, hs, hview⟩ := Option.map_eq_some_iff.mp hview
  simp only [Prod.mk.injEq] at hview
  obtain ⟨hopened, hpath, hlinked⟩ := hview
  have hnames := h _ _ s _ 0 13 (twoFiles_start Nat) hs hopened
  rw [hpath, hlinked] at hnames
  obtain ⟨d, name, hres, hcase⟩ := hnames
  have ha : resolve (oneVolume Nat) 0 ['a'] = .ok (0, ['a']) := rfl
  rw [ha] at hres
  cases hres
  rcases hcase with ⟨hnil, _⟩ | ⟨-, ino, hmem, heq⟩ | ⟨hkind, _⟩
  · cases hnil
  · have hino : ino = 3 := by
      simp only [oneVolume] at heq
      omega
    subst hino
    simp at hmem
  · cases hkind

/-- The second thread copies its path in when the first one has read all of its own. -/
theorem open_own_path_two : ∃ s : State Bool Nat,
    (s.pc false).opened = some 12 ∧ (s.pc true).opened = some 13 ∧
    Names (oneVolume Bool) s.linked false (s.path false) 12 ∧
    Names (oneVolume Bool) s.linked true (s.path true) 13 := by
  have hap : AllApart (oneVolume Bool) (twoFiles Bool) overlappingOpens := by decide +kernel
  have hview : (runs (oneVolume Bool) (twoFiles Bool) overlappingOpens).map
      (fun s => ((s.pc false).opened, (s.pc true).opened)) = some (some 12, some 13) := by
    decide +kernel
  obtain ⟨s, hs, hview⟩ := Option.map_eq_some_iff.mp hview
  simp only [Prod.mk.injEq] at hview
  exact ⟨s, hview.1, hview.2, open_own_path (twoFiles_start Bool) hap hs hview.1,
    open_own_path (twoFiles_start Bool) hap hs hview.2⟩

end Os161.Files.Path
