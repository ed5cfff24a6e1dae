import Mathlib.Tactic.ByContra
import Os161.Vfs.KnownDevs

/-! # Which names are ambiguous

`badnames` keeps the names of a new entry apart from all others. `vfs_mount` brings in a
volume name without looking at it. -/
namespace Os161.Vfs
open Os161.Runs

section Names

variable {D V F : Type} {getvolname : F → Option Name} {s s' : Knowndevs D V F}

def Knowndev.Named (getvolname : F → Option Name) (kd : Knowndev D V F) (n : Name) : Prop :=
  kd.kdName = n ∨ kd.kdRawname = some n ∨ kd.volname getvolname = some n

/-- No name is one of two entries. -/
def Unambiguous (getvolname : F → Option Name) (s : Knowndevs D V F) : Prop :=
  ∀ (i j : Nat) (kd kd' : Knowndev D V F) (n : Name), s[i]? = some kd → s[j]? = some kd' →
    kd.Named getvolname n → kd'.Named getvolname n → i = j

/-- Whatever entry has a name, its answer is the answer of `vfs_getroot`. -/
def OneRoot (getvolname : F → Option Name) (s : Knowndevs D V F) : Prop :=
  ∀ kd ∈ s, ∀ n, kd.Named getvolname n → ∃ r, kd.round getvolname n = some r ∧
    r ≠ .assertion ∧ vfsGetroot getvolname n s = r

/-- What is not a device is a file system for good. -/
def Sorted (s : Knowndevs D V F) : Prop :=
  ∀ kd ∈ s, kd.kdDevice = none → kd.kdRawname = none ∧ kd.kdFs.isSome

/-! ## The checks -/

theorem samestring_iff (a b : Option Name) :
    samestring a b = true ↔ ∃ n, a = some n ∧ b = some n := by
  cases a with
  | none => simp [samestring]
  | some a =>
    cases b with
    | none => simp [samestring]
    | some b => simp [samestring, eq_comm]

theorem samestring3_iff (a b c d : Option Name) :
    samestring3 a b c d = true ↔ ∃ n, a = some n ∧ (b = some n ∨ c = some n ∨ d = some n) := by
  simp only [samestring3, Bool.or_eq_true, samestring_iff]
  constructor
  · intro hx
    rcases hx with (⟨n, ha, hb⟩ | ⟨n, ha, hb⟩) | ⟨n, ha, hb⟩
    · exact ⟨n, ha, .inl hb⟩
    · exact ⟨n, ha, .inr (.inl hb)⟩
    · exact ⟨n, ha, .inr (.inr hb)⟩
  · intro hx
    obtain ⟨n, ha, hb | hb | hb⟩ := hx
    · exact .inl (.inl ⟨n, ha, hb⟩)
    · exact .inl (.inr ⟨n, ha, hb⟩)
    · exact .inr ⟨n, ha, hb⟩

/-- `badnames` compares with all three names of every entry. -/
theorem badnames_false (n1 n2 n3 : Option Name)
    (h : badnames getvolname n1 n2 n3 s = false) {kd : Knowndev D V F} (hkd : kd ∈ s) {n : Name}
    (hn : n1 = some n ∨ n2 = some n ∨ n3 = some n) : ¬ kd.Named getvolname n := by
  induction s with
  | nil => cases hkd
  | cons kd' rest ih =>
    rw [badnames] at h
    split at h
    · cases h
    · next hvol =>
      split at h
      · cases h
      · next hnames =>
        rcases List.mem_cons.mp hkd with rfl | hkd
        · intro hx
          rcases hx with hname | hraw | hv
          · exact hnames (Bool.or_eq_true_iff.mpr
              (.inr ((samestring3_iff ..).mpr ⟨n, congrArg some hname, hn⟩)))
          · exact hnames (Bool.or_eq_true_iff.mpr
              (.inl ((samestring3_iff ..).mpr ⟨n, hraw, hn⟩)))
          · refine hvol (Bool.and_eq_true_iff.mpr ⟨?_, (samestring3_iff ..).mpr ⟨n, hv, hn⟩⟩)
            obtain ⟨fs, hfs, -⟩ := Option.bind_eq_some_iff.mp hv
            rw [hfs]
            rfl
        · exact ih h hkd

theorem findmount_some {devname : Name} {i : Nat} (h : findmount devname s = some i) :
    ∃ kd, s[i]? = some kd ∧ kd.kdRawname.isSome := by
  obtain ⟨hlt, hp, -⟩ := List.findIdx?_eq_some_iff_getElem.mp h
  refine ⟨s[i], List.getElem?_eq_getElem hlt, ?_⟩
  exact (Bool.and_eq_true_iff.mp hp).1

theorem mountpoint_ok {devname : Name} {i : Nat} (h : mountpoint devname s = .ok i) :
    ∃ kd, s[i]? = some kd ∧ kd.kdRawname.isSome := by
  unfold mountpoint at h
  split at h
  · cases h
  · next j hj =>
    split at h
    · cases h
    · cases h
      exact findmount_some hj

/-! ## What a change of the table does to the names -/

theorem getElem?_concat_some {new kd : Knowndev D V F} {i : Nat}
    (h : (s ++ [new])[i]? = some kd) : s[i]? = some kd ∨ i = s.length ∧ kd = new := by
  rw [List.getElem?_append] at h
  split at h
  · exact .inl h
  · next hge =>
    obtain ⟨hlt, he⟩ := List.getElem?_eq_some_iff.mp h
    simp only [List.length_singleton] at hlt
    refine .inr ⟨by omega, ?_⟩
    simpa using he.symm

theorem Unambiguous.add (h : Unambiguous getvolname s) {new : Knowndev D V F}
    (hnew : ∀ kd ∈ s, ∀ n, new.Named getvolname n → ¬ kd.Named getvolname n) :
    Unambiguous getvolname (s ++ [new]) := by
  intro i j kd kd' n hi hj hn hn'
  rcases getElem?_concat_some hi with hkd | ⟨hl, rfl⟩
  · rcases getElem?_concat_some hj with hkd' | ⟨-, rfl⟩
    · exact h i j kd kd' n hkd hkd' hn hn'
    · exact absurd hn (hnew kd (List.mem_of_getElem? hkd) n hn')
  · rcases getElem?_concat_some hj with hkd' | ⟨hl', -⟩
    · exact absurd hn' (hnew kd' (List.mem_of_getElem? hkd') n hn)
    · rw [hl, hl']

theorem setFs_some {i j : Nat} {fs : Option F} {kd : Knowndev D V F}
    (h : (setFs s i fs)[j]? = some kd) :
    ∃ kd₀, s[j]? = some kd₀ ∧ kd = if i = j then { kd₀ with kdFs := fs } else kd₀ := by
  simp only [setFs, List.getElem?_modify] at h
  obtain ⟨kd₀, h₀, rfl⟩ := Option.map_eq_some_iff.mp h
  exact ⟨kd₀, h₀, rfl⟩

theorem setFs_get {i j : Nat} {fs : Option F} {kd : Knowndev D V F} (h : s[j]? = some kd) :
    (setFs s i fs)[j]? = some (if i = j then { kd with kdFs := fs } else kd) := by
  simp only [setFs, List.getElem?_modify, h]
  rfl

/-- The names after a file system is set: those of the device stay. -/
theorem named_setFs {kd : Knowndev D V F} {fs : Option F} {n : Name}
    (h : Knowndev.Named getvolname { kd with kdFs := fs } n) :
    kd.Named getvolname n ∨ fs.bind getvolname = some n := by
  rcases h with h | h | h
  · exact .inl (.inl h)
  · exact .inl (.inr (.inl h))
  · exact .inr h

/-- No entry but the one at `i` has one of the names. -/
def FreeBut (getvolname : F → Option Name) (s : Knowndevs D V F) (i : Nat) (v : Option Name) :
    Prop :=
  ∀ n, v = some n → ∀ (j : Nat) (kd : Knowndev D V F), j ≠ i → s[j]? = some kd →
    ¬ kd.Named getvolname n

theorem Unambiguous.setFs (h : Unambiguous getvolname s) {i : Nat} {fs : Option F}
    (hfree : FreeBut getvolname s i (fs.bind getvolname)) :
    Unambiguous getvolname (setFs s i fs) := by
  intro j k kd kd' n hj hk hn hn'
  obtain ⟨a, ha, rfl⟩ := setFs_some hj
  obtain ⟨b, hb, rfl⟩ := setFs_some hk
  by_contra hne
  by_cases hij : i = j
  · subst hij
    rw [if_neg hne] at hn'
    rw [if_pos rfl] at hn
    rcases named_setFs hn with hn | hn
    · exact hne (h i k a b n ha hb hn hn')
    · exact hfree n hn k b (Ne.symm hne) hb hn'
  · rw [if_neg hij] at hn
    split at hn'
    · next hik =>
      subst hik
      rcases named_setFs hn' with hn' | hn'
      · exact hne (h j i a b n ha hb hn hn')
      · exact hfree n hn' j a (Ne.symm hij) ha hn
    · exact hne (h j k a b n ha hb hn hn')

theorem Unambiguous.freeBut {i : Nat} {fs : F} {kd : Knowndev D V F}
    (h : Unambiguous getvolname (Vfs.setFs s i (some fs))) (hkd : s[i]? = some kd) :
    FreeBut getvolname s i (getvolname fs) := by
  intro n hv j kd' hne hj hn
  have hi : (Vfs.setFs s i (some fs))[i]? = some { kd with kdFs := some fs } := by
    rw [setFs_get hkd, if_pos rfl]
  have hj' : (Vfs.setFs s i (some fs))[j]? = some kd' := by
    rw [setFs_get hj, if_neg (Ne.symm hne)]
  exact hne (h j i _ _ n hj' hi hn (.inr (.inr hv)))

/-! ## The answers of `vfs_getroot` -/

theorem round_some {kd : Knowndev D V F} {n : Name} (h : kd.Named getvolname n)
    (hs : kd.kdDevice = none → kd.kdRawname = none ∧ kd.kdFs.isSome) :
    ∃ r, kd.round getvolname n = some r ∧ r ≠ .assertion := by
  obtain ⟨name, raw, dev, vnode, fs⟩ := kd
  cases fs with
  | some fs =>
    by_cases hn : name = n ∨ getvolname fs = some n
    · exact ⟨.getroot fs, by simp only [Knowndev.round, if_pos hn], by simp⟩
    · have hraw : raw = some n := by
        rcases h with h | h | h
        · exact absurd (.inl h) hn
        · exact h
        · exact absurd (.inr h) hn
      cases dev with
      | none =>
        have := (hs rfl).1
        simp only [hraw] at this
        cases this
      | some d =>
        refine ⟨.device vnode, ?_, by simp⟩
        simp only [Knowndev.round, if_neg hn, if_pos hraw, Option.isSome_some, if_true]
  | none =>
    cases dev with
    | none =>
      have := (hs rfl).2
      cases this
    | some d =>
      by_cases hx : raw.isSome = true ∧ name = n
      · exact ⟨.error Errno.ENXIO, by simp only [Knowndev.round, if_pos hx], by simp⟩
      · have hn : name = n ∨ raw = some n := by
          rcases h with h | h | h
          · exact .inl h
          · exact .inr h
          · cases h
        refine ⟨.device vnode, ?_, by simp⟩
        simp only [Knowndev.round, if_neg hx, if_pos hn, Option.isSome_some, if_true]

theorem round_none {kd : Knowndev D V F} {n : Name} (h : ¬ kd.Named getvolname n) :
    kd.round getvolname n = none := by
  obtain ⟨name, raw, dev, vnode, fs⟩ := kd
  simp only [Knowndev.Named, not_or] at h
  obtain ⟨hname, hraw, hvol⟩ := h
  cases fs with
  | some fs =>
    have hvol : getvolname fs ≠ some n := hvol
    simp [Knowndev.round, hname, hraw, hvol]
  | none => simp [Knowndev.round, hname, hraw]

theorem Unambiguous.tail {kd : Knowndev D V F} (h : Unambiguous getvolname (kd :: s)) :
    Unambiguous getvolname s := by
  intro i j a b n hi hj hn hn'
  have := h (i + 1) (j + 1) a b n hi hj hn hn'
  omega

theorem Unambiguous.oneRoot (h : Unambiguous getvolname s) (hs : Sorted s) :
    OneRoot getvolname s := by
  induction s with
  | nil =>
    intro kd hkd
    cases hkd
  | cons kd' rest ih =>
    intro kd hkd n hn
    obtain ⟨r, hr, hne⟩ := round_some hn (hs kd hkd)
    refine ⟨r, hr, hne, ?_⟩
    rcases List.mem_cons.mp hkd with rfl | hkd
    · rw [vfsGetroot, hr]
      rfl
    · obtain ⟨i, hi⟩ := List.mem_iff_getElem?.mp hkd
      have hn' : ¬ kd'.Named getvolname n := fun hn' => by
        have := h 0 (i + 1) kd' kd n rfl hi hn' hn
        omega
      obtain ⟨r', hr', -, hget⟩ :=
        ih h.tail (fun a ha => hs a (List.mem_cons_of_mem _ ha)) kd hkd n hn
      rw [vfsGetroot, round_none hn', Option.getD_none, hget]
      exact Option.some.inj (hr'.symm.trans hr)

/-! ## Steps -/

/-- A call that mounts a file system whose volume name is a name of no other entry, or does
anything else. -/
def Fits (getvolname : F → Option Name) (s : Knowndevs D V F) : Call D V F → Prop
  | .mount devname (.ok fs) =>
    ∀ i, mountpoint devname s = .ok i → FreeBut getvolname s i (getvolname fs)
  | _ => True

/-- What a call does to the table. -/
inductive Change (getvolname : F → Option Name) (s : Knowndevs D V F) (c : Call D V F) :
    Knowndevs D V F → Prop
  | same (fits : Fits getvolname s c) : Change getvolname s c s
  | added (new : Knowndev D V F) (fits : Fits getvolname s c)
      (clear : ∀ kd ∈ s, ∀ n, new.Named getvolname n → ¬ kd.Named getvolname n)
      (sorted : new.kdDevice = none → new.kdRawname = none ∧ new.kdFs.isSome) :
      Change getvolname s c (s ++ [new])
  | mounted (devname : Name) (fs : F) (i : Nat) (kd : Knowndev D V F)
      (mount : c = .mount devname (.ok fs)) (point : mountpoint devname s = .ok i)
      (entry : s[i]? = some kd) (raw : kd.kdRawname.isSome) :
      Change getvolname s c (setFs s i (some fs))
  | unmounted (i : Nat) (kd : Knowndev D V F) (fits : Fits getvolname s c)
      (entry : s[i]? = some kd) (raw : kd.kdRawname.isSome) :
      Change getvolname s c (setFs s i none)

/-- A new entry keeps clear of the names that are there. -/
theorem vfsDoadd_change {c : Call D V F} (hc : Fits getvolname s c) (dname : Name)
    (mountable : Bool) (dev : Option D) (fs : Option F) (mem : Allocs V)
    (hsorted : dev = none → mountable = false ∧ fs.isSome) :
    Change getvolname s c (vfsDoadd getvolname dname mountable dev fs mem s).2 := by
  have hraw : dev = none →
      (if mountable then some (mkrawname dname) else none) = none ∧ fs.isSome :=
    fun hd => ⟨by simp [(hsorted hd).1], (hsorted hd).2⟩
  unfold vfsDoadd
  split
  · exact .same hc
  · split
    · exact .same hc
    · cases mem.devCreateVnode with
      | none => exact .same hc
      | some vnode =>
        dsimp only
        generalize (if mountable then some (mkrawname dname) else none) = rawname at hraw ⊢
        split
        · exact .same hc
        · split
          · exact .same hc
          · next hbad =>
            cases mem.arrayAdd with
            | some e => exact .same hc
            | none =>
              refine .added _ hc (fun kd hkd n hn => ?_) hraw
              refine badnames_false _ _ _ (eq_false_of_ne_true hbad) hkd ?_
              rcases hn with hn | hn | hn
              · exact .inl (congrArg some hn)
              · exact .inr (.inl hn)
              · exact .inr (.inr hn)

theorem step_change {c : Call D V F} (hstep : step getvolname s c = some s') :
    Change getvolname s c s' := by
  cases hstep
  cases c with
  | adddev devname dev mountable mem =>
    have hc : Fits getvolname s (.adddev devname dev mountable mem) := trivial
    exact vfsDoadd_change hc devname mountable (some dev) none mem (by simp)
  | addfs devname fs mem =>
    have hc : Fits getvolname s (.addfs (D := D) devname fs mem) := trivial
    exact vfsDoadd_change hc devname false none (some fs) mem (by simp)
  | mount devname mounted =>
    cases mounted with
    | error e =>
      simp only [call, vfsMount]
      cases mountpoint devname s with
      | error e => exact .same trivial
      | ok i => exact .same trivial
    | ok fs =>
      simp only [call, vfsMount]
      cases hm : mountpoint devname s with
      | error e =>
        refine .same fun i hi => ?_
        cases hm.symm.trans hi
      | ok i =>
        obtain ⟨kd, hkd, hraw⟩ := mountpoint_ok hm
        exact .mounted devname fs i kd rfl hm hkd hraw
  | unmount devname sync unmount =>
    simp only [call, vfsUnmount]
    cases hf : findmount devname s with
    | none => exact .same trivial
    | some i =>
      obtain ⟨kd, hkd, hraw⟩ := findmount_some hf
      dsimp only
      split
      · exact .same trivial
      · cases sync with
        | some e => exact .same trivial
        | none =>
          cases unmount with
          | some e => exact .same trivial
          | none => exact .unmounted i kd trivial hkd hraw

theorem Sorted.add (h : Sorted s) {new : Knowndev D V F}
    (hnew : new.kdDevice = none → new.kdRawname = none ∧ new.kdFs.isSome) :
    Sorted (s ++ [new]) := by
  intro kd hkd
  rcases List.mem_append.mp hkd with hkd | hkd
  · exact h kd hkd
  · rw [List.mem_singleton.mp hkd]
    exact hnew

theorem Sorted.setFs (h : Sorted s) {i : Nat} {kd : Knowndev D V F} (hkd : s[i]? = some kd)
    (hraw : kd.kdRawname.isSome) (fs : Option F) : Sorted (setFs s i fs) := by
  intro kd' hkd'
  obtain ⟨j, hj⟩ := List.mem_iff_getElem?.mp hkd'
  obtain ⟨a, ha, rfl⟩ := setFs_some hj
  have hs := h a (List.mem_of_getElem? ha)
  split
  · next hij =>
    subst hij
    cases hkd.symm.trans ha
    intro hd
    rw [(hs hd).1] at hraw
    cases hraw
  · exact hs

theorem step_sorted {c : Call D V F} (h : Sorted s) (hstep : step getvolname s c = some s') :
    Sorted s' := by
  cases step_change hstep with
  | same => exact h
  | added new _ _ hsorted => exact h.add hsorted
  | mounted _ fs i kd _ _ hkd hraw => exact h.setFs hkd hraw (some fs)
  | unmounted i kd _ hkd hraw => exact h.setFs hkd hraw none

theorem step_unambiguous {c : Call D V F} (h : Unambiguous getvolname s)
    (hstep : step getvolname s c = some s') :
    Unambiguous getvolname s' ↔ Fits getvolname s c := by
  cases step_change hstep with
  | same hc => exact iff_of_true h hc
  | added new hc hclear => exact iff_of_true (h.add hclear) hc
  | mounted devname fs i kd hc hm hkd =>
    subst hc
    constructor
    · intro hnew j hj
      cases hm.symm.trans hj
      exact hnew.freeBut hkd
    · intro hfree
      exact h.setFs (hfree i hm)
  | unmounted i kd hc =>
    refine iff_of_true (h.setFs fun n hn => ?_) hc
    cases hn

/-- In every run the names stay unambiguous, with one answer of `vfs_getroot` for each, as
long as each volume name that comes in by a mount is no name of another entry, and no
longer. -/
theorem names_unambiguous_iff (getvolname : F → Option Name) (calls : List (Call D V F)) :
    Throughout (step getvolname) (fun s => Unambiguous getvolname s ∧ OneRoot getvolname s)
      ([] : Knowndevs D V F) calls ↔
      EachStep (step getvolname) (Fits getvolname) [] calls := by
  have hempty : Unambiguous getvolname ([] : Knowndevs D V F) := fun i j kd kd' n hi => by cases hi
  have hsorted : Sorted ([] : Knowndevs D V F) := fun kd hkd => by cases hkd
  refine throughout_iff (G := Sorted) (fun s c s' => step_sorted) ?_ hsorted
    ⟨hempty, hempty.oneRoot hsorted⟩ calls
  intro s c s' hs hP hstep
  obtain ⟨h, -⟩ := hP
  rw [← step_unambiguous h hstep]
  exact ⟨fun h' => h'.1, fun h' => ⟨h', h'.oneRoot (step_sorted hs hstep)⟩⟩

end Names

/-- All allocations succeed; `v` is the vnode. -/
def plenty (v : Nat) : Allocs Nat := ⟨true, true, some v, true, none⟩

/-- Two disks, `a` and `b`, with file systems 0 and 1 on them. -/
def twoDisks : List (Call Nat Nat Nat) :=
  [.adddev [97] 0 true (plenty 0), .adddev [98] 1 true (plenty 1), .mount [97] (.ok 0),
    .mount [98] (.ok 1)]

/-- Both volumes are called `v`. -/
def sameVolname : Nat → Option Name := fun _ => some [118]

/-- The name of both volumes means the one on the first disk. -/
theorem names_unambiguous_iff_twoDisks :
    ∃ s a b, run (step sameVolname) [] twoDisks = some s ∧ s[0]? = some a ∧ s[1]? = some b ∧
      a.Named sameVolname [118] ∧ b.Named sameVolname [118] ∧
      vfsGetroot sameVolname [118] s = .getroot 0 ∧ b.round sameVolname [118] = some (.getroot 1) ∧
      ¬ Throughout (step sameVolname)
        (fun s => Unambiguous sameVolname s ∧ OneRoot sameVolname s) [] twoDisks := by
  have hrun : run (step sameVolname) [] twoDisks =
      some [⟨[97], some (mkrawname [97]), some 0, 0, some 0⟩,
        ⟨[98], some (mkrawname [98]), some 1, 1, some 1⟩] := by rfl
  refine ⟨_, _, _, hrun, rfl, rfl, .inr (.inr rfl), .inr (.inr rfl), rfl, rfl, fun h => ?_⟩
  have := (h.last hrun).1 0 1 _ _ [118] rfl rfl (.inr (.inr rfl)) (.inr (.inr rfl))
  cases this

end Os161.Vfs
