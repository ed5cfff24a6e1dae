import Os161.Sfs.Namespace

/-! # A flat file system

What the file system is for: names stand for files, a file is kept while it has a name or a
reference, and a call changes the file it is made on. The operations on the root directory and on
the vnodes of files do this, and nothing else. The directory itself can have names and references
too, but it is no object. -/
namespace Os161.Sfs
open Os161.Lib Kern Vol

variable {p q sv d : Ptr} {i c : UInt32} {w w' : World} {k j : Nat} {name : CString} {r : Register}

abbrev Flat := NamedStore CString UInt32 Ptr Content

/-! ## The flat file system of a register -/

open Classical in
noncomputable def Register.flat (r : Register) : Flat where
  names := r.slots.find
  objects i := if r.live i ∧ i ≠ sfsRootLocation then some (r.content i) else none
  handles := r.handles
  counts := r.refs
  opens := r.opens

namespace Register

theorem objects_of_live (hi : r.live i) (hroot : i ≠ sfsRootLocation) :
    r.flat.objects i = some (r.content i) := if_pos ⟨hi, hroot⟩

theorem objects_congr {r' : Register} (hl : r'.live i ↔ r.live i)
    (hc : r'.content i = r.content i) :
    r'.flat.objects i = r.flat.objects i := by
  by_cases hi : r.live i ∧ i ≠ sfsRootLocation
  · rw [objects_of_live hi.1 hi.2, objects_of_live (hl.mpr hi.1) hi.2, hc]
  · exact (if_neg fun hx => hi ⟨hl.mp hx.1, hx.2⟩).trans (if_neg hi).symm

theorem flat_write {f : Content} (hi : r.live i) (hroot : i ≠ sfsRootLocation) :
    (r.write i f).flat = r.flat.put i f := by
  unfold NamedStore.put
  have : (r.write i f).flat.objects = Function.update r.flat.objects i (some f) := by
    funext a
    by_cases ha : a = i
    · rw [ha, Function.update_self, objects_of_live (r := r.write i f) hi hroot]
      exact congrArg some (Function.update_self ..)
    · rw [Function.update_of_ne ha]
      exact objects_congr Iff.rfl (Function.update_of_ne ha _ _)
  rw [← this]
  rfl

theorem flat_link (hdis : r.slots.Distinct) (hl : LinkedAt r.slots name j) :
    (r.link j name i).flat = r.flat.bind name i := by
  have := Slots.find_put_some (a := i) hdis hl.free hl.absent
  unfold NamedStore.bind
  rw [show r.flat.names = r.slots.find from rfl, ← this]
  rfl

theorem flat_unlink (hdis : r.slots.Distinct) (hb : r.slots.Binds j name i) :
    (r.unlink j i).flat = r.flat.unbind name := by
  have := Slots.find_put_none hdis hb
  unfold NamedStore.unbind
  rw [show r.flat.names = r.slots.find from rfl, ← this]
  rfl

theorem objects_root : r.flat.objects sfsRootLocation = none := if_neg fun hx => hx.2 rfl

theorem flat_idle (hdis : r.slots.Distinct) (hb : r.Balanced) (hroot : i ≠ sfsRootLocation) :
    r.flat.Idle i ↔ ¬ r.live i := by
  have hnames : (∀ n, r.flat.names n ≠ some i) ↔ ¬ 0 < r.slots.uses i := by
    rw [Slots.uses_pos]
    constructor
    · intro h hx
      obtain ⟨j, n, hj⟩ := hx
      exact h n ((Slots.find_eq_some hdis).mpr ⟨j, hj⟩)
    · intro h n hn
      obtain ⟨j, hj⟩ := (Slots.find_eq_some hdis).mp hn
      exact h ⟨j, n, hj⟩
  rw [NamedStore.Idle, hnames, hb.live]
  show r.refs i = 0 ∧ _ ↔ _
  simp only [hroot, false_or]
  omega

theorem flat_drop (hdis : r.slots.Distinct) (hb : r.Balanced) (hi : r.live i)
    (hpos : 0 < r.refs i) : (r.drop p i).flat = (r.flat.drop p i).reap i := by
  have hlive {a : UInt32} (ha : a ≠ i) : (r.drop p i).live a ↔ r.live a :=
    ⟨fun hx => hx.1, fun hx => ⟨hx, fun hy => ha hy.1⟩⟩
  have hobj {a : UInt32} (ha : a ≠ i) : (r.drop p i).flat.objects a = r.flat.objects a :=
    objects_congr (hlive ha) rfl
  have hkept (h : (r.drop p i).flat.objects i = r.flat.objects i) :
      (r.drop p i).flat = r.flat.drop p i := by
    have : (r.drop p i).flat.objects = r.flat.objects := by
      funext a
      by_cases ha : a = i
      · rw [ha, h]
      · exact hobj ha
    unfold NamedStore.drop
    rw [← this]
    rfl
  by_cases hroot : i = sfsRootLocation
  · subst hroot
    rw [NamedStore.reap_of_none (s := r.flat.drop p sfsRootLocation) objects_root]
    exact hkept (objects_root.trans objects_root.symm)
  have hidle : (r.flat.drop p i).Idle i ↔ ¬ (r.drop p i).live i :=
    flat_idle (r := r.drop p i) hdis (hb.drop hi hpos) hroot
  by_cases hx : (r.drop p i).live i
  · rw [NamedStore.reap_of_not_idle fun hy => hidle.mp hy hx]
    refine hkept ?_
    rw [objects_of_live hi hroot, objects_of_live hx hroot]
    rfl
  · rw [NamedStore.reap_of_idle (hidle.mpr hx)]
    have : (r.drop p i).flat.objects = Function.update r.flat.objects i none := by
      funext a
      by_cases ha : a = i
      · rw [ha, Function.update_self]
        exact if_neg fun hy => hx hy.1
      · rw [Function.update_of_ne ha, hobj ha]
    unfold NamedStore.drop
    dsimp only
    rw [← this]
    rfl

theorem flat_adopt (hb : r.Balanced) (hc : ¬ r.live c) (hroot : c ≠ sfsRootLocation) :
    (r.adopt p c).flat = (r.flat.put c ⟨0, fun _ => 0⟩).take p c := by
  have hobj : (r.adopt p c).flat.objects =
    Function.update r.flat.objects c (some ⟨0, fun _ => 0⟩) := by
    funext a
    by_cases ha : a = c
    · rw [ha, Function.update_self, objects_of_live (r := r.adopt p c) (.inr rfl) hroot]
      exact congrArg some (Function.update_self ..)
    · rw [Function.update_of_ne ha]
      exact objects_congr ⟨fun hx => hx.resolve_right ha, .inl⟩ (Function.update_of_ne ha _ _)
  have hrefs : (r.adopt p c).flat.counts =
    Function.update r.flat.counts c (r.flat.counts c + 1) := by
    rw [show r.flat.counts c = 0 from (hb.not_live hc).1]
    rfl
  unfold NamedStore.put NamedStore.take
  dsimp only
  rw [← hobj, ← hrefs]
  rfl

end Register

/-! ## The file system without files -/

/-- A register with the root directory only, which is empty and not loaded. -/
def Register.fresh : Register where
  live i := i = sfsRootLocation
  slots := []
  links _ := 1
  content _ := ⟨0, fun _ => 0⟩
  handles _ := none
  refs _ := 0
  opens _ := 0

theorem Register.fresh_balanced : Register.fresh.Balanced where
  links i hi := by
    rw [show i = sfsRootLocation from hi]
    rfl
  live i := by
    show i = sfsRootLocation ↔ i = sfsRootLocation ∨ 0 < 0 ∨ 0 < 0
    simp only [Nat.lt_irrefl, or_false]

/-- The flat file system without files. -/
def Flat.empty : Flat := ⟨fun _ => none, fun _ => none, fun _ => none, fun _ => 0, fun _ => 0⟩

theorem Register.flat_fresh : Register.fresh.flat = Flat.empty := by
  have hobj : Register.fresh.flat.objects = Flat.empty.objects :=
    funext fun _ => if_neg fun hx => hx.2 hx.1
  show NamedStore.mk _ Register.fresh.flat.objects _ _ _ =
    NamedStore.mk _ Flat.empty.objects _ _ _
  rw [hobj]
  rfl

/-- The root directory was loaded, in `d`. -/
def Flat.start (s : Flat) (d : Ptr) : Flat := s.take d sfsRootLocation

theorem Register.flat_start (r : Register) (d : Ptr) :
    (r.take d sfsRootLocation).flat = r.flat.start d := rfl

end Os161.Sfs
