import Os161.Filetable.Offsets
import Os161.Lib.Rings

/-! # The end of the loops over the duplicates

A loop ends at a link that is 0 or negative, or that leads to its start. Links that `close`
and `open` leave behind, and the end of a list at descriptor 0, let `dup2` close a ring that
other open descriptors lead into. -/
namespace Os161.Filetable

open Os161.Lib Os161.Runs Relation

variable {V : Type}

/-- `b` is the next descriptor on the list. -/
def Next (dup : Int → Int) (a b : Int) : Prop := dup a = b ∧ 0 < b

def Leads (dup : Int → Int) : Int → Int → Prop := ReflTransGen (Next dup)

/-- `b` is on the list of `a`, not behind `stop`. -/
def Before (dup : Int → Int) (stop : Int) : Int → Int → Prop :=
  ReflTransGen fun a b => Next dup a b ∧ b ≠ stop

/-- No loop over the duplicates goes on for ever: neither `updateoffset` for an open
descriptor nor `dup2`. -/
structure WalksEnd (t : Table V) : Prop where
  update : ∀ fd, IsOpen t fd → Ends t.dup fd
  dup2 : ∀ (k : Kernel V) (oldfd newfd : Int), (dup2 k t oldfd newfd).result ≠ .diverges

/-- `dup2` makes `newfd` a duplicate of `oldfd`, and every open descriptor whose links lead to
`newfd` or to the end of the list of `oldfd` is on that list before `newfd`. Nothing follows
descriptor 0, and the links to it end a list. -/
def LinksWell (t : Table V) (oldfd newfd : Int) : Prop :=
  InArrays newfd → IsOpen t oldfd → ∀ last, walkend t.dup oldfd fuel oldfd = some last →
    newfd = 0 ∨ newfd ≠ last ∧ (oldfd = 0 ∨ ∀ fd, IsOpen t fd →
      Leads t.dup fd newfd ∨ Leads t.dup fd last → Before t.dup newfd oldfd fd)

/-- The calls after which every loop ends still. -/
def KeepsWalks (t : Table V) (a : Kernel V × Call) : Prop :=
  match a.2 with
  | .dup2 oldfd newfd =>
    (t.filetable newfd = .null → LinksWell t oldfd newfd) ∧
      (Closes t newfd → LinksWell (emptied t newfd) oldfd newfd)
  | _ => True

/-! ## Loops and links -/

section Links

variable {dup : Int → Int}

theorem next_unique (dup : Int → Int) : Relator.RightUnique (Next dup) :=
  fun _ _ _ hb hc => hb.1.symm.trans hc.1

theorem leads_of_walkend {org : Int} {n : Nat} {fd last : Int}
    (h : walkend dup org n fd = some last) :
    Leads dup fd last ∧ ¬ (dup last > 0 ∧ dup last ≠ org) := by
  induction n generalizing fd with
  | zero => cases h
  | succ n ih =>
    unfold walkend at h
    split_ifs at h with hnext
    · obtain ⟨hleads, hend⟩ := ih h
      exact ⟨.head ⟨rfl, hnext.1⟩ hleads, hend⟩
    · obtain rfl := Option.some.inj h
      exact ⟨.refl, hnext⟩

theorem walkend_of_leads {org fd last : Int} (h : Leads dup fd last)
    (hend : ¬ (dup last > 0 ∧ dup last ≠ org)) : ∃ n, walkend dup org n fd ≠ none := by
  induction h using ReflTransGen.head_induction_on with
  | refl => exact ⟨1, by simp [walkend, hend]⟩
  | @head a b hab _ ih =>
    obtain ⟨n, hn⟩ := ih
    by_cases hnext : dup a > 0 ∧ dup a ≠ org
    · refine ⟨n + 1, ?_⟩
      rw [walkend, if_pos hnext, hab.1]
      exact hn
    · exact ⟨1, by simp [walkend, hnext]⟩

theorem end_iff {org last : Int} :
    ¬ (dup last > 0 ∧ dup last ≠ org) ↔ (∀ b, ¬ Next dup last b) ∨ Next dup last org := by
  constructor
  · intro h
    by_cases hpos : dup last > 0
    · have horg : dup last = org := by
        by_contra hne
        exact h ⟨hpos, hne⟩
      exact .inr ⟨horg, horg ▸ hpos⟩
    · exact .inl fun b hb => hpos (hb.1.symm ▸ hb.2)
  · rintro (hdead | hback) ⟨hpos, hne⟩
    · exact hdead _ ⟨rfl, hpos⟩
    · exact hne hback.1

theorem ends_iff_halts (fd : Int) : Ends dup fd ↔ Halts (Next dup) fd := by
  constructor
  · intro hx
    obtain ⟨n, hn⟩ := hx
    obtain ⟨last, hlast⟩ := Option.ne_none_iff_exists'.mp hn
    obtain ⟨hleads, hend⟩ := leads_of_walkend hlast
    exact ⟨last, hleads, end_iff.mp hend⟩
  · intro hx
    obtain ⟨last, hleads, hend⟩ := hx
    exact walkend_of_leads hleads (end_iff.mpr hend)

/-- A link that ends a list is no hindrance. -/
theorem Ends.cut {fd : Int} (h : Ends dup fd) (i : Int) :
    Ends (Function.update dup i (-1)) fd := by
  obtain ⟨last, hleads, hend⟩ := (ends_iff_halts fd).mp h
  rw [← end_iff] at hend
  suffices hcut : ∀ a, Leads dup a last →
      ∃ b, Leads (Function.update dup i (-1)) a b ∧
        ¬ (Function.update dup i (-1) b > 0 ∧ Function.update dup i (-1) b ≠ fd) by
    obtain ⟨b, hb, hend'⟩ := hcut fd hleads
    exact (ends_iff_halts fd).mpr ⟨b, hb, end_iff.mp hend'⟩
  intro a ha
  induction ha using ReflTransGen.head_induction_on with
  | refl =>
    refine ⟨last, .refl, ?_⟩
    by_cases hi : last = i
    · simp [hi]
    · rwa [Function.update_of_ne hi]
  | @head a b hab _ ih =>
    by_cases hi : a = i
    · exact ⟨a, .refl, by simp [hi]⟩
    · obtain ⟨c, hc, hend'⟩ := ih
      exact ⟨c, .head ⟨by rw [Function.update_of_ne hi]; exact hab.1, hab.2⟩ hc, hend'⟩

end Links

/-! ## A new link -/

section Link

variable {dup : Int → Int} {org last new : Int}

/-- The links after `dup2`. -/
def linked (dup : Int → Int) (org last new : Int) : Int → Int :=
  Function.update (Function.update dup new org) last new

theorem linked_last : linked dup org last new last = new := by simp [linked]

theorem linked_new (hne : new ≠ last) : linked dup org last new new = org := by
  simp [linked, hne]

theorem linked_other {a : Int} (hlast : a ≠ last) (hnew : a ≠ new) :
    linked dup org last new a = dup a := by simp [linked, hlast, hnew]

/-- What led to `new` or to the end of the list leads to `new`. -/
theorem leads_linked (hpos : 0 < new) {a : Int} (h : Leads dup a new ∨ Leads dup a last) :
    Leads (linked dup org last new) a new := by
  have hlast : Leads (linked dup org last new) last new := .single ⟨linked_last, hpos⟩
  have hstep {a b : Int} (hab : Next dup a b) (hb : Leads (linked dup org last new) b new) :
      Leads (linked dup org last new) a new := by
    by_cases hal : a = last
    · exact hal ▸ hlast
    · by_cases han : a = new
      · exact han ▸ .refl
      · exact .head ⟨by rw [linked_other hal han]; exact hab.1, hab.2⟩ hb
  rcases h with h | h
  · induction h using ReflTransGen.head_induction_on with
    | refl => exact .refl
    | head hab _ ih => exact hstep hab ih
  · induction h using ReflTransGen.head_induction_on with
    | refl => exact hlast
    | head hab _ ih => exact hstep hab ih

/-- A loop that meets no changed link ends where it ended, and one that meets a link to an end
ends there. -/
theorem ends_linked {fd : Int} (h : Ends dup fd)
    (hend : ∀ a, a = new ∨ a = last → Leads dup fd a →
      ∃ b, Leads (linked dup org last new) a b ∧
        ¬ (linked dup org last new b > 0 ∧ linked dup org last new b ≠ fd)) :
    Ends (linked dup org last new) fd := by
  obtain ⟨c, hleads, hc⟩ := (ends_iff_halts fd).mp h
  rw [← end_iff] at hc
  suffices hwalk : ∀ a, Leads dup fd a → Leads dup a c →
      ∃ b, Leads (linked dup org last new) a b ∧
        ¬ (linked dup org last new b > 0 ∧ linked dup org last new b ≠ fd) by
    obtain ⟨b, hb, hend'⟩ := hwalk fd .refl hleads
    exact (ends_iff_halts fd).mpr ⟨b, hb, end_iff.mp hend'⟩
  intro a hfd ha
  induction ha using ReflTransGen.head_induction_on with
  | refl =>
    by_cases hch : c = new ∨ c = last
    · exact hend c hch hfd
    · refine ⟨c, .refl, ?_⟩
      rwa [linked_other (fun h => hch (.inr h)) fun h => hch (.inl h)]
  | @head a b hab _ ih =>
    by_cases hah : a = new ∨ a = last
    · exact hend a hah hfd
    · obtain ⟨d, hd, hend'⟩ := ih (.tail hfd hab)
      refine ⟨d, .head ⟨?_, hab.2⟩ hd, hend'⟩
      rw [linked_other (fun h => hah (.inr h)) fun h => hah (.inl h)]
      exact hab.1

theorem Before.ne (horg : org ≠ new) {a : Int} (h : Before dup new org a) : a ≠ new := by
  cases h with
  | refl => exact horg
  | tail _ hlast => exact hlast.2

theorem Before.linked (horg : org ≠ new) (hend : ¬ (dup last > 0 ∧ dup last ≠ org)) {a : Int}
    (h : Before dup new org a) : Leads (linked dup org last new) org a := by
  induction h with
  | refl => exact .refl
  | @tail a b ha hab ih =>
    by_cases hal : a = last
    · -- the list goes round
      have hb : b = org := by
        by_contra hne
        obtain ⟨hdup, hpos⟩ := hab.1
        rw [hal] at hdup
        exact hend ⟨hdup.symm ▸ hpos, hdup.symm ▸ hne⟩
      exact hb ▸ .refl
    · refine .tail ih ⟨?_, hab.1.2⟩
      rw [linked_other hal (Before.ne horg ha)]
      exact hab.1.1

/-- The new ring is `new` and what comes before it. -/
theorem ring_linked (hne : new ≠ last) {a : Int}
    (h : Leads (linked dup org last new) new a) : a = new ∨ Before dup new org a := by
  induction h with
  | refl => exact .inl rfl
  | @tail a b _ hab ih =>
    obtain ⟨hdup, hpos⟩ := hab
    rcases ih with rfl | ha
    · rw [linked_new hne] at hdup
      exact .inr (hdup ▸ .refl)
    · by_cases hb : b = new
      · exact .inl hb
      · by_cases hal : a = last
        · rw [hal, linked_last] at hdup
          exact absurd hdup.symm hb
        · by_cases han : a = new
          · rw [han, linked_new hne] at hdup
            exact .inr (hdup ▸ .refl)
          · rw [linked_other hal han] at hdup
            exact .inr (.tail ha ⟨⟨hdup, hpos⟩, hb⟩)

theorem leads_ne_zero {a b : Int} (h : Leads dup a b) (ha : a ≠ 0) : b ≠ 0 := by
  cases h with
  | refl => exact ha
  | tail _ hlast => exact Int.ne_of_gt hlast.2

/-- `new` is descriptor 0, which ends every list. -/
theorem ends_linked_zero (horg : 0 < org) (hlast : Leads dup org last) {fd : Int}
    (h : fd = 0 ∨ Ends dup fd) : Ends (linked dup org last 0) fd := by
  have hne : last ≠ 0 := leads_ne_zero hlast (Int.ne_of_gt horg)
  have hdead : ¬ (linked dup org last 0 last > 0 ∧ linked dup org last 0 last ≠ fd) := by
    rw [linked_last]
    exact fun hn => Int.lt_irrefl 0 hn.1
  by_cases hfd : fd = 0
  · subst hfd
    suffices hwalk : ∀ a, a ≠ 0 → Leads dup a last → Leads (linked dup org last 0) a last by
      refine (ends_iff_halts 0).mpr ⟨last, ?_, end_iff.mp hdead⟩
      exact .head ⟨linked_new hne.symm, horg⟩ (hwalk org (Int.ne_of_gt horg) hlast)
    intro a ha hal
    induction hal using ReflTransGen.head_induction_on with
    | refl => exact .refl
    | @head a b hab _ ih =>
      by_cases hal : a = last
      · exact hal ▸ .refl
      · refine .head ⟨?_, hab.2⟩ (ih (Int.ne_of_gt hab.2))
        rw [linked_other hal ha]
        exact hab.1
  · refine ends_linked (h.resolve_left hfd) fun a ha hleads => ?_
    rcases ha with rfl | rfl
    · exact absurd rfl (leads_ne_zero hleads hfd)
    · exact ⟨a, .refl, hdead⟩

/-- The list that starts at descriptor 0 ends at `new`. -/
theorem ends_linked_of_zero (hpos : 0 < new) (hne : new ≠ last) {fd : Int}
    (h : fd = new ∨ Ends dup fd) : Ends (linked dup 0 last new) fd := by
  have hdead : ¬ (linked dup 0 last new new > 0 ∧ linked dup 0 last new new ≠ fd) := by
    rw [linked_new hne]
    exact fun hn => Int.lt_irrefl 0 hn.1
  rcases h with rfl | h
  · exact (ends_iff_halts fd).mpr ⟨fd, .refl, end_iff.mp hdead⟩
  · refine ends_linked h fun a ha _ => ⟨new, ?_, hdead⟩
    rcases ha with rfl | rfl
    · exact .refl
    · exact .single ⟨linked_last, hpos⟩

end Link

/-! ## `dup2` -/

theorem isOpen_linked {t : Table V} {oldfd last newfd fd : Int}
    (hnull : t.filetable newfd = .null) (h : IsOpen t fd) :
    IsOpen (linkDup t oldfd last newfd) fd := by
  have hne : fd ≠ newfd := by
    intro hx
    obtain rfl := hx
    rw [IsOpen, hnull] at h
    cases h.2
  refine ⟨h.1, ?_⟩
  simpa [linkDup, hne] using h.2

theorem of_isOpen_linked {t : Table V} {oldfd last newfd fd : Int}
    (h : IsOpen (linkDup t oldfd last newfd) fd) : fd = newfd ∨ IsOpen t fd := by
  by_cases hne : fd = newfd
  · exact .inl hne
  · exact .inr ⟨h.1, by simpa [linkDup, hne] using h.2⟩

theorem linked_ends_iff {t : Table V} {oldfd last newfd : Int}
    (hends : ∀ fd, IsOpen t fd → Ends t.dup fd) (hnull : t.filetable newfd = .null)
    (hnew : InArrays newfd) (hold : IsOpen t oldfd)
    (hw : walkend t.dup oldfd fuel oldfd = some last) :
    (∀ fd, IsOpen (linkDup t oldfd last newfd) fd →
        Ends (linkDup t oldfd last newfd).dup fd) ↔
      (newfd = 0 ∨ newfd ≠ last ∧ (oldfd = 0 ∨ ∀ fd, IsOpen t fd →
        Leads t.dup fd newfd ∨ Leads t.dup fd last → Before t.dup newfd oldfd fd)) := by
  show (∀ fd, _ → Ends (linked t.dup oldfd last newfd) fd) ↔ _
  obtain ⟨hlast, hend⟩ := leads_of_walkend hw
  have horg : oldfd ≠ newfd := by
    intro hx
    obtain rfl := hx
    rw [IsOpen, hnull] at hold
    cases hold.2
  have hge := hold.1.1
  constructor
  · intro h
    by_cases hzero : newfd = 0
    · exact .inl hzero
    have hpos : 0 < newfd := by
      have := hnew.1
      omega
    have hto : Leads (linked t.dup oldfd last newfd) _ newfd := leads_linked hpos (.inr hlast)
    -- a new end of the list would be a ring of its own
    have hne : newfd ≠ last := by
      intro hx
      obtain rfl := hx
      have hself : Next (linked t.dup oldfd newfd newfd) newfd newfd := ⟨linked_last, hpos⟩
      have hback := ((ends_iff_halts oldfd).mp (h oldfd (isOpen_linked hnull hold))).back
        (next_unique _) hto (.single hself)
      have hstays : ∀ a, Leads (linked t.dup oldfd newfd newfd) newfd a → a = newfd := by
        intro a ha
        induction ha with
        | refl => rfl
        | tail _ hab ih => exact hab.1.symm.trans (ih ▸ linked_last)
      exact horg (hstays oldfd hback)
    refine .inr ⟨hne, ?_⟩
    by_cases hold0 : oldfd = 0
    · exact .inl hold0
    refine .inr fun fd hopen hleads => ?_
    have hring : TransGen (Next (linked t.dup oldfd last newfd)) newfd newfd :=
      .head' ⟨linked_new hne, by omega⟩ hto
    have hback := ((ends_iff_halts fd).mp (h fd (isOpen_linked hnull hopen))).back
      (next_unique _) (leads_linked hpos hleads) hring
    rcases ring_linked hne hback with rfl | hbefore
    · rw [IsOpen, hnull] at hopen
      cases hopen.2
    · exact hbefore
  · intro h fd hfd
    have hcase := of_isOpen_linked hfd
    by_cases hzero : newfd = 0
    · subst hzero
      exact ends_linked_zero (by omega) hlast (hcase.imp_right (hends fd))
    have hpos : 0 < newfd := by
      have := hnew.1
      omega
    obtain ⟨hne, hbefore⟩ := h.resolve_left hzero
    by_cases hold0 : oldfd = 0
    · subst hold0
      exact ends_linked_of_zero hpos hne (hcase.imp_right (hends fd))
    have hto : Leads (linked t.dup oldfd last newfd) _ newfd := leads_linked hpos (.inr hlast)
    have hring : Next (linked t.dup oldfd last newfd) newfd oldfd :=
      ⟨linked_new hne, by omega⟩
    rcases hcase with rfl | hopen
    · exact (ends_iff_halts fd).mpr (.of_ring (.head' hring hto))
    by_cases hleads : Leads t.dup fd newfd ∨ Leads t.dup fd last
    · have hfrom := (hbefore.resolve_left hold0 fd hopen hleads).linked horg hend
      refine (ends_iff_halts fd).mpr (.of_ring ?_)
      exact .trans_right (leads_linked hpos hleads) (.head' hring hfrom)
    · refine ends_linked (hends fd hopen) fun a ha hleads' => absurd ?_ hleads
      rcases ha with rfl | rfl
      · exact .inl hleads'
      · exact .inr hleads'

/-! ## Calls -/

/-- Fewer open descriptors and shorter lists. -/
theorem ends_emptied {t t' : Table V} (hends : ∀ fd, IsOpen t fd → Ends t.dup fd) {i : Int}
    (hdup : t'.dup = Function.update t.dup i (-1))
    (hopen : ∀ fd, IsOpen t' fd → fd = i ∨ IsOpen t fd) :
    ∀ fd, IsOpen t' fd → Ends t'.dup fd := by
  intro fd hfd
  rw [hdup]
  rcases hopen fd hfd with rfl | hfd'
  · exact ⟨1, by simp [walkend]⟩
  · exact (hends fd hfd').cut i

theorem ends_vacated {t : Table V} (hends : ∀ fd, IsOpen t fd → Ends t.dup fd) (fd : Int)
    (ticket : Nat) (e : Int) :
    ∀ i, IsOpen { vacate (closeDups t fd) fd ticket with errno := e } i →
      Ends (vacate (closeDups t fd) fd ticket).dup i := by
  have hdup : (vacate (closeDups t fd) fd ticket).dup = Function.update t.dup fd (-1) := by
    simp [vacate, closeDups_eq]
  refine @ends_emptied V t { vacate (closeDups t fd) fd ticket with errno := e } hends fd hdup
    fun i hi => ?_
  by_cases hifd : i = fd
  · exact .inl hifd
  · have hnull := hi.2
    simp only [vacate, closeDups_eq, Function.update_of_ne hifd] at hnull
    split_ifs at hnull with hp
    · cases hnull
    · exact .inr ⟨hi.1, hnull⟩

theorem duplicate_not_diverges {k : Kernel V} {t : Table V} (hdup : ∀ i, t.dup i < FILETABLESIZE)
    (hends : ∀ fd, IsOpen t fd → Ends t.dup fd) (log : List Int) (oldfd newfd : Int) :
    (duplicate k t log oldfd newfd).result ≠ .diverges := by
  unfold duplicate
  cases hnull : isNull k t oldfd with
  | true => simp
  | false =>
    by_cases hold : InArrays oldfd
    · have hw := (ends_iff hdup oldfd).mp (hends oldfd ((isOpen_iff k t hold).mpr hnull))
      obtain ⟨last, hlast⟩ := Option.ne_none_iff_exists'.mp hw
      by_cases hnew : InArrays newfd <;> simp [hold, hlast, hnew]
    · simp [hold]

theorem dup2_not_diverges {t : Table V} (hs : Sound t)
    (hends : ∀ fd, IsOpen t fd → Ends t.dup fd) (k : Kernel V) (oldfd newfd : Int) :
    (dup2 k t oldfd newfd).result ≠ .diverges := by
  unfold dup2
  split_ifs with hrange hnull
  · simp
  · exact duplicate_not_diverges hs.dup_lt hends _ _ _
  · obtain ⟨-, ticket, hr, htable⟩ | ⟨-, ⟨log, hclose⟩, -⟩ | ⟨-, hr, -⟩ :=
      close_outcome k hs newfd
    · have hdup : ∀ i, (vacate (closeDups t newfd) newfd ticket).dup i < FILETABLESIZE := by
        intro i
        by_cases hi : i = newfd
        · simp [vacate, hi, FILETABLESIZE]
        · simpa [vacate, closeDups_eq, hi] using hs.dup_lt i
      simp only [hr, ne_eq, not_true_eq_false, if_false]
      rw [htable]
      have hends' := ends_vacated hends newfd ticket 0
      exact duplicate_not_diverges (t :=
        { vacate (closeDups t newfd) newfd ticket with errno := 0 })
        hdup hends' _ _ _
    · simp [hclose]
    · simp [hr]

theorem walksEnd_iff {t : Table V} (hs : Sound t) :
    WalksEnd t ↔ ∀ fd, IsOpen t fd → Ends t.dup fd :=
  ⟨fun h => h.update, fun h => ⟨h, dup2_not_diverges hs h⟩⟩

theorem ends_quiet {t t' : Table V} (hends : ∀ fd, IsOpen t fd → Ends t.dup fd)
    (hq : Quiet t t') : ∀ fd, IsOpen t' fd → Ends t'.dup fd := by
  obtain ⟨e, offset, rfl⟩ := hq
  exact hends

theorem openFile_ends {k : Kernel V} {t : Table V}
    (hends : ∀ fd, IsOpen t fd → Ends t.dup fd) {r : Int} {b : Bool}
    (hr : (openFile k t).result = .ret r b) :
    ∀ fd, IsOpen (openFile k t).table fd → Ends (openFile k t).table.dup fd := by
  unfold openFile at hr ⊢
  cases hslot : freeSlot t with
  | none =>
    simp only [hslot] at hr ⊢
    split_ifs at hr ⊢
    exact hends
  | some i =>
    cases hv : k.vfsOpen with
    | error e =>
      refine ends_emptied hends rfl fun fd hfd => ?_
      by_cases hi : fd = i
      · exact .inl hi
      · exact .inr ⟨hfd.1, by simpa [prepare, hi] using hfd.2⟩
    | ok v =>
      refine ends_emptied hends rfl fun fd hfd => ?_
      by_cases hi : fd = i
      · exact .inl hi
      · exact .inr ⟨hfd.1, by simpa [prepare, hi] using hfd.2⟩

theorem close_ends {k : Kernel V} {t : Table V}
    (hends : ∀ fd, IsOpen t fd → Ends t.dup fd) {fd r : Int} {b : Bool}
    (hr : (close k t fd).result = .ret r b) :
    ∀ i, IsOpen (close k t fd).table i → Ends (close k t fd).table.dup i := by
  obtain ⟨-, -, htable⟩ | ⟨v, ticket, -, -, -, -, -, -, -, htable⟩ := close_cases hr
  · rw [htable]
    exact hends
  · rw [htable]
    exact ends_vacated hends fd ticket _

theorem duplicate_ends_iff {k : Kernel V} {t : Table V}
    (hends : ∀ fd, IsOpen t fd → Ends t.dup fd) {log : List Int} {oldfd newfd : Int}
    (hnull : t.filetable newfd = .null) {r : Int} {b : Bool}
    (hr : (duplicate k t log oldfd newfd).result = .ret r b) :
    (∀ fd, IsOpen (duplicate k t log oldfd newfd).table fd →
        Ends (duplicate k t log oldfd newfd).table.dup fd) ↔ LinksWell t oldfd newfd := by
  obtain ⟨hold, -, -, htable⟩ | ⟨last, hold, hnew, hopen, hw, -, -, htable⟩ :=
    duplicate_cases hr
  · rw [htable]
    refine iff_of_true hends fun _ ho => ?_
    rw [(isOpen_iff k t ho.1).mp ho] at hold
    cases hold
  · rw [htable, linked_ends_iff hends hnull hnew ⟨hold, hopen⟩ hw]
    constructor
    · intro h _ _ last' hw'
      obtain rfl := Option.some.inj (hw.symm.trans hw')
      exact h
    · intro h
      exact h hnew ⟨hold, hopen⟩ last hw

theorem dup2_ends_iff {k : Kernel V} {t : Table V} (hs : Sound t)
    (hends : ∀ fd, IsOpen t fd → Ends t.dup fd) {oldfd newfd r : Int} {b : Bool}
    (hr : (dup2 k t oldfd newfd).result = .ret r b) :
    (∀ fd, IsOpen (dup2 k t oldfd newfd).table fd →
        Ends (dup2 k t oldfd newfd).table.dup fd) ↔ KeepsWalks t (k, .dup2 oldfd newfd) := by
  unfold dup2 at hr ⊢
  by_cases hrange :
      (oldfd < 0 ∨ oldfd > FILETABLESIZE) ∨ (newfd < 0 ∨ newfd > FILETABLESIZE)
  · rw [if_pos hrange]
    have hout : ∀ u : Table V, LinksWell u oldfd newfd := by
      intro u hnew hopen
      have hold := hopen.1
      unfold InArrays at hnew hold
      omega
    exact iff_of_true hends ⟨fun _ => hout t, fun _ => hout _⟩
  rw [if_neg hrange] at hr ⊢
  cases hnull : isNull k t newfd with
  | true =>
    simp only [hnull, if_true] at hr ⊢
    have hfree := hs.null_of_isNull hnull
    rw [duplicate_ends_iff hends hfree hr]
    refine ⟨fun hl => ⟨fun _ => hl, fun hc => ?_⟩, fun hk => hk.1 hfree⟩
    exact absurd hfree (Vn.isNull_eq_false.mp hc.2.1.2)
  | false =>
    simp only [hnull, Bool.false_eq_true, if_false] at hr ⊢
    cases hclose : (close k t newfd).result with
    | ret r' b' =>
      have hkept := close_ends hends hclose
      simp only [hclose] at hr ⊢
      obtain ⟨hret, -, htable⟩ | ⟨v, ticket, hret, -, hin, hge, hdup, -, hnode, htable⟩ :=
        close_cases hclose
      · rw [if_pos (by omega)] at hr ⊢
        refine iff_of_true hkept ⟨fun hfree hnew => ?_, fun hc => ?_⟩
        · rw [isNull_inArrays k t hnew, hfree] at hnull
          cases hnull
        · have hzero := hc.ret hs hclose
          omega
      · rw [if_neg (by omega)] at hr ⊢
        have hc : Closes t newfd := ⟨hge, ⟨hin, by rw [hnode]; rfl⟩, hdup⟩
        have hfree : (close k t newfd).table.filetable newfd = .null := by
          simp [htable, vacate]
        have hkept' : ∀ fd, IsOpen { (close k t newfd).table with errno := r' } fd →
            Ends (close k t newfd).table.dup fd := hkept
        refine (duplicate_ends_iff hkept' hfree hr).trans ?_
        rw [htable]
        -- the ticket and the error number play no part
        show LinksWell (emptied t newfd) oldfd newfd ↔ _
        refine ⟨fun hl => ⟨fun hn => ?_, fun _ => hl⟩, fun hk => hk.2 hc⟩
        rw [hn] at hnode
        cases hnode
    | undefined => simp [hclose] at hr
    | diverges => simp [hclose] at hr
    | halts => simp [hclose] at hr

theorem stepOn_walksEnd {t t' : Table V} {a : Kernel V × Call} (hs : Sound t) (hs' : Sound t')
    (h : WalksEnd t) (hstep : stepOn t a = some t') : WalksEnd t' ↔ KeepsWalks t a := by
  rw [walksEnd_iff hs']
  obtain ⟨k, c⟩ := a
  unfold stepOn step at hstep
  cases hr : (perform k t c).result with
  | ret r b =>
    simp only [hr, Option.some.injEq] at hstep
    subst hstep
    cases c with
    | write fd nbytes =>
      exact iff_of_true (ends_quiet h.update (write_quiet k t fd nbytes)) trivial
    | openFile => exact iff_of_true (openFile_ends h.update hr) trivial
    | close fd => exact iff_of_true (close_ends h.update hr) trivial
    | read fd buflen =>
      exact iff_of_true (ends_quiet h.update (read_quiet k t fd buflen)) trivial
    | lseek fd pos whence =>
      exact iff_of_true (ends_quiet h.update (lseek_quiet k t fd pos whence)) trivial
    | dup2 oldfd newfd => exact dup2_ends_iff hs h.update hr
  | undefined => simp [hr] at hstep
  | diverges => simp [hr] at hstep
  | halts => simp [hr] at hstep

theorem WalksEnd.boot (con : Option V) : WalksEnd (boot con) :=
  (walksEnd_iff (Sound.boot con)).mpr fun _ _ => ⟨1, by simp [walkend, Filetable.boot]⟩

/-- The loops end in every state of a run exactly if each `dup2` of it links well. -/
theorem walksEnd_runs_iff (con : Option V) (as : List (Kernel V × Call)) :
    Throughout stepOn WalksEnd (boot con) as ↔ EachStep stepOn KeepsWalks (boot con) as :=
  throughout_iff (G := Reach con) (@Reach.stepOn V con)
    (fun t a t' ht h hstep =>
      stepOn_walksEnd ht.sound (Reach.stepOn t a t' ht hstep).sound h hstep)
    Reach.boot (WalksEnd.boot con) as

/-- Descriptor 0 leads into the ring of 3 and 5. -/
theorem read_spins :
    ¬ ∀ as : List (Kernel Unit × Call), Throughout stepOn WalksEnd (boot (some ())) as := by
  intro h
  have hview : (run stepOn (boot (some ())) [(calm, .openFile), (calm, .dup2 3 0),
      (calm, .dup2 3 5)]).map (fun t => ((t.filetable 0).isNull, t.dup 0, t.dup 3, t.dup 5)) =
      some (false, 3, 5, 3) := by
    decide +kernel
  obtain ⟨t, ht, hview⟩ := Option.map_eq_some_iff.mp hview
  simp only [Prod.mk.injEq] at hview
  obtain ⟨hopen, h0, h3, h5⟩ := hview
  have hhalts := (ends_iff_halts 0).mp (((h _).last ht).update 0 ⟨by decide, hopen⟩)
  have hthree : Next t.dup 0 3 := ⟨h0, by decide⟩
  have hring : TransGen (Next t.dup) 3 3 :=
    .tail (.single ⟨h3, by decide⟩) ⟨h5, by decide⟩
  have hback := hhalts.back (next_unique t.dup) (.single hthree) hring
  exact leads_ne_zero hback (by decide) rfl

end Os161.Filetable
