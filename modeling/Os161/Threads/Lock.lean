import Os161.Threads.Calls
import Mathlib.Tactic.IntervalCases

/-! # Locks

`lock_acquire` and `lock_release`: the owner alone holds the lock, and nobody
sleeps on a free one. The test of the owner in `lock_release` runs with
interrupts enabled; it stays true because only the owner can make it false. -/
set_option linter.unusedSectionVars false

namespace Os161.Threads

variable {T S L C : Type} [DecidableEq T] [DecidableEq S] [DecidableEq L] [DecidableEq C]
  {s s' : State T S L C} {t : T}

/-- The step in which `lock_acquire` of thread `t` makes it the owner. -/
def Acquires (t : T) (l : L) (e : State T S L C × Act S L C) : Prop :=
  e.2 = .exec ∧ e.1.cur = some t ∧ ∃ c, e.1.code t = .setOwner l :: c

/-- The step in which `lock_release` of thread `t` clears the owner. -/
def Releases (t : T) (l : L) (e : State T S L C × Act S L C) : Prop :=
  e.2 = .exec ∧ e.1.cur = some t ∧ ∃ c, e.1.code t = .clearOwner l :: c

/-! ## The invariant -/

/-- What a thread in `lock_release` relies on, whoever runs in between. -/
def OwnPre (s : State T S L C) (t : T) : List (Stmt S L C) → Prop
  | .splx :: c => OwnPre s t c
  | .panicIf false .lockNotOwner :: .splhigh :: .clearOwner l :: _ =>
    s.held t = true → s.owner l = some t
  | .splhigh :: .clearOwner l :: _ | .clearOwner l :: _ => s.owner l = some t
  | _ => True

/-- What the current thread relies on with interrupts off. -/
def LockPre (s : State T S L C) : List (Stmt S L C) → Prop
  | .sleep (.lock l) :: _ => s.owner l ≠ none
  | .setOwner l :: _ => s.owner l = none
  | _ => True

structure LockInv (s : State T S L C) : Prop where
  own : ∀ t, OwnPre s t (s.code t)
  pre : ∀ t, s.cur = some t → LockPre s (s.code t)
  asleep : ∀ t ∈ s.sleepers, ∀ l, s.sleepaddr t = some (.lock l) →
    s.owner l ≠ none ∨ ∃ u r, s.cur = some u ∧ s.code u = .wakeup (.lock l) :: r

theorem ownPre_of_settled {c : List (Stmt S L C)} (h : Settled c) : OwnPre s t c := by
  fun_induction Settled c with
  | case1 c ih => exact ih h
  | case2 | case3 | case4 => cases h
  | case5 c h₁ h₂ h₃ h₄ =>
    unfold OwnPre
    split
    · exact absurd rfl (h₁ _)
    · exact absurd rfl (h₂ _)
    · exact absurd rfl (h₃ _ _)
    · exact absurd rfl (h₄ _ _)
    · trivial

/-- The owner and its answers stay while others run. -/
theorem OwnPre.mono {c : List (Stmt S L C)} (h : OwnPre s t c) (hheld : s'.held t = s.held t)
    (hown : ∀ l, s.owner l = some t → s'.owner l = some t) : OwnPre s' t c := by
  fun_induction OwnPre s t c with
  | case1 c ih => exact ih h
  | case2 l r =>
    intro ht
    rw [hheld] at ht
    exact hown l (h ht)
  | case3 l r => exact hown l h
  | case4 l r => exact hown l h
  | case5 c h₁ h₂ h₃ h₄ =>
    unfold OwnPre
    split
    · exact absurd rfl (h₁ _)
    · exact absurd rfl (h₂ _ _)
    · exact absurd rfl (h₃ _ _)
    · exact absurd rfl (h₄ _ _)
    · trivial

theorem lockPre_of_plain {c : List (Stmt S L C)} (h : Plain c) : LockPre s c := by
  cases c with
  | nil => trivial
  | cons st c =>
    cases st with
    | sleep a => cases a <;> trivial
    | setOwner => cases h
    | _ => trivial

namespace LockInv

theorem initial (threads : List T) (count : S → Int) :
    LockInv (State.initial threads count : State T S L C) where
  own t := trivial
  pre t ht := by cases ht
  asleep t ht := by cases ht

variable (h : LockInv s)
include h

/-- Sleepers of a lock, while nobody is about to wake them. -/
theorem owned_of_not_waking {l : L} (hc : s.cur = some t)
    (hw : ∀ r, s.code t ≠ .wakeup (.lock l) :: r) {u : T} (hu : u ∈ s.sleepers)
    (ha : s.sleepaddr u = some (.lock l)) : s.owner l ≠ none := by
  rcases h.asleep u hu l ha with h0 | ⟨v, r, hv, hr⟩
  · exact h0
  · rw [hc] at hv
    cases hv
    exact absurd hr (hw r)

/-- A step of the current thread that leaves owners, sleepers and sleep addresses alone. -/
theorem keep (hc : s.cur = some t) (hw : ∀ l r, s.code t ≠ .wakeup (.lock l) :: r)
    (hcur : s'.cur = some t) (howner : s'.owner = s.owner)
    (hcode : ∀ u, u ≠ t → s'.code u = s.code u) (hheld : ∀ u, u ≠ t → s'.held u = s.held u)
    (hsub : ∀ u ∈ s'.sleepers, u ∈ s.sleepers)
    (haddr : ∀ u ∈ s'.sleepers, s'.sleepaddr u = s.sleepaddr u)
    (hown : OwnPre s' t (s'.code t)) (hpre : LockPre s' (s'.code t)) : LockInv s' where
  own u := by
    by_cases hu : u = t
    · rw [hu]
      exact hown
    · rw [hcode u hu]
      exact (h.own u).mono (hheld u hu) fun l hl => howner ▸ hl
  pre u hu := by
    rw [hcur] at hu
    cases hu
    exact hpre
  asleep u hu l ha := by
    rw [haddr u hu] at ha
    rw [howner]
    exact .inl (h.owned_of_not_waking hc (hw l) (hsub u hu) ha)

theorem setOwner {l : L} {c : List (Stmt S L C)} (hi : Inv s) (hc : s.cur = some t)
    (hcode : s.code t = .setOwner l :: c) : LockInv (s.exec t c (.setOwner l)) := by
  have hfree : s.owner l = none := by
    have := h.pre t hc
    rwa [hcode] at this
  have hf := (hi.shape t)
  rw [hcode] at hf
  obtain ⟨⟨⟨r, rfl⟩, -, hr⟩, -⟩ := hf
  have hkeep (u : T) (l' : L) (hl' : s.owner l' = some u) : upd s.owner l (some t) l' = some u := by
    rw [upd_other]
    · exact hl'
    · intro hx
      obtain rfl := hx
      rw [hfree] at hl'
      cases hl'
  refine ⟨?_, ?_, ?_⟩
  · intro u
    by_cases hu : u = t
    · subst hu
      simp only [State.exec, upd_same]
      exact ownPre_of_settled hr
    · simp only [State.exec, upd_other _ _ hu]
      exact (h.own u).mono rfl (hkeep u)
  · intro u hu
    change s.cur = some u at hu
    rw [hc] at hu
    cases hu
    simp only [State.exec, upd_same]
    trivial
  · intro u hu l' ha
    have ho := h.owned_of_not_waking hc (by simp [hcode]) hu ha
    obtain ⟨v, hv⟩ := Option.ne_none_iff_exists'.mp ho
    refine .inl ?_
    simp only [State.exec]
    rw [hkeep v l' hv]
    simp

theorem clearOwner {l : L} {c : List (Stmt S L C)} (hi : Inv s) (hc : s.cur = some t)
    (hcode : s.code t = .clearOwner l :: c) : LockInv (s.exec t c (.clearOwner l)) := by
  have hmine : s.owner l = some t := by
    have := h.own t
    rwa [hcode] at this
  have hf := (hi.shape t)
  rw [hcode] at hf
  obtain ⟨⟨r, rfl⟩, -⟩ := hf
  refine ⟨?_, ?_, ?_⟩
  · intro u
    by_cases hu : u = t
    · subst hu
      simp only [State.exec, upd_same]
      trivial
    · simp only [State.exec, upd_other _ _ hu]
      refine (h.own u).mono rfl fun l' hl' => ?_
      change upd s.owner l none l' = some u
      rw [upd_other]
      · exact hl'
      · intro hx
        obtain rfl := hx
        rw [hmine] at hl'
        cases hl'
        exact hu rfl
  · intro u hu
    change s.cur = some u at hu
    rw [hc] at hu
    cases hu
    simp only [State.exec, upd_same]
    trivial
  · intro u hu l' ha
    by_cases hl : l' = l
    · subst hl
      exact .inr ⟨t, .splx :: r, hc, upd_same _ _ _⟩
    · simp only [State.exec, upd_other _ _ hl]
      exact .inl (h.owned_of_not_waking hc (by simp [hcode]) hu ha)

theorem goToSleep {a : Addr S L C} {c : List (Stmt S L C)} (hi : Inv s) (hc : s.cur = some t)
    (hcode : s.code t = .sleep a :: c) : LockInv (s.exec t c (.sleep a)) := by
  have hpre := h.pre t hc
  have hf := hi.shape t
  rw [hcode] at hpre hf
  obtain ⟨r, rfl⟩ := follows_sleep hf.1
  refine ⟨?_, (fun u hu => by cases hu), ?_⟩
  · intro u
    by_cases hu : u = t
    · subst hu
      simp only [State.exec, upd_same]
      trivial
    · simp only [State.exec, upd_other _ _ hu]
      exact (h.own u).mono rfl fun _ hl => hl
  · intro u hu l ha
    left
    rcases List.mem_append.mp hu with hu | hu
    · have hne : u ≠ t := fun he => (hi.cur_not_mem hc).2 (he ▸ hu)
      simp only [State.exec, upd_other _ _ hne] at ha
      exact h.owned_of_not_waking hc (by simp [hcode]) hu ha
    · obtain rfl := List.mem_singleton.mp hu
      simp only [State.exec, upd_same, Option.some.injEq] at ha
      subst ha
      exact hpre

theorem wakeup {a : Addr S L C} {c : List (Stmt S L C)} (hi : Inv s) (hc : s.cur = some t)
    (hcode : s.code t = .wakeup a :: c) : LockInv (s.exec t c (.wakeup a)) := by
  have hf := hi.shape t
  rw [hcode] at hf
  refine ⟨?_, ?_, ?_⟩
  · intro u
    by_cases hu : u = t
    · subst hu
      simp only [State.exec, State.code_wakeup, upd_same]
      rcases follows_wakeup hf.1 with hf | ⟨-, x, r, rfl⟩
      · exact ownPre_of_settled hf.2
      · trivial
    · simp only [State.exec, State.code_wakeup, upd_other _ _ hu]
      exact (h.own u).mono rfl fun _ hl => hl
  · intro u hu
    change s.cur = some u at hu
    rw [hc] at hu
    cases hu
    simp only [State.exec, State.code_wakeup, upd_same]
    rcases follows_wakeup hf.1 with hf | ⟨-, x, r, rfl⟩
    · exact lockPre_of_plain hf.1
    · trivial
  · intro u hu l ha
    obtain ⟨hu, hne⟩ := State.mem_sleepers_wakeup.mp hu
    change s.sleepaddr u = some (.lock l) at ha
    change s.sleepaddr u ≠ some a at hne
    refine .inl (h.owned_of_not_waking hc ?_ hu ha)
    rw [hcode]
    intro r hr
    cases hr
    exact hne ha

/-- The statements that touch neither owners nor the lists of threads. -/
theorem untouched {st : Stmt S L C} {c : List (Stmt S L C)} (hi : Inv s) (hc : s.cur = some t)
    (hcode : s.code t = st :: c) (hw : ∀ l, st ≠ .wakeup (.lock l)) (hcur : s'.cur = s.cur)
    (howner : s'.owner = s.owner) (hcode' : ∀ u, u ≠ t → s'.code u = s.code u)
    (hheld : ∀ u, u ≠ t → s'.held u = s.held u) (hsub : ∀ u ∈ s'.sleepers, u ∈ s.sleepers)
    (haddr : ∀ u, u ≠ t → s'.sleepaddr u = s.sleepaddr u)
    (hown : OwnPre s' t (s'.code t)) (hpre : LockPre s' (s'.code t)) : LockInv s' := by
  refine h.keep hc ?_ (hcur ▸ hc) howner hcode' hheld hsub ?_ hown hpre
  · intro l r hr
    rw [hcode] at hr
    exact hw l (List.cons.inj hr).1
  · exact fun u hu => haddr u fun he => (hi.cur_not_mem hc).2 (he ▸ hsub u hu)

/-- Of these, the ones that touch nothing else that matters here. -/
theorem advance {st : Stmt S L C} {c c' : List (Stmt S L C)} (hi : Inv s) (hc : s.cur = some t)
    (hcode : s.code t = st :: c) (hw : ∀ l, st ≠ .wakeup (.lock l)) (hcur : s'.cur = s.cur)
    (howner : s'.owner = s.owner) (hheld : s'.held = s.held) (hsl : s'.sleepers = s.sleepers)
    (haddr : s'.sleepaddr = s.sleepaddr) (hnew : s'.code = upd s.code t c')
    (hown : OwnPre s' t c') (hpre : LockPre s' c') : LockInv s' := by
  have hself : s'.code t = c' := by rw [hnew, upd_same]
  refine h.untouched hi hc hcode hw hcur howner (fun u hu => ?_) (fun _ _ => by rw [hheld])
    (fun u hu => hsl ▸ hu) (fun _ _ => by rw [haddr]) (hself ▸ hown) (hself ▸ hpre)
  rw [hnew, upd_other _ _ hu]

theorem exec (hi : Inv s) (hc : s.cur = some t) {st : Stmt S L C} {c : List (Stmt S L C)}
    (hcode : s.code t = st :: c) : LockInv (s.exec t c st) := by
  have hsh := hi.shape t
  have hown := h.own t
  rw [hcode] at hsh hown
  obtain ⟨hf, -⟩ := hsh
  have hother (c' : List (Stmt S L C)) (u : T) (hu : u ≠ t) : upd s.code t c' u = s.code u :=
    upd_other _ _ hu
  cases st with
  | setOwner l => exact h.setOwner hi hc hcode
  | clearOwner l => exact h.clearOwner hi hc hcode
  | sleep a => exact h.goToSleep hi hc hcode
  | wakeup a => exact h.wakeup hi hc hcode
  | splhigh =>
    refine h.advance hi hc hcode (by simp) rfl rfl rfl rfl rfl rfl ?_ (lockPre_of_plain hf.1)
    rcases hf.2 with hf | ⟨l, r, rfl⟩
    · exact ownPre_of_settled hf
    · exact hown
  | splx =>
    refine h.advance hi hc hcode (by simp) rfl rfl rfl rfl rfl rfl ?_ ?_
    · exact OwnPre.mono (c := c) hown rfl fun _ hl => hl
    · rcases hf with hf | ⟨x, r, rfl⟩
      · exact lockPre_of_plain hf
      · trivial
  | wake =>
    refine h.untouched hi hc hcode (by simp) rfl rfl (hother _) (fun _ _ => rfl) (fun _ hu => hu)
      (fun u hu => upd_other _ _ hu) ?_ ?_
    · simp only [State.exec, upd_same]
      exact ownPre_of_settled hf.2
    · simp only [State.exec, upd_same]
      exact lockPre_of_plain hf.1
  | wakeone a =>
    refine h.untouched hi hc hcode (by simp) (State.cur_wakeone _ _) (State.owner_wakeone _ _) ?_ ?_
      (fun _ hu => State.mem_sleepers_wakeone (s := { s with code := upd s.code t c }) hu) ?_ ?_ ?_
    · intro u hu
      simp only [State.exec, State.code_wakeone]
      exact hother _ u hu
    · simp only [State.exec, State.held_wakeone, implies_true]
    · simp only [State.exec, State.sleepaddr_wakeone, implies_true]
    · simp only [State.exec, State.code_wakeone, upd_same]
      exact ownPre_of_settled hf.2
    · simp only [State.exec, State.code_wakeone, upd_same]
      exact lockPre_of_plain hf.1
  | whileZero x =>
    simp only [State.exec]
    split
    · exact h.advance hi hc hcode (by simp) rfl rfl rfl rfl rfl rfl trivial trivial
    · obtain ⟨r, rfl⟩ := hf
      exact h.advance hi hc hcode (by simp) rfl rfl rfl rfl rfl rfl trivial trivial
  | assertCount x m =>
    simp only [State.exec]
    split
    · cases m with
      | semP | semV =>
        obtain ⟨r, rfl⟩ := hf
        exact h.advance hi hc hcode (by simp) rfl rfl rfl rfl rfl rfl trivial trivial
      | _ => cases hf
    · refine h.untouched hi hc hcode (by simp) rfl rfl (fun _ _ => rfl) (fun _ _ => rfl)
        (fun _ hu => hu) (fun _ _ => rfl) ?_ ?_ <;>
        · rw [hcode]
          trivial
  | decCount x =>
    exact h.advance hi hc hcode (by simp) rfl rfl rfl rfl rfl rfl (ownPre_of_settled hf.2)
      (lockPre_of_plain hf.1)
  | incCount x =>
    obtain ⟨r, rfl⟩ := hf
    exact h.advance hi hc hcode (by simp) rfl rfl rfl rfl rfl rfl trivial trivial
  | hold l =>
    refine h.untouched hi hc hcode (by simp) rfl rfl (hother _) (fun u hu => upd_other _ _ hu)
      (fun _ hu => hu) (fun _ _ => rfl) ?_ ?_
    · simp only [State.exec, upd_same]
      rcases hf with ⟨-, -, hr⟩ | ⟨r, rfl⟩
      · exact ownPre_of_settled hr
      · intro ht
        simpa only [upd_same, decide_eq_true_eq] using ht
    · simp only [State.exec, upd_same]
      rcases hf with ⟨⟨r, rfl⟩, -⟩ | ⟨r, rfl⟩ <;> trivial
  | panicIf b m =>
    simp only [State.exec]
    split
    · refine h.untouched hi hc hcode (by simp) rfl rfl (fun _ _ => rfl) (fun _ _ => rfl)
        (fun _ hu => hu) (fun _ _ => rfl) ?_ ?_
      · rw [hcode]
        exact OwnPre.mono hown rfl fun _ hl => hl
      · rw [hcode]
        trivial
    · next hb =>
      refine h.advance hi hc hcode (by simp) rfl rfl rfl rfl rfl rfl ?_ ?_
      · cases b with
        | true =>
          obtain ⟨-, l, r, rfl⟩ := hf
          trivial
        | false =>
          rcases hf with ⟨-, -, hf⟩ | ⟨rfl, l, r, rfl⟩
          · exact ownPre_of_settled hf
          · exact hown (by simpa using hb)
      · cases b with
        | true =>
          obtain ⟨-, l, r, rfl⟩ := hf
          trivial
        | false =>
          rcases hf with ⟨-, hf, -⟩ | ⟨-, l, r, rfl⟩
          · exact lockPre_of_plain hf
          · trivial
  | whileOwned l =>
    simp only [State.exec]
    split
    · next hl =>
      exact h.advance hi hc hcode (by simp) rfl rfl rfl rfl rfl rfl trivial hl
    · next hl =>
      obtain ⟨r, rfl⟩ := hf
      exact h.advance hi hc hcode (by simp) rfl rfl rfl rfl rfl rfl trivial (not_not.mp hl)

theorem call (hc : s.cur = some t) (hcode : s.code t = []) (c : Call S L C) :
    LockInv { s with code := upd s.code t c.code } := by
  refine h.keep hc (by simp [hcode]) hc rfl (fun u hu => upd_other _ _ hu) (fun _ _ => rfl)
    (fun _ hu => hu) (fun _ _ => rfl) ?_ ?_
  · simp only [upd_same]
    cases c <;> trivial
  · simp only [upd_same]
    exact lockPre_of_plain c.plain

/-- Nobody runs: the sleepers of a lock wait for its owner. -/
theorem stop (hcur : s'.cur = none) (howner : s'.owner = s.owner) (hheld : s'.held = s.held)
    (hsleep : s'.sleepers = s.sleepers) (haddr : s'.sleepaddr = s.sleepaddr)
    (hcode : ∀ u, OwnPre s u (s.code u) → OwnPre s u (s'.code u))
    (hw : ∀ t, s.cur = some t → ∀ l r, s.code t ≠ .wakeup (.lock l) :: r) : LockInv s' where
  own u := (hcode u (h.own u)).mono (by rw [hheld]) fun l hl => by rwa [howner]
  pre u hu := by
    rw [hcur] at hu
    cases hu
  asleep u hu l ha := by
    rw [hsleep] at hu
    rw [haddr] at ha
    rw [howner]
    rcases h.asleep u hu l ha with h0 | ⟨v, r, hv, hr⟩
    · exact .inl h0
    · exact absurd hr (hw v hv l r)

theorem preempt (hi : Inv s) (hc : s.cur = some t) (hh : s.high = false) :
    LockInv (s.preempt t) := by
  refine h.stop rfl rfl rfl rfl rfl ?_ ?_
  · intro u hu
    by_cases hne : u = t
    · subst hne
      simp only [State.preempt, upd_same]
      exact hu
    · simpa only [State.preempt, upd_other _ _ hne] using hu
  · intro u hu l r hr
    have hl := hi.run u hu
    rw [hr, hh] at hl
    cases hl.1

theorem dispatch (hi : Inv s) {rest : List T} (hc : s.cur = none) (hr : s.ready = t :: rest) :
    LockInv { s with ready := rest, cur := some t } where
  own u := (h.own u).mono rfl fun _ hl => hl
  pre u hu := by
    cases hu
    obtain ⟨-, ⟨r, hcode⟩ | ⟨r, sv, hcode, -⟩⟩ := hi.ready t (hr ▸ List.mem_cons_self) <;>
      · simp only [hcode]
        trivial
  asleep u hu l ha := by
    rcases h.asleep u hu l ha with h0 | ⟨v, r, hv, -⟩
    · exact .inl h0
    · rw [hc] at hv
      cases hv

theorem interruptV (hi : Inv s) (x : S) (hint : s.interruptible = true) :
    LockInv (s.interruptV x) := by
  have hcode : (s.interruptV x).code = s.code := by
    simp only [State.interruptV]
    split <;> rfl
  have howner : (s.interruptV x).owner = s.owner := by
    simp only [State.interruptV]
    split <;> rfl
  have hheld : (s.interruptV x).held = s.held := by
    simp only [State.interruptV]
    split <;> rfl
  have hcur : (s.interruptV x).cur = s.cur := by
    simp only [State.interruptV]
    split <;> rfl
  have haddr : (s.interruptV x).sleepaddr = s.sleepaddr := by
    simp only [State.interruptV]
    split <;> rfl
  have hsub : ∀ u ∈ (s.interruptV x).sleepers, u ∈ s.sleepers := by
    simp only [State.interruptV]
    split
    · exact fun u hu => (State.mem_sleepers_wakeup.mp hu).1
    · exact fun u hu => hu
  -- with interrupts on, the interrupted thread relies on nothing and wakes nobody
  have hlow (u : T) (hu : s.cur = some u) : Level false (s.saved u) (s.code u) := by
    have hl := hi.run u hu
    simp only [State.interruptible, hu, Bool.not_eq_true'] at hint
    rwa [hint] at hl
  refine ⟨?_, ?_, ?_⟩
  · intro u
    rw [hcode]
    exact (h.own u).mono (by rw [hheld]) fun l hl => by rwa [howner]
  · intro u hu
    rw [hcur] at hu
    rw [hcode]
    exact lockPre_of_plain (hlow u hu).plain
  · intro u hu l ha
    rw [haddr] at ha
    rw [howner]
    rcases h.asleep u (hsub u hu) l ha with h0 | ⟨v, r, hv, hr⟩
    · exact .inl h0
    · have hl := hlow v hv
      rw [hr] at hl
      cases hl.1

theorem step (hi : Inv s) {a : Act S L C} (hs : s.step a = some s') : LockInv s' := by
  cases (State.step_cases hs).2 with
  | exec hc hcode => exact h.exec hi hc hcode
  | call c hc hcode => exact h.call hc hcode c
  | exit hc hcode =>
    refine h.stop rfl rfl rfl rfl rfl (fun _ hu => hu) fun u hu => ?_
    rw [hc] at hu
    cases hu
    simp [hcode]
  | preempt hc hh => exact h.preempt hi hc hh
  | interrupt x hint => exact h.interruptV hi x hint
  | dispatch hc hr => exact h.dispatch hi hc hr

theorem run' {tr : List (State T S L C × Act S L C)} (hi : Inv s) (hr : Run s tr s') :
    LockInv s' := by
  induction hr with
  | nil => exact h
  | snoc hr hs ih => exact ih.step (hi.run' hr) hs

/-- The owner of a lock is set where it is free and cleared by itself; no other step changes it. -/
theorem owner_step {a : Act S L C} (hs : s.step a = some s') (l : L) :
    (∃ t, Acquires t l (s, a) ∧ s.owner l = none ∧ s'.owner l = some t) ∨
    (∃ t, Releases t l (s, a) ∧ s.owner l = some t ∧ s'.owner l = none) ∨
    ((∀ t, ¬ Acquires t l (s, a)) ∧ (∀ t, ¬ Releases t l (s, a)) ∧ s'.owner l = s.owner l) := by
  have hrest (hno : ∀ t c, a = .exec → s.cur = some t → s.code t ≠ .setOwner l :: c ∧
      s.code t ≠ .clearOwner l :: c) (ho : s'.owner l = s.owner l) :
      (∀ t, ¬ Acquires t l (s, a)) ∧ (∀ t, ¬ Releases t l (s, a)) ∧ s'.owner l = s.owner l :=
    ⟨fun t ⟨ha, hc, c, hcode⟩ => (hno t c ha hc).1 hcode,
      fun t ⟨ha, hc, c, hcode⟩ => (hno t c ha hc).2 hcode, ho⟩
  cases (State.step_cases hs).2 with
  | @exec t st c hc hcode =>
    have hpre := h.pre t hc
    have hown := h.own t
    rw [hcode] at hpre hown
    have hno (hst : st ≠ .setOwner l ∧ st ≠ .clearOwner l) (u : T) (c' : List (Stmt S L C))
        (hu : s.cur = some u) : s.code u ≠ .setOwner l :: c' ∧ s.code u ≠ .clearOwner l :: c' := by
      rw [hc] at hu
      cases hu
      rw [hcode]
      exact ⟨fun he => hst.1 (List.cons.inj he).1, fun he => hst.2 (List.cons.inj he).1⟩
    cases st with
    | setOwner l' =>
      by_cases hl : l = l'
      · subst hl
        exact .inl ⟨t, ⟨rfl, hc, c, hcode⟩, hpre, upd_same _ _ _⟩
      · exact .inr (.inr (hrest (fun u c' _ hu => hno (by simpa using Ne.symm hl) u c' hu)
          (upd_other _ _ hl)))
    | clearOwner l' =>
      by_cases hl : l = l'
      · subst hl
        exact .inr (.inl ⟨t, ⟨rfl, hc, c, hcode⟩, hown, upd_same _ _ _⟩)
      · exact .inr (.inr (hrest (fun u c' _ hu => hno (by simpa using Ne.symm hl) u c' hu)
          (upd_other _ _ hl)))
    | wakeone a =>
      exact .inr (.inr (hrest (fun u c' _ hu => hno (by simp) u c' hu) (by simp [State.exec])))
    | whileZero | assertCount | panicIf | whileOwned =>
      refine .inr (.inr (hrest (fun u c' _ hu => hno (by simp) u c' hu) ?_))
      simp only [State.exec]
      split <;> rfl
    | _ => exact .inr (.inr (hrest (fun u c' _ hu => hno (by simp) u c' hu) rfl))
  | interrupt x hint =>
    refine .inr (.inr (hrest (fun _ _ ha => by cases ha) ?_))
    simp only [State.interruptV]
    split <;> rfl
  | _ => exact .inr (.inr (hrest (fun _ _ ha => by cases ha) rfl))

/-- Until the owner releases the lock, it stays the owner and nobody acquires it. -/
theorem held_until {l : L} (hi : Inv s) (ho : s.owner l = some t)
    {tr : List (State T S L C × Act S L C)} (hr : Run s tr s') (hn : ∀ e ∈ tr, ¬ Releases t l e) :
    s'.owner l = some t ∧ ∀ e ∈ tr, e.1.owner l = some t ∧ ∀ u, ¬ Acquires u l e := by
  induction hr with
  | nil => exact ⟨ho, by simp⟩
  | @snoc s₁ s' tr a hr hs ih =>
    obtain ⟨h₁, hall⟩ := ih fun e he => hn e (List.mem_append_left _ he)
    have hlast := hn (s₁, a) (List.mem_append_right _ List.mem_cons_self)
    rcases (h.run' hi hr).owner_step hs l with ⟨u, -, hfree, -⟩ | ⟨u, hrel, hu, -⟩ |
      ⟨hacq, -, hsame⟩
    · rw [h₁] at hfree
      cases hfree
    · rw [h₁] at hu
      cases hu
      exact absurd hrel hlast
    · refine ⟨hsame.trans h₁, fun e he => ?_⟩
      rcases List.mem_append.mp he with he | he
      · exact hall e he
      · obtain rfl := List.mem_singleton.mp he
        exact ⟨h₁, hacq⟩

/-- Interrupts are off where a sleeper of a free lock is about to be woken. -/
theorem asleep' (hi : Inv s) {l : L} (ht : t ∈ s.sleepers) (ha : s.sleepaddr t = some (.lock l)) :
    s.owner l ≠ none ∨
      ∃ u r, s.cur = some u ∧ s.high = true ∧ s.code u = .wakeup (.lock l) :: r := by
  rcases h.asleep t ht l ha with h0 | ⟨u, r, hu, hr⟩
  · exact .inl h0
  · have hl := hi.run u hu
    rw [hr] at hl
    exact .inr ⟨u, r, hu, hl.1, hr⟩

end LockInv

/-! ## A thread in `lock_acquire` -/

/-- Thread `t` is in `lock_acquire`, perhaps preempted before the first statement or
asleep, and does not own the lock yet; `rest` follows the call. -/
def Acquiring (s : State T S L C) (t : T) (l : L) (rest : List (Stmt S L C)) : Prop :=
  s.code t = .splx :: (lockAcquire l ++ rest) ∨
    (∃ n ≤ 6, s.code t = (lockAcquire l).drop n ++ rest) ∨
    s.code t = .sleep (.lock l) :: .wake :: ((lockAcquire l).drop 5 ++ rest) ∨
    s.code t = .wake :: ((lockAcquire l).drop 5 ++ rest)

/-- It has the lock and returns. -/
def Returning (s : State T S L C) (t : T) (l : L) : Prop :=
  s.owner l = some t ∧ (s.code t = [.splx, .splx] ∨ s.code t = [.splx] ∨ s.code t = [])

theorem lockAcquire_eq (l : L) : (lockAcquire l : List (Stmt S L C)) =
    [.splhigh, .splhigh, .hold l, .splx, .panicIf true .lockDeadlock, .whileOwned l, .setOwner l,
      .splx] := rfl

theorem Acquiring.ne_nil {l : L} {rest : List (Stmt S L C)} (h : Acquiring s t l rest) :
    s.code t ≠ [] := by
  rcases h with h | ⟨n, hn, h⟩ | h | h <;> rw [h]
  · simp
  · interval_cases n <;> simp [lockAcquire_eq]
  · simp
  · simp

theorem Acquiring.exec {l : L} {rest r : List (Stmt S L C)} {st : Stmt S L C}
    (hrest : rest = [] ∨ rest = [.splx]) (h : Acquiring s t l rest)
    (hcode : s.code t = st :: r) :
    Acquiring (s.exec t r st) t l rest ∨ Returning (s.exec t r st) t l := by
  rcases h with hn | ⟨n, hle, hn⟩ | hn | hn
  · obtain ⟨rfl, rfl⟩ := List.cons.inj (hn.symm.trans hcode)
    exact .inl (.inr (.inl ⟨0, by omega, upd_same _ _ _⟩))
  · have hcase := hn.symm.trans hcode
    interval_cases n <;> obtain ⟨rfl, rfl⟩ := List.cons.inj hcase
    · exact .inl (.inr (.inl ⟨1, by omega, upd_same _ _ _⟩))
    · exact .inl (.inr (.inl ⟨2, by omega, upd_same _ _ _⟩))
    · exact .inl (.inr (.inl ⟨3, by omega, upd_same _ _ _⟩))
    · exact .inl (.inr (.inl ⟨4, by omega, upd_same _ _ _⟩))
    · simp only [State.exec]
      split
      · exact .inl (.inr (.inl ⟨4, by omega, hcode⟩))
      · exact .inl (.inr (.inl ⟨5, by omega, upd_same _ _ _⟩))
    · simp only [State.exec]
      split
      · exact .inl (.inr (.inr (.inl (upd_same _ _ _))))
      · exact .inl (.inr (.inl ⟨6, by omega, upd_same _ _ _⟩))
    · refine .inr ⟨upd_same _ _ _, ?_⟩
      rcases hrest with rfl | rfl
      · exact .inr (.inl (upd_same _ _ _))
      · exact .inl (upd_same _ _ _)
  · obtain ⟨rfl, rfl⟩ := List.cons.inj (hn.symm.trans hcode)
    exact .inl (.inr (.inr (.inr (upd_same _ _ _))))
  · obtain ⟨rfl, rfl⟩ := List.cons.inj (hn.symm.trans hcode)
    exact .inl (.inr (.inl ⟨5, by omega, upd_same _ _ _⟩))

/-- A thread goes on in `lock_acquire` until it owns the lock. -/
theorem Acquiring.step {l : L} {rest : List (Stmt S L C)} (hi : Inv s)
    (hrest : rest = [] ∨ rest = [.splx]) (h : Acquiring s t l rest) {a : Act S L C}
    (hs : s.step a = some s') : Acquiring s' t l rest ∨ Returning s' t l := by
  by_cases hcur : s.cur = some t
  · cases (State.step_cases hs).2 with
    | exec hc hcode =>
      rw [hcur] at hc
      cases hc
      exact h.exec hrest hcode
    | call c' hc hcode | exit hc hcode =>
      rw [hcur] at hc
      cases hc
      exact absurd hcode h.ne_nil
    | preempt hc hh =>
      rw [hcur] at hc
      cases hc
      -- interrupts are on before the first statement only
      have hl := hi.run t hcur
      rw [hh] at hl
      refine .inl (.inl ?_)
      have hfirst : s.code t = lockAcquire l ++ rest := by
        rcases h with hn | ⟨n, hle, hn⟩ | hn | hn <;> rw [hn] at hl
        · cases hl.1
        · obtain rfl : n = 0 := by
            by_contra hne
            interval_cases n <;> simp [lockAcquire_eq, Level] at hl hne
          exact hn
        · cases hl.1
        · cases hl.1
      rw [← hfirst]
      exact upd_same _ _ _
    | interrupt x hint =>
      left
      unfold Acquiring
      rw [code_interruptV]
      exact h
    | dispatch hc hr =>
      rw [hcur] at hc
      cases hc
  · left
    unfold Acquiring
    rw [code_other hs hcur]
    exact h

theorem Returning.step {l : L} (hi : Inv s) (hl : LockInv s) (hu : Returning s t l)
    (hne : s.code t ≠ []) {a : Act S L C} (hs : s.step a = some s') : Returning s' t l := by
  obtain ⟨ho, hcode⟩ := hu
  have hcode : s.code t = [.splx, .splx] ∨ s.code t = [.splx] := by
    rcases hcode with hcode | hcode | hcode
    · exact .inl hcode
    · exact .inr hcode
    · exact absurd hcode hne
  have howner : s'.owner l = some t := by
    rcases hl.owner_step hs l with ⟨u, -, hfree, -⟩ | ⟨u, ⟨-, -, r, hr⟩, hu, -⟩ | ⟨-, -, hsame⟩
    · rw [ho] at hfree
      cases hfree
    · rw [ho] at hu
      cases hu
      rw [hr] at hcode
      simp at hcode
    · exact hsame.trans ho
  refine ⟨howner, ?_⟩
  by_cases hcur : s.cur = some t
  · cases (State.step_cases hs).2 with
    | exec hc hst =>
      rw [hcur] at hc
      cases hc
      rcases hcode with hcode | hcode <;> obtain ⟨rfl, rfl⟩ := List.cons.inj (hcode.symm.trans hst)
      · exact .inr (.inl (upd_same _ _ _))
      · exact .inr (.inr (upd_same _ _ _))
    | call c' hc hst | exit hc hst =>
      rw [hcur] at hc
      cases hc
      exact absurd hst hne
    | preempt hc hh =>
      rw [hcur] at hc
      cases hc
      have hl := hi.run t hcur
      rw [hh] at hl
      rcases hcode with hcode | hcode <;>
        · rw [hcode] at hl
          cases hl.1
    | interrupt x hint =>
      rw [code_interruptV]
      rcases hcode with hcode | hcode
      · exact .inl hcode
      · exact .inr (.inl hcode)
    | dispatch hc hr =>
      rw [hcur] at hc
      cases hc
  · rw [code_other hs hcur]
    rcases hcode with hcode | hcode
    · exact .inl hcode
    · exact .inr (.inl hcode)

/-- A thread that returns from `lock_acquire` owns the lock. -/
theorem acquire_returns {l : L} {s₀ s₁ : State T S L C}
    {pre mid : List (State T S L C × Act S L C)} (hi₀ : Inv s₀) (hl₀ : LockInv s₀)
    (hr : Run s₀ (pre ++ (s₁, .call (.acquire l)) :: mid) s) (h : Returns t s₁ mid s) :
    s.owner l = some t := by
  have hstages : Acquiring s t l [] ∨ Returning s t l := by
    refine hr.call_induct h.caller h.inside (fun _ s => Acquiring s t l [] ∨ Returning s t l) ?_ ?_
    · exact fun _ _ => .inl (.inr (.inl ⟨0, by omega,
        (upd_same _ _ _).trans (by simp [Call.code])⟩))
    · intro m s₂ s₃ a hr hne hQ hs
      rcases hQ with hQ | hQ
      · exact hQ.step (hi₀.run' hr) (.inl rfl) hs
      · exact .inr (hQ.step (hi₀.run' hr) (hl₀.run' hi₀ hr) hne hs)
  rcases hstages with hst | hst
  · exact absurd h.done hst.ne_nil
  · exact hst.1

/-! ## A thread in `lock_do_i_hold` -/

/-- Thread `t` is in `lock_do_i_hold`: it has not looked yet, or nobody has run since. -/
def Asking (s : State T S L C) (t : T) (l : L) : Prop :=
  s.code t = .splx :: lockDoIHold l ∨ s.code t = lockDoIHold l ∨
    (s.code t = [.hold l, .splx] ∧ s.cur = some t ∧ s.high = true) ∨
    (s.code t = [.splx] ∧ s.cur = some t ∧ s.high = true ∧ (s.held t = true ↔ s.owner l = some t)) ∨
    s.code t = [] ∧ (s.held t = true ↔ s.owner l = some t)

theorem Asking.step {l : L} (hi : Inv s) (h : Asking s t l) (hne : s.code t ≠ []) {a : Act S L C}
    (hs : s.step a = some s') : Asking s' t l := by
  -- once interrupts are off the thread goes on
  have hgo (hc : s.cur = some t) (hh : s.high = true) {st : Stmt S L C} {r : List (Stmt S L C)}
      (hcode : s.code t = st :: r) : s' = s.exec t r st := by
    obtain rfl := State.step_exec hs hc hh hne
    exact State.step_exec_eq hs hc hcode
  rcases h with hcode | hcode | ⟨hcode, hc, hh⟩ | ⟨hcode, hc, hh, hans⟩ | ⟨hcode, -⟩
  · by_cases hcur : s.cur = some t
    · have hh : s.high = true := by
        have hl := hi.run t hcur
        rw [hcode] at hl
        exact hl.1
      rw [hgo hcur hh hcode]
      exact .inr (.inl (upd_same _ _ _))
    · exact .inl ((code_other hs hcur).trans hcode)
  · by_cases hcur : s.cur = some t
    · cases (State.step_cases hs).2 with
      | exec hc hst =>
        rw [hcur] at hc
        cases hc
        obtain ⟨rfl, rfl⟩ := List.cons.inj (hcode.symm.trans hst)
        exact .inr (.inr (.inl ⟨upd_same _ _ _, hcur, rfl⟩))
      | call c' hc hst | exit hc hst =>
        rw [hcur] at hc
        cases hc
        exact absurd hst hne
      | preempt hc hh =>
        rw [hcur] at hc
        cases hc
        exact .inl (by rw [← hcode]; exact upd_same _ _ _)
      | interrupt x hint => exact .inr (.inl (by rw [code_interruptV, hcode]))
      | dispatch hc hr =>
        rw [hcur] at hc
        cases hc
    · exact .inr (.inl ((code_other hs hcur).trans hcode))
  · rw [hgo hc hh hcode]
    refine .inr (.inr (.inr (.inl ⟨upd_same _ _ _, hc, hh, ?_⟩)))
    simp only [State.exec, upd_same, decide_eq_true_eq]
  · rw [hgo hc hh hcode]
    exact .inr (.inr (.inr (.inr ⟨upd_same _ _ _, hans⟩)))
  · exact absurd hcode hne

/-- `lock_do_i_hold` answers whether its caller is the owner. -/
theorem doIHold_returns {l : L} {s₀ s₁ : State T S L C}
    {pre mid : List (State T S L C × Act S L C)} (hi₀ : Inv s₀)
    (hr : Run s₀ (pre ++ (s₁, .call (.doIHold l)) :: mid) s) (h : Returns t s₁ mid s) :
    s.held t = true ↔ s.owner l = some t := by
  have hstages : Asking s t l := by
    refine hr.call_induct h.caller h.inside (fun _ s => Asking s t l) ?_ ?_
    · exact fun _ _ => .inr (.inl (upd_same _ _ _))
    · exact fun m s₂ s₃ a hr hne hQ hs => hQ.step (hi₀.run' hr) hne hs
  have hdone := h.done
  rcases hstages with hcode | hcode | ⟨hcode, -⟩ | ⟨hcode, -⟩ | ⟨-, hans⟩
  · rw [hdone] at hcode
    cases hcode
  · rw [hdone] at hcode
    cases hcode
  · rw [hdone] at hcode
    cases hcode
  · rw [hdone] at hcode
    cases hcode
  · exact hans

theorem Releases.stmt {l : L} {e : State T S L C × Act S L C} (h : Releases t l e) :
    stmtOf e = some (.clearOwner l) := by
  obtain ⟨ha, hc, r, hcode⟩ := h
  simp only [stmtOf, ha, hc, hcode, List.head?_cons]

/-- The owner of a lock is cleared in a call of `lock_release` or `cv_wait` on it. -/
theorem Releases.inside {l : L} {tr : List (State T S L C × Act S L C)}
    (h : Releases t l (s, .exec)) (hc : Calling tr s t) :
    ∃ pre s₁ c mid, tr = pre ++ (s₁, .call c) :: mid ∧ s₁.cur = some t ∧
      (∀ e ∈ mid, e.1.code t ≠ []) ∧ (c = .release l ∨ ∃ x, c = .wait x l) := by
  obtain ⟨-, -, r, hcode⟩ := h
  rcases hc with ⟨-, hsplx⟩ | ⟨c, hp, hof⟩
  · have := hsplx (.clearOwner l) (hcode ▸ List.mem_cons_self)
    cases this
  · obtain ⟨pre, s₁, mid, htr, hcur, hin, -⟩ :=
      of_mem_pending (t := t) (c := c) (s := s) (hp ▸ List.mem_singleton.mpr rfl)
    refine ⟨pre, s₁, c, mid, htr, hcur, hin, ?_⟩
    rcases hof (.clearOwner l) (hcode ▸ List.mem_cons_self) with hm | hm | hm | ⟨b, hm⟩
    · cases c <;>
        simp_all [Call.code, P, V, lockAcquire, lockRelease, lockDoIHold, cvWait, cvSignal,
          cvBroadcast]
    · cases hm
    · cases hm
    · cases hm

/-- From its return from `lock_acquire` to its release, the thread alone holds the lock:
no other thread returns from `lock_acquire`, and `lock_do_i_hold` answers true to it and
to nobody else. Only a release by the owner clears the owner; nobody is left asleep on a
free lock. -/
theorem lock_correct (threads : List T) (hn : threads.Nodup) (count : S → Int)
    {tr : List (State T S L C × Act S L C)} (hr : Run (State.initial threads count) tr s) :
    (∀ pre s₁ mid s₂ post t l, tr = pre ++ (s₁, .call (.acquire l)) :: mid ++ post →
      Run s₁ ((s₁, .call (.acquire l)) :: mid) s₂ → Run s₂ post s → Returns t s₁ mid s₂ →
      (∀ e ∈ post, ¬ Releases t l e) →
      s.owner l = some t ∧ (∀ e ∈ post, ∀ u, ¬ Acquires u l e) ∧
        (∀ u pre s₁ mid, tr = pre ++ (s₁, .call (.acquire l)) :: mid → Returns u s₁ mid s → u = t) ∧
        ∀ u pre s₁ mid, tr = pre ++ (s₁, .call (.doIHold l)) :: mid → Returns u s₁ mid s →
          (s.held u = true ↔ u = t)) ∧
    (∀ pre s₁ a l, tr = pre ++ [(s₁, a)] → s₁.owner l ≠ none → s.owner l ≠ s₁.owner l →
      ∃ t, s₁.owner l = some t ∧ s.owner l = none ∧ Releases t l (s₁, a) ∧
        ∃ pre' s₂ c mid, pre = pre' ++ (s₂, .call c) :: mid ∧ s₂.cur = some t ∧
          (∀ e ∈ mid, e.1.code t ≠ []) ∧ (c = .release l ∨ ∃ x, c = .wait x l)) ∧
    ∀ t ∈ s.sleepers, ∀ l, s.sleepaddr t = some (.lock l) →
      (s.owner l ≠ none ∨
        ∃ u r, s.cur = some u ∧ s.high = true ∧ s.code u = .wakeup (.lock l) :: r) ∧
      (s.Open → s.owner l ≠ none) := by
  have hi₀ := Inv.initial (S := S) (L := L) (C := C) hn count
  have h₀ := LockInv.initial (S := S) (L := L) (C := C) threads count
  have hcalls (t : T) := Calling.initial (S := S) (L := L) (C := C) (t := t) threads count
  refine ⟨?_, ?_, ?_⟩
  · intro pre s₁ mid s₂ post t l hx hcall hpost hret hrel
    have hpre : Run (State.initial threads count) (pre ++ (s₁, .call (.acquire l)) :: mid) s₂ := by
      subst hx
      rw [List.append_assoc] at hr
      obtain ⟨s₁', hr₁, hr₂⟩ := hr.split
      obtain rfl : s₁ = s₁' := hr₂.head.1
      exact hr₁.append hcall
    have ho := acquire_returns hi₀ h₀ hpre hret
    obtain ⟨hend, hall⟩ := (h₀.run' hi₀ hpre).held_until (hi₀.run' hpre) ho hpost hrel
    refine ⟨hend, fun e he => (hall e he).2, ?_, ?_⟩
    · intro u pre s₁ mid hx hret
      subst hx
      have hu := acquire_returns hi₀ h₀ hr hret
      rw [hend] at hu
      exact (Option.some.inj hu).symm
    · intro u pre s₁ mid hx hret
      subst hx
      rw [doIHold_returns hi₀ hr hret, hend, Option.some.injEq]
      exact eq_comm
  · intro pre s₁ a l hx hne hch
    obtain rfl := hx
    obtain ⟨s₁', hr₁, hr₂⟩ := hr.split
    obtain ⟨rfl, s₂, hs, hr₂⟩ := hr₂.head
    obtain rfl := hr₂.eq_of_nil rfl
    rcases (h₀.run' hi₀ hr₁).owner_step hs l with
      ⟨u, -, hfree, -⟩ | ⟨u, hrel, hu, hnone⟩ | ⟨-, -, hsame⟩
    · exact absurd hfree hne
    · obtain rfl : a = .exec := hrel.1
      exact ⟨u, hu, hnone, hrel, hrel.inside (Calling.run' hcalls hr₁ u)⟩
    · exact absurd hsame hch
  · intro t ht l ha
    have h := (h₀.run' hi₀ hr).asleep' (hi₀.run' hr) ht ha
    refine ⟨h, fun ho => ?_⟩
    rcases h with h | ⟨u, r, hu, hh, -⟩
    · exact h
    · rcases ho with ho | ho
      · rw [hu] at ho
        cases ho
      · rw [hh] at ho
        cases ho

/-- Two threads, and the first in a call. -/
def twoThreads : State Bool Unit Unit Unit := State.initial [false, true] fun _ => 0
def calling (c : Call Unit Unit Unit) (s : State Bool Unit Unit Unit) (t : Bool) :
    State Bool Unit Unit Unit :=
  { s with code := upd s.code t c.code }

/-- The first thread acquires the lock and is preempted; the second asks whether it
holds the lock, and then sleeps on it. -/
def beforeAcquire := twoThreads.acts [.dispatch, .exec]
def acquired := (calling (.acquire ()) beforeAcquire.2 false).acts (List.replicate 8 .exec)
def beforeAsk := acquired.2.acts [.preempt, .dispatch, .exec]
def asked := (calling (.doIHold ()) beforeAsk.2 true).acts (List.replicate 3 .exec)
def contended := asked.2.acts (.call (.acquire ()) :: List.replicate 7 .exec)

theorem lock_correct_contended : asked.2.held true = false ∧ contended.2.sleepers = [true] ∧
    contended.2.owner () ≠ none := by
  have hcall : Run beforeAcquire.2 ((beforeAcquire.2, .call (.acquire ())) :: acquired.1)
      acquired.2 := .cons rfl (State.run_acts _ _)
  have hask : Run acquired.2 (beforeAsk.1 ++ (beforeAsk.2, .call (.doIHold ())) :: asked.1)
      asked.2 := (State.run_acts _ _).append (.cons rfl (State.run_acts _ _))
  have hr : Run twoThreads (beforeAcquire.1 ++
    (beforeAcquire.2, .call (.acquire ())) :: acquired.1 ++
      (beforeAsk.1 ++ (beforeAsk.2, .call (.doIHold ())) :: asked.1)) asked.2 :=
    ((State.run_acts _ _).append hcall).append hask
  have hnorel : ∀ e ∈ beforeAsk.1 ++ (beforeAsk.2, .call (.doIHold ())) :: asked.1,
      stmtOf e ≠ some (.clearOwner ()) := by decide +kernel
  obtain ⟨hheld, -, -⟩ := lock_correct [false, true] (by decide) _ hr
  obtain ⟨-, -, -, hans⟩ := hheld _ _ _ _ _ false () rfl hcall hask
    ⟨by decide +kernel, by decide +kernel, by decide +kernel⟩ fun e he hrel => hnorel e he hrel.stmt
  have hno := hans true _ beforeAsk.2 asked.1 (List.append_assoc _ _ _).symm
    ⟨by decide +kernel, by decide +kernel, by decide +kernel⟩
  obtain ⟨-, -, hasleep⟩ := lock_correct [false, true] (by decide) _
    (hr.append (State.run_acts asked.2 (.call (.acquire ()) :: List.replicate 7 .exec)))
  have hs : contended.2.sleepers = [true] := by decide +kernel
  have hmem : true ∈ contended.2.sleepers := hs ▸ List.mem_singleton.mpr rfl
  exact ⟨by simpa using hno, hs, (hasleep true hmem () (by decide +kernel)).2
    (.inl (by decide +kernel))⟩

end Os161.Threads
