import Os161.Threads.Lock

/-! # Condition variables

The threads waiting on a condition variable form a queue: `cv_wait` appends at
the moment it lets go of the lock, `cv_signal` takes the head and `cv_broadcast`
all of it. Between letting go of the lock and `thread_sleep` interrupts stay off,
so that the sleepers are this queue wherever another thread can run. -/
set_option linter.unusedSectionVars false

namespace Os161.Threads

variable {T S L C : Type} [DecidableEq T] [DecidableEq S] [DecidableEq L] [DecidableEq C]
  {s s' : State T S L C} {t : T}

/-- The condition variable whose `cv_wait` has let go of the lock and does not sleep yet. -/
def entering : List (Stmt S L C) → Option C
  | .wakeup (.lock _) :: .splx :: .sleep (.cv c) :: _ => some c
  | .splx :: .sleep (.cv c) :: _ => some c
  | .sleep (.cv c) :: _ => some c
  | _ => none

/-- What a step makes of the queue of `c`. -/
def waitingStep (c : C) (w : List T) (e : State T S L C × Act S L C) : List T :=
  match e.2, e.1.cur with
  | .exec, some t =>
    match e.1.code t with
    | .clearOwner _ :: r => if entering r = some c then w ++ [t] else w
    | .wakeone (.cv c') :: _ => if c' = c then w.tail else w
    | .wakeup (.cv c') :: _ => if c' = c then [] else w
    | _ => w
  | _, _ => w

/-- The threads that released the lock in `cv_wait` on `c` and have not been
signalled, the longest-waiting first. -/
def waiting (c : C) (tr : List (State T S L C × Act S L C)) : List T :=
  tr.foldl (waitingStep c) []

/-- The sleepers of a condition variable. -/
def State.onCv (s : State T S L C) (c : C) : List T :=
  s.sleepers.filter fun t => s.sleepaddr t = some (.cv c)

/-- The current thread, if it is about to sleep on `c`. -/
def State.entrant (s : State T S L C) (c : C) : List T :=
  match s.cur with
  | some t => if entering (s.code t) = some c then [t] else []
  | none => []

structure CvInv (s : State T S L C) (w : C → List T) : Prop where
  queue : ∀ c, w c = s.onCv c ++ s.entrant c
  entered : ∀ t, entering (s.code t) ≠ none → s.cur = some t

theorem entering_of_plain {c : List (Stmt S L C)} (h : Plain c) : entering c = none := by
  unfold entering
  split
  · cases h
  · cases h
  · cases h
  · rfl

/-- Enabling interrupts leads to sleep only if sleeping is next. -/
theorem entering_splx {c : List (Stmt S L C)} (h : Plain c) : entering (.splx :: c) = none := by
  unfold entering
  split
  · next heq => cases heq
  · next heq =>
    cases heq
    cases h
  · next heq => cases heq
  · rfl

theorem entering_wakeup {a : Addr S L C} {c : List (Stmt S L C)} (h : Plain c) :
    entering (.wakeup a :: c) = none := by
  unfold entering
  split
  · next heq =>
    cases heq
    cases h
  · next heq => cases heq
  · next heq => cases heq
  · rfl

theorem State.entrant_of_cur {c : C} (hc : s.cur = some t) :
    s.entrant c = if entering (s.code t) = some c then [t] else [] := by
  simp only [State.entrant, hc]

/-- `thread_wakeone` takes the first of the sleepers at its address. -/
theorem filter_erase_find {p : T → Bool} {l : List T} (hf : l.find? p = some t) :
    (l.erase t).filter p = (l.filter p).tail := by
  induction l with
  | nil => cases hf
  | cons u l ih =>
    by_cases hu : p u = true
    · rw [List.find?_cons_of_pos hu] at hf
      cases hf
      simp [hu]
    · rw [List.find?_cons_of_neg hu] at hf
      have hne : ¬ u = t := by
        intro hx
        obtain rfl := hx
        exact hu (List.find?_some hf)
      rw [List.erase_cons_tail (by simpa using hne), List.filter_cons_of_neg hu,
        List.filter_cons_of_neg hu, ih hf]

theorem filter_erase_of_not {p : T → Bool} {l : List T} (ht : p t = false) :
    (l.erase t).filter p = l.filter p := by
  induction l with
  | nil => rfl
  | cons u l ih =>
    by_cases hu : u = t
    · subst hu
      simp [ht]
    · rw [List.erase_cons_tail (by simpa using hu)]
      simp only [List.filter_cons, ih]

theorem State.onCv_wakeup_other (s : State T S L C) {a : Addr S L C} {c : C} (h : a ≠ .cv c) :
    (s.wakeup a).onCv c = s.onCv c := by
  simp only [State.onCv, State.wakeup, List.filter_filter]
  refine List.filter_congr fun u _ => ?_
  by_cases hu : s.sleepaddr u = some (.cv c) <;> simp [hu, Ne.symm h]

theorem State.onCv_wakeup_same (s : State T S L C) (c : C) : (s.wakeup (.cv c)).onCv c = [] := by
  rw [State.onCv, List.filter_eq_nil_iff]
  intro u hu ha
  exact (State.mem_sleepers_wakeup.mp hu).2 (of_decide_eq_true ha)

theorem State.onCv_wakeone_other (s : State T S L C) {a : Addr S L C} {c : C} (h : a ≠ .cv c) :
    (s.wakeone a).onCv c = s.onCv c := by
  unfold State.onCv State.wakeone
  cases hu : s.sleepers.find? fun t => s.sleepaddr t = some a with
  | none => rfl
  | some u =>
    have ha : s.sleepaddr u = some a := by simpa using List.find?_some hu
    refine filter_erase_of_not ?_
    simp [ha, h]

theorem State.onCv_wakeone_same (s : State T S L C) (c : C) :
    (s.wakeone (.cv c)).onCv c = (s.onCv c).tail := by
  unfold State.onCv State.wakeone
  cases hu : s.sleepers.find? fun t => s.sleepaddr t = some (.cv c) with
  | none =>
    have : s.sleepers.filter (fun t => s.sleepaddr t = some (.cv c)) = [] :=
      List.filter_eq_nil_iff.mpr (List.find?_eq_none.mp hu)
    rw [this, List.tail_nil]
  | some u => exact filter_erase_find hu

namespace CvInv

theorem initial (threads : List T) (count : S → Int) :
    CvInv (State.initial threads count : State T S L C) fun _ => [] where
  queue _ := rfl
  entered _ ht := absurd rfl ht

variable {w : C → List T} (h : CvInv s w)
include h

/-- Nobody is between letting go of the lock and `thread_sleep` when the current
thread is not. -/
theorem onCv_eq {c : C} (hc : s.cur = some t) (hne : entering (s.code t) ≠ some c) :
    w c = s.onCv c := by
  rw [h.queue c, State.entrant_of_cur hc, if_neg hne, List.append_nil]

/-- The current thread goes on and the queues stay. -/
theorem keep (hc : s.cur = some t) (hcur : s'.cur = some t)
    (hcode : ∀ u, u ≠ t → s'.code u = s.code u)
    (hent : entering (s'.code t) = entering (s.code t)) (hs : ∀ c, s'.onCv c = s.onCv c) :
    CvInv s' w where
  queue c := by
    rw [h.queue c, hs c, State.entrant_of_cur hc, State.entrant_of_cur hcur, hent]
  entered u hu := by
    by_cases hne : u = t
    · rw [hne]
      exact hcur
    · rw [hcode u hne] at hu
      have hut := h.entered u hu
      rw [hc] at hut
      exact absurd (Option.some.inj hut).symm hne

end CvInv

theorem State.onCv_congr {s₁ : State T S L C} (hs : s₁.sleepers = s.sleepers)
    (ha : ∀ u ∈ s.sleepers, s₁.sleepaddr u = s.sleepaddr u) (c : C) : s₁.onCv c = s.onCv c := by
  simp only [State.onCv, hs]
  exact List.filter_congr fun u hu => by rw [ha u hu]

/-- Statements that leave every queue alone. -/
theorem waitingStep_exec {c : C} {w : List T} {st : Stmt S L C} {r : List (Stmt S L C)}
    (hc : s.cur = some t) (hcode : s.code t = st :: r) (h₁ : ∀ l, st ≠ .clearOwner l)
    (h₂ : st ≠ .wakeone (.cv c)) (h₃ : st ≠ .wakeup (.cv c)) :
    waitingStep c w (s, .exec) = w := by
  simp only [waitingStep, hc, hcode]
  split
  · next l r' hr => exact absurd (List.cons.inj hr).1 (h₁ l)
  · next c' r' hr =>
    rw [if_neg]
    intro hx
    obtain rfl := hx
    exact h₂ (List.cons.inj hr).1
  · next c' r' hr =>
    rw [if_neg]
    intro hx
    obtain rfl := hx
    exact h₃ (List.cons.inj hr).1
  · rfl

namespace CvInv

variable {w : C → List T} (h : CvInv s w)
include h

/-- Whoever runs, only it can be about to sleep. -/
theorem entered_cur (hc : s.cur = some t) {u : T} (hu : u ≠ t) : entering (s.code u) = none := by
  by_contra hne
  have := h.entered u hne
  rw [hc] at this
  exact hu (Option.some.inj this).symm

theorem clearOwner {l : L} {r : List (Stmt S L C)} (hc : s.cur = some t)
    (hcode : s.code t = .clearOwner l :: r) :
    CvInv (s.exec t r (.clearOwner l)) fun c => waitingStep c (w c) (s, .exec) where
  queue c := by
    have hw : w c = s.onCv c := h.onCv_eq hc (by simp [hcode, entering])
    have hcode' : (s.exec t r (.clearOwner l)).code t = r := upd_same _ _ _
    rw [State.entrant_of_cur (s := s.exec t r (.clearOwner l)) hc, hcode']
    simp only [waitingStep, hc, hcode, hw]
    split
    · rfl
    · exact (List.append_nil _).symm
  entered u hu := by
    by_cases hne : u = t
    · rw [hne]
      exact hc
    · simp only [State.exec, upd_other _ _ hne, h.entered_cur hc hne] at hu
      exact absurd rfl hu

theorem goToSleep {a : Addr S L C} {r : List (Stmt S L C)} (hi : Inv s) (hc : s.cur = some t)
    (hcode : s.code t = .sleep a :: r) :
    CvInv (s.exec t r (.sleep a)) fun c => waitingStep c (w c) (s, .exec) where
  queue c := by
    have hold : s.sleepers.filter (fun u => upd s.sleepaddr t (some a) u = some (.cv c)) =
        s.onCv c := by
      refine List.filter_congr fun u hu => ?_
      have hne : u ≠ t := fun he => (hi.cur_not_mem hc).2 (he ▸ hu)
      rw [upd_other _ _ hne]
    have hnew : (s.exec t r (.sleep a)).onCv c = s.onCv c ++ s.entrant c := by
      change (s.sleepers ++ [t]).filter (fun u => upd s.sleepaddr t (some a) u = some (.cv c)) = _
      rw [List.filter_append, hold, State.entrant_of_cur hc, hcode]
      congr 1
      cases a with
      | cv x => simp [entering, List.filter_cons]
      | _ => simp [entering]
    rw [waitingStep_exec hc hcode (by simp) (by simp) (by simp), h.queue c, hnew]
    exact (List.append_nil _).symm
  entered u hu := by
    by_cases hne : u = t
    · subst hne
      have hf := hi.shape u
      rw [hcode] at hf
      obtain ⟨r', rfl⟩ := follows_sleep hf.1
      simp only [State.exec, upd_same] at hu
      exact absurd rfl hu
    · simp only [State.exec, upd_other _ _ hne, h.entered_cur hc hne] at hu
      exact absurd rfl hu

theorem wakeup {a : Addr S L C} {r : List (Stmt S L C)} (hi : Inv s) (hc : s.cur = some t)
    (hcode : s.code t = .wakeup a :: r) :
    CvInv (s.exec t r (.wakeup a)) fun c => waitingStep c (w c) (s, .exec) := by
  have hf := hi.shape t
  rw [hcode] at hf
  have hcode' : (s.exec t r (.wakeup a)).code t = r := upd_same _ _ _
  have hent : entering r = entering (.wakeup a :: r) := by
    rcases follows_wakeup hf.1 with hf | ⟨⟨l, rfl⟩, x, r', rfl⟩
    · rw [entering_of_plain hf.1, entering_wakeup hf.1]
    · rfl
  refine ⟨fun c => ?_, fun u hu => ?_⟩
  · rw [State.entrant_of_cur (s := s.exec t r (.wakeup a)) hc, hcode', hent]
    by_cases ha : a = .cv c
    · subst ha
      have hnil : (s.exec t r (.wakeup (.cv c))).onCv c = [] :=
        State.onCv_wakeup_same { s with code := upd s.code t r } c
      simp [waitingStep, hc, hcode, hnil, entering]
    · have hsame : (s.exec t r (.wakeup a)).onCv c = s.onCv c :=
        State.onCv_wakeup_other { s with code := upd s.code t r } ha
      rw [waitingStep_exec hc hcode (by simp) (by simp) (by simpa using ha), h.queue c, hsame,
        State.entrant_of_cur hc, hcode]
  · by_cases hne : u = t
    · rw [hne]
      exact hc
    · simp only [State.exec, State.code_wakeup, upd_other _ _ hne, h.entered_cur hc hne] at hu
      exact absurd rfl hu

theorem wakeone {a : Addr S L C} {r : List (Stmt S L C)} (hi : Inv s) (hc : s.cur = some t)
    (hcode : s.code t = .wakeone a :: r) :
    CvInv (s.exec t r (.wakeone a)) fun c => waitingStep c (w c) (s, .exec) := by
  have hf := hi.shape t
  rw [hcode] at hf
  have hcode' : (s.exec t r (.wakeone a)).code t = r := by
    simp only [State.exec, State.code_wakeone, upd_same]
  have hcur : (s.exec t r (.wakeone a)).cur = some t := by
    simpa only [State.exec, State.cur_wakeone] using hc
  refine ⟨fun c => ?_, fun u hu => ?_⟩
  · rw [State.entrant_of_cur hcur, hcode', entering_of_plain hf.1.1,
      if_neg (by simp), List.append_nil]
    have hw : w c = s.onCv c := h.onCv_eq hc (by simp [hcode, entering])
    by_cases ha : a = .cv c
    · subst ha
      have htail : (s.exec t r (.wakeone (.cv c))).onCv c = (s.onCv c).tail :=
        State.onCv_wakeone_same { s with code := upd s.code t r } c
      simp [waitingStep, hc, hcode, htail, hw]
    · have hsame : (s.exec t r (.wakeone a)).onCv c = s.onCv c :=
        State.onCv_wakeone_other { s with code := upd s.code t r } ha
      rw [waitingStep_exec hc hcode (by simp) (by simpa using ha) (by simp), hw, hsame]
  · by_cases hne : u = t
    · rw [hne]
      exact hcur
    · simp only [State.exec, State.code_wakeone, upd_other _ _ hne, h.entered_cur hc hne] at hu
      exact absurd rfl hu

/-- Statements that leave the lists alone. -/
theorem untouched {st : Stmt S L C} {r : List (Stmt S L C)} (hi : Inv s) (hc : s.cur = some t)
    (hcode : s.code t = st :: r) (hst : (∀ l, st ≠ .clearOwner l) ∧
      ∀ c, st ≠ .wakeone (.cv c) ∧ st ≠ .wakeup (.cv c))
    (hcur : s'.cur = s.cur) (hcode' : ∀ u, u ≠ t → s'.code u = s.code u)
    (hs : s'.sleepers = s.sleepers) (ha : ∀ u, u ≠ t → s'.sleepaddr u = s.sleepaddr u)
    (hent : entering (s'.code t) = entering (st :: r)) :
    CvInv s' fun c => waitingStep c (w c) (s, .exec) := by
  have hw : (fun c => waitingStep c (w c) (s, .exec)) = w := by
    funext c
    exact waitingStep_exec hc hcode hst.1 (hst.2 c).1 (hst.2 c).2
  rw [hw]
  refine h.keep hc (hcur ▸ hc) hcode' (hent.trans (by rw [hcode])) fun c => ?_
  exact State.onCv_congr hs (fun u hu => ha u fun he => (hi.cur_not_mem hc).2 (he ▸ hu)) c

/-- Of these, the ones that only go on to `r'`. -/
theorem advance {st : Stmt S L C} {r r' : List (Stmt S L C)} (hi : Inv s) (hc : s.cur = some t)
    (hcode : s.code t = st :: r) (hst : (∀ l, st ≠ .clearOwner l) ∧
      ∀ c, st ≠ .wakeone (.cv c) ∧ st ≠ .wakeup (.cv c))
    (hcur : s'.cur = s.cur) (hs : s'.sleepers = s.sleepers) (ha : s'.sleepaddr = s.sleepaddr)
    (hnew : s'.code = upd s.code t r') (hent : entering r' = entering (st :: r)) :
    CvInv s' fun c => waitingStep c (w c) (s, .exec) := by
  refine h.untouched hi hc hcode hst hcur (fun u hu => ?_) hs (fun _ _ => by rw [ha]) ?_
  · rw [hnew, upd_other _ _ hu]
  · rw [hnew, upd_same, hent]

theorem exec (hi : Inv s) (hc : s.cur = some t) {st : Stmt S L C} {r : List (Stmt S L C)}
    (hcode : s.code t = st :: r) :
    CvInv (s.exec t r st) fun c => waitingStep c (w c) (s, .exec) := by
  have hf := hi.shape t
  rw [hcode] at hf
  obtain ⟨hf, -⟩ := hf
  cases st with
  | clearOwner l => exact h.clearOwner hc hcode
  | sleep a => exact h.goToSleep hi hc hcode
  | wakeup a => exact h.wakeup hi hc hcode
  | wakeone a => exact h.wakeone hi hc hcode
  | splhigh =>
    exact h.advance hi hc hcode (by simp) rfl rfl rfl rfl (entering_of_plain hf.1)
  | splx =>
    refine h.advance hi hc hcode (by simp) rfl rfl rfl rfl ?_
    rcases hf with hf | ⟨x, r', rfl⟩
    · rw [entering_of_plain hf, entering_splx hf]
    · rfl
  | wake =>
    refine h.untouched hi hc hcode (by simp) rfl (fun _ hu => upd_other _ _ hu) rfl
      (fun _ hu => upd_other _ _ hu) ?_
    simp only [State.exec, upd_same, entering_of_plain hf.1]
    rfl
  | decCount x =>
    exact h.advance hi hc hcode (by simp) rfl rfl rfl rfl (entering_of_plain hf.1)
  | setOwner l =>
    exact h.advance hi hc hcode (by simp) rfl rfl rfl rfl (entering_of_plain hf.2.1)
  | incCount x =>
    obtain ⟨r', rfl⟩ := hf
    exact h.advance hi hc hcode (by simp) rfl rfl rfl rfl rfl
  | hold l =>
    refine h.advance hi hc hcode (by simp) rfl rfl rfl rfl ?_
    rcases hf with ⟨-, hf, -⟩ | ⟨r', rfl⟩
    · exact entering_of_plain hf
    · rfl
  | assertCount x m =>
    simp only [State.exec]
    split
    · cases m with
      | semP | semV =>
        obtain ⟨r', rfl⟩ := hf
        exact h.advance hi hc hcode (by simp) rfl rfl rfl rfl rfl
      | _ => cases hf
    · exact h.untouched hi hc hcode (by simp) rfl (fun _ _ => rfl) rfl (fun _ _ => rfl)
        (by rw [hcode])
  | panicIf b m =>
    simp only [State.exec]
    split
    · exact h.untouched hi hc hcode (by simp) rfl (fun _ _ => rfl) rfl (fun _ _ => rfl)
        (by rw [hcode])
    · refine h.advance hi hc hcode (by simp) rfl rfl rfl rfl ?_
      cases b with
      | true =>
        obtain ⟨-, l, r', rfl⟩ := hf
        rfl
      | false =>
        rcases hf with ⟨-, hf, -⟩ | ⟨-, l, r', rfl⟩
        · exact entering_of_plain hf
        · rfl
  | whileZero x =>
    simp only [State.exec]
    split
    · exact h.advance hi hc hcode (by simp) rfl rfl rfl rfl rfl
    · obtain ⟨r', rfl⟩ := hf
      exact h.advance hi hc hcode (by simp) rfl rfl rfl rfl rfl
  | whileOwned l =>
    simp only [State.exec]
    split
    · exact h.advance hi hc hcode (by simp) rfl rfl rfl rfl rfl
    · obtain ⟨r', rfl⟩ := hf
      exact h.advance hi hc hcode (by simp) rfl rfl rfl rfl rfl

/-- The processor is given up or taken where nobody is about to sleep. -/
theorem switch (hent : ∀ c, s.entrant c = []) (hs : ∀ c, s'.onCv c = s.onCv c)
    (hent' : ∀ c, s'.entrant c = [])
    (hcode : ∀ u, entering (s'.code u) = none) : CvInv s' w where
  queue c := by rw [h.queue c, hs c, hent c, hent' c]
  entered u hu := absurd (hcode u) hu

theorem entering_none (hcur : ∀ t, s.cur = some t → entering (s.code t) = none) (u : T) :
    entering (s.code u) = none := by
  by_contra hne
  exact hne (hcur u (h.entered u hne))

end CvInv

theorem State.entrant_nil (hcur : ∀ t, s.cur = some t → entering (s.code t) = none) (c : C) :
    s.entrant c = [] := by
  cases hc : s.cur with
  | none => simp only [State.entrant, hc]
  | some t => simp [State.entrant_of_cur hc, hcur t hc]

/-- With interrupts enabled nobody is about to sleep. -/
theorem Level.entering {sv : List Bool} {c : List (Stmt S L C)} (h : Level false sv c) :
    entering c = none := entering_of_plain h.plain

theorem Parked.entering (h : Parked s t) : entering (s.code t) = none := by
  obtain ⟨hl, ⟨r, hcode⟩ | ⟨r, sv, hcode, hsv⟩⟩ := h
  · rw [hcode]
    rfl
  · rw [hcode, hsv] at hl
    obtain ⟨-, b, sv', hb, hl⟩ := hl
    cases hb
    rw [hcode]
    unfold Threads.entering
    split
    · simp_all
    · simp_all [Level]
    · simp_all
    · rfl

namespace CvInv

variable {w : C → List T} (h : CvInv s w)
include h

theorem step (hi : Inv s) {a : Act S L C} (hs : s.step a = some s') :
    CvInv s' fun c => waitingStep c (w c) (s, a) := by
  cases (State.step_cases hs).2 with
  | exec hc hcode => exact h.exec hi hc hcode
  | call c hc hcode =>
    refine h.keep hc hc (fun u hu => upd_other _ _ hu) ?_ fun _ => rfl
    simp only [upd_same, hcode, entering_of_plain c.plain]
    rfl
  | exit hc hcode =>
    have hcur (u : T) (hu : s.cur = some u) : entering (s.code u) = none := by
      rw [hc] at hu
      cases hu
      rw [hcode]
      rfl
    exact h.switch (State.entrant_nil hcur) (fun _ => rfl) (fun _ => rfl) (h.entering_none hcur)
  | @preempt t hc hh =>
    have hl := hi.run t hc
    rw [hh] at hl
    have hcur (u : T) (hu : s.cur = some u) : entering (s.code u) = none := by
      rw [hc] at hu
      cases hu
      exact hl.entering
    refine h.switch (State.entrant_nil hcur) (fun _ => rfl) (fun _ => rfl) fun u => ?_
    by_cases hne : u = t
    · subst hne
      simp only [State.preempt, upd_same]
      unfold entering
      split
      · simp_all
      · next c r hr =>
        rw [(List.cons.inj hr).2] at hl
        cases hl.1
      · simp_all
      · rfl
    · simp only [State.preempt, upd_other _ _ hne]
      exact h.entering_none hcur u
  | interrupt x hint =>
    have hcur (u : T) (hu : s.cur = some u) : entering (s.code u) = none := by
      have hl := hi.run u hu
      simp only [State.interruptible, hu, Bool.not_eq_true'] at hint
      rw [hint] at hl
      exact hl.entering
    have hcode : (s.interruptV x).code = s.code := by
      simp only [State.interruptV]
      split <;> rfl
    have hcur' : (s.interruptV x).cur = s.cur := by
      simp only [State.interruptV]
      split <;> rfl
    refine h.switch (State.entrant_nil hcur) (fun c => ?_) (State.entrant_nil ?_) ?_
    · simp only [State.interruptV]
      split
      · exact (State.onCv_wakeup_other _ (by simp)).trans rfl
      · rfl
    · rw [hcur', hcode]
      exact hcur
    · rw [hcode]
      exact h.entering_none hcur
  | @dispatch t rest hc hr =>
    have hcur (u : T) (hu : s.cur = some u) : entering (s.code u) = none := by
      rw [hc] at hu
      cases hu
    have hall := h.entering_none hcur
    exact h.switch (State.entrant_nil hcur) (fun _ => rfl)
      (State.entrant_nil fun u _ => hall u) hall

theorem run' {tr : List (State T S L C × Act S L C)} (hi : Inv s) (hr : Run s tr s') :
    CvInv s' fun c => tr.foldl (waitingStep c) (w c) := by
  induction hr with
  | nil => exact h
  | snoc hr hs ih =>
    simp only [List.foldl_append, List.foldl_cons, List.foldl_nil]
    exact ih.step (hi.run' hr) hs

end CvInv

end Os161.Threads
