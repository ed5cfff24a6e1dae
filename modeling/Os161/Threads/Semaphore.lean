import Os161.Threads.Calls

/-! # Semaphores

`P` and `V`: the count is what the completed operations make it, and nobody
sleeps on a semaphore that has a unit left. -/
set_option linter.unusedSectionVars false

namespace Os161.Threads

variable {T S L C : Type} [DecidableEq T] [DecidableEq S] [DecidableEq L] [DecidableEq C]
  {s s' : State T S L C} {t : T}

/-- The semaphore a step takes a unit from. -/
def pOf (e : State T S L C × Act S L C) : Option S :=
  match e.2, e.1.cur with
  | .exec, some t =>
    match e.1.code t with
    | .decCount x :: _ => some x
    | _ => none
  | _, _ => none

/-- The semaphore a step gives a unit to. -/
def vOf (e : State T S L C × Act S L C) : Option S :=
  match e.2, e.1.cur with
  | .interrupt x, _ => some x
  | .exec, some t =>
    match e.1.code t with
    | .incCount x :: _ => some x
    | _ => none
  | _, _ => none

/-- Units of semaphore `x` taken and given. -/
def takes (x : S) (tr : List (State T S L C × Act S L C)) : Nat :=
  tr.countP fun e => pOf e = some x
def gives (x : S) (tr : List (State T S L C × Act S L C)) : Nat :=
  tr.countP fun e => vOf e = some x

/-- How often an interrupt handler called `V`. -/
def handled (x : S) (tr : List (State T S L C × Act S L C)) : Nat :=
  tr.countP fun e => e.2 = .interrupt x

/-- The calls of `P` and `V` on semaphore `x` that are done with its count: to `P` only
its `splx` is left, to `V` the assertion, the wake-up and the `splx`. -/
def completedP (x : S) (tr : List (State T S L C × Act S L C)) (s : State T S L C) : Nat :=
  passed (.p x) 1 tr s
def completedV (x : S) (tr : List (State T S L C × Act S L C)) (s : State T S L C) : Nat :=
  passed (.v x) 3 tr s + handled x tr

/-- No `V` is the 2^31st outstanding one. -/
def Bounded (tr : List (State T S L C × Act S L C)) : Prop :=
  ∀ e ∈ tr, ∀ x, vOf e = some x → e.1.count x + 1 < 2 ^ 31

/-! ## The invariant -/

/-- What the next statement relies on. -/
def SemPre (s : State T S L C) : List (Stmt S L C) → Prop
  | .sleep (.sem x) :: _ => s.count x = 0
  | .assertCount x _ :: _ => 0 < s.count x
  | .decCount x :: _ => 0 < s.count x
  | _ => True

/-- `V` on semaphore `x` has counted and not yet woken the sleepers. -/
def Waking (x : S) (c : List (Stmt S L C)) : Prop :=
  (∃ r, c = .assertCount x .semV :: .wakeup (.sem x) :: r) ∨ ∃ r, c = .wakeup (.sem x) :: r

structure SemInv (s : State T S L C) : Prop where
  nonneg : ∀ x, 0 ≤ s.count x
  pre : ∀ t, s.cur = some t → SemPre s (s.code t)
  asleep : ∀ t ∈ s.sleepers, ∀ x, s.sleepaddr t = some (.sem x) →
    s.count x = 0 ∨ ∃ u, s.cur = some u ∧ Waking x (s.code u)
  panic : s.panic ≠ some .semP ∧ s.panic ≠ some .semV

theorem semPre_of_plain {c : List (Stmt S L C)} (h : Plain c) : SemPre s c := by
  cases c with
  | nil => trivial
  | cons st c =>
    cases st with
    | sleep a => cases a <;> trivial
    | assertCount | decCount => cases h
    | _ => trivial

theorem not_waking_of_plain {x : S} {c : List (Stmt S L C)} (h : Plain c)
    (hw : ∀ r, c ≠ .wakeup (.sem x) :: r) : ¬ Waking x c := by
  rintro (⟨r, rfl⟩ | ⟨r, rfl⟩)
  · exact h
  · exact hw r rfl

/-- With interrupts enabled no `V` is halfway. -/
theorem Level.not_waking {x : S} {sv : List Bool} {c : List (Stmt S L C)} (h : Level false sv c) :
    ¬ Waking x c := by
  rintro (⟨r, rfl⟩ | ⟨r, rfl⟩) <;> cases h.1

namespace SemInv

theorem initial (threads : List T) {count : S → Int} (h0 : ∀ x, 0 ≤ count x) :
    SemInv (State.initial threads count : State T S L C) where
  nonneg := h0
  pre t ht := by cases ht
  asleep t ht := by cases ht
  panic := ⟨by simp [State.initial], by simp [State.initial]⟩

variable (h : SemInv s)
include h

/-- Sleepers of an untouched semaphore, while nobody is halfway through `V`. -/
theorem zero_of_not_waking {x : S} (hc : s.cur = some t) (hw : ¬ Waking x (s.code t)) {u : T}
    (hu : u ∈ s.sleepers) (ha : s.sleepaddr u = some (.sem x)) : s.count x = 0 := by
  rcases h.asleep u hu x ha with h0 | ⟨v, hv, hwv⟩
  · exact h0
  · rw [hc] at hv
    cases hv
    exact absurd hwv hw

/-- A step that leaves counts, sleepers and sleep addresses alone. -/
theorem keep (hc : s.cur = some t) (hw : ∀ x, ¬ Waking x (s.code t)) (hcur : s'.cur = some t)
    (hcount : s'.count = s.count) (hsub : ∀ u ∈ s'.sleepers, u ∈ s.sleepers)
    (haddr : ∀ u ∈ s'.sleepers, s'.sleepaddr u = s.sleepaddr u)
    (hpre : SemPre s' (s'.code t)) (hp : s'.panic ≠ some .semP ∧ s'.panic ≠ some .semV) :
    SemInv s' where
  nonneg x := by rw [hcount]; exact h.nonneg x
  pre u hu := by
    rw [hcur] at hu
    cases hu
    exact hpre
  asleep u hu x ha := by
    rw [haddr u hu] at ha
    rw [hcount]
    exact .inl (h.zero_of_not_waking hc (hw x) (hsub u hu) ha)
  panic := hp

/-- A statement that touches neither counts nor sleepers. -/
theorem advance (hc : s.cur = some t) (hw : ∀ x, ¬ Waking x (s.code t)) {c : List (Stmt S L C)}
    (hcur : s'.cur = s.cur) (hcount : s'.count = s.count) (hsl : s'.sleepers = s.sleepers)
    (haddr : s'.sleepaddr = s.sleepaddr) (hpan : s'.panic = s.panic) (hcode : s'.code t = c)
    (hpre : SemPre s' c) : SemInv s' :=
  h.keep hc hw (hcur.trans hc) hcount (fun u hu => hsl ▸ hu) (fun u _ => by rw [haddr])
    (hcode ▸ hpre) (hpan ▸ h.panic)

end SemInv

theorem not_waking_cons {st : Stmt S L C} {c : List (Stmt S L C)} {x : S}
    (h1 : st ≠ .wakeup (.sem x)) (h2 : st ≠ .assertCount x .semV) : ¬ Waking x (st :: c) := by
  rintro (⟨r, hr⟩ | ⟨r, hr⟩)
  · exact h2 (List.cons.inj hr).1
  · exact h1 (List.cons.inj hr).1

/-- Only the thread that runs has a statement before it. -/
theorem semPre_cur {c : List (Stmt S L C)} (hcur : s.cur = some t) (hcode : s.code t = c)
    (hpre : SemPre s c) : ∀ u, s.cur = some u → SemPre s (s.code u) := by
  intro u hu
  rw [hcur] at hu
  cases hu
  rw [hcode]
  exact hpre

theorem bmod_succ {n : Int} (h0 : 0 ≤ n) (h1 : n + 1 < 2 ^ 31) :
    Int.bmod (n + 1) (2 ^ 32) = n + 1 :=
  Int.bmod_eq_of_le (by omega) (by omega)

/-! ## The statements of `P` and `V` -/

section Statements

variable {c : List (Stmt S L C)} (hi : Inv s) (h : SemInv s) (hc : s.cur = some t)
include hi h hc

theorem SemInv.exec_sleep {a : Addr S L C} (hcode : s.code t = .sleep a :: c) :
    SemInv (s.exec t c (.sleep a)) := by
  have hw (x : S) : ¬ Waking x (s.code t) := hcode ▸ not_waking_cons (by simp) (by simp)
  have hpre := h.pre t hc
  rw [hcode] at hpre
  refine ⟨h.nonneg, (fun u hu => by cases hu), ?_, h.panic⟩
  intro u hu x ha
  left
  rcases List.mem_append.mp hu with hu | hu
  · have hne : u ≠ t := fun he => (hi.cur_not_mem hc).2 (he ▸ hu)
    simp only [State.exec, upd_other _ _ hne] at ha
    exact h.zero_of_not_waking hc (hw x) hu ha
  · -- `P` goes to sleep on a count of 0
    obtain rfl := List.mem_singleton.mp hu
    simp only [State.exec, upd_same, Option.some.injEq] at ha
    subst ha
    exact hpre

theorem SemInv.exec_wakeup {a : Addr S L C} (hcode : s.code t = .wakeup a :: c) :
    SemInv (s.exec t c (.wakeup a)) := by
  have hf := hi.shape t
  rw [hcode] at hf
  refine ⟨h.nonneg, ?_, ?_, h.panic⟩
  · refine semPre_cur (c := c) hc ?_ ?_
    · simp only [State.exec, State.code_wakeup, upd_same]
    · rcases follows_wakeup hf.1 with hf | ⟨-, x, r, rfl⟩
      · exact semPre_of_plain hf.1
      · trivial
  · intro u hu x ha
    obtain ⟨hu, hne⟩ := State.mem_sleepers_wakeup.mp hu
    change s.sleepaddr u = some (.sem x) at ha
    change s.sleepaddr u ≠ some a at hne
    refine .inl (h.zero_of_not_waking hc ?_ hu ha)
    rw [hcode]
    refine not_waking_cons ?_ (by simp)
    rintro ⟨⟩
    exact hne ha

/-- After the assertion `V` is still halfway. -/
theorem SemInv.exec_assertV {x : S} (hcode : s.code t = .assertCount x .semV :: c) :
    SemInv (s.exec t c (.assertCount x .semV)) := by
  have hf := hi.shape t
  have hx := h.pre t hc
  rw [hcode] at hf hx
  change 0 < s.count x at hx
  obtain ⟨⟨r, rfl⟩, -⟩ := hf
  simp only [State.exec, gt_iff_lt, hx, if_true]
  refine ⟨h.nonneg, semPre_cur hc (upd_same _ _ _) trivial, ?_, h.panic⟩
  intro u hu y ha
  rcases h.asleep u hu y ha with h0 | ⟨v, hv, hw⟩
  · exact .inl h0
  · rw [hc] at hv
    cases hv
    refine .inr ⟨t, hc, ?_⟩
    rw [hcode] at hw
    simp only [upd_same]
    rcases hw with ⟨r', hr⟩ | ⟨r', hr⟩
    · cases hr
      exact .inr ⟨r, rfl⟩
    · cases hr

theorem SemInv.exec_decCount {x : S} (hcode : s.code t = .decCount x :: c) :
    SemInv (s.exec t c (.decCount x)) := by
  have hw (x : S) : ¬ Waking x (s.code t) := hcode ▸ not_waking_cons (by simp) (by simp)
  have hf := hi.shape t
  have hx := h.pre t hc
  rw [hcode] at hf hx
  change 0 < s.count x at hx
  refine ⟨?_, semPre_cur hc (upd_same _ _ _) (semPre_of_plain hf.1.1), ?_, h.panic⟩
  · intro y
    by_cases hy : y = x
    · subst hy
      simp only [State.exec, upd_same]
      omega
    · simp only [State.exec, upd_other _ _ hy]
      exact h.nonneg y
  · intro u hu y ha
    have h0 := h.zero_of_not_waking hc (hw y) hu ha
    have hy : y ≠ x := by
      rintro rfl
      omega
    simp only [State.exec, upd_other _ _ hy]
    exact .inl h0

/-- `V` has counted: from here on it is halfway. -/
theorem SemInv.exec_incCount {x : S} (hcode : s.code t = .incCount x :: c)
    (hb : s.count x + 1 < 2 ^ 31) : SemInv (s.exec t c (.incCount x)) := by
  have hw (x : S) : ¬ Waking x (s.code t) := hcode ▸ not_waking_cons (by simp) (by simp)
  have hf := hi.shape t
  rw [hcode] at hf
  have hx := h.nonneg x
  have hs := bmod_succ hx hb
  obtain ⟨⟨r, rfl⟩, -⟩ := hf
  refine ⟨?_, semPre_cur hc (upd_same _ _ _) ?_, ?_, h.panic⟩
  · intro y
    by_cases hy : y = x
    · subst hy
      simp only [State.exec, State.incCount, upd_same, hs]
      omega
    · simp only [State.exec, State.incCount, upd_other _ _ hy]
      exact h.nonneg y
  · simp only [State.exec, State.incCount, upd_same, SemPre, hs]
    omega
  · intro u hu y ha
    by_cases hy : y = x
    · subst hy
      refine .inr ⟨t, hc, .inl ⟨r, ?_⟩⟩
      simp only [State.exec, State.incCount, upd_same]
    · simp only [State.exec, State.incCount, upd_other _ _ hy]
      exact .inl (h.zero_of_not_waking hc (hw y) hu ha)

end Statements

theorem SemInv.exec (hi : Inv s) (h : SemInv s) (hc : s.cur = some t) {st : Stmt S L C}
    {c : List (Stmt S L C)} (hcode : s.code t = st :: c)
    (hb : ∀ x, st = .incCount x → s.count x + 1 < 2 ^ 31) : SemInv (s.exec t c st) := by
  have hsh := hi.shape t
  have hpre := h.pre t hc
  rw [hcode] at hsh hpre
  obtain ⟨hf, -⟩ := hsh
  have hw (h1 : ∀ x, st ≠ .wakeup (.sem x)) (h2 : ∀ x, st ≠ .assertCount x .semV) (x : S) :
      ¬ Waking x (s.code t) := hcode ▸ not_waking_cons (h1 x) (h2 x)
  cases st with
  | sleep a => exact h.exec_sleep hi hc hcode
  | wakeup a => exact h.exec_wakeup hi hc hcode
  | decCount x => exact h.exec_decCount hi hc hcode
  | incCount x => exact h.exec_incCount hi hc hcode (hb x rfl)
  | splhigh =>
    exact h.advance hc (hw (by simp) (by simp)) rfl rfl rfl rfl rfl (upd_same _ _ _)
      (semPre_of_plain hf.1)
  | splx =>
    refine h.advance hc (hw (by simp) (by simp)) rfl rfl rfl rfl rfl (upd_same _ _ _) ?_
    rcases hf with hf | ⟨x, r, rfl⟩
    · exact semPre_of_plain hf
    · trivial
  | hold l =>
    refine h.advance hc (hw (by simp) (by simp)) rfl rfl rfl rfl rfl (upd_same _ _ _) ?_
    rcases hf with ⟨⟨r, rfl⟩, -⟩ | ⟨r, rfl⟩ <;> trivial
  | wake =>
    refine h.keep hc (hw (by simp) (by simp)) hc rfl (fun u hu => hu) ?_ ?_ h.panic
    · intro u hu
      exact upd_other _ _ fun he => (hi.cur_not_mem hc).2 (he ▸ hu)
    · simp only [State.exec, upd_same]
      exact semPre_of_plain hf.1
  | setOwner l =>
    obtain ⟨⟨r, rfl⟩, -⟩ := hf
    exact h.advance hc (hw (by simp) (by simp)) rfl rfl rfl rfl rfl (upd_same _ _ _) trivial
  | clearOwner l =>
    obtain ⟨r, rfl⟩ := hf
    exact h.advance hc (hw (by simp) (by simp)) rfl rfl rfl rfl rfl (upd_same _ _ _) trivial
  | wakeone a =>
    refine h.keep hc (hw (by simp) (by simp)) ?_ ?_ ?_ ?_ ?_ ?_
    · simpa only [State.exec, State.cur_wakeone] using hc
    · simp only [State.exec, State.count_wakeone]
    · intro u hu
      exact State.mem_sleepers_wakeone (s := { s with code := upd s.code t c }) hu
    · intro u hu
      simp only [State.exec, State.sleepaddr_wakeone]
    · simp only [State.exec, State.code_wakeone, upd_same]
      exact semPre_of_plain hf.1
    · simpa only [State.exec, State.panic_wakeone] using h.panic
  | whileZero x =>
    have hw := hw (by simp) (by simp)
    simp only [State.exec]
    split
    · next h0 => exact h.advance hc hw rfl rfl rfl rfl rfl (upd_same _ _ _) h0
    · next h0 =>
      obtain ⟨r, rfl⟩ := hf
      have hnn := h.nonneg x
      refine h.advance hc hw rfl rfl rfl rfl rfl (upd_same _ _ _) ?_
      change 0 < s.count x
      omega
  | assertCount x m =>
    have hx : 0 < s.count x := hpre
    cases m with
    | semP =>
      obtain ⟨r, rfl⟩ := hf
      simp only [State.exec, gt_iff_lt, hx, if_true]
      exact h.advance hc (hw (by simp) (by simp)) rfl rfl rfl rfl rfl (upd_same _ _ _) hx
    | semV => exact h.exec_assertV hi hc hcode
    | _ => cases hf
  | panicIf b m =>
    have hw := hw (by simp) (by simp)
    simp only [State.exec]
    split
    · refine h.keep hc hw hc rfl (fun u hu => hu) (fun _ _ => rfl) ?_ ?_
      · rw [hcode]
        trivial
      · cases b with
        | true =>
          obtain ⟨rfl, -⟩ := hf
          simp
        | false => rcases hf with ⟨rfl, -⟩ | ⟨rfl, -⟩ <;> simp
    · refine h.advance hc hw rfl rfl rfl rfl rfl (upd_same _ _ _) ?_
      cases b with
      | true =>
        obtain ⟨-, l, r, rfl⟩ := hf
        trivial
      | false =>
        rcases hf with ⟨-, hf, -⟩ | ⟨-, l, r, rfl⟩
        · exact semPre_of_plain hf
        · trivial
  | whileOwned l =>
    have hw := hw (by simp) (by simp)
    simp only [State.exec]
    split
    · exact h.advance hc hw rfl rfl rfl rfl rfl (upd_same _ _ _) trivial
    · obtain ⟨r, rfl⟩ := hf
      exact h.advance hc hw rfl rfl rfl rfl rfl (upd_same _ _ _) trivial

namespace SemInv

variable (h : SemInv s)
include h

theorem call (hc : s.cur = some t) (hcode : s.code t = []) (c : Call S L C) :
    SemInv { s with code := upd s.code t c.code } := by
  refine h.keep hc ?_ hc rfl (fun u hu => hu) (fun _ _ => rfl) ?_ h.panic
  · intro x
    rw [hcode]
    exact not_waking_of_plain trivial (by simp)
  · simp only [upd_same]
    exact semPre_of_plain c.plain

theorem exit (hc : s.cur = some t) (hcode : s.code t = []) :
    SemInv { s with high := true, cur := none } where
  nonneg := h.nonneg
  pre u hu := by cases hu
  asleep u hu x ha := by
    refine .inl (h.zero_of_not_waking hc ?_ hu ha)
    rw [hcode]
    exact not_waking_of_plain trivial (by simp)
  panic := h.panic

theorem preempt (hi : Inv s) (hc : s.cur = some t) (hh : s.high = false) :
    SemInv (s.preempt t) where
  nonneg := h.nonneg
  pre u hu := by cases hu
  asleep u hu x ha := by
    have hl := hi.run t hc
    rw [hh] at hl
    exact .inl (h.zero_of_not_waking hc hl.not_waking hu ha)
  panic := h.panic

theorem dispatch (hi : Inv s) {rest : List T} (hc : s.cur = none) (hr : s.ready = t :: rest) :
    SemInv { s with ready := rest, cur := some t } where
  nonneg := h.nonneg
  pre u hu := by
    cases hu
    obtain ⟨-, ⟨r, hcode⟩ | ⟨r, sv, hcode, -⟩⟩ := hi.ready t (hr ▸ List.mem_cons_self) <;>
      · simp only [hcode]
        trivial
  asleep u hu x ha := by
    rcases h.asleep u hu x ha with h0 | ⟨v, hv, -⟩
    · exact .inl h0
    · rw [hc] at hv
      cases hv
  panic := h.panic

/-- While threads are switched or interrupts are enabled, nobody sleeps on a
semaphore with a unit left. -/
theorem zero_of_open (hi : Inv s) (ho : s.Open) {u : T} (hu : u ∈ s.sleepers) {x : S}
    (ha : s.sleepaddr u = some (.sem x)) : s.count x = 0 := by
  rcases h.asleep u hu x ha with h0 | ⟨v, hv, hw⟩
  · exact h0
  · rcases ho with ho | ho
    · rw [ho] at hv
      cases hv
    · have hl := hi.run v hv
      rw [ho] at hl
      exact absurd hw hl.not_waking

theorem interruptV (hi : Inv s) {x : S} (hint : s.interruptible = true)
    (hb : s.count x + 1 < 2 ^ 31) : SemInv (s.interruptV x) := by
  have ho : s.Open := by
    unfold State.interruptible at hint
    split at hint
    · exact .inr (by simpa using hint)
    · next hc => exact .inl hc
  have hx := h.nonneg x
  have hs := bmod_succ hx hb
  have hpos : (s.incCount x).count x > 0 := by
    simp only [State.incCount, upd_same, hs]
    omega
  simp only [State.interruptV, hpos, if_true]
  refine ⟨?_, ?_, ?_, h.panic⟩
  · intro y
    by_cases hy : y = x
    · subst hy
      exact Int.le_of_lt hpos
    · simp only [State.count_wakeup, State.incCount, upd_other _ _ hy]
      exact h.nonneg y
  · intro u hu
    change s.cur = some u at hu
    have hl := hi.run u hu
    rcases ho with ho | ho
    · rw [hu] at ho
      cases ho
    · rw [ho] at hl
      exact semPre_of_plain hl.plain
  · intro u hu y ha
    obtain ⟨hu, hne⟩ := State.mem_sleepers_wakeup.mp hu
    change s.sleepaddr u = some (.sem y) at ha
    have hy : y ≠ x := by
      rintro rfl
      exact hne ha
    simp only [State.count_wakeup, State.incCount, upd_other _ _ hy]
    exact .inl (h.zero_of_open hi ho hu ha)

theorem step (hi : Inv s) {a : Act S L C} (hs : s.step a = some s')
    (hb : ∀ x, vOf (s, a) = some x → s.count x + 1 < 2 ^ 31) : SemInv s' := by
  cases (State.step_cases hs).2 with
  | exec hc hcode =>
    refine h.exec hi hc hcode fun x hst => hb x ?_
    simp only [vOf, hc, hcode, hst]
  | call c hc hcode => exact h.call hc hcode c
  | exit hc hcode => exact h.exit hc hcode
  | preempt hc hh => exact h.preempt hi hc hh
  | interrupt x hint => exact h.interruptV hi hint (hb x (by simp only [vOf]))
  | dispatch hc hr => exact h.dispatch hi hc hr

/-- One step changes the count by what it gives and takes. -/
theorem count_step {a : Act S L C} (hs : s.step a = some s')
    (hb : ∀ x, vOf (s, a) = some x → s.count x + 1 < 2 ^ 31) (x : S) :
    s'.count x = s.count x + (if vOf (s, a) = some x then 1 else 0) -
      (if pOf (s, a) = some x then 1 else 0) := by
  have hinc (y : S) (hv : vOf (s, a) = some y) :
      (s.incCount y).count x = s.count x + (if vOf (s, a) = some x then 1 else 0) := by
    rw [hv]
    by_cases hx : x = y
    · subst hx
      simp only [State.incCount, upd_same, bmod_succ (h.nonneg x) (hb x hv), if_true]
    · have hne : ¬ some y = some x := fun he => hx (Option.some.inj he).symm
      simp only [State.incCount, upd_other _ _ hx, if_neg hne, Int.add_zero]
  cases (State.step_cases hs).2 with
  | @exec t st c hc hcode =>
    cases st with
    | decCount y =>
      simp only [vOf, pOf, hc, hcode, State.exec, Option.some.injEq]
      by_cases hx : x = y
      · subst hx
        simp
      · have hne : ¬ y = x := fun he => hx he.symm
        simp [upd_other _ _ hx, hne]
    | incCount y =>
      have := hinc y (by simp only [vOf, hc, hcode])
      simpa [pOf, hc, hcode, State.exec, State.incCount] using this
    | wakeone a => simp [vOf, pOf, hc, hcode, State.exec]
    | whileZero | assertCount | panicIf | whileOwned =>
      simp only [vOf, pOf, hc, hcode, State.exec]
      split <;> simp
    | _ => simp [vOf, pOf, hc, hcode, State.exec]
  | call | exit | preempt | dispatch => simp_all [vOf, pOf, State.preempt]
  | interrupt y hint =>
    have := hinc y (by simp only [vOf])
    simp only [State.interruptV, pOf]
    split <;> simpa using this

end SemInv

/-! ## Runs -/

theorem takes_snoc (x : S) (tr : List (State T S L C × Act S L C))
    (e : State T S L C × Act S L C) :
    takes x (tr ++ [e]) = takes x tr + if pOf e = some x then 1 else 0 := by
  simp [takes, List.countP_append, List.countP_cons]

theorem gives_snoc (x : S) (tr : List (State T S L C × Act S L C))
    (e : State T S L C × Act S L C) :
    gives x (tr ++ [e]) = gives x tr + if vOf e = some x then 1 else 0 := by
  simp [gives, List.countP_append, List.countP_cons]

theorem SemInv.run' {tr : List (State T S L C × Act S L C)} (hr : Run s tr s') (hb : Bounded tr)
    (hi : Inv s) (h : SemInv s) : SemInv s' ∧
      ∀ x, s'.count x = s.count x + gives x tr - takes x tr := by
  induction hr with
  | nil => exact ⟨h, fun x => by simp [gives, takes]⟩
  | @snoc s₁ s' tr a hr hs ih =>
    obtain ⟨h₁, hc⟩ := ih fun e he => hb e (List.mem_append_left _ he)
    have hb₁ : ∀ x, vOf (s₁, a) = some x → s₁.count x + 1 < 2 ^ 31 :=
      hb (s₁, a) (List.mem_append_right _ List.mem_cons_self)
    refine ⟨h₁.step (hi.run' hr) hs hb₁, fun x => ?_⟩
    rw [h₁.count_step hs hb₁ x, hc x, gives_snoc, takes_snoc]
    split <;> split <;> push_cast <;> omega

theorem pOf_iff (e : State T S L C × Act S L C) (x : S) :
    pOf e = some x ↔ stmtOf e = some (.decCount x) := by
  obtain ⟨s, a⟩ := e
  cases a with
  | exec =>
    simp only [pOf, stmtOf]
    cases s.cur with
    | none => simp
    | some t =>
      dsimp only
      cases s.code t with
      | nil => simp
      | cons st r => cases st <;> simp
  | _ => simp [pOf, stmtOf]

theorem vOf_iff (e : State T S L C × Act S L C) (x : S) :
    vOf e = some x ↔ stmtOf e = some (.incCount x) ∨ e.2 = .interrupt x := by
  obtain ⟨s, a⟩ := e
  cases a with
  | exec =>
    simp only [vOf, stmtOf]
    cases s.cur with
    | none => simp
    | some t =>
      dsimp only
      cases s.code t with
      | nil => simp
      | cons st r => cases st <;> simp
  | _ => simp [vOf, stmtOf]

theorem takes_eq (x : S) (tr : List (State T S L C × Act S L C)) :
    takes x tr = tr.countP fun e => stmtOf e = some (.decCount x) :=
  List.countP_congr fun e _ => by simp only [pOf_iff]

/-- Units are given by threads and by interrupt handlers. -/
theorem gives_eq (x : S) (tr : List (State T S L C × Act S L C)) :
    gives x tr = (tr.countP fun e => stmtOf e = some (.incCount x)) + handled x tr := by
  induction tr with
  | nil => rfl
  | cons e tr ih =>
    have he : (if vOf e = some x then 1 else 0) =
        (if stmtOf e = some (.incCount x) then 1 else 0) + if e.2 = .interrupt x then 1 else 0 := by
      by_cases hx : e.2 = .interrupt x
      · have hn : stmtOf e = none := by simp only [stmtOf, hx]
        simp [vOf_iff, hx, hn]
      · simp [vOf_iff, hx]
    have hg : gives x (e :: tr) = gives x tr + if vOf e = some x then 1 else 0 := by
      simp [gives, List.countP_cons]
    have hh : handled x (e :: tr) = handled x tr + if e.2 = .interrupt x then 1 else 0 := by
      simp [handled, List.countP_cons]
    rw [hg, hh, ih, he, List.countP_cons]
    simp only [decide_eq_true_eq]
    omega

/-- The counts are the initial ones, less the completed calls of `P`, with those of `V` and
none negative; wherever another thread can run, these calls have returned and nobody
sleeps on a semaphore with a unit left; and the assertion of `P` holds. -/
theorem semaphore_correct (threads : List T) (hn : threads.Nodup) (count : S → Int)
    (h0 : ∀ x, 0 ≤ count x) {tr : List (State T S L C × Act S L C)}
    (hr : Run (State.initial threads count) tr s) (hb : Bounded tr) :
    (∀ x, s.count x = count x + completedV x tr s - completedP x tr s ∧ 0 ≤ s.count x) ∧
      s.panic ≠ some .semP ∧
      (s.Open → (∀ x, completedP x tr s = returned (.p x) tr s ∧
        completedV x tr s = returned (.v x) tr s + handled x tr) ∧
        ∀ t ∈ s.sleepers, ∀ x, s.sleepaddr t = some (.sem x) → s.count x = 0) := by
  have hi := Inv.initial (S := S) (L := L) (C := C) hn count
  obtain ⟨h, hc⟩ := SemInv.run' hr hb hi (SemInv.initial threads h0)
  have hcalls (t : T) := Calling.initial (S := S) (L := L) (C := C) (t := t) threads count
  have hstart {c : Call S L C} {st : Stmt S L C} {l : List (Stmt S L C)} (t : T) :
      Placed c st l [] (State.initial threads count) t := fun h => by cases h
  have hp (x : S) := (Effect.p x).passed_eq hi hcalls hstart hr
  have hv (x : S) := (Effect.v x).passed_eq hi hcalls hstart hr
  have hcalling := Calling.run' hcalls hr
  refine ⟨fun x => ⟨?_, h.nonneg x⟩, h.panic.1, fun ho => ⟨fun x => ⟨?_, ?_⟩, ?_⟩⟩
  · rw [hc x, takes_eq, gives_eq, ← (hp x).2, ← (hv x).2]
    rfl
  · exact (Effect.p x).passed_of_open hcalling (hp x).1 ho
  · rw [completedV]
    congr 1
    exact (Effect.v x).passed_of_open hcalling (hv x).1 ho
  · exact fun t ht x => h.zero_of_open (hi.run' hr) ho ht

/-- A thread sleeps in `P`, the other one calls `V` and the first takes the unit;
an interrupt handler gives another. -/
def wokenRun : List (State Bool Unit Unit Unit × Act Unit Unit Unit) ×
    State Bool Unit Unit Unit :=
  (State.initial [false, true] fun _ => 0).acts
    [.dispatch, .exec, .call (.p ()), .exec, .exec, .exec, .dispatch, .exec, .call (.v ()), .exec,
      .exec, .exec, .exec, .exec, .preempt, .dispatch, .exec, .exec, .exec, .exec, .exec,
      .interrupt ()]

theorem semaphore_correct_woken : wokenRun.1.length = 22 ∧ wokenRun.2.count () = (0 : Int) + 2 - 1 ∧
    (returned (.p ()) wokenRun.1 wokenRun.2 = 1 ∧ returned (.v ()) wokenRun.1 wokenRun.2 = 1) ∧
    wokenRun.2.panic ≠ some .semP := by
  have hb : Bounded wokenRun.1 := by
    unfold Bounded
    decide +kernel
  have hc : completedV () wokenRun.1 wokenRun.2 = 2 ∧ completedP () wokenRun.1 wokenRun.2 = 1 := by
    decide +kernel
  have hh : handled () wokenRun.1 = 1 := by decide +kernel
  have hr : Run (State.initial [false, true] fun _ => 0) wokenRun.1 wokenRun.2 := State.run_acts _ _
  obtain ⟨hcount, hp, hopen⟩ :=
    semaphore_correct [false, true] (by decide) _ (fun _ => Int.le_refl 0) hr hb
  have h0 := (hcount ()).1
  have h1 := (hopen (.inr (by decide +kernel))).1 ()
  rw [hc.1, hc.2] at h0
  rw [hc.1, hc.2, hh] at h1
  exact ⟨by decide +kernel, h0, ⟨h1.1.symm, by omega⟩, hp⟩

end Os161.Threads
