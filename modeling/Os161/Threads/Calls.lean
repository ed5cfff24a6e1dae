import Os161.Threads.Invariant

/-! # Calls and their returns

A call is the part of a run from its `.call` event to the first state in which
its thread has no statement left. What a call does is said of that part, whatever
the other threads do in it. -/
set_option linter.unusedSectionVars false

namespace Os161.Threads

variable {T S L C : Type} [DecidableEq T] [DecidableEq S] [DecidableEq L] [DecidableEq C]
  {s s' : State T S L C} {t : T}

/-- Other threads do not change the code a thread has left. -/
theorem code_other {a : Act S L C} (hs : s.step a = some s') (hne : s.cur ≠ some t) :
    s'.code t = s.code t := by
  cases (State.step_cases hs).2 with
  | @exec u st c hc hcode =>
    have hu : t ≠ u := by
      intro hx
      obtain rfl := hx
      exact hne hc
    cases st with
    | wakeone a => simp only [State.exec, State.code_wakeone, upd_other _ _ hu]
    | whileZero | assertCount | panicIf | whileOwned =>
      simp only [State.exec]
      split <;> first | rfl | exact upd_other _ _ hu
    | _ => exact upd_other _ _ hu
  | @call u _ hc _ | @preempt u hc _ =>
    have hu : t ≠ u := by
      intro hx
      obtain rfl := hx
      exact hne hc
    exact upd_other _ _ hu
  | interrupt x hint =>
    simp only [State.interruptV]
    split <;> rfl
  | _ => rfl

theorem code_interruptV (s : State T S L C) (x : S) : (s.interruptV x).code = s.code := by
  simp only [State.interruptV]
  split <;> rfl

theorem Run.append {s₀ s₁ : State T S L C} {tr₁ tr₂ : List (State T S L C × Act S L C)}
    (h₁ : Run s₀ tr₁ s₁) (h₂ : Run s₁ tr₂ s) : Run s₀ (tr₁ ++ tr₂) s := by
  induction h₂ with
  | nil => rwa [List.append_nil]
  | snoc _ hs ih =>
    rw [← List.append_assoc]
    exact .snoc ih hs

/-- The call that thread `t` makes in `s₁` returns in `s`, after `mid`. -/
structure Returns (t : T) (s₁ : State T S L C) (mid : List (State T S L C × Act S L C))
    (s : State T S L C) : Prop where
  caller : s₁.cur = some t
  inside : ∀ e ∈ mid, e.1.code t ≠ []
  done : s.code t = []

/-- What holds as a call begins, and through every step until its return, holds of all of it. -/
theorem Run.call_induct {c : Call S L C} {s₀ s₁ : State T S L C}
    {pre mid : List (State T S L C × Act S L C)} (hr : Run s₀ (pre ++ (s₁, .call c) :: mid) s)
    (hc : s₁.cur = some t) (hin : ∀ e ∈ mid, e.1.code t ≠ [])
    (Q : List (State T S L C × Act S L C) → State T S L C → Prop)
    (start : Run s₀ pre s₁ → s₁.code t = [] → Q [] { s₁ with code := upd s₁.code t c.code })
    (step : ∀ m s₂ s₃ a, Run s₀ (pre ++ (s₁, .call c) :: m) s₂ → s₂.code t ≠ [] → Q m s₂ →
      s₂.step a = some s₃ → Q (m ++ [(s₂, a)]) s₃) : Q mid s := by
  obtain ⟨s₁', hr₁, hr₂⟩ := hr.split
  obtain ⟨rfl, s₂, hs, hr₃⟩ := hr₂.head
  have hstart : Q [] s₂ := by
    cases (State.step_cases hs).2 with
    | call _ hc' hcode =>
      rw [hc] at hc'
      cases hc'
      exact start hr₁ hcode
  clear hr hr₂
  induction hr₃ with
  | nil => exact hstart
  | @snoc s₃ s' m a hr hs' ih =>
    have hQ := ih fun e he => hin e (List.mem_append_left _ he)
    exact step m s₃ s' a (hr₁.append (.cons hs hr))
      (hin (s₃, a) (List.mem_append_right _ List.mem_cons_self)) hQ hs'

/-! ## The calls of a run -/

/-- The call a thread makes in this event. -/
def callOf (e : State T S L C × Act S L C) : Option (T × Call S L C) :=
  match e.2, e.1.cur with
  | .call c, some t => some (t, c)
  | _, _ => none

/-- Thread `t` has come to where at most `n` statements are left. -/
def Reached (n : Nat) (t : T) (tr : List (State T S L C × Act S L C)) (s : State T S L C) : Prop :=
  (∃ e ∈ tr, (e.1.code t).length ≤ n) ∨ (s.code t).length ≤ n

instance (n : Nat) (t : T) (tr : List (State T S L C × Act S L C)) (s : State T S L C) :
    Decidable (Reached n t tr s) :=
  inferInstanceAs (Decidable (_ ∨ _))

/-- How many calls of `c` have come to their last `n` statements. -/
def passed (c : Call S L C) (n : Nat) :
    List (State T S L C × Act S L C) → State T S L C → Nat
  | [], _ => 0
  | e :: tr, s =>
    passed c n tr s +
      match callOf e with
      | some (t, c') => if c' = c ∧ Reached n t tr s then 1 else 0
      | none => 0

/-- How many calls of `c` have returned. -/
def returned (c : Call S L C) (tr : List (State T S L C × Act S L C)) (s : State T S L C) : Nat :=
  passed c 0 tr s

/-- The call of thread `t` in the event `e`, if it has not come to its last `n` statements since. -/
def pendingAt (t : T) (n : Nat) (e : State T S L C × Act S L C)
    (tr : List (State T S L C × Act S L C)) (s : State T S L C) : List (Call S L C) :=
  match callOf e with
  | some (u, c) => if u = t ∧ ¬ Reached n t tr s then [c] else []
  | none => []

/-- The calls of thread `t` that have not come to their last `n` statements. -/
def pending (t : T) (n : Nat) :
    List (State T S L C × Act S L C) → State T S L C → List (Call S L C)
  | [], _ => []
  | e :: tr, s => pendingAt t n e tr s ++ pending t n tr s

variable {n : Nat} {tr : List (State T S L C × Act S L C)} {a : Act S L C} {c c' : Call S L C}

theorem reached_snoc :
    Reached n t (tr ++ [(s, a)]) s' ↔ Reached n t tr s ∨ (s'.code t).length ≤ n := by
  simp only [Reached, List.mem_append, List.mem_singleton, or_and_right, exists_or, exists_eq_left]

theorem pending_of_short (h : (s.code t).length ≤ n) : pending t n tr s = [] := by
  induction tr with
  | nil => rfl
  | cons e tr ih =>
    have hr : Reached n t tr s := .inr h
    rw [pending, ih, List.append_nil, pendingAt]
    cases callOf e with
    | none => rfl
    | some p => simp [hr]

theorem pending_snoc (h : n < (s'.code t).length) : pending t n (tr ++ [(s, a)]) s' =
    pending t n tr s ++
      match callOf (s, a) with
      | some (u, c) => if u = t then [c] else []
      | none => [] := by
  have hn : ¬ (s'.code t).length ≤ n := by omega
  induction tr with
  | nil =>
    have hr : ¬ Reached n t [] s' := by simpa [Reached] using h
    simp only [List.nil_append, pending, pendingAt, hr, not_false_eq_true, and_true,
      List.append_nil]
  | cons e tr ih =>
    rw [List.cons_append, pending, pending, ih, List.append_assoc]
    simp only [pendingAt, reached_snoc, hn, or_false]

/-- A call that has not come so far has not returned either. -/
theorem pendingAt_sublist {e : State T S L C × Act S L C} :
    (pendingAt t n e tr s).Sublist (pendingAt t 0 e tr s) := by
  unfold pendingAt
  cases callOf e with
  | none => exact .slnil
  | some p =>
    have hle : Reached 0 t tr s → Reached n t tr s :=
      Or.imp (fun ⟨e, he, h⟩ => ⟨e, he, h.trans (Nat.zero_le n)⟩) fun h => h.trans (Nat.zero_le n)
    by_cases hr : p.1 = t ∧ ¬ Reached n t tr s
    · have hr0 : p.1 = t ∧ ¬ Reached 0 t tr s := ⟨hr.1, fun h => hr.2 (hle h)⟩
      simp only [hr, hr0, and_self, if_true, not_false_eq_true]
      exact List.Sublist.refl _
    · simp only [hr, if_false]
      exact List.nil_sublist _

theorem pending_sublist : (pending t n tr s).Sublist (pending t 0 tr s) := by
  induction tr with
  | nil => exact .slnil
  | cons e tr ih => exact pendingAt_sublist.append ih

/-- No thread has newly come so far. -/
theorem passed_snoc_same (hshort : ∀ u, (s'.code u).length ≤ n → (s.code u).length ≤ n)
    (hcall : ∀ u, callOf (s, a) = some (u, c) → n < (s'.code u).length) :
    passed c n (tr ++ [(s, a)]) s' = passed c n tr s := by
  induction tr with
  | nil =>
    simp only [List.nil_append, passed, Nat.zero_add]
    cases hx : callOf (s, a) with
    | none => rfl
    | some p =>
      refine if_neg fun h => ?_
      obtain ⟨rfl, hr⟩ := h
      have hlt := hcall p.1 hx
      simp only [Reached, List.not_mem_nil, false_and, exists_false, false_or] at hr
      omega
  | cons e tr ih =>
    rw [List.cons_append, passed, passed, ih]
    cases callOf e with
    | none => rfl
    | some p =>
      have hiff : Reached n p.1 (tr ++ [(s, a)]) s' ↔ Reached n p.1 tr s :=
        reached_snoc.trans ⟨fun h => h.elim id fun h => .inr (hshort _ h), .inl⟩
      simp only [hiff]

/-- Thread `t` alone may have newly come so far. -/
theorem passed_snoc_exec (hother : ∀ u, u ≠ t → s'.code u = s.code u) :
    passed c n (tr ++ [(s, .exec)]) s' =
      passed c n tr s + if (s'.code t).length ≤ n then (pending t n tr s).count c else 0 := by
  induction tr with
  | nil => simp [passed, pending, callOf]
  | cons e tr ih =>
    rw [List.cons_append, passed, passed, pending, pendingAt, ih]
    cases callOf e with
    | none => simp only [List.nil_append, Nat.add_zero]
    | some p =>
      by_cases hp : p.1 = t
      · by_cases hs : (s'.code t).length ≤ n
        · by_cases hr : Reached n t tr s
          · simp only [reached_snoc, hp, hs, hr, true_or, and_true, if_true, not_true, and_false,
              if_false, List.nil_append]
            omega
          · have hp2 : (if p.2 = c then 1 else 0) = [p.2].count c := by
              simp [List.count_singleton]
            simp only [reached_snoc, hp, hs, hr, or_true, and_true, if_true, and_false, if_false,
              not_false_eq_true, List.count_append, hp2]
            omega
        · simp only [reached_snoc, hp, hs, or_false, if_false, Nat.add_zero]
      · have hiff : Reached n p.1 (tr ++ [(s, .exec)]) s' ↔ Reached n p.1 tr s := by
          refine reached_snoc.trans ⟨fun h => h.elim id fun h => .inr ?_, .inl⟩
          rwa [hother p.1 hp] at h
        simp only [hiff, hp, false_and, if_false, List.nil_append]
        omega

/-- The calls that have come so far are the ones that have returned, if no thread has one in
between. -/
theorem passed_eq_returned
    (h : ∀ t, (pending t n tr s).count c = (pending t 0 tr s).count c) :
    passed c n tr s = returned c tr s := by
  rw [returned]
  induction tr with
  | nil => rfl
  | cons e tr ih =>
    have hsplit (t : T) : (pending t n tr s).count c = (pending t 0 tr s).count c ∧
        (pendingAt t n e tr s).count c = (pendingAt t 0 e tr s).count c := by
      have ht := h t
      rw [pending, pending, List.count_append, List.count_append] at ht
      have htail : (pending t n tr s).count c ≤ (pending t 0 tr s).count c :=
        pending_sublist.count_le c
      have hhead : (pendingAt t n e tr s).count c ≤ (pendingAt t 0 e tr s).count c :=
        pendingAt_sublist.count_le c
      omega
    rw [passed, passed, ih fun t => (hsplit t).1]
    congr 1
    cases hx : callOf e with
    | none => rfl
    | some p =>
      have hp := (hsplit p.1).2
      rw [pendingAt, pendingAt, hx] at hp
      by_cases hc : p.2 = c
      · by_cases hn : Reached n p.1 tr s <;> by_cases h0 : Reached 0 p.1 tr s <;>
          simp_all
      · simp only [hc, false_and, if_false]

/-! ## A thread in a call -/

/-- The code after a statement: the rest; the same again after a panic; or a turn of its loop. -/
theorem code_exec {st : Stmt S L C} {r : List (Stmt S L C)} (hcode : s.code t = st :: r) :
    (s.exec t r st).code t = r ∨ (s.exec t r st).code t = st :: r ∨
      ∃ b, (s.exec t r st).code t = .sleep b :: .wake :: st :: r ∧
        ((∃ x, st = .whileZero x) ∨ ∃ l, st = .whileOwned l) := by
  cases st with
  | wakeone b => exact .inl (by simp only [State.exec, State.code_wakeone, upd_same])
  | whileZero x =>
    by_cases h : s.count x = 0
    · exact .inr (.inr ⟨.sem x, by simp only [State.exec, h, if_true, upd_same], .inl ⟨x, rfl⟩⟩)
    · exact .inl (by simp only [State.exec, h, if_false, upd_same])
  | whileOwned l =>
    by_cases h : s.owner l = none
    · exact .inl (by simp only [State.exec, h, ne_eq, not_true, if_false, upd_same])
    · exact .inr (.inr ⟨.lock l, by simp only [State.exec, ne_eq, h, not_false_eq_true, if_true,
        upd_same], .inr ⟨l, rfl⟩⟩)
  | assertCount x m =>
    by_cases h : s.count x > 0
    · exact .inl (by simp only [State.exec, h, if_true, upd_same])
    · exact .inr (.inl (by simpa only [State.exec, h, if_false] using hcode))
  | panicIf b m =>
    by_cases h : s.held t = b
    · exact .inr (.inl (by simpa only [State.exec, h, if_true] using hcode))
    · exact .inl (by simp only [State.exec, h, if_false, upd_same])
  | _ => exact .inl (upd_same _ _ _)

theorem code_exec_other {st : Stmt S L C} {r : List (Stmt S L C)} {u : T} (hu : u ≠ t) :
    (s.exec t r st).code u = s.code u := by
  cases st with
  | wakeone b => simp only [State.exec, State.code_wakeone, upd_other _ _ hu]
  | whileZero | assertCount | panicIf | whileOwned =>
    simp only [State.exec]
    split <;> first | rfl | exact upd_other _ _ hu
  | _ => exact upd_other _ _ hu

/-- A statement of the call `c`, or one that the machine puts before them. -/
def Of (c : Call S L C) (st : Stmt S L C) : Prop :=
  st ∈ c.code ∨ st = .splx ∨ st = .wake ∨ ∃ b, st = .sleep b

/-- A thread has at most one call pending, and its code is of that call. -/
def Calling (tr : List (State T S L C × Act S L C)) (s : State T S L C) (t : T) : Prop :=
  (pending t 0 tr s = [] ∧ ∀ st ∈ s.code t, st = .splx) ∨
    ∃ c, pending t 0 tr s = [c] ∧ ∀ st ∈ s.code t, Of c st

theorem Calling.initial (threads : List T) (count : S → Int) :
    Calling [] (State.initial threads count : State T S L C) t :=
  .inl ⟨rfl, fun _ hst => List.mem_singleton.mp hst⟩

/-- The thread makes no call, and its code gets no statements but `splx`, `sleep` and `wake`. -/
theorem Calling.goOn (h : Calling tr s t) (hcall : ∀ c, callOf (s, a) ≠ some (t, c))
    (hst : ∀ st ∈ s'.code t, st ∈ s.code t ∨ st = .splx ∨
      (∃ x, st = .wake ∨ st = .sleep x) ∧ ∃ st ∈ s.code t, st ≠ .splx) :
    Calling (tr ++ [(s, a)]) s' t := by
  by_cases hnil : (s'.code t).length ≤ 0
  · refine .inl ⟨pending_of_short hnil, fun st hm => ?_⟩
    rw [List.eq_nil_of_length_eq_zero (Nat.le_zero.mp hnil)] at hm
    cases hm
  have hp : pending t 0 (tr ++ [(s, a)]) s' = pending t 0 tr s := by
    rw [pending_snoc (by omega)]
    cases hx : callOf (s, a) with
    | none => exact List.append_nil _
    | some p =>
      have hne : p.1 ≠ t := by
        intro ht
        subst ht
        exact hcall p.2 hx
      simp only [hne, if_false, List.append_nil]
  rcases h with ⟨h0, hsplx⟩ | ⟨c, h0, hof⟩
  · refine .inl ⟨hp.trans h0, fun st hm => ?_⟩
    rcases hst st hm with hm | hm | ⟨-, st', hm, hne⟩
    · exact hsplx st hm
    · exact hm
    · exact absurd (hsplx st' hm) hne
  · refine .inr ⟨c, hp.trans h0, fun st hm => ?_⟩
    rcases hst st hm with hm | hm | ⟨⟨x, hm | hm⟩, -⟩
    · exact hof st hm
    · exact .inr (.inl hm)
    · exact .inr (.inr (.inl hm))
    · exact .inr (.inr (.inr ⟨x, hm⟩))

theorem Calling.step (h : Calling tr s t) (hs : s.step a = some s') :
    Calling (tr ++ [(s, a)]) s' t := by
  by_cases hcur : s.cur = some t
  · cases (State.step_cases hs).2 with
    | @exec _ st r hc hcode =>
      rw [hcur] at hc
      cases hc
      refine h.goOn (by simp [callOf]) fun st' hm => ?_
      rw [hcode]
      rcases code_exec hcode with hr | hr | ⟨b, hr, hloop⟩ <;> rw [hr] at hm
      · exact .inl (List.mem_cons_of_mem st hm)
      · exact .inl hm
      · have hne : st ≠ .splx := by rcases hloop with ⟨x, rfl⟩ | ⟨l, rfl⟩ <;> simp
        rcases List.mem_cons.mp hm with rfl | hm
        · exact .inr (.inr ⟨⟨b, .inr rfl⟩, st, List.mem_cons_self, hne⟩)
        rcases List.mem_cons.mp hm with rfl | hm
        · exact .inr (.inr ⟨⟨b, .inl rfl⟩, st, List.mem_cons_self, hne⟩)
        · exact .inl hm
    | @call _ c hc hcode =>
      rw [hcur] at hc
      cases hc
      refine .inr ⟨c, ?_, ?_⟩
      · rw [pending_snoc (by cases c <;> simp [upd_same, Call.code, P, V, lockAcquire, lockRelease,
          lockDoIHold, cvWait, cvSignal, cvBroadcast]), pending_of_short (by simp [hcode])]
        simp [callOf, hcur]
      · intro st hm
        simp only [upd_same] at hm
        exact .inl hm
    | exit hc hcode => exact h.goOn (by simp [callOf]) fun st hm => .inl hm
    | preempt hc hh =>
      rw [hcur] at hc
      cases hc
      refine h.goOn (by simp [callOf]) fun st hm => ?_
      simp only [State.preempt, upd_same] at hm
      rcases List.mem_cons.mp hm with rfl | hm
      · exact .inr (.inl rfl)
      · exact .inl hm
    | interrupt x hint =>
      refine h.goOn (by simp [callOf]) fun st hm => .inl ?_
      rwa [code_interruptV] at hm
    | dispatch hc hr =>
      rw [hcur] at hc
      cases hc
  · refine h.goOn (fun c hc => ?_) fun st hm => .inl ?_
    · unfold callOf at hc
      split at hc
      · next hu =>
        cases hc
        exact hcur hu
      · cases hc
    · rwa [code_other hs hcur] at hm

theorem Calling.run' {s₀ : State T S L C} (h : ∀ t, Calling [] s₀ t) (hr : Run s₀ tr s) (t : T) :
    Calling tr s t := by
  induction hr with
  | nil => exact h t
  | snoc _ hs ih => exact ih.step hs

/-- A pending call is one that the thread has made and not returned from. -/
theorem of_mem_pending (h : c ∈ pending t 0 tr s) : ∃ pre s₁ mid, tr = pre ++ (s₁, .call c) :: mid ∧
    s₁.cur = some t ∧ (∀ e ∈ mid, e.1.code t ≠ []) ∧ s.code t ≠ [] := by
  induction tr with
  | nil => cases h
  | cons e tr ih =>
    rcases List.mem_append.mp h with h | h
    · unfold pendingAt at h
      split at h
      · next u c' he =>
        split at h
        · next hr =>
          obtain rfl := List.mem_singleton.mp h
          obtain ⟨rfl, hr⟩ := hr
          rw [Reached, not_or] at hr
          refine ⟨[], e.1, tr, ?_, ?_, fun e' he' hnil => hr.1 ⟨e', he', ?_⟩, fun hnil => hr.2 ?_⟩
          · unfold callOf at he
            split at he
            · next ha hc =>
              cases he
              rw [List.nil_append, ← ha]
            · cases he
          · unfold callOf at he
            split at he
            · next ha hc =>
              cases he
              exact hc
            · cases he
          · simp [hnil]
          · simp [hnil]
        · cases h
      · cases h
    · obtain ⟨pre, s₁, mid, rfl, hrest⟩ := ih h
      exact ⟨e :: pre, s₁, mid, rfl, hrest⟩

/-! ## A call with one effect -/

/-- `c` changes a count in the statement `st` and nowhere else; after it come `l` and
the `splx` of the call. -/
structure Effect (c : Call S L C) (st : Stmt S L C) (l : List (Stmt S L C)) : Prop where
  count : (∃ x, st = .decCount x) ∨ ∃ x, st = .incCount x
  code : ∃ p, c.code = p ++ st :: (l ++ [.splx]) ∧ st ∉ p
  straight : ∀ st' ∈ l, st' ≠ st ∧ ((∃ x m, st' = .assertCount x m) ∨ ∃ b, st' = .wakeup b)
  own : ∀ c', st ∈ c'.code → c' = c

theorem Effect.p (x : S) : Effect (.p x : Call S L C) (.decCount x) [] where
  count := .inl ⟨x, rfl⟩
  code := ⟨[.splhigh, .whileZero x, .assertCount x .semP], rfl, by simp⟩
  straight := by simp
  own c' h := by
    cases c' <;>
      simp_all [Call.code, P, V, lockAcquire, lockRelease, lockDoIHold, cvWait, cvSignal,
        cvBroadcast]

theorem Effect.v (x : S) :
    Effect (.v x : Call S L C) (.incCount x) [.assertCount x .semV, .wakeup (.sem x)] where
  count := .inr ⟨x, rfl⟩
  code := ⟨[.splhigh], rfl, by simp⟩
  straight := by simp
  own c' h := by
    cases c' <;>
      simp_all [Call.code, P, V, lockAcquire, lockRelease, lockDoIHold, cvWait, cvSignal,
        cvBroadcast]

/-- Where a thread in the call stands: before the effect, or after it and still the current
one, with interrupts off. -/
def Placed (c : Call S L C) (st : Stmt S L C) (l : List (Stmt S L C))
    (tr : List (State T S L C × Act S L C)) (s : State T S L C) (t : T) : Prop :=
  pending t 0 tr s = [c] →
    (pending t (l.length + 1) tr s = [c] ∧
      ∃ p, s.code t = p ++ st :: (l ++ [.splx]) ∧ st ∉ p) ∨
    (pending t (l.length + 1) tr s = [] ∧ s.code t ≠ [] ∧ s.code t <:+ l ++ [.splx] ∧
      s.cur = some t ∧ s.high = true)

namespace Effect

variable {st : Stmt S L C} {l : List (Stmt S L C)} (he : Effect c st l)
include he

theorem ne_splx : st ≠ .splx := by rcases he.count with ⟨x, rfl⟩ | ⟨x, rfl⟩ <;> simp

theorem not_mem_tail : st ∉ l ++ [.splx] := by
  intro h
  rcases List.mem_append.mp h with h | h
  · exact (he.straight st h).1 rfl
  · exact he.ne_splx (List.mem_singleton.mp h)

/-- The code before the effect is longer than what follows it. -/
theorem long {p : List (Stmt S L C)} : l.length + 1 < (p ++ st :: (l ++ [.splx])).length := by
  simp only [List.length_append, List.length_cons, List.length_nil]
  omega

/-- The effect only goes on. -/
theorem exec_eq {r : List (Stmt S L C)} : (s.exec t r st).code t = r ∧
    (s.exec t r st).cur = s.cur ∧ (s.exec t r st).high = s.high := by
  rcases he.count with ⟨x, rfl⟩ | ⟨x, rfl⟩ <;> exact ⟨upd_same _ _ _, rfl, rfl⟩

theorem placed_other (h : Placed c st l tr s t) (hcur : s.cur ≠ some t)
    (hs : s.step a = some s') : Placed c st l (tr ++ [(s, a)]) s' t := by
  have hcode := code_other hs hcur
  have hcall : (match callOf (s, a) with
      | some (u, c) => if u = t then [c] else []
      | none => []) = [] := by
    cases hx : callOf (s, a) with
    | none => rfl
    | some p =>
      refine if_neg fun hp => hcur ?_
      unfold callOf at hx
      split at hx
      · next hu =>
        cases hx
        rwa [← hp]
      · cases hx
  have hsame (m : Nat) : pending t m (tr ++ [(s, a)]) s' = pending t m tr s := by
    by_cases hm : (s'.code t).length ≤ m
    · rw [pending_of_short hm, pending_of_short (by rwa [← hcode])]
    · rw [pending_snoc (by omega), hcall, List.append_nil]
  intro h0
  rw [hsame] at h0 ⊢
  rcases h h0 with h | ⟨-, -, -, hc, -⟩
  · rw [hcode]
    exact .inl h
  · exact absurd hc hcur

theorem placed_call (hcur : s.cur = some t) (hcode : s.code t = []) (hnew : s'.code t = c'.code) :
    Placed c st l (tr ++ [(s, .call c')]) s' t := by
  intro h0
  have hnil (m : Nat) : pending t m tr s = [] := pending_of_short (by simp [hcode])
  have hpos : 0 < (s'.code t).length := by
    by_contra hle
    rw [pending_of_short (by omega)] at h0
    cases h0
  obtain rfl : c' = c := by
    rw [pending_snoc hpos, hnil] at h0
    simpa [callOf, hcur] using h0
  obtain ⟨p, hp, hst⟩ := he.code
  refine .inl ⟨?_, p, hnew.trans hp, hst⟩
  rw [pending_snoc (by rw [hnew, hp]; exact he.long), hnil]
  simp [callOf, hcur]

theorem placed_exec (hi : Inv s) (h : Placed c st l tr s t) (hcur : s.cur = some t)
    {st' : Stmt S L C} {r : List (Stmt S L C)} (hcode : s.code t = st' :: r) :
    Placed c st l (tr ++ [(s, .exec)]) (s.exec t r st') t := by
  intro h0
  have hlen : 0 < ((s.exec t r st').code t).length := by
    by_contra hle
    rw [pending_of_short (by omega)] at h0
    cases h0
  have hsnoc (m : Nat) (hm : m < ((s.exec t r st').code t).length) :
      pending t m (tr ++ [(s, .exec)]) (s.exec t r st') = pending t m tr s := by
    rw [pending_snoc hm]
    simp [callOf]
  rw [hsnoc 0 hlen] at h0
  rcases h h0 with ⟨hn, p, hp, hst⟩ | ⟨hn, -, hsuf, -, hh⟩
  · cases p with
    | nil =>
      -- the effect itself
      obtain ⟨rfl, rfl⟩ := List.cons.inj (hcode.symm.trans hp)
      obtain ⟨hr, hc, hh⟩ := he.exec_eq (s := s) (t := t) (r := l ++ [.splx])
      have hl := hi.run t hcur
      rw [hcode] at hl
      refine .inr ⟨pending_of_short (by rw [hr]; simp), by simp [hr],
        (List.suffix_refl _).trans (by rw [hr]),
        hc.trans hcur, ?_⟩
      rw [hh]
      rcases he.count with ⟨x, rfl⟩ | ⟨x, rfl⟩ <;> exact hl.1
    | cons st₀ p =>
      rw [List.cons_append] at hp
      obtain ⟨rfl, rfl⟩ := List.cons.inj (hcode.symm.trans hp)
      have hbefore : ∃ p', (s.exec t (p ++ st :: (l ++ [.splx])) st').code t =
          p' ++ st :: (l ++ [.splx]) ∧ st ∉ p' := by
        rcases code_exec hcode with hr | hr | ⟨b, hr, -⟩
        · exact ⟨p, hr, fun hm => hst (List.mem_cons_of_mem _ hm)⟩
        · exact ⟨st' :: p, hr, hst⟩
        · refine ⟨.sleep b :: .wake :: st' :: p, hr, ?_⟩
          rcases he.count with ⟨x, rfl⟩ | ⟨x, rfl⟩ <;> simpa using hst
      obtain ⟨p', hp', hst'⟩ := hbefore
      exact .inl ⟨(hsnoc _ (by rw [hp']; exact he.long)).trans hn, p', hp', hst'⟩
  · rw [hcode] at hsuf
    -- after the effect, the thread goes straight on to its `splx`
    have hmem : st' ∈ l ++ [.splx] := hsuf.mem List.mem_cons_self
    have hr : r <:+ l ++ [.splx] := (List.suffix_cons st' r).trans hsuf
    rcases List.mem_append.mp hmem with hm | hm
    · have hnew : (s.exec t r st').code t = r ∨ (s.exec t r st').code t = st' :: r := by
        rcases code_exec hcode with hr | hr | ⟨b, -, ⟨x, rfl⟩ | ⟨x, rfl⟩⟩
        · exact .inl hr
        · exact .inr hr
        · rcases (he.straight _ hm).2 with ⟨y, m, hy⟩ | ⟨b, hy⟩ <;> cases hy
        · rcases (he.straight _ hm).2 with ⟨y, m, hy⟩ | ⟨b, hy⟩ <;> cases hy
      have hsuf' : (s.exec t r st').code t <:+ l ++ [.splx] := by
        rcases hnew with hnew | hnew <;> rw [hnew]
        · exact hr
        · exact hsuf
      refine .inr ⟨pending_of_short ?_, List.ne_nil_of_length_pos hlen, hsuf', ?_, ?_⟩
      · have := hsuf'.length_le
        simpa using this
      · rcases (he.straight _ hm).2 with ⟨y, m, rfl⟩ | ⟨b, rfl⟩
        · simp only [State.exec]
          split <;> exact hcur
        · exact hcur
      · rcases (he.straight _ hm).2 with ⟨y, m, rfl⟩ | ⟨b, rfl⟩
        · simp only [State.exec]
          split <;> exact hh
        · exact hh
    · -- `splx` is the last statement
      obtain rfl := List.mem_singleton.mp hm
      exfalso
      have hnew : (s.exec t r .splx).code t = r := upd_same _ _ _
      obtain ⟨q, hq⟩ := hsuf
      have hr0 : r = [] := by
        rcases List.eq_nil_or_concat r with h0 | ⟨r', x, rfl⟩
        · exact h0
        · have happ : (q ++ .splx :: r') ++ [x] = l ++ [.splx] := by
            rw [← hq]
            simp
          have hin : (.splx : Stmt S L C) ∈ l := by
            rw [← (List.append_inj' happ rfl).1]
            simp
          rcases (he.straight _ hin).2 with ⟨y, m, hy⟩ | ⟨b, hy⟩ <;> cases hy
      rw [hnew, hr0] at hlen
      simp at hlen

theorem placed_step (hi : Inv s) (h : Placed c st l tr s t) (hs : s.step a = some s') :
    Placed c st l (tr ++ [(s, a)]) s' t := by
  by_cases hcur : s.cur = some t
  swap
  · exact he.placed_other h hcur hs
  -- an event in which the thread has statements left and gets only a `splx` before them
  have hkeep (hcall : callOf (s, a) = none) (hcode : s'.code t = s.code t ∨
      s'.code t = .splx :: s.code t) (hh : s.high = false ∨ s.code t = []) :
      Placed c st l (tr ++ [(s, a)]) s' t := by
    intro h0
    have hpos : 0 < (s'.code t).length := by
      by_contra hle
      rw [pending_of_short (by omega)] at h0
      cases h0
    have hsnoc (m : Nat) (hm : m < (s'.code t).length) :
        pending t m (tr ++ [(s, a)]) s' = pending t m tr s := by
      rw [pending_snoc hm, hcall]
      exact List.append_nil _
    rw [hsnoc 0 hpos] at h0
    rcases h h0 with ⟨hn, p, hp, hst⟩ | ⟨-, hne, -, -, hhigh⟩
    · have hbefore : ∃ p', s'.code t = p' ++ st :: (l ++ [.splx]) ∧ st ∉ p' := by
        rcases hcode with hcode | hcode
        · exact ⟨p, hcode.trans hp, hst⟩
        · refine ⟨.splx :: p, by rw [hcode, hp]; rfl, ?_⟩
          rw [List.mem_cons, not_or]
          exact ⟨he.ne_splx, hst⟩
      obtain ⟨p', hp', hst'⟩ := hbefore
      exact .inl ⟨(hsnoc _ (by rw [hp']; exact he.long)).trans hn, p', hp', hst'⟩
    · rcases hh with hh | hh
      · rw [hh] at hhigh
        cases hhigh
      · exact absurd hh hne
  cases (State.step_cases hs).2 with
  | exec hc hcode =>
    rw [hcur] at hc
    cases hc
    exact he.placed_exec hi h hcur hcode
  | call c' hc hcode =>
    rw [hcur] at hc
    cases hc
    exact he.placed_call hcur hcode (upd_same _ _ _)
  | exit hc hcode =>
    rw [hcur] at hc
    cases hc
    exact hkeep (by simp [callOf]) (.inl rfl) (.inr hcode)
  | preempt hc hh =>
    rw [hcur] at hc
    cases hc
    exact hkeep (by simp [callOf]) (.inr (upd_same _ _ _)) (.inl hh)
  | interrupt x hint =>
    refine hkeep (by simp [callOf]) (.inl (by rw [code_interruptV])) (.inl ?_)
    simpa only [State.interruptible, hcur, Bool.not_eq_true'] using hint
  | dispatch hc hr =>
    rw [hcur] at hc
    cases hc

end Effect

/-- The statement executed in this event. -/
def stmtOf (e : State T S L C × Act S L C) : Option (Stmt S L C) :=
  match e.2, e.1.cur with
  | .exec, some t => (e.1.code t).head?
  | _, _ => none

namespace Effect

variable {st : Stmt S L C} {l : List (Stmt S L C)} (he : Effect c st l)
include he

/-- A call comes to its last statements exactly where it has its effect. -/
theorem passed_step (hcalling : ∀ t, Calling tr s t)
    (hplaced : ∀ t, Placed c st l tr s t) (hs : s.step a = some s') :
    passed c (l.length + 1) (tr ++ [(s, a)]) s' =
      passed c (l.length + 1) tr s + if stmtOf (s, a) = some st then 1 else 0 := by
  cases (State.step_cases hs).2 with
  | @exec t st' r hcur hcode =>
    rw [passed_snoc_exec (t := t) fun u hu => code_exec_other hu]
    have hstmt : stmtOf (s, .exec) = some st' := by simp only [stmtOf, hcur, hcode, List.head?_cons]
    rw [hstmt]
    congr 1
    -- no effect of a thread that makes another call, or none
    have hother (hp : (pending t 0 tr s).count c = 0) (hne : st' ≠ st) :
        (if ((s.exec t r st').code t).length ≤ l.length + 1 then
          (pending t (l.length + 1) tr s).count c else 0) =
            if some st' = some st then 1 else 0 := by
      have h0 : (pending t (l.length + 1) tr s).count c = 0 :=
        Nat.le_zero.mp (hp ▸ pending_sublist.count_le c)
      simp only [h0, ite_self, Option.some.injEq, hne, if_false]
    rcases hcalling t with ⟨h0, hsplx⟩ | ⟨c', h0, hof⟩
    · refine hother (by rw [h0]; rfl) ?_
      rw [hsplx st' (hcode ▸ List.mem_cons_self)]
      exact he.ne_splx.symm
    by_cases hc' : c' = c
    swap
    · refine hother (by rw [h0]; exact List.count_singleton.trans (if_neg (by simpa using hc'))) ?_
      rintro rfl
      rcases hof st' (hcode ▸ List.mem_cons_self) with hm | hm | hm | ⟨b, hm⟩
      · exact hc' (he.own c' hm)
      · exact he.ne_splx hm
      · rcases he.count with ⟨x, rfl⟩ | ⟨x, rfl⟩ <;> cases hm
      · rcases he.count with ⟨x, rfl⟩ | ⟨x, rfl⟩ <;> cases hm
    subst hc'
    rcases hplaced t h0 with ⟨hn, p, hp, hst⟩ | ⟨hn, -, hsuf, -, -⟩
    · cases p with
      | nil =>
        obtain ⟨rfl, rfl⟩ := List.cons.inj (hcode.symm.trans hp)
        rw [he.exec_eq.1, hn]
        simp
      | cons st₀ p =>
        rw [List.cons_append] at hp
        obtain ⟨rfl, rfl⟩ := List.cons.inj (hcode.symm.trans hp)
        have hne : st' ≠ st := fun h => hst (h ▸ List.mem_cons_self)
        have hlong : ¬ ((s.exec t (p ++ st :: (l ++ [.splx])) st').code t).length ≤
          l.length + 1 := by
          have := he.long (p := p)
          rcases code_exec hcode with hr | hr | ⟨b, hr, -⟩ <;>
            · rw [hr]
              grind
        simp only [hlong, if_false, Option.some.injEq, hne]
    · have hne : st' ≠ st := by
        rintro rfl
        rw [hcode] at hsuf
        exact he.not_mem_tail (hsuf.mem List.mem_cons_self)
      simp [hn, hne]
  | @call t c' hcur hcode =>
    refine passed_snoc_same (fun u hu => ?_) fun u hu => ?_
    · by_cases hut : u = t
      · subst hut
        simp [hcode]
      · simpa only [upd_other _ _ hut] using hu
    · simp only [callOf, hcur, Option.some.injEq, Prod.mk.injEq] at hu
      obtain ⟨rfl, rfl⟩ := hu
      obtain ⟨p, hp, -⟩ := he.code
      simp only [upd_same, hp]
      exact he.long
  | @preempt t hcur hh =>
    refine passed_snoc_same (fun u hu => ?_) (by simp [callOf])
    by_cases hut : u = t
    · subst hut
      simp only [State.preempt, upd_same, List.length_cons] at hu
      omega
    · simpa only [State.preempt, upd_other _ _ hut] using hu
  | interrupt x hint =>
    refine passed_snoc_same (fun u hu => ?_) (by simp [callOf])
    rwa [code_interruptV] at hu
  | exit | dispatch => exact passed_snoc_same (fun u hu => hu) (by simp [callOf])

/-- The effects of a run are those of its calls that have come so far. -/
theorem passed_eq {s₀ : State T S L C} (hi : Inv s₀) (hc : ∀ t, Calling [] s₀ t)
    (hp : ∀ t, Placed c st l [] s₀ t) (hr : Run s₀ tr s) :
    (∀ t, Placed c st l tr s t) ∧
      passed c (l.length + 1) tr s = tr.countP fun e => stmtOf e = some st := by
  induction hr with
  | nil => exact ⟨hp, rfl⟩
  | @snoc s₁ s' tr a hr hs ih =>
    have hi₁ := hi.run' hr
    refine ⟨fun t => he.placed_step hi₁ (ih.1 t) hs, ?_⟩
    rw [he.passed_step (Calling.run' hc hr) ih.1 hs, ih.2, List.countP_append]
    simp [List.countP_cons]

/-- Wherever another thread can run, the calls that have had their effect have returned. -/
theorem passed_of_open (hcalling : ∀ t, Calling tr s t) (hplaced : ∀ t, Placed c st l tr s t)
    (ho : s.Open) : passed c (l.length + 1) tr s = returned c tr s := by
  refine passed_eq_returned fun t => ?_
  rcases hcalling t with ⟨h0, -⟩ | ⟨c', h0, -⟩
  · have hn : pending t (l.length + 1) tr s = [] := List.sublist_nil.mp (h0 ▸ pending_sublist)
    rw [h0, hn]
  · by_cases hc : c' = c
    · subst hc
      rcases hplaced t h0 with ⟨hn, -⟩ | ⟨-, -, -, hcur, hh⟩
      · rw [hn, h0]
      · rcases ho with ho | ho
        · rw [hcur] at ho
          cases ho
        · rw [hh] at ho
          cases ho
    · have h0' : (pending t 0 tr s).count c = 0 := by
        rw [h0]
        exact List.count_singleton.trans (if_neg (by simpa using hc))
      rw [h0']
      exact Nat.le_zero.mp (h0' ▸ pending_sublist.count_le c)

end Effect

end Os161.Threads
