import Os161.Dev.LhdSerial

/-! # Every call of the driver returns

Whatever the threads have come to, those in `lhd_io` can still get out of it without a further
call. The thread with the unit of `lh_clear` ends its round, by way of the completion of its
operation and of the interrupt for it, and gives the unit up; the next one takes it. -/
namespace Os161.Dev
open Os161.Runs

section Served

variable {T B : Type} [DecidableEq T]

/-- The call a thread is in. -/
def Pc.call : Pc T B → Option Call
  | .enter c => some c
  | p => p.frame.map (·.call)

/-- The steps where nobody calls, the controller ends operations with `code`, and the transfers
of `uiomove` with `moved`. -/
def Act.Serves (code : Code) (moved : Option Errno) : Act T B → Prop
  | .call _ _ => False
  | .exec _ m _ => m = moved
  | .complete _ c _ _ => c = code
  | .irq => True

/-- The call of a thread has returned since `s₀`. -/
def Returned (t : T) (c : Call) (s₀ s : State T B) : Prop :=
  s.pc t = .out ∧ ∃ new, s.answers = new ++ s₀.answers ∧ ∃ a ∈ new, a.thread = t ∧ a.call = c

/-- One operation at a time, each round of a call is a wait for its operation, and no call is
stuck. -/
structure Served (dBlocks : UInt32) (s : State T B) : Prop extends Serialised dBlocks s where
  rounds : ∀ a ∈ s.answers, ∀ r ∈ a.past, (r.op, r.completion) ∈ s.waits
  returns : ∀ t c code moved, (s.pc t).call = some c →
    Leads (step dBlocks) (Act.Serves code moved) (Returned t c s) s

end Served

section Rounds

variable {T B : Type} {s s' : State T B} {t : T} {f : Frame T B} {p : Pc T B}

/-! ## Rounds and waits -/

def Round.wait (r : Round T B) : Op T × Option (Completion T B) := (r.op, r.completion)

/-- The waits a thread has behind it in its call. -/
def Pc.waited : Pc T B → List (Op T × Option (Completion T B))
  | .out | .enter _ => []
  | .pClear f | .sleepClear f | .fill f | .failed f _ | .setSect f | .setStat f | .pDone f _
  | .sleepDone f _ => f.past.map Round.wait
  | .getResult f op done | .moveOut f op done => (op, done) :: f.past.map Round.wait
  | .clear f r => r.wait :: f.past.map Round.wait

structure Recorded (s : State T B) : Prop where
  pcs : ∀ t, (s.pc t).waited ⊆ s.waits
  answers : ∀ a ∈ s.answers, a.past.map Round.wait ⊆ s.waits

theorem wakeClear_waited (p : Pc T B) : p.wakeClear.waited = p.waited := by cases p <;> rfl
theorem wakeDone_waited (p : Pc T B) : p.wakeDone.waited = p.waited := by cases p <;> rfl

theorem Recorded.vClear (h : Recorded s) : Recorded s.vClear where
  pcs t := by
    simp only [State.vClear, wakeClear_waited]
    exact h.pcs t
  answers := h.answers

theorem Recorded.irq (h : Recorded s) : Recorded s.lhdIrq := by
  simp only [State.lhdIrq]
  split
  · refine ⟨fun t => ?_, h.answers⟩
    simp only [State.vDone, wakeDone_waited]
    exact h.pcs t
  · exact h

variable [DecidableEq T]

theorem Recorded.goto (h : Recorded s) (hp : p.waited ⊆ s.waits) : Recorded (s.goto t p) where
  pcs u := by
    by_cases hu : u = t
    · subst hu
      simpa only [State.goto, upd_same] using hp
    · simpa only [State.goto, upd_other _ _ hu] using h.pcs u
  answers := h.answers

theorem Recorded.ret {result fault : Option Errno} (h : Recorded s)
    (hp : f.past.map Round.wait ⊆ s.waits) : Recorded (s.ret t f result fault) where
  pcs := (h.goto (t := t) (p := .out) (List.nil_subset _)).pcs
  answers a ha := by
    rcases List.mem_cons.mp ha with rfl | ha
    · exact hp
    · exact h.answers a ha

theorem Recorded.loop (h : Recorded s) (hp : f.past.map Round.wait ⊆ s.waits) :
    Recorded (s.loop t f) := by
  unfold State.loop
  split
  · exact h.goto hp
  · exact h.ret hp

theorem Recorded.exec {dBlocks : UInt32} {moved : Option Errno} {data : B} (h : Recorded s)
    (hexec : s.exec dBlocks t moved data = some s') : Recorded s' := by
  have hwaited := h.pcs t
  -- what no step of a thread depends on
  have hlh (lh : Lh T B) : Recorded { s with lh } := ⟨h.pcs, h.answers⟩
  unfold State.exec at hexec
  cases hp : s.pc t with
  | out => simp only [hp] at hexec; cases hexec
  | sleepClear f => simp only [hp] at hexec; cases hexec
  | sleepDone f op => simp only [hp] at hexec; cases hexec
  | enter c =>
    simp only [hp] at hexec
    cases hexec
    split
    · exact h.ret (List.nil_subset _)
    · exact h.loop (List.nil_subset _)
  | pClear f =>
    simp only [hp] at hexec hwaited
    cases hexec
    split
    · exact h.goto hwaited
    · refine (hlh _).goto ?_
      split <;> exact hwaited
  | fill f =>
    simp only [hp] at hexec hwaited
    cases hexec
    refine (hlh _).goto ?_
    split <;> exact hwaited
  | failed f e =>
    simp only [hp] at hexec hwaited
    cases hexec
    exact h.vClear.ret hwaited
  | setSect f =>
    simp only [hp] at hexec hwaited
    cases hexec
    exact (hlh _).goto hwaited
  | setStat f =>
    simp only [hp] at hexec hwaited
    cases hexec
    exact (hlh _).goto hwaited
  | pDone f op =>
    simp only [hp] at hexec hwaited
    cases hexec
    split
    · exact h.goto hwaited
    · have hmore {w} : s.waits ⊆ w :: s.waits := List.subset_cons_self _ _
      refine Recorded.goto ⟨fun u => List.Subset.trans (h.pcs u) hmore, fun a ha => ?_⟩ ?_
      · exact List.Subset.trans (h.answers a ha) hmore
      · exact List.cons_subset.mpr ⟨List.mem_cons_self, List.Subset.trans hwaited hmore⟩
  | getResult f op done =>
    simp only [hp] at hexec hwaited
    cases hexec
    refine h.goto ?_
    split <;> exact hwaited
  | moveOut f op done =>
    simp only [hp] at hexec hwaited
    cases hexec
    exact h.goto hwaited
  | clear f r =>
    simp only [hp] at hexec hwaited
    cases hexec
    cases r.result with
    | some e => exact h.vClear.ret hwaited
    | none => exact h.vClear.loop hwaited

theorem Recorded.step {dBlocks : UInt32} {a : Act T B} (h : Recorded s)
    (hstep : step dBlocks s a = some s') : Recorded s' := by
  cases a with
  | call t c =>
    simp only [Dev.step] at hstep
    split at hstep
    · cases hstep
      exact h.goto (List.nil_subset _)
    · cases hstep
  | exec t moved data => exact h.exec hstep
  | complete i code flag junk =>
    obtain ⟨lh, -, rfl⟩ := Option.map_eq_some_iff.mp hstep
    exact ⟨h.pcs, h.answers⟩
  | irq =>
    cases hstep
    exact h.irq

end Rounds

section Returns

variable {T B : Type} [DecidableEq T] {dBlocks : UInt32} {s s₀ s₁ s' : State T B} {t u : T}
  {f : Frame T B} {c : Call} {code : Code} {moved : Option Errno}

/-! ## The round of the thread with the unit -/

/-- Thread `u` is still in the round in which it was in `s₀`. -/
structure SameRound (dBlocks : UInt32) (u : T) (f : Frame T B) (s₀ s : State T B) : Prop where
  inv : Inv dBlocks s
  holds : (s.pc u).holds = true
  frame : (s.pc u).frame = some f
  others : ∀ v, v ≠ u → s.pc v = s₀.pc v
  answers : s.answers = s₀.answers

/-- The round has come to the `V(lh->lh_clear)` at its end. -/
def Pc.ending : Pc T B → Bool
  | .failed _ _ | .clear _ _ => true
  | _ => false

/-- How many steps are left to there: a wait ends by completion, interrupt and `P`. -/
def State.stepsLeft (s : State T B) (u : T) : Nat :=
  match s.pc u with
  | .fill _ => 8
  | .setSect _ => 7
  | .setStat _ => 6
  | .pDone _ _ | .sleepDone _ _ => 3 + 2 * s.lh.inflight.length + s.lh.posted.toList.length
  | .getResult _ _ _ => 2
  | .moveOut _ _ _ => 1
  | _ => 0

omit [DecidableEq T] in
theorem wakeDone_of_not_holds {p : Pc T B} (h : p.holds = false) : p.wakeDone = p := by
  cases p with
  | sleepDone f op => cases h
  | _ => rfl

/-- The thread goes on in its round. -/
theorem SameRound.exec {data : B} {lh : Lh T B} {p : Pc T B}
    {waits : List (Op T × Option (Completion T B))} (h : SameRound dBlocks u f s₀ s)
    (hexec : s.exec dBlocks u moved data = some { s with lh, pc := upd s.pc u p, waits })
    (hholds : p.holds = true) (hframe : p.frame = some f) :
    SameRound dBlocks u f s₀ { s with lh, pc := upd s.pc u p, waits } where
  inv := exec_inv h.inv hexec
  holds := (congrArg Pc.holds (upd_same _ _ _)).trans hholds
  frame := (congrArg Pc.frame (upd_same _ _ _)).trans hframe
  others v hv := (upd_other _ _ hv).trans (h.others v hv)
  answers := h.answers

/-- An operation in flight can complete, and its interrupt arrive. -/
theorem SameRound.served {op : Op T} (h : SameRound dBlocks u f s₀ s)
    (hp : s.pc u = .pDone f op ∨ s.pc u = .sleepDone f op) (hw : Waiting s.lh op)
    (hout : s.lh.signalled = []) :
    ∃ a s', a.Serves code moved ∧ step dBlocks s a = some s' ∧ SameRound dBlocks u f s₀ s' ∧
      s'.stepsLeft u < s.stepsLeft u := by
  have hleft : s.stepsLeft u = 3 + 2 * s.lh.inflight.length + s.lh.posted.toList.length := by
    unfold State.stepsLeft
    rcases hp with hp | hp <;> rw [hp]
  cases hw with
  | signalled c _ _ hsig =>
    rw [hsig] at hout
    cases hout
  | inflight hin hpost =>
    have hget : s.lh.inflight[0]? = some op := by rw [hin]; rfl
    have hstep : step dBlocks s (.complete 0 code false s.lh.buf) = some _ :=
      congrArg (Option.map _) (congrArg (Option.map _) hget)
    refine ⟨.complete 0 code false s.lh.buf, _, rfl, hstep,
      ⟨step_inv h.inv hstep, h.holds, h.frame, h.others, h.answers⟩, ?_⟩
    rw [hleft, hin, hpost]
    unfold State.stepsLeft
    rcases hp with hp | hp <;> simp [hp]
  | posted c flag hin hpost _ _ hstat =>
    have hstep : step dBlocks s .irq = some s.lhdIrq := rfl
    have hfin := finished_stat c.code flag
    rw [← hstat] at hfin
    have hpc : s.lhdIrq.pc u = .pDone f op := by
      simp only [State.lhdIrq, if_pos hfin, State.vDone]
      rcases hp with hp | hp <;> rw [hp] <;> rfl
    refine ⟨.irq, _, trivial, hstep, ⟨step_inv h.inv hstep, by rw [hpc]; rfl, by rw [hpc]; rfl,
      fun v hv => ?_, ?_⟩, ?_⟩
    · have hnot : (s.pc v).holds = false := by
        by_contra hx
        exact hv ((h.inv.owns h.holds).2.2 v (eq_true_of_ne_false hx))
      simp only [State.lhdIrq, if_pos hfin, State.vDone, wakeDone_of_not_holds hnot]
      exact h.others v hv
    · simp only [State.lhdIrq, if_pos hfin, State.vDone]
      exact h.answers
    · rw [hleft, hin, hpost]
      simp only [State.stepsLeft, hpc]
      simp [State.lhdIrq, if_pos hfin, State.vDone, hin]

/-- Some step brings the round closer to its end. -/
theorem SameRound.nearer (h : SameRound dBlocks u f s₀ s) (hnot : (s.pc u).ending = false) :
    ∃ a s', a.Serves code moved ∧ step dBlocks s a = some s' ∧ SameRound dBlocks u f s₀ s' ∧
      s'.stepsLeft u < s.stepsLeft u := by
  obtain ⟨-, howns, -⟩ := h.inv.owns h.holds
  have hframe := h.frame
  have hgo {lh : Lh T B} {p : Pc T B} {waits : List (Op T × Option (Completion T B))}
      (hexec : s.exec dBlocks u moved s.lh.buf =
        some { s with lh, pc := upd s.pc u p, waits })
      (hholds : p.holds = true) (hf : p.frame = some f)
      (hlt : State.stepsLeft { s with lh, pc := upd s.pc u p, waits } u < s.stepsLeft u) :
      ∃ a s', a.Serves code moved ∧ step dBlocks s a = some s' ∧ SameRound dBlocks u f s₀ s' ∧
        s'.stepsLeft u < s.stepsLeft u :=
    ⟨.exec u moved s.lh.buf, _, rfl, hexec, h.exec hexec hholds hf, hlt⟩
  cases hp : s.pc u with
  | fill g =>
    rw [hp] at hframe
    cases hframe
    cases hm : moved with
    | none =>
      subst hm
      refine hgo (p := .setSect f) (by simp only [State.exec, hp]; rfl) rfl rfl ?_
      simp [State.stepsLeft, hp]
    | some e =>
      subst hm
      refine hgo (p := .failed f e) (by simp only [State.exec, hp]; rfl) rfl rfl ?_
      simp [State.stepsLeft, hp]
  | setSect g =>
    rw [hp] at hframe
    cases hframe
    refine hgo (p := .setStat f) (by simp only [State.exec, hp]; rfl) rfl rfl ?_
    simp [State.stepsLeft, hp]
  | setStat g =>
    rw [hp] at hframe howns
    cases hframe
    refine hgo (by simp only [State.exec, hp]; rfl) rfl rfl ?_
    simp [State.stepsLeft, hp, howns.1.inflight, howns.1.posted]
  | pDone g op =>
    rw [hp] at hframe howns
    cases hframe
    obtain ⟨-, hw⟩ := howns
    cases hsig : s.lh.signalled with
    | nil => exact h.served (.inl hp) hw hsig
    | cons c rest =>
      have hdone : s.lh.lhDone ≠ 0 := by
        cases hw with
        | signalled _ _ _ _ hone => rw [hone]; exact Nat.one_ne_zero
        | inflight _ _ hs => rw [hs] at hsig; cases hsig
        | posted _ _ _ _ hs => rw [hs] at hsig; cases hsig
      refine hgo (p := .getResult f op s.lh.signalled.head?)
        (by simp only [State.exec, hp, if_neg hdone]; rfl) rfl rfl ?_
      simp only [State.stepsLeft, hp, upd_same]
      omega
  | sleepDone g op =>
    rw [hp] at hframe howns
    cases hframe
    obtain ⟨-, hw, hd⟩ := howns
    refine h.served (.inr hp) hw ?_
    cases hw with
    | signalled _ _ _ _ hone => rw [hd] at hone; cases hone
    | inflight _ _ hs => exact hs
    | posted _ _ _ _ hs => exact hs
  | getResult g op done =>
    rw [hp] at hframe
    cases hframe
    by_cases hout : s.lh.lhResult = none ∧ ¬ f.call.write
    · refine hgo (p := .moveOut f op done) (by simp only [State.exec, hp, if_pos hout]; rfl)
        rfl rfl ?_
      simp [State.stepsLeft, hp]
    · refine hgo (p := .clear f ⟨op, done, s.lh.lhResult, none⟩)
        (by simp only [State.exec, hp, if_neg hout]; rfl) rfl rfl ?_
      simp [State.stepsLeft, hp]
  | moveOut g op done =>
    rw [hp] at hframe
    cases hframe
    refine hgo (by simp only [State.exec, hp]; rfl) rfl rfl ?_
    simp [State.stepsLeft, hp]
  | failed g e => rw [hp] at hnot; cases hnot
  | clear g r => rw [hp] at hnot; cases hnot
  | _ =>
    have hh := h.holds
    rw [hp] at hh
    cases hh

/-- Thread `u` has given the unit up, and has returned or is back at the top of the loop. -/
structure RoundOver (dBlocks : UInt32) (u : T) (f : Frame T B) (s₀ s : State T B) : Prop where
  inv : Inv dBlocks s
  free : s.lh.lhClear ≠ 0
  others : ∀ v, v ≠ u → s.pc v = (s₀.pc v).wakeClear
  outcome : Returned u f.call s₀ s ∨ s.answers = s₀.answers ∧
    ∃ f', s.pc u = .pClear f' ∧ f'.call = f.call ∧ f'.i = f.i + 1

theorem ret_returned (s : State T B) (f : Frame T B) (result fault : Option Errno) :
    Returned t f.call s (s.ret t f result fault) :=
  ⟨upd_same _ _ _, [_], rfl, _, List.mem_singleton_self _, rfl, rfl⟩

theorem SameRound.over (h : SameRound dBlocks u f s₀ s) (hend : (s.pc u).ending = true) :
    Leads (step dBlocks) (Act.Serves code moved) (RoundOver dBlocks u f s₀) s := by
  have hframe := h.frame
  have hothers (v : T) (hv : v ≠ u) (p : Pc T B) :
      upd s.vClear.pc u p v = (s₀.pc v).wakeClear := by
    rw [upd_other _ _ hv, ← h.others v hv]
    rfl
  have hreturned {g : Frame T B} {result fault : Option Errno} (hg : g.call = f.call) :
      Returned u f.call s₀ (s.vClear.ret u g result fault) := by
    have hret := ret_returned (t := u) s.vClear g result fault
    rw [hg] at hret
    exact ⟨hret.1, h.answers ▸ hret.2⟩
  cases hp : s.pc u with
  | failed g e =>
    rw [hp] at hframe
    cases hframe
    have hstep : step dBlocks s (.exec u moved s.lh.buf) =
        some (s.vClear.ret u f (some e) (some e)) := by
      simp only [step, State.exec, hp]
    exact .cons (a := .exec u moved s.lh.buf) rfl hstep (.here ⟨step_inv h.inv hstep,
      Nat.succ_ne_zero _, fun v hv => hothers v hv _, .inl (hreturned rfl)⟩)
  | clear g r =>
    rw [hp] at hframe
    cases hframe
    cases hr : r.result with
    | some e =>
      have hstep : step dBlocks s (.exec u moved s.lh.buf) =
          some (s.vClear.ret u ⟨f.call, f.i + 1, r :: f.past⟩ (some e) none) := by
        simp only [step, State.exec, hp, hr]
      exact .cons (a := .exec u moved s.lh.buf) rfl hstep (.here ⟨step_inv h.inv hstep,
        Nat.succ_ne_zero _, fun v hv => hothers v hv _, .inl (hreturned rfl)⟩)
    | none =>
      have hstep : step dBlocks s (.exec u moved s.lh.buf) =
          some (s.vClear.loop u ⟨f.call, f.i + 1, r :: f.past⟩) := by
        simp only [step, State.exec, hp, hr]
      refine .cons (a := .exec u moved s.lh.buf) rfl hstep (.here ?_)
      have hinv := step_inv h.inv hstep
      unfold State.loop at hinv ⊢
      split at hinv
      · next hmore =>
        rw [if_pos hmore]
        exact ⟨hinv, Nat.succ_ne_zero _, fun v hv => hothers v hv _,
          .inr ⟨h.answers, _, upd_same _ _ _, rfl, rfl⟩⟩
      · next hdone =>
        rw [if_neg hdone]
        exact ⟨hinv, Nat.succ_ne_zero _, fun v hv => hothers v hv _, .inl (hreturned rfl)⟩
  | _ =>
    rw [hp] at hend
    cases hend

/-- The thread with the unit ends its round. -/
theorem Inv.round_over (h : Inv dBlocks s) (hold : (s.pc u).holds = true)
    (hf : (s.pc u).frame = some f) :
    Leads (step dBlocks) (Act.Serves code moved) (RoundOver dBlocks u f s) s := by
  have hlead : Leads (step dBlocks) (Act.Serves code moved)
      (fun s' => SameRound dBlocks u f s s' ∧ (s'.pc u).ending = true) s :=
    leads_of_measure (fun s => s.stepsLeft u)
      (fun s hs hnot => hs.nearer (eq_false_of_ne_true hnot)) ⟨h, hold, hf, fun _ _ => rfl, rfl⟩
  exact hlead.trans fun s hs => hs.1.over hs.2

/-! ## Returning -/

omit [DecidableEq T] in
theorem Returned.of_later {new : List (Answer T B)} (h : Returned t c s₁ s)
    (hnew : s₁.answers = new ++ s₀.answers) : Returned t c s₀ s := by
  obtain ⟨hout, later, heq, a, ha, hcall⟩ := h
  refine ⟨hout, later ++ new, ?_, a, List.mem_append_left _ ha, hcall⟩
  rw [heq, hnew, List.append_assoc]

omit [DecidableEq T] in
theorem RoundOver.answers (h : RoundOver dBlocks u f s₀ s) :
    ∃ new, s.answers = new ++ s₀.answers := by
  rcases h.outcome with ⟨-, new, heq, -⟩ | ⟨heq, -⟩
  · exact ⟨new, heq⟩
  · exact ⟨[], heq⟩

/-- A thread that finds the unit free takes it round by round until it is through. -/
theorem Inv.returns_free (h : Inv dBlocks s) (hp : s.pc t = .pClear f)
    (hfree : s.lh.lhClear ≠ 0) :
    Leads (step dBlocks) (Act.Serves code moved) (Returned t f.call s) s := by
  induction hn : f.call.len.toNat - f.i.toNat using Nat.strongRecOn generalizing s f with
  | ind n ih =>
    have hstep : step dBlocks s (.exec t moved s.lh.buf) =
        some ({ s with lh := { s.lh with lhClear := s.lh.lhClear - 1 } }.goto t
          (if f.call.write then .fill f else .setSect f)) := by
      simp only [step, State.exec, hp, if_neg hfree]
    have hinv := step_inv h hstep
    refine .cons (a := .exec t moved s.lh.buf) rfl hstep ?_
    refine (hinv.round_over (u := t) (f := f) ?_ ?_).trans fun s₁ h₁ => ?_
    · simp only [State.goto, upd_same]
      split <;> rfl
    · simp only [State.goto, upd_same]
      split <;> rfl
    · rcases h₁.outcome with hret | ⟨hsame, f', hp', hcall, hi⟩
      · exact .here hret
      · have hmore := (h.frames t f (by rw [hp]; rfl)).more
        have hlt := UInt32.lt_iff_toNat_lt.mp hmore
        have hlen := f.call.len.toNat_lt
        have hnext : (f.i + 1).toNat = f.i.toNat + 1 := by
          rw [UInt32.toNat_add]
          change (f.i.toNat + 1) % 4294967296 = _
          omega
        have hless : f'.call.len.toNat - f'.i.toNat < n := by
          rw [hcall, hi, hnext]
          omega
        have hrest := ih _ hless h₁.inv hp' h₁.free rfl
        rw [hcall] at hrest
        exact hrest.trans fun s₂ h₂ => .here (h₂.of_later (hsame.trans (List.nil_append _).symm))

/-- One that does not waits for the thread that has it. -/
theorem Inv.returns_pClear (h : Inv dBlocks s)
    (hp : s.pc t = .pClear f ∨ s.pc t = .sleepClear f) :
    Leads (step dBlocks) (Act.Serves code moved) (Returned t f.call s) s := by
  have hnot : (s.pc t).holds = false := by rcases hp with hp | hp <;> rw [hp] <;> rfl
  cases h.owner with
  | nobody hc _ _ hawake =>
    rcases hp with hp | hp
    · exact h.returns_free hp (by rw [hc]; exact Nat.one_ne_zero)
    · have hasleep := hawake t
      rw [hp] at hasleep
      cases hasleep
  | thread u hc howns _ =>
    have hold := howns.holds
    obtain ⟨g, hg⟩ : ∃ g, (s.pc u).frame = some g := by
      cases hpu : s.pc u with
      | out => rw [hpu] at hold; cases hold
      | enter c => rw [hpu] at hold; cases hold
      | _ => exact ⟨_, rfl⟩
    have hne : t ≠ u := by
      rintro rfl
      rw [hnot] at hold
      cases hold
    refine (h.round_over hold hg).trans fun s₁ h₁ => ?_
    have hp₁ : s₁.pc t = .pClear f := by
      rw [h₁.others t hne]
      rcases hp with hp | hp <;> rw [hp] <;> rfl
    obtain ⟨new, hnew⟩ := h₁.answers
    exact (h₁.inv.returns_free hp₁ h₁.free).trans fun s₂ h₂ => .here (h₂.of_later hnew)

/-- Whatever a thread in `lhd_io` waits for, it can return. -/
theorem Inv.returns (h : Inv dBlocks s) (hc : (s.pc t).call = some c) :
    Leads (step dBlocks) (Act.Serves code moved) (Returned t c s) s := by
  by_cases hold : (s.pc t).holds = true
  · obtain ⟨f, hf, rfl⟩ : ∃ f, (s.pc t).frame = some f ∧ f.call = c := by
      cases hp : s.pc t with
      | enter c => rw [hp] at hold; cases hold
      | _ =>
        rw [hp] at hc
        exact Option.map_eq_some_iff.mp hc
    refine (h.round_over hold hf).trans fun s₁ h₁ => ?_
    rcases h₁.outcome with hret | ⟨hsame, f', hp', hcall, -⟩
    · exact .here hret
    · have hrest : Leads (step dBlocks) (Act.Serves code moved) (Returned t f'.call s₁) s₁ :=
        h₁.inv.returns_free hp' h₁.free
      rw [hcall] at hrest
      exact hrest.trans fun s₂ h₂ => .here (h₂.of_later (hsame.trans (List.nil_append _).symm))
  · cases hp : s.pc t with
    | out => rw [hp] at hc; cases hc
    | pClear f =>
      rw [hp] at hc
      cases hc
      exact h.returns_pClear (.inl hp)
    | sleepClear f =>
      rw [hp] at hc
      cases hc
      exact h.returns_pClear (.inr hp)
    | enter d =>
      rw [hp] at hc
      cases hc
      by_cases hrefused : c.refused dBlocks = true
      · have hstep : step dBlocks s (.exec t moved s.lh.buf) =
            some (s.ret t ⟨c, 0, []⟩ (some .EINVAL) none) := by
          simp only [step, State.exec, hp, if_pos hrefused]
        exact .cons (a := .exec t moved s.lh.buf) rfl hstep (.here (ret_returned s ⟨c, 0, []⟩ _ _))
      · have hstep : step dBlocks s (.exec t moved s.lh.buf) = some (s.loop t ⟨c, 0, []⟩) := by
          simp only [step, State.exec, hp, if_neg hrefused]
        have hinv := step_inv h hstep
        refine .cons (a := .exec t moved s.lh.buf) rfl hstep ?_
        unfold State.loop at hinv ⊢
        split at hinv
        · next hmore =>
          rw [if_pos hmore]
          exact hinv.returns_pClear (f := ⟨c, 0, []⟩) (.inl (upd_same _ _ _))
        · next hdone =>
          rw [if_neg hdone]
          exact .here (ret_returned s ⟨c, 0, []⟩ _ _)
    | _ =>
      rw [hp] at hold
      exact absurd rfl hold

/-- Whatever the threads, the controller and its interrupts do, the driver keeps to one
operation at a time, each operation is waited for once, every call gets what its own operations
gave, and none is stuck. -/
theorem lhd_serialised (dBlocks : UInt32) (buf : B) (disk : UInt32 → B) (acts : List (Act T B)) :
    Throughout (step dBlocks) (Served dBlocks) (boot buf disk) acts := by
  have hstart : Inv dBlocks (boot buf disk : State T B) ∧ Recorded (boot buf disk : State T B) :=
    ⟨boot_inv buf disk, fun _ => List.nil_subset _, fun _ ha => absurd ha List.not_mem_nil⟩
  have hstep : ∀ (s : State T B) (a : Act T B) (s' : State T B), Inv dBlocks s ∧ Recorded s →
      step dBlocks s a = some s' → Inv dBlocks s' ∧ Recorded s' :=
    fun s a s' hs hstep => ⟨step_inv hs.1 hstep, hs.2.step hstep⟩
  refine throughout_of_inv (fun s hs => ⟨hs.1.serialised, fun a ha r hr => ?_, ?_⟩)
    hstep hstart acts
  · exact hs.2.answers a ha (List.mem_map_of_mem hr)
  · exact fun t c code moved hc => hs.1.returns hc

end Returns

/-- The second thread waits for the first one to be through with its sector. -/
example :
    let go (t : Bool) (n : Nat) : List (Act Bool Nat) := List.replicate n (.exec t none 0)
    let serve : List (Act Bool Nat) := [.complete 0 .ok false 0, .irq]
    ((run (step 16) (boot 0 fun sector => sector.toNat)
      ([.call false ⟨false, 512, 512⟩, .call true ⟨false, 1024, 512⟩] ++ go false 2 ++ go true 2 ++
        go false 3 ++ serve ++ go false 4 ++ go true 4 ++ serve ++ go true 4)).map fun s =>
      s.answers.map fun a => (a.thread, a.result, a.past.map (·.moved))) =
      some [(true, none, [some 2]), (false, none, [some 1])] := by
  decide +kernel

end Os161.Dev
