import Mathlib.Tactic.ByContra
import Os161.Dev.Lhd

/-! # One operation at a time

The unit of `lh_clear` goes to one thread, which keeps it from the buffer being filled to the
result being read. While it waits on `lh_done`, its operation is in flight, its completion is
posted, or it has been signalled, one after the other. -/
namespace Os161.Dev
open Os161.Runs

section Invariant

variable {T B : Type} {dBlocks : UInt32} {s s' : State T B} {lh : Lh T B} {t : T}
  {f : Frame T B}

/-! ## What a run is to satisfy -/

def Code.errno : Code → Option Errno
  | .ok => none
  | .invsect => some .EINVAL
  | .media => some Errno.EIO

/-- The thread has the unit of `lh_clear`, and only then uses the buffer. -/
def Pc.holds : Pc T B → Bool
  | .fill _ | .failed _ _ | .setSect _ | .setStat _ | .pDone _ _ | .sleepDone _ _
  | .getResult _ _ _ | .moveOut _ _ _ | .clear _ _ => true
  | _ => false

/-- Round `k` of a call: the completion is that of its own operation, the result is that of the
operation or, after a successful read, of the transfer, and what is transferred is the sector. -/
structure Round.Own (t : T) (c : Call) (k : Nat) (r : Round T B) : Prop where
  thread : r.op.thread = t
  sector : r.op.sector = c.sector + UInt32.ofNat k
  write : r.op.write = c.write
  outcome : ∃ done, r.completion = some done ∧ done.op = r.op ∧
    (done.code ≠ .ok ∨ c.write → r.result = done.code.errno ∧ r.moved = none) ∧
    (done.code = .ok → ¬ c.write → r.result = none → r.moved = some done.sector)

/-- All rounds of a call, newest first. -/
def Rounds (t : T) (c : Call) : List (Round T B) → Prop
  | [] => True
  | r :: past => r.Own t c past.length ∧ Rounds t c past

/-- The rounds of a call before one that fails. -/
def Clean (past : List (Round T B)) : Prop := ∀ r ∈ past, r.result = none

/-- A call returns `EINVAL` at once, or an error of `uiomove` before an operation, or the result
of its last operation, or 0 after all of them. -/
structure Answer.Right (dBlocks : UInt32) (a : Answer T B) : Prop where
  refused : a.call.refused dBlocks → a.result = some .EINVAL ∧ a.past = [] ∧ a.fault = none
  rounds : Rounds a.thread a.call a.past
  clean : Clean a.past.tail
  fault : ∀ e, a.fault = some e → a.call.write ∧ a.result = some e ∧ Clean a.past
  last : ¬ a.call.refused dBlocks → a.fault = none → ∀ e, a.result = some e →
    ∃ r, a.past.head? = some r ∧ r.result = some e
  done : a.result = none → Clean a.past ∧ a.past.length = a.call.len.toNat

/-- The operations started that no thread has waited for yet. -/
def Lh.pending (lh : Lh T B) : List (Op T) :=
  lh.signalled.map (·.op) ++ (lh.posted.map (·.op)).toList ++ lh.inflight

structure Serialised (dBlocks : UInt32) (s : State T B) : Prop where
  one : s.lh.inflight.length ≤ 1
  exclusive : ∀ t u, (s.pc t).holds → (s.pc u).holds → t = u
  waiting : ∀ op ∈ s.lh.inflight, ∃ f,
    s.pc op.thread = .pDone f op ∨ s.pc op.thread = .sleepDone f op
  woken : ∀ t f op, s.pc t = .sleepDone f op →
    op ∈ s.lh.inflight ∨ ∃ c, s.lh.posted = some c ∧ c.op = op
  awake : s.lh.lhClear ≠ 0 → ∀ t f, s.pc t ≠ .sleepClear f
  distinct : s.lh.started.Pairwise fun op op' => op.id ≠ op'.id
  waits : ∀ w ∈ s.waits, w.1 ∈ s.lh.started ∧ ∃ c, w.2 = some c ∧ c.op = w.1
  once : (s.waits.map (·.1) ++ s.lh.pending).Perm s.lh.started
  answers : ∀ a ∈ s.answers, a.Right dBlocks

/-! ## The invariant -/

/-- No operation under way. -/
structure Quiet (lh : Lh T B) : Prop where
  inflight : lh.inflight = []
  posted : lh.posted = none
  signalled : lh.signalled = []
  done : lh.lhDone = 0
  stat : lh.stat = 0

/-- The completion of an operation as it was posted. -/
structure Ends (op : Op T) (c : Completion T B) (buf : B) : Prop where
  own : c.op = op
  buf : c.buf = buf
  read : c.code = .ok → ¬ op.write → c.buf = c.sector

/-- How far an operation is on its way back to the thread that waits. -/
inductive Waiting (lh : Lh T B) (op : Op T) : Prop
  | inflight (h : lh.inflight = [op]) (hp : lh.posted = none) (hs : lh.signalled = [])
      (hd : lh.lhDone = 0) (hw : lh.stat &&& lhdStatemask = lhdWorking)
  | posted (c : Completion T B) (flag : Bool) (h : lh.inflight = []) (hp : lh.posted = some c)
      (hs : lh.signalled = []) (hd : lh.lhDone = 0) (hw : lh.stat = c.code.stat flag)
      (hc : Ends op c lh.buf)
  | signalled (c : Completion T B) (h : lh.inflight = []) (hp : lh.posted = none)
      (hs : lh.signalled = [c]) (hd : lh.lhDone = 1) (hw : lh.stat = 0) (hc : Ends op c lh.buf)
      (hr : lh.lhResult = c.code.errno)

/-- The operation of a round. -/
structure OpOf (lh : Lh T B) (t : T) (f : Frame T B) (op : Op T) : Prop where
  thread : op.thread = t
  sector : op.sector = f.call.sector + f.i
  write : op.write = f.call.write
  started : op ∈ lh.started

/-- What the thread with the unit of `lh_clear` can rely on. -/
def Owns (lh : Lh T B) (t : T) : Pc T B → Prop
  | .fill f | .failed f _ => Quiet lh ∧ f.call.write = true
  | .setSect _ => Quiet lh
  | .setStat f => Quiet lh ∧ lh.sect = f.call.sector + f.i
  | .pDone f op => OpOf lh t f op ∧ Waiting lh op
  | .sleepDone f op => OpOf lh t f op ∧ Waiting lh op ∧ lh.lhDone = 0
  | .getResult f op done => OpOf lh t f op ∧ Quiet lh ∧
      ∃ c, done = some c ∧ Ends op c lh.buf ∧ lh.lhResult = c.code.errno
  | .moveOut f op done => OpOf lh t f op ∧ Quiet lh ∧ f.call.write = false ∧
      ∃ c, done = some c ∧ Ends op c lh.buf ∧ c.code = .ok
  | .clear f r => Quiet lh ∧ r.Own t f.call f.past.length
  | _ => False

def Pc.frame : Pc T B → Option (Frame T B)
  | .out | .enter _ => none
  | .pClear f | .sleepClear f | .fill f | .failed f _ | .setSect f | .setStat f | .pDone f _
  | .sleepDone f _ | .getResult f _ _ | .moveOut f _ _ | .clear f _ => some f

/-- A call in its loop. -/
structure Frame.Good (dBlocks : UInt32) (t : T) (f : Frame T B) : Prop where
  accepted : ¬ f.call.refused dBlocks
  rounds : Rounds t f.call f.past
  clean : Clean f.past
  count : f.past.length = f.i.toNat
  more : f.i < f.call.len

def Pc.asleepClear : Pc T B → Bool
  | .sleepClear _ => true
  | _ => false

inductive Owner (s : State T B) : Prop
  | nobody (h : s.lh.lhClear = 1) (quiet : Quiet s.lh) (none : ∀ t, (s.pc t).holds = false)
      (awake : ∀ t, (s.pc t).asleepClear = false)
  | thread (t : T) (h : s.lh.lhClear = 0) (owns : Owns s.lh t (s.pc t))
      (only : ∀ u, (s.pc u).holds = true → u = t)

structure Inv (dBlocks : UInt32) (s : State T B) : Prop where
  owner : Owner s
  frames : ∀ t f, (s.pc t).frame = some f → f.Good dBlocks t
  numbered : s.lh.started.Pairwise fun op op' => op'.id < op.id
  fresh : ∀ op ∈ s.lh.started, op.id < s.lh.started.length
  waits : ∀ w ∈ s.waits, w.1 ∈ s.lh.started ∧ ∃ c, w.2 = some c ∧ c.op = w.1
  once : (s.waits.map (·.1) ++ s.lh.pending).Perm s.lh.started
  answers : ∀ a ∈ s.answers, a.Right dBlocks

theorem Owns.holds {p : Pc T B} (h : Owns lh t p) : p.holds = true := by
  cases p <;> first | rfl | exact absurd h id

/-- The owner is either waiting for its operation, or there is none. -/
theorem Owns.quiet_or_waiting {p : Pc T B} (h : Owns lh t p) :
    Quiet lh ∨ ∃ f op, (p = .pDone f op ∨ p = .sleepDone f op ∧ lh.lhDone = 0) ∧
      OpOf lh t f op ∧ Waiting lh op := by
  cases p with
  | fill f => exact .inl h.1
  | failed f e => exact .inl h.1
  | setSect f => exact .inl h
  | setStat f => exact .inl h.1
  | pDone f op => exact .inr ⟨f, op, .inl rfl, h⟩
  | sleepDone f op => exact .inr ⟨f, op, .inr ⟨rfl, h.2.2⟩, h.1, h.2.1⟩
  | getResult f op done => exact .inl h.2.1
  | moveOut f op done => exact .inl h.2.1
  | clear f r => exact .inl h.1
  | _ => exact absurd h id

theorem Owner.quiet_or_waiting (h : Owner s) :
    Quiet s.lh ∨ ∃ t f op, (s.pc t = .pDone f op ∨ s.pc t = .sleepDone f op ∧ s.lh.lhDone = 0) ∧
      OpOf s.lh t f op ∧ Waiting s.lh op ∧ ∀ u, (s.pc u).holds = true → u = t := by
  cases h with
  | nobody _ q => exact .inl q
  | thread t _ ho honly =>
    rcases ho.quiet_or_waiting with hq | ⟨f, op, hp, hop, hw⟩
    · exact .inl hq
    · exact .inr ⟨t, f, op, hp, hop, hw, honly⟩

theorem Waiting.mem_inflight {op op' : Op T} (h : Waiting lh op) (hm : op' ∈ lh.inflight) :
    op' = op ∧ lh.inflight = [op] := by
  cases h with
  | inflight hin =>
    rw [hin] at hm
    exact ⟨List.mem_singleton.mp hm, hin⟩
  | posted _ _ hin =>
    rw [hin] at hm
    cases hm
  | signalled _ hin =>
    rw [hin] at hm
    cases hm

theorem Inv.serialised (h : Inv dBlocks s) : Serialised dBlocks s where
  one := by
    rcases h.owner.quiet_or_waiting with hq | ⟨t, f, op, -, -, hw, -⟩
    · simp [hq.inflight]
    · cases hw with
      | inflight hin => simp [hin]
      | posted _ _ hin => simp [hin]
      | signalled _ hin => simp [hin]
  exclusive t u ht hu := by
    cases h.owner with
    | nobody _ _ hn =>
      rw [hn t] at ht
      cases ht
    | thread v _ _ honly => exact (honly t ht).trans (honly u hu).symm
  waiting op hop := by
    rcases h.owner.quiet_or_waiting with hq | ⟨t, f, op', hp, hof, hw, -⟩
    · rw [hq.inflight] at hop
      cases hop
    · obtain ⟨rfl, -⟩ := hw.mem_inflight hop
      rw [hof.thread]
      exact ⟨f, hp.imp id And.left⟩
  woken t f op hp := by
    have hholds : (s.pc t).holds = true := by rw [hp]; rfl
    cases h.owner with
    | nobody _ _ hn =>
      rw [hn t] at hholds
      cases hholds
    | thread v _ ho honly =>
      rw [← honly t hholds, hp] at ho
      obtain ⟨-, hw, hd⟩ := ho
      cases hw with
      | inflight hin => exact .inl (hin ▸ List.mem_singleton.mpr rfl)
      | posted c _ _ hposted _ _ _ hc => exact .inr ⟨c, hposted, hc.own⟩
      | signalled _ _ _ _ hone =>
        rw [hd] at hone
        cases hone
  awake hc t f hp := by
    cases h.owner with
    | nobody _ _ _ hawake =>
      have := hawake t
      rw [hp] at this
      cases this
    | thread _ hc' => exact hc hc'
  distinct := h.numbered.imp fun hlt => (Nat.ne_of_lt hlt).symm
  waits := h.waits
  once := h.once
  answers := h.answers

/-! ## Wake-ups -/

@[simp] theorem wakeClear_holds (p : Pc T B) : p.wakeClear.holds = p.holds := by cases p <;> rfl
@[simp] theorem wakeClear_frame (p : Pc T B) : p.wakeClear.frame = p.frame := by cases p <;> rfl
@[simp] theorem wakeClear_asleep (p : Pc T B) : p.wakeClear.asleepClear = false := by
  cases p <;> rfl
@[simp] theorem wakeDone_holds (p : Pc T B) : p.wakeDone.holds = p.holds := by cases p <;> rfl
@[simp] theorem wakeDone_frame (p : Pc T B) : p.wakeDone.frame = p.frame := by cases p <;> rfl
@[simp] theorem wakeDone_asleep (p : Pc T B) : p.wakeDone.asleepClear = p.asleepClear := by
  cases p <;> rfl

theorem Inv.owns (h : Inv dBlocks s) (hp : (s.pc t).holds = true) :
    s.lh.lhClear = 0 ∧ Owns s.lh t (s.pc t) ∧ ∀ u, (s.pc u).holds = true → u = t := by
  cases h.owner with
  | nobody _ _ hn =>
    rw [hn t] at hp
    cases hp
  | thread v hc ho honly =>
    obtain rfl := honly t hp
    exact ⟨hc, ho, honly⟩

/-! ## Returning and going on -/

theorem Inv.answer (h : Inv dBlocks s) {a : Answer T B} (ha : a.Right dBlocks) :
    ∀ b ∈ a :: s.answers, b.Right dBlocks := by
  intro b hb
  rcases List.mem_cons.mp hb with rfl | hb
  · exact ha
  · exact h.answers b hb

/-- A call at the test of the loop. -/
structure Frame.AtTest (dBlocks : UInt32) (t : T) (f : Frame T B) : Prop where
  accepted : ¬ f.call.refused dBlocks
  rounds : Rounds t f.call f.past
  clean : Clean f.past
  count : f.past.length = f.i.toNat
  within : f.i ≤ f.call.len

theorem Frame.AtTest.answer (h : f.AtTest dBlocks t) (hend : ¬ f.i < f.call.len) :
    Answer.Right dBlocks ⟨t, f.call, none, f.past, none⟩ where
  refused hr := absurd hr h.accepted
  rounds := h.rounds
  clean r hr := h.clean r (List.mem_of_mem_tail hr)
  fault e he := by cases he
  last _ _ e he := by cases he
  done _ := by
    refine ⟨h.clean, ?_⟩
    have hle := UInt32.le_iff_toNat_le.mp h.within
    have hge := UInt32.le_iff_toNat_le.mp (UInt32.not_lt.mp hend)
    exact h.count.trans (Nat.le_antisymm hle hge)

theorem Frame.AtTest.good (h : f.AtTest dBlocks t) (hmore : f.i < f.call.len) :
    f.Good dBlocks t := ⟨h.accepted, h.rounds, h.clean, h.count, hmore⟩

/-- After a round without an error. -/
theorem Frame.Good.next (h : f.Good dBlocks t) {r : Round T B} (hr : r.Own t f.call f.past.length)
    (hok : r.result = none) : Frame.AtTest dBlocks t ⟨f.call, f.i + 1, r :: f.past⟩ := by
  have hlt := UInt32.lt_iff_toNat_lt.mp h.more
  have hlen := f.call.len.toNat_lt
  have hnext : (f.i + 1).toNat = f.i.toNat + 1 := by
    rw [UInt32.toNat_add]
    change (f.i.toNat + 1) % 4294967296 = _
    omega
  refine ⟨h.accepted, ⟨hr, h.rounds⟩, ?_, ?_, ?_⟩
  · intro r' hr'
    rcases List.mem_cons.mp hr' with rfl | hr'
    · exact hok
    · exact h.clean r' hr'
  · change f.past.length + 1 = (f.i + 1).toNat
    rw [hnext, h.count]
  · rw [UInt32.le_iff_toNat_le]
    change (f.i + 1).toNat ≤ _
    rw [hnext]
    exact hlt

/-- After a round with an error. -/
theorem Frame.Good.failed (h : f.Good dBlocks t) {r : Round T B}
    (hr : r.Own t f.call f.past.length) {e : Errno} (he : r.result = some e) :
    Answer.Right dBlocks ⟨t, f.call, some e, r :: f.past, none⟩ where
  refused hr := absurd hr h.accepted
  rounds := ⟨hr, h.rounds⟩
  clean := h.clean
  fault e he := by cases he
  last _ _ e' he' := by
    cases he'
    exact ⟨r, rfl, he⟩
  done hd := by cases hd

theorem refused_right {c : Call} (hr : c.refused dBlocks) :
    Answer.Right dBlocks (⟨t, c, some .EINVAL, [], none⟩ : Answer T B) where
  refused _ := ⟨rfl, rfl, rfl⟩
  rounds := trivial
  clean r hr := by cases hr
  fault e he := by cases he
  last hn := absurd hr hn
  done hd := by cases hd

/-- After an error before the operation. -/
theorem Frame.Good.fault (h : f.Good dBlocks t) (hwrite : f.call.write = true) (e : Errno) :
    Answer.Right dBlocks ⟨t, f.call, some e, f.past, some e⟩ where
  refused hr := absurd hr h.accepted
  rounds := h.rounds
  clean r hr := h.clean r (List.mem_of_mem_tail hr)
  fault e' he' := by
    cases he'
    exact ⟨hwrite, rfl, h.clean⟩
  last _ hf := by cases hf
  done hd := by cases hd

theorem errno_stat (code : Code) (flag : Bool) : lhdCodeToErrno (code.stat flag) = code.errno := by
  cases code <;> cases flag <;> decide

theorem Frame.Good.index (h : f.Good dBlocks t) : f.i = UInt32.ofNat f.past.length := by
  rw [h.count, UInt32.ofNat_toNat]

theorem working_stat (w : Bool) :
    (lhdWorking ||| if w then lhdIswrite else 0) &&& lhdStatemask = lhdWorking := by
  cases w <;> decide

theorem finished_stat (code : Code) (flag : Bool) :
    code.stat flag &&& lhdStatemask = lhdOk ∨ code.stat flag &&& lhdStatemask = lhdInvsect ∨
      code.stat flag &&& lhdStatemask = lhdMedia := by
  cases code <;> cases flag <;> decide

theorem errno_none {code : Code} (h : code.errno = none) : code = .ok := by
  cases code <;> first | rfl | cases h

/-- A round that ends with what the driver saved: a write, or an error. -/
theorem OpOf.own_result {op : Op T} {c : Completion T B} (h : OpOf lh t f op)
    (hgood : f.Good dBlocks t) (hc : Ends op c lh.buf) (hres : lh.lhResult = c.code.errno)
    (hout : ¬ (lh.lhResult = none ∧ ¬ f.call.write)) :
    Round.Own t f.call f.past.length ⟨op, some c, lh.lhResult, none⟩ where
  thread := h.thread
  sector := by rw [← hgood.index]; exact h.sector
  write := h.write
  outcome := ⟨c, rfl, hc.own, fun _ => ⟨hres, rfl⟩, fun _ hw hn => absurd ⟨hn, hw⟩ hout⟩

/-- A round that ends with the sector moved out of the buffer. -/
theorem OpOf.own_moved {op : Op T} {c : Completion T B} (h : OpOf lh t f op)
    (hgood : f.Good dBlocks t) (hc : Ends op c lh.buf) (hok : c.code = .ok)
    (hread : f.call.write = false) (moved : Option Errno) :
    Round.Own t f.call f.past.length
      ⟨op, some c, moved, if moved = none then some lh.buf else none⟩ where
  thread := h.thread
  sector := by rw [← hgood.index]; exact h.sector
  write := h.write
  outcome := by
    refine ⟨c, rfl, hc.own, fun hbad => ?_, fun _ _ hn => ?_⟩
    · rcases hbad with hbad | hbad
      · exact absurd hok hbad
      · rw [hread] at hbad
        cases hbad
    · have hop : ¬ op.write = true := by rw [h.write, hread]; decide
      dsimp only at hn ⊢
      rw [if_pos hn, ← hc.buf, hc.read hok hop]

/-- The operation comes closer to the thread that waits for it. -/
theorem Inv.advance {op : Op T} {f : Frame T B} (h : Inv dBlocks s)
    (hp : s.pc t = .pDone f op ∨ s.pc t = .sleepDone f op ∧ s.lh.lhDone = 0)
    (honly : ∀ u, (s.pc u).holds = true → u = t) (hclear : lh.lhClear = s.lh.lhClear)
    (hof : OpOf lh t f op) (hw : Waiting lh op) (hd : lh.lhDone = 0)
    (hst : lh.started = s.lh.started) (hpend : lh.pending = s.lh.pending) :
    Inv dBlocks { s with lh } where
  owner := by
    have hold : (s.pc t).holds = true := by
      rcases hp with hp | ⟨hp, -⟩ <;> rw [hp] <;> rfl
    obtain ⟨hc, -, -⟩ := h.owns hold
    refine .thread t (hclear.trans hc) ?_ honly
    rcases hp with hp | ⟨hp, -⟩
    · simp only [hp]
      exact ⟨hof, hw⟩
    · simp only [hp]
      exact ⟨hof, hw, hd⟩
  frames := h.frames
  numbered := hst ▸ h.numbered
  fresh := hst ▸ h.fresh
  waits := hst ▸ h.waits
  once := by
    dsimp only
    rw [hst, hpend]
    exact h.once
  answers := h.answers

/-! ## The controller and its interrupt -/

theorem complete_inv {i : Nat} {code : Code} {flag : Bool} {junk : B} (h : Inv dBlocks s)
    (hlh : s.lh.complete i code flag junk = some lh) : Inv dBlocks { s with lh } := by
  obtain ⟨op, hi, rfl⟩ := Option.map_eq_some_iff.mp hlh
  rcases h.owner.quiet_or_waiting with hq | ⟨t, f, op', hp, hof, hw, honly⟩
  · rw [hq.inflight] at hi
    cases hi
  · cases hw with
    | posted _ _ hin =>
      rw [hin] at hi
      cases hi
    | signalled _ hin =>
      rw [hin] at hi
      cases hi
    | inflight hin hpost hsig hd =>
      rw [hin] at hi
      obtain ⟨rfl, rfl⟩ : i = 0 ∧ op' = op := by
        cases i with
        | zero => exact ⟨rfl, Option.some.inj hi⟩
        | succ i => cases hi
      refine h.advance hp honly ?_ ⟨hof.thread, hof.sector, hof.write, hof.started⟩ ?_ hd rfl ?_
      · exact rfl
      · refine .posted _ flag (by rw [hin]; rfl) rfl hsig hd rfl ⟨rfl, rfl, fun hok hread => ?_⟩
        dsimp only at hok ⊢
        rw [if_pos hok, if_neg hread]
      · simp [Lh.pending, hin, hpost]

theorem irq_inv (h : Inv dBlocks s) : Inv dBlocks s.lhdIrq := by
  have hidle (h0 : s.lh.stat = 0) : s.lhdIrq = s := by
    unfold State.lhdIrq
    rw [h0]
    exact if_neg (by decide)
  rcases h.owner.quiet_or_waiting with hq | ⟨t, f, op, hp, hof, hw, honly⟩
  · rw [hidle hq.stat]
    exact h
  · cases hw with
    | inflight _ _ _ _ hworking =>
      have hs : s.lhdIrq = s := by
        simp only [State.lhdIrq, hworking]
        exact if_neg (by decide)
      rw [hs]
      exact h
    | signalled _ _ _ _ _ hstat =>
      rw [hidle hstat]
      exact h
    | posted c flag hin hpost hsig hd hstat hends =>
      have hold : (s.pc t).holds = true := by
        rcases hp with hp | ⟨hp, -⟩ <;> rw [hp] <;> rfl
      have hfin := finished_stat c.code flag
      rw [← hstat] at hfin
      simp only [State.lhdIrq, if_pos hfin, hpost]
      refine ⟨.thread t (h.owns hold).1 ?_ fun u hu => ?_, fun u f' hf' => ?_, h.numbered, h.fresh,
        h.waits, ?_, h.answers⟩
      · have hpc : (s.pc t).wakeDone = .pDone f op := by
          rcases hp with hp | ⟨hp, -⟩ <;> rw [hp] <;> rfl
        simp only [State.vDone, hpc]
        refine ⟨⟨hof.thread, hof.sector, hof.write, hof.started⟩,
          .signalled c hin rfl ?_ ?_ rfl hends ?_⟩
        · simp [hsig]
        · simp [hd]
        · simp only [hstat]
          exact errno_stat _ _
      · exact honly u (by simpa [State.vDone] using hu)
      · exact h.frames u f' (by simpa [State.vDone] using hf')
      · have honce := h.once
        simpa [State.vDone, Lh.pending, hin, hpost, hsig] using honce

theorem boot_inv (buf : B) (disk : UInt32 → B) : Inv dBlocks (boot buf disk : State T B) where
  owner := .nobody rfl ⟨rfl, rfl, rfl, rfl, rfl⟩ (fun _ => rfl) fun _ => rfl
  frames t f hf := by cases hf
  numbered := .nil
  fresh op hop := by cases hop
  waits w hw := by cases hw
  once := .nil
  answers a ha := by cases ha

end Invariant

section Steps

variable {T B : Type} [DecidableEq T] {dBlocks : UInt32} {s s' : State T B} {lh : Lh T B} {t : T}
  {p : Pc T B} {f : Frame T B}

@[simp] theorem upd_same {α β : Type} [DecidableEq α] (g : α → β) (a : α) (b : β) :
    upd g a b a = b := if_pos rfl

theorem upd_other {α β : Type} [DecidableEq α] (g : α → β) {a x : α} (b : β) (h : x ≠ a) :
    upd g a b x = g x := if_neg h

/-! ## What a step keeps -/

/-- A thread without the unit moves. -/
theorem Inv.aside (h : Inv dBlocks s) (hold : (s.pc t).holds = false) (hnew : p.holds = false)
    (hasleep : p.asleepClear = true → s.lh.lhClear = 0)
    (hframe : ∀ f, p.frame = some f → f.Good dBlocks t) {answers : List (Answer T B)}
    (hanswers : ∀ a ∈ answers, a.Right dBlocks) :
    Inv dBlocks { s with pc := upd s.pc t p, answers } where
  owner := by
    cases h.owner with
    | nobody hc hq hn ha =>
      refine .nobody hc hq (fun u => ?_) fun u => ?_
      · by_cases hu : u = t
        · subst hu
          simpa using hnew
        · simpa [upd_other _ _ hu] using hn u
      · by_cases hu : u = t
        · subst hu
          cases hp : p.asleepClear with
          | true =>
            rw [hc] at hasleep
            exact absurd (hasleep hp) (by decide)
          | false => simpa using hp
        · simpa [upd_other _ _ hu] using ha u
    | thread v hc ho honly =>
      have hv : v ≠ t := by
        intro hx
        obtain rfl := hx
        rw [ho.holds] at hold
        cases hold
      refine .thread v hc ?_ fun u hu => ?_
      · simpa [upd_other _ _ hv] using ho
      · by_cases hut : u = t
        · subst hut
          simp [hnew] at hu
        · exact honly u (by simpa [upd_other _ _ hut] using hu)
  frames u f hf := by
    by_cases hu : u = t
    · subst hu
      exact hframe f (by simpa using hf)
    · exact h.frames u f (by simpa [upd_other _ _ hu] using hf)
  numbered := h.numbered
  fresh := h.fresh
  waits := h.waits
  once := h.once
  answers := hanswers

/-- The thread with the unit goes on. -/
theorem Inv.goOn (h : Inv dBlocks s) (hold : (s.pc t).holds = true) (hclear : lh.lhClear = 0)
    (howns : Owns lh t p) (hframe : p.frame = (s.pc t).frame)
    (hnumbered : lh.started.Pairwise fun op op' => op'.id < op.id)
    (hfresh : ∀ op ∈ lh.started, op.id < lh.started.length)
    {waits : List (Op T × Option (Completion T B))}
    (hwaits : ∀ w ∈ waits, w.1 ∈ lh.started ∧ ∃ c, w.2 = some c ∧ c.op = w.1)
    (honce : (waits.map (·.1) ++ lh.pending).Perm lh.started) :
    Inv dBlocks { s with lh, pc := upd s.pc t p, waits } where
  owner := by
    obtain ⟨-, -, honly⟩ := h.owns hold
    refine .thread t hclear ?_ fun u hu => ?_
    · simpa using howns
    · by_cases hut : u = t
      · exact hut
      · exact honly u (by simpa [upd_other _ _ hut] using hu)
  frames u f hf := by
    by_cases hu : u = t
    · subst hu
      exact h.frames u f (by simpa [hframe] using hf)
    · exact h.frames u f (by simpa [upd_other _ _ hu] using hf)
  numbered := hnumbered
  fresh := hfresh
  waits := hwaits
  once := honce
  answers := h.answers

/-- `V(lh->lh_clear)` by the thread that has the unit. -/
theorem Inv.giveUp (h : Inv dBlocks s) (hold : (s.pc t).holds = true) (hquiet : Quiet s.lh)
    (hnew : p.holds = false) (hawake : p.asleepClear = false)
    (hframe : ∀ f, p.frame = some f → f.Good dBlocks t) {answers : List (Answer T B)}
    (hanswers : ∀ a ∈ answers, a.Right dBlocks) :
    Inv dBlocks { s.vClear with pc := upd s.vClear.pc t p, answers } where
  owner := by
    obtain ⟨hc, -, honly⟩ := h.owns hold
    refine .nobody (congrArg (· + 1) hc)
      ⟨hquiet.inflight, hquiet.posted, hquiet.signalled, hquiet.done, hquiet.stat⟩
      (fun u => ?_) fun u => ?_
    · by_cases hu : u = t
      · subst hu
        simpa using hnew
      · have hn : ¬ (s.pc u).holds = true := fun hh => hu (honly u hh)
        simpa [upd_other _ _ hu, State.vClear] using hn
    · by_cases hu : u = t
      · subst hu
        simpa using hawake
      · simp [upd_other _ _ hu, State.vClear]
  frames u f hf := by
    by_cases hu : u = t
    · subst hu
      exact hframe f (by simpa using hf)
    · exact h.frames u f (by simpa [upd_other _ _ hu, State.vClear] using hf)
  numbered := h.numbered
  fresh := h.fresh
  waits := h.waits
  once := h.once
  answers := hanswers

/-! ## Steps of a thread -/

/-- Entering the loop, or returning from it, without the unit. -/
theorem Inv.loop_aside (h : Inv dBlocks s) (hold : (s.pc t).holds = false) {f : Frame T B}
    (hf : f.AtTest dBlocks t) : Inv dBlocks (s.loop t f) := by
  unfold State.loop
  split
  · next hmore =>
    exact h.aside hold rfl (by simp [Pc.asleepClear]) (fun f' hf' => by
      cases hf'
      exact hf.good hmore) h.answers
  · next hend =>
    exact h.aside hold rfl (by simp [Pc.asleepClear]) (fun f' hf' => by cases hf')
      (h.answer (hf.answer hend))

/-- The same after giving up the unit. -/
theorem Inv.loop_giveUp (h : Inv dBlocks s) (hold : (s.pc t).holds = true) (hquiet : Quiet s.lh)
    {f : Frame T B} (hf : f.AtTest dBlocks t) : Inv dBlocks (s.vClear.loop t f) := by
  unfold State.loop
  split
  · next hmore =>
    exact h.giveUp hold hquiet rfl rfl (fun f' hf' => by
      cases hf'
      exact hf.good hmore) h.answers
  · next hend =>
    exact h.giveUp hold hquiet rfl rfl (fun f' hf' => by cases hf') (h.answer (hf.answer hend))

theorem exec_enter {c : Call} (h : Inv dBlocks s) (hp : s.pc t = .enter c) :
    Inv dBlocks (if c.refused dBlocks then s.ret t ⟨c, 0, []⟩ (some .EINVAL) none
      else s.loop t ⟨c, 0, []⟩) := by
  have hold : (s.pc t).holds = false := by rw [hp]; rfl
  split
  · next hr =>
    exact h.aside hold rfl (by simp [Pc.asleepClear]) (fun f' hf' => by cases hf')
      (h.answer (refused_right hr))
  · next hr =>
    refine h.loop_aside hold ⟨hr, trivial, List.forall_mem_nil _, rfl, ?_⟩
    rw [UInt32.le_iff_toNat_le]
    exact Nat.zero_le _

theorem exec_pClear {f : Frame T B} (h : Inv dBlocks s) (hp : s.pc t = .pClear f) :
    Inv dBlocks (if s.lh.lhClear = 0 then s.goto t (.sleepClear f)
      else { s with lh := { s.lh with lhClear := s.lh.lhClear - 1 } }.goto t
        (if f.call.write then .fill f else .setSect f)) := by
  have hold : (s.pc t).holds = false := by rw [hp]; rfl
  have hgood : f.Good dBlocks t := h.frames t f (by rw [hp]; rfl)
  split
  · next hc =>
    exact h.aside hold rfl (fun _ => hc) (fun f' hf' => by
      cases hf'
      exact hgood) h.answers
  · next hc =>
    cases h.owner with
    | thread v hc' => exact absurd hc' hc
    | nobody hc' hq hn =>
      have hone : s.lh.lhClear - 1 = 0 := by rw [hc']
      have hq' : Quiet { s.lh with lhClear := s.lh.lhClear - 1 } :=
        ⟨hq.inflight, hq.posted, hq.signalled, hq.done, hq.stat⟩
      refine ⟨.thread t hone ?_ fun u hu => ?_, fun u f' hf' => ?_, h.numbered, h.fresh, h.waits,
        h.once, h.answers⟩
      · simp only [State.goto, upd_same]
        split
        · next hw => exact ⟨hq', hw⟩
        · exact hq'
      · by_contra hut
        simp [State.goto, upd_other _ _ hut, hn u] at hu
      · by_cases hut : u = t
        · subst hut
          simp only [State.goto, upd_same] at hf'
          split at hf' <;> cases hf' <;> exact hgood
        · exact h.frames u f' (by simpa [State.goto, upd_other _ _ hut] using hf')

/-- A thread with the unit takes a step. -/
theorem exec_owner {moved : Option Errno} {data : B} (h : Inv dBlocks s)
    (hold : (s.pc t).holds = true) (hexec : s.exec dBlocks t moved data = some s') :
    Inv dBlocks s' := by
  obtain ⟨hc, ho, honly⟩ := h.owns hold
  have hframe := h.frames t
  have hgo {lh' : Lh T B} {p' : Pc T B} (hclear : lh'.lhClear = 0) (howns : Owns lh' t p')
      (hf : p'.frame = (s.pc t).frame) (hst : lh'.started = s.lh.started)
      (hpend : lh'.pending = s.lh.pending) :
      Inv dBlocks { s with lh := lh', pc := upd s.pc t p' } :=
    h.goOn hold hclear howns hf (hst ▸ h.numbered) (hst ▸ h.fresh) (hst ▸ h.waits)
      (hst ▸ hpend ▸ h.once)
  unfold State.exec at hexec
  cases hp : s.pc t with
  | fill f =>
    simp only [hp] at hexec ho hgo
    cases hexec
    have hq : Quiet { s.lh with buf := data } :=
      ⟨ho.1.inflight, ho.1.posted, ho.1.signalled, ho.1.done, ho.1.stat⟩
    cases moved with
    | none => exact hgo hc hq rfl rfl rfl
    | some e => exact hgo hc ⟨hq, ho.2⟩ rfl rfl rfl
  | failed f e =>
    simp only [hp] at hexec ho hframe
    cases hexec
    exact h.giveUp hold ho.1 rfl rfl (fun f' hf' => by cases hf')
      (h.answer ((hframe f rfl).fault ho.2 e))
  | setSect f =>
    simp only [hp] at hexec ho hgo
    cases hexec
    exact hgo hc ⟨⟨ho.inflight, ho.posted, ho.signalled, ho.done, ho.stat⟩, rfl⟩ rfl rfl rfl
  | setStat f =>
    simp only [hp] at hexec ho
    cases hexec
    obtain ⟨hq, hsect⟩ := ho
    refine h.goOn hold ?_ ?_ (by rw [hp]; rfl) ?_ ?_ ?_ ?_
    · exact hc
    · refine ⟨⟨rfl, hsect, rfl, List.mem_cons_self⟩, ?_⟩
      exact .inflight (by rw [hq.inflight]) hq.posted hq.signalled hq.done (working_stat _)
    · exact List.pairwise_cons.mpr ⟨h.fresh, h.numbered⟩
    · intro op hop
      rw [List.length_cons]
      rcases List.mem_cons.mp hop with rfl | hop
      · exact Nat.lt_succ_self _
      · exact Nat.lt_succ_of_lt (h.fresh op hop)
    · intro w hw
      exact ⟨List.mem_cons_of_mem _ (h.waits w hw).1, (h.waits w hw).2⟩
    · have hmiddle : (s.waits.map (·.1) ++ (s.lh.signalled.map (·.op) ++
          (s.lh.posted.map (·.op)).toList) ++
            ⟨s.lh.started.length, t, s.lh.sect, f.call.write⟩ :: s.lh.inflight).Perm
          (⟨s.lh.started.length, t, s.lh.sect, f.call.write⟩ :: (s.waits.map (·.1) ++
            (s.lh.signalled.map (·.op) ++ (s.lh.posted.map (·.op)).toList) ++ s.lh.inflight)) :=
        List.perm_middle
      have honce := h.once
      simp only [Lh.pending, ← List.append_assoc] at hmiddle honce ⊢
      exact hmiddle.trans (honce.cons _)
  | pDone f op =>
    simp only [hp] at hexec ho hgo
    cases hexec
    obtain ⟨hof, hwait⟩ := ho
    split
    · next hd => exact hgo hc ⟨hof, hwait, hd⟩ rfl rfl rfl
    · next hd =>
      -- the unit of `lh_done` is the one for this operation
      cases hwait with
      | inflight _ _ _ hd' => exact absurd hd' hd
      | posted _ _ _ _ _ hd' => exact absurd hd' hd
      | signalled c hin hpost hsig hone hstat hends hres =>
        have hq : Quiet { s.lh with lhDone := s.lh.lhDone - 1, signalled := s.lh.signalled.tail } :=
          ⟨hin, hpost, by rw [hsig]; rfl, by rw [hone], hstat⟩
        have hhead : s.lh.signalled.head? = some c := by rw [hsig]; rfl
        rw [hhead]
        refine h.goOn hold ?_ ?_ (by rw [hp]; rfl) ?_ ?_ ?_ ?_
        · exact hc
        · exact ⟨⟨hof.thread, hof.sector, hof.write, hof.started⟩, hq, c, rfl, hends, hres⟩
        · exact h.numbered
        · exact h.fresh
        · intro w hw
          rcases List.mem_cons.mp hw with rfl | hw
          · exact ⟨hof.started, c, rfl, hends.own⟩
          · exact h.waits w hw
        · have honce := h.once
          simp only [Lh.pending, hsig, hpost, hin, List.map_cons, List.map_nil, Option.map_none,
            Option.toList_none, List.append_nil, List.tail_cons, hends.own] at honce ⊢
          exact (List.perm_append_singleton op _).symm.trans honce
  | getResult f op done =>
    simp only [hp] at hexec ho hgo hframe
    cases hexec
    obtain ⟨hof, hq, c, rfl, hends, hres⟩ := ho
    split
    · next hout =>
      have hok := errno_none (hres.symm.trans hout.1)
      exact hgo hc ⟨hof, hq, eq_false_of_ne_true hout.2, c, rfl, hends, hok⟩ rfl rfl rfl
    · next hout =>
      exact hgo hc ⟨hq, hof.own_result (hframe f rfl) hends hres hout⟩ rfl rfl rfl
  | moveOut f op done =>
    simp only [hp] at hexec ho hgo hframe
    cases hexec
    obtain ⟨hof, hq, hread, c, rfl, hends, hok⟩ := ho
    exact hgo hc ⟨hq, hof.own_moved (hframe f rfl) hends hok hread moved⟩ rfl rfl rfl
  | clear f r =>
    simp only [hp] at hexec ho hframe
    cases hexec
    have hgood := hframe f rfl
    cases hr : r.result with
    | some e =>
      exact h.giveUp hold ho.1 rfl rfl (fun f' hf' => by cases hf')
        (h.answer (hgood.failed ho.2 hr))
    | none => exact h.loop_giveUp hold ho.1 (hgood.next ho.2 hr)
  | sleepDone f op => simp only [hp] at hexec; cases hexec
  | _ => rw [hp] at hold; cases hold

theorem exec_inv {moved : Option Errno} {data : B} (h : Inv dBlocks s)
    (hexec : s.exec dBlocks t moved data = some s') : Inv dBlocks s' := by
  by_cases hold : (s.pc t).holds = true
  · exact exec_owner h hold hexec
  · unfold State.exec at hexec
    cases hp : s.pc t with
    | enter c =>
      simp only [hp] at hexec
      cases hexec
      exact exec_enter h hp
    | pClear f =>
      simp only [hp] at hexec
      cases hexec
      exact exec_pClear h hp
    | out => simp only [hp] at hexec; cases hexec
    | sleepClear f => simp only [hp] at hexec; cases hexec
    | _ =>
      rw [hp] at hold
      exact absurd rfl hold

/-! ## Runs -/

theorem step_inv {a : Act T B} (h : Inv dBlocks s) (hstep : step dBlocks s a = some s') :
    Inv dBlocks s' := by
  cases a with
  | call t c =>
    simp only [step] at hstep
    split at hstep
    · next hp =>
      cases hstep
      exact h.aside (by rw [hp]; rfl) rfl (by simp [Pc.asleepClear]) (fun f hf => by cases hf)
        h.answers
    · cases hstep
  | exec t moved data => exact exec_inv h hstep
  | complete i code flag junk =>
    obtain ⟨lh, hlh, rfl⟩ := Option.map_eq_some_iff.mp hstep
    exact complete_inv h hlh
  | irq =>
    cases hstep
    exact irq_inv h

end Steps

end Os161.Dev
