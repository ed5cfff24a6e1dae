import Mathlib.Logic.Basic

/-! # Resumable programs and their weakest preconditions

A program is a tree of effects on a shared state: reading and replacing the
state, asking for a bit the surroundings choose, a request the caller blocks
on, a marked event, an error and a stop. One tree serves every scheduler. Here
the sequential one is given (`run`) with its weakest precondition (`wp`).
-/
namespace Os161.Lib

/-- What programs range over: the state they share, the errors they return,
the ways they stop, the requests they block on with the responses, and the
events they mark. -/
structure Sig where
  State : Type
  Err : Type
  Stop : Type
  Req : Type
  Resp : Type
  Ev : Type

inductive Prog (S : Sig) (α : Type) : Type where
  | ret (a : α)
  | fail (e : S.Err)
  | stop (m : S.Stop)
  | get (k : S.State → Prog S α)
  | put (s : S.State) (k : Prog S α)
  | flip (k : Bool → Prog S α)
  | call (r : S.Req) (k : S.Resp → Prog S α)
  | emit (e : S.Ev) (k : Prog S α)

namespace Prog

variable {S : Sig} {α β : Type}

def bind : Prog S α → (α → Prog S β) → Prog S β
  | .ret a, f => f a
  | .fail e, _ => .fail e
  | .stop m, _ => .stop m
  | .get k, f => .get fun s => (k s).bind f
  | .put s k, f => .put s (k.bind f)
  | .flip k, f => .flip fun b => (k b).bind f
  | .call r k, f => .call r fun x => (k x).bind f
  | .emit e k, f => .emit e (k.bind f)

instance : Monad (Prog S) where
  pure := .ret
  bind := bind

theorem bind_assoc {γ : Type} (x : Prog S α) (f : α → Prog S β) (g : β → Prog S γ) :
    (x >>= f) >>= g = x >>= fun a => f a >>= g := by
  change (x.bind f).bind g = x.bind fun a => (f a).bind g
  induction x with
  | ret a => rfl
  | fail e => rfl
  | stop m => rfl
  | get k ih => exact congrArg Prog.get (funext ih)
  | put s k ih => exact congrArg (Prog.put s) ih
  | flip k ih => exact congrArg Prog.flip (funext ih)
  | call r k ih => exact congrArg (Prog.call r) (funext ih)
  | emit e k ih => exact congrArg (Prog.emit e) ih

/-- Hand an error back as a value instead of passing it on. -/
def attempt : Prog S α → Prog S (Except S.Err α)
  | .ret a => .ret (.ok a)
  | .fail e => .ret (.error e)
  | .stop m => .stop m
  | .get k => .get fun s => (k s).attempt
  | .put s k => .put s k.attempt
  | .flip k => .flip fun b => (k b).attempt
  | .call r k => .call r fun x => (k x).attempt
  | .emit e k => .emit e k.attempt

/-! ## Single effects -/

def getS : Prog S S.State := .get .ret
def setS (s : S.State) : Prog S Unit := .put s (.ret ())
def modifyS (f : S.State → S.State) : Prog S Unit := .get fun s => .put (f s) (.ret ())
def choose : Prog S Bool := .flip .ret
def request (r : S.Req) : Prog S S.Resp := .call r .ret
def mark (e : S.Ev) : Prog S Unit := .emit e (.ret ())

end Prog

/-- How a sequential run ended. -/
inductive Outcome (S : Sig) (α : Type) where
  | ok (a : α)
  | err (e : S.Err)
  | stopped (m : S.Stop)

/-- The surroundings of a program: what answers its requests and its coin
flips. They are told the state at the moment of the request. -/
structure Outside (S : Sig) where
  Env : Type
  serve : S.State → S.Req → Env → S.Resp × Env
  toss : Env → Bool × Env

/-- The state a program works on together with its surroundings. -/
structure World {S : Sig} (O : Outside S) where
  st : S.State
  env : O.Env

namespace Prog

variable {S : Sig} {α β : Type} (O : Outside S)

/-- Run with nobody else: every request is answered at once. -/
def run : Prog S α → World O → Outcome S α × World O
  | .ret a, w => (.ok a, w)
  | .fail e, w => (.err e, w)
  | .stop m, w => (.stopped m, w)
  | .get k, w => (k w.st).run w
  | .put s k, w => k.run { w with st := s }
  | .flip k, w => (k (O.toss w.env).1).run { w with env := (O.toss w.env).2 }
  | .call r k, w => (k (O.serve w.st r w.env).1).run { w with env := (O.serve w.st r w.env).2 }
  | .emit _ k, w => k.run w

end Prog

/-- A postcondition for each way a run can end. -/
structure Post {S : Sig} (O : Outside S) (α : Type) where
  ok : α → World O → Prop
  err : S.Err → World O → Prop
  stopped : S.Stop → World O → Prop

namespace Post

variable {S : Sig} {O : Outside S} {α : Type}

def holds (Q : Post O α) : Outcome S α × World O → Prop
  | (.ok a, w) => Q.ok a w
  | (.err e, w) => Q.err e w
  | (.stopped m, w) => Q.stopped m w

@[simp] theorem holds_ok (Q : Post O α) (a : α) (w : World O) :
    Q.holds (.ok a, w) = Q.ok a w := rfl
@[simp] theorem holds_err (Q : Post O α) (e : S.Err) (w : World O) :
    Q.holds (.err e, w) = Q.err e w := rfl
@[simp] theorem holds_stopped (Q : Post O α) (m : S.Stop) (w : World O) :
    Q.holds (.stopped m, w) = Q.stopped m w := rfl

end Post

namespace Prog

variable {S : Sig} {O : Outside S} {α β : Type}

/-- What must hold beforehand for a run to end as described. -/
def wp (p : Prog S α) (Q : Post O α) (w : World O) : Prop := Q.holds (p.run O w)

theorem wp_iff (p : Prog S α) (Q : Post O α) (w : World O) :
    p.wp Q w ↔ Q.holds (p.run O w) := Iff.rfl

/-- A statement about the successful runs only. -/
theorem wp_ok_iff {p : Prog S α} {P : α → World O → Prop} {w : World O} :
    p.wp ⟨P, fun _ _ => True, fun _ _ => True⟩ w ↔ ∀ a w', p.run O w = (.ok a, w') → P a w' := by
  rw [wp_iff]
  generalize p.run O w = r
  obtain ⟨o, w'⟩ := r
  cases o with
  | ok a =>
    refine ⟨fun h b w'' he => ?_, fun h => h a w' rfl⟩
    cases he
    exact h
  | err e => exact ⟨fun _ b w'' he => (by cases he), fun _ => trivial⟩
  | stopped m => exact ⟨fun _ b w'' he => (by cases he), fun _ => trivial⟩

/-- The rule of consequence. -/
theorem wp.mono {p : Prog S α} {P Q : Post O α} {w : World O} (h : p.wp P w)
    (hok : ∀ a w', P.ok a w' → Q.ok a w') (herr : ∀ e w', P.err e w' → Q.err e w')
    (hstop : ∀ m w', P.stopped m w' → Q.stopped m w') : p.wp Q w := by
  rw [wp_iff] at h ⊢
  generalize p.run O w = r at h
  obtain ⟨o, w'⟩ := r
  cases o with
  | ok a => exact hok a w' h
  | err e => exact herr e w' h
  | stopped m => exact hstop m w' h

/-- Nothing is known of the program. -/
theorem wp_any {p : Prog S α} {Q : Post O α} {w : World O} (hok : ∀ a w', Q.ok a w')
    (herr : ∀ e w', Q.err e w') (hstop : ∀ m w', Q.stopped m w') : p.wp Q w := by
  rw [wp_iff]
  generalize p.run O w = r
  obtain ⟨o, w'⟩ := r
  cases o with
  | ok a => exact hok a w'
  | err e => exact herr e w'
  | stopped m => exact hstop m w'

/-- A run that succeeds. -/
theorem ok_of_wp {p : Prog S α} {P : α → World O → Prop} {w : World O}
    (h : p.wp ⟨P, fun _ _ => False, fun _ _ => False⟩ w) :
    ∃ a w', p.run O w = (.ok a, w') ∧ P a w' := by
  rw [wp_iff] at h
  generalize p.run O w = r at h
  obtain ⟨o, w'⟩ := r
  cases o with
  | ok a => exact ⟨a, w', rfl, h⟩
  | err e => exact absurd h id
  | stopped m => exact absurd h id

variable {Q : Post O α} {w : World O}

@[simp] theorem wp_pure (a : α) : (pure a : Prog S α).wp Q w = Q.ok a w := rfl
@[simp] theorem wp_ret (a : α) : (Prog.ret a : Prog S α).wp Q w = Q.ok a w := rfl
@[simp] theorem wp_fail (e : S.Err) : (Prog.fail e : Prog S α).wp Q w = Q.err e w := rfl
@[simp] theorem wp_stop (m : S.Stop) : (Prog.stop m : Prog S α).wp Q w = Q.stopped m w := rfl

@[simp] theorem wp_bind (p : Prog S β) (f : β → Prog S α) :
    (p >>= f).wp Q w = p.wp ⟨fun b w' => (f b).wp Q w', Q.err, Q.stopped⟩ w := by
  change Q.holds ((p.bind f).run O w) = Post.holds _ (p.run O w)
  induction p generalizing w with
  | ret b => rfl
  | fail e => rfl
  | stop m => rfl
  | get k ih => exact ih _
  | put s k ih => exact ih
  | flip k ih => exact ih _
  | call r k ih => exact ih _
  | emit e k ih => exact ih

@[simp] theorem wp_attempt (p : Prog S α) (R : Post O (Except S.Err α)) :
    p.attempt.wp R w =
      p.wp ⟨fun a w' => R.ok (.ok a) w', fun e w' => R.ok (.error e) w', R.stopped⟩ w := by
  change R.holds (p.attempt.run O w) = Post.holds _ (p.run O w)
  induction p generalizing w with
  | ret a => rfl
  | fail e => rfl
  | stop m => rfl
  | get k ih => exact ih _
  | put s k ih => exact ih
  | flip k ih => exact ih _
  | call r k ih => exact ih _
  | emit e k ih => exact ih

@[simp] theorem wp_getS (R : Post O S.State) : (getS : Prog S S.State).wp R w = R.ok w.st w := rfl
@[simp] theorem wp_setS (s : S.State) (R : Post O Unit) :
    (setS s : Prog S Unit).wp R w = R.ok () { w with st := s } := rfl
@[simp] theorem wp_modifyS (f : S.State → S.State) (R : Post O Unit) :
    (modifyS f : Prog S Unit).wp R w = R.ok () { w with st := f w.st } := rfl
@[simp] theorem wp_choose (R : Post O Bool) :
    (choose : Prog S Bool).wp R w =
      R.ok (O.toss w.env).1 { w with env := (O.toss w.env).2 } := rfl
@[simp] theorem wp_request (r : S.Req) (R : Post O S.Resp) :
    (request r : Prog S S.Resp).wp R w =
      R.ok (O.serve w.st r w.env).1 { w with env := (O.serve w.st r w.env).2 } := rfl
@[simp] theorem wp_mark (e : S.Ev) (R : Post O Unit) :
    (mark e : Prog S Unit).wp R w = R.ok () w := rfl

@[simp] theorem wp_ite {c : Prop} [Decidable c] (p q : Prog S α) :
    (if c then p else q).wp Q w = if c then p.wp Q w else q.wp Q w := by
  split <;> rfl

-- from here on only the rules above
attribute [irreducible] wp

/-! ## Invariants of a program -/

theorem wp.and {p : Prog S α} {P : Post O α} (h : p.wp P w) (h' : p.wp Q w) :
    p.wp ⟨fun a w' => P.ok a w' ∧ Q.ok a w', fun e w' => P.err e w' ∧ Q.err e w',
      fun m w' => P.stopped m w' ∧ Q.stopped m w'⟩ w := by
  rw [wp_iff] at *
  generalize p.run O w = r at *
  obtain ⟨o, w'⟩ := r
  cases o <;> exact ⟨h, h'⟩

/-- The run the postcondition is about. -/
theorem wp.ran {p : Prog S α} (h : p.wp Q w) :
    p.wp ⟨fun a w' => p.run O w = (.ok a, w') ∧ Q.ok a w',
      fun e w' => p.run O w = (.err e, w') ∧ Q.err e w',
      fun m w' => p.run O w = (.stopped m, w') ∧ Q.stopped m w'⟩ w := by
  rw [wp_iff] at *
  generalize p.run O w = r at *
  obtain ⟨o, w'⟩ := r
  cases o <;> exact ⟨rfl, h⟩

/-- Two postconditions that agree wherever the program succeeds. -/
theorem wp.congr {p : Prog S α} {I P P' : α → World O → Prop} {E : S.Err → World O → Prop}
    {T : S.Stop → World O → Prop} (h : p.wp ⟨I, fun _ _ => True, fun _ _ => True⟩ w)
    (hiff : ∀ a w', I a w' → (P a w' ↔ P' a w')) : p.wp ⟨P, E, T⟩ w ↔ p.wp ⟨P', E, T⟩ w :=
  ⟨fun hP => (h.and hP).mono (fun a w' h => (hiff a w' h.1).mp h.2) (fun _ _ h => h.2)
      fun _ _ h => h.2,
    fun hP => (h.and hP).mono (fun a w' h => (hiff a w' h.1).mpr h.2) (fun _ _ h => h.2)
      fun _ _ h => h.2⟩

/-- The run ends with the value `a`. -/
def Returns (p : Prog S α) (w : World O) (a : α) : Prop :=
  p.wp ⟨fun b _ => b = a, fun _ _ => False, fun _ _ => False⟩ w

theorem returns_iff {p : Prog S α} {a : α} :
    p.Returns w a ↔ ∃ w', p.run O w = (.ok a, w') := by
  rw [Returns, wp_iff]
  generalize p.run O w = r
  obtain ⟨o, w'⟩ := r
  cases o with
  | ok b =>
    refine ⟨fun h => ⟨w', by rw [show b = a from h]⟩, fun h => ?_⟩
    obtain ⟨w'', h⟩ := h
    cases h
    rfl
  | err e => exact ⟨fun h => h.elim, fun ⟨_, h⟩ => by cases h⟩
  | stopped m => exact ⟨fun h => h.elim, fun ⟨_, h⟩ => by cases h⟩

theorem not_returns {p : Prog S α} {a : α}
    (h : p.wp ⟨fun b _ => b ≠ a, fun _ _ => True, fun _ _ => True⟩ w) : ¬ p.Returns w a := by
  intro hr
  obtain ⟨w', hrun⟩ := returns_iff.mp hr
  rw [wp_iff, hrun] at h
  exact h rfl

/-- From every world in `I` the program ends in one of them, with a value in
`V` or an error in `E`. -/
def Keeps (I : World O → Prop) (E : S.Err → Prop) (V : α → Prop) (p : Prog S α) : Prop :=
  ∀ w, I w → p.wp ⟨fun a w' => I w' ∧ V a, fun e w' => I w' ∧ E e, fun _ w' => I w'⟩ w

namespace Keeps

variable {I : World O → Prop} {E : S.Err → Prop} {V : α → Prop} {W : β → Prop}
  {p q : Prog S α}

theorem pure {a : α} (h : V a) : (Pure.pure a : Prog S α).Keeps I E V :=
  fun _ hw => (wp_pure a).mpr ⟨hw, h⟩

theorem fail {e : S.Err} (h : E e) : (Prog.fail e : Prog S α).Keeps I E V :=
  fun _ hw => (wp_fail e).mpr ⟨hw, h⟩

theorem stop {m : S.Stop} : (Prog.stop m : Prog S α).Keeps I E V :=
  fun _ hw => (wp_stop m).mpr hw

theorem mark {e : S.Ev} : (Prog.mark e).Keeps I E fun _ => True :=
  fun _ hw => (wp_mark e _).mpr ⟨hw, trivial⟩

theorem bind {f : α → Prog S β} (hp : p.Keeps I E V) (hf : ∀ a, V a → (f a).Keeps I E W) :
    (p >>= f).Keeps I E W := by
  intro w hw
  rw [wp_bind]
  exact (hp w hw).mono (fun a w' h => hf a h.2 w' h.1) (fun _ _ h => h) fun _ _ h => h

theorem attempt (hp : p.Keeps I E V) :
    p.attempt.Keeps I E fun r => match r with | .ok a => V a | .error e => E e := by
  intro w hw
  rw [wp_attempt]
  exact (hp w hw).mono (fun _ _ h => h) (fun _ _ h => h) fun _ _ h => h

theorem ite {c : Prop} [Decidable c] (hp : c → p.Keeps I E V) (hq : ¬ c → q.Keeps I E V) :
    (if c then p else q).Keeps I E V := by
  split
  · next h => exact hp h
  · next h => exact hq h

theorem mono {V' : α → Prop} (hp : p.Keeps I E V) (hV : ∀ a, V a → V' a) : p.Keeps I E V' :=
  fun w hw => (hp w hw).mono (fun a _ h => ⟨h.1, hV a h.2⟩) (fun _ _ h => h) fun _ _ h => h

end Keeps

/-! ## What a run marks -/

/-- The events a run marks, in order. -/
def marks (O : Outside S) : Prog S α → World O → List S.Ev
  | .ret _, _ | .fail _, _ | .stop _, _ => []
  | .get k, w => (k w.st).marks O w
  | .put s k, w => k.marks O { w with st := s }
  | .flip k, w => (k (O.toss w.env).1).marks O { w with env := (O.toss w.env).2 }
  | .call r k, w =>
    (k (O.serve w.st r w.env).1).marks O { w with env := (O.serve w.st r w.env).2 }
  | .emit e k, w => e :: k.marks O w

theorem marks_bind (p : Prog S β) (f : β → Prog S α) (w : World O) :
    (p >>= f).marks O w = p.marks O w ++
      match p.run O w with
      | (.ok b, w') => (f b).marks O w'
      | _ => [] := by
  change (p.bind f).marks O w = _
  induction p generalizing w with
  | ret b => rfl
  | fail e => rfl
  | stop m => rfl
  | get k ih => exact ih _ _
  | put s k ih => exact ih _
  | flip k ih => exact ih _ _
  | call r k ih => exact ih _ _
  | emit e k ih => exact congrArg (e :: ·) (ih w)

theorem marks_attempt (p : Prog S α) (w : World O) : p.attempt.marks O w = p.marks O w := by
  induction p generalizing w with
  | ret a => rfl
  | fail e => rfl
  | stop m => rfl
  | get k ih => exact ih _ _
  | put s k ih => exact ih _
  | flip k ih => exact ih _ _
  | call r k ih => exact ih _ _
  | emit e k ih => exact congrArg (e :: ·) (ih w)

/-- A run that does not mark `ev` ends with a value in `V` or an error in `E`. -/
def Unless (O : Outside S) (ev : S.Ev) (E : S.Err → Prop) (V : α → Prop) (p : Prog S α) : Prop :=
  ∀ w, ev ∉ p.marks O w → p.wp ⟨fun a _ => V a, fun e _ => E e, fun _ _ => True⟩ w

namespace Unless

variable {ev : S.Ev} {E : S.Err → Prop} {V : α → Prop} {W : β → Prop} {p : Prog S α}

/-- What holds of every run. -/
theorem of_wp (h : ∀ w : World O, p.wp ⟨fun a _ => V a, fun e _ => E e, fun _ _ => True⟩ w) :
    p.Unless O ev E V := fun w _ => h w

theorem pure {a : α} (h : V a) : (Pure.pure a : Prog S α).Unless O ev E V :=
  of_wp fun w => (wp_pure (w := w) a).mpr h

theorem fail {e : S.Err} (h : E e) : (Prog.fail e : Prog S α).Unless O ev E V :=
  of_wp fun w => (wp_fail (w := w) e).mpr h

theorem stop {m : S.Stop} : (Prog.stop m : Prog S α).Unless O ev E V :=
  of_wp fun w => (wp_stop (w := w) m).mpr trivial

theorem ite {c : Prop} [Decidable c] {q : Prog S α} (hp : c → p.Unless O ev E V)
    (hq : ¬ c → q.Unless O ev E V) : (if c then p else q).Unless O ev E V := by
  split
  · next h => exact hp h
  · next h => exact hq h

/-- Behind the mark nothing is asked of a run. -/
theorem mark (p : Prog S α) : (Prog.mark ev >>= fun _ => p).Unless O ev E V := by
  intro w hw
  rw [marks_bind] at hw
  exact absurd (List.mem_append_left _ List.mem_cons_self) hw

theorem bind {f : α → Prog S β} (hp : p.Unless O ev E V) (hf : ∀ a, V a → (f a).Unless O ev E W) :
    (p >>= f).Unless O ev E W := by
  intro w hw
  rw [marks_bind, List.mem_append, not_or] at hw
  obtain ⟨hfirst, hrest⟩ := hw
  rw [wp_bind]
  refine ((hp w hfirst).ran).mono (fun a w' h => ?_) (fun _ _ h => h.2) fun _ _ _ => trivial
  obtain ⟨hrun, ha⟩ := h
  rw [hrun] at hrest
  exact hf a ha w' hrest

theorem attempt (hp : p.Unless O ev E V) : p.attempt.Unless O ev E
    fun r => match r with | .ok a => V a | .error e => E e := by
  intro w hw
  rw [marks_attempt] at hw
  rw [wp_attempt]
  exact (hp w hw).mono (fun _ _ h => h) (fun _ _ h => h) fun _ _ h => h

theorem mono {V' : α → Prop} (hp : p.Unless O ev E V) (hV : ∀ a, V a → V' a) :
    p.Unless O ev E V' :=
  fun w hw => (hp w hw).mono (fun a _ h => hV a h) (fun _ _ h => h) fun _ _ h => h

end Unless

/-! ## Where a program can stop -/

/-- Wherever the program stops, whatever it is answered, it stops as `P` says. -/
def StopsOnly (P : S.Stop → Prop) : Prog S α → Prop
  | .ret _ => True
  | .fail _ => True
  | .stop m => P m
  | .get k => ∀ s, (k s).StopsOnly P
  | .put _ k => k.StopsOnly P
  | .flip k => ∀ b, (k b).StopsOnly P
  | .call _ k => ∀ x, (k x).StopsOnly P
  | .emit _ k => k.StopsOnly P

theorem StopsOnly.run {P : S.Stop → Prop} {p : Prog S α} (h : p.StopsOnly P) {w w' : World O}
    {m : S.Stop} (hr : p.run O w = (.stopped m, w')) : P m := by
  induction p generalizing w with
  | ret a => cases hr
  | fail e => cases hr
  | stop m =>
    cases hr
    exact h
  | get k ih => exact ih _ (h _) hr
  | put s k ih => exact ih h hr
  | flip k ih => exact ih _ (h _) hr
  | call r k ih => exact ih _ (h _) hr
  | emit e k ih => exact ih h hr

theorem StopsOnly.wp {P : S.Stop → Prop} {p : Prog S α} (h : p.StopsOnly P) {w : World O} :
    p.wp ⟨fun _ _ => True, fun _ _ => True, fun m _ => P m⟩ w := by
  rw [wp_iff]
  cases hr : p.run O w with
  | mk o w' =>
    cases o with
    | ok a => exact trivial
    | err e => exact trivial
    | stopped m => exact h.run hr

theorem StopsOnly.bind {P : S.Stop → Prop} {p : Prog S α} {f : α → Prog S β}
    (hp : p.StopsOnly P) (hf : ∀ a, (f a).StopsOnly P) : (p >>= f).StopsOnly P := by
  change (p.bind f).StopsOnly P
  induction p with
  | ret a => exact hf a
  | fail e => exact trivial
  | stop m => exact hp
  | get k ih => exact fun s => ih s (hp s)
  | put s k ih => exact ih hp
  | flip k ih => exact fun b => ih b (hp b)
  | call r k ih => exact fun x => ih x (hp x)
  | emit e k ih => exact ih hp

namespace StopsOnly

variable {P : S.Stop → Prop}

theorem pure (a : α) : (Pure.pure a : Prog S α).StopsOnly P := trivial
theorem fail (e : S.Err) : (Prog.fail e : Prog S α).StopsOnly P := trivial
theorem stop {m : S.Stop} (h : P m) : (Prog.stop m : Prog S α).StopsOnly P := h
theorem getS : (Prog.getS : Prog S S.State).StopsOnly P := fun _ => trivial
theorem setS (s : S.State) : (Prog.setS s).StopsOnly P := trivial
theorem modifyS (f : S.State → S.State) : (Prog.modifyS f).StopsOnly P := fun _ => trivial
theorem request (r : S.Req) : (Prog.request r).StopsOnly P := fun _ => trivial
theorem mark (e : S.Ev) : (Prog.mark e).StopsOnly P := trivial

end StopsOnly

attribute [irreducible] StopsOnly

end Prog

end Os161.Lib
