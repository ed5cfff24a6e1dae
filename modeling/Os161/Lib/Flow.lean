import Mathlib.Algebra.BigOperators.Group.Finset.Piecewise
import Mathlib.Data.Fintype.Card
import Mathlib.Logic.Function.Basic
import Mathlib.Tactic.Common

/-! # Threads over locks and semaphores

The threads of a program run on one flow graph: the instruction at each program point
says where control goes next. Locks and semaphores are atomic operations that wait. -/
namespace Os161.Lib

/-! ## Tallies -/

open Classical in
/-- How many members of `S` have the property `p`. -/
noncomputable def tally {ι : Type} (S : Finset ι) (p : ι → Prop) : Nat := (S.filter p).card

section Tally

variable {ι : Type} {S : Finset ι} {p q : ι → Prop}

theorem tally_congr (h : ∀ b ∈ S, (q b ↔ p b)) : tally S q = tally S p := by
  classical
  exact congrArg Finset.card (Finset.filter_congr h)

theorem tally_pos : 0 < tally S p ↔ ∃ a ∈ S, p a := by
  simp [tally, Finset.card_pos, Finset.Nonempty]

theorem tally_eq_zero : tally S p = 0 ↔ ∀ a ∈ S, ¬ p a := by
  simp [tally, Finset.filter_eq_empty_iff]

theorem tally_eq_card (h : ∀ a ∈ S, p a) : tally S p = S.card := by
  classical
  exact congrArg Finset.card (Finset.filter_true_of_mem h)

theorem tally_lt_card {a : ι} (ha : a ∈ S) (h : ¬ p a) : tally S p < S.card := by
  classical
  exact Finset.card_lt_card (Finset.filter_ssubset.mpr ⟨a, ha, h⟩)

theorem tally_unique (h : tally S p ≤ 1) {a b : ι} (ha : a ∈ S) (hb : b ∈ S) (hpa : p a)
    (hpb : p b) : a = b := by
  classical
  exact Finset.card_le_one.mp h a (Finset.mem_filter.mpr ⟨ha, hpa⟩) b
    (Finset.mem_filter.mpr ⟨hb, hpb⟩)

/-- Changing what holds of one member moves the tally by what it loses and gains. -/
theorem tally_change {a : ι} [Decidable (p a)] [Decidable (q a)] (ha : a ∈ S)
    (h : ∀ b ∈ S, b ≠ a → (q b ↔ p b)) :
    tally S q + (if p a then 1 else 0) = tally S p + (if q a then 1 else 0) := by
  classical
  have hsum (r : ι → Prop) :
      tally S r = (if r a then 1 else 0) + ∑ i ∈ S.erase a, if r i then 1 else 0 := by
    rw [Finset.add_sum_erase S (fun i => if r i then 1 else 0) ha, ← Finset.card_filter]
    rfl
  have hrest : ∑ i ∈ S.erase a, (if q i then 1 else 0) = ∑ i ∈ S.erase a, if p i then 1 else 0 := by
    refine Finset.sum_congr rfl fun b hb => ?_
    obtain ⟨hne, hb⟩ := Finset.mem_erase.mp hb
    exact if_congr (h b hb hne) rfl rfl
  rw [hsum p, hsum q, hrest]
  by_cases hp : p a <;> by_cases hq : q a <;> simp [hp, hq] <;> omega

end Tally

/-! ## Programs -/

/-- Instructions over locks `L`, semaphores `X`, shared data `D` and program points `P`.
`exec` is one access to the data. -/
inductive Instr (L X D P : Type) where
  | acquire (l : L) (k : P)
  | release (l : L) (k : P)
  | p (x : X) (k : P)
  | v (x : X) (k : P)
  | exec (f : D → D × P)
  | exit
  | crash

/-- Where control goes when the instruction is done. -/
def Instr.next {L X D P : Type} (d : D) : Instr L X D P → Option P
  | .acquire _ k | .release _ k | .p _ k | .v _ k => some k
  | .exec f => some (f d).2
  | .exit | .crash => none

/-- Every thread's program point, the holder of every lock and the count of every
semaphore. -/
structure Config (T L X D P : Type) where
  pc : T → P
  owner : L → Option T
  count : X → Nat
  data : D

section Steps

variable {T L X D P : Type} [DecidableEq T] [DecidableEq L] [DecidableEq X]

/-- One instruction of thread `t`; `none` while it waits, and once it has ended. -/
def Config.step (code : P → Instr L X D P) (s : Config T L X D P) (t : T) :
    Option (Config T L X D P) :=
  match code (s.pc t) with
  | .acquire l k =>
    if s.owner l = none then
      some { s with pc := Function.update s.pc t k, owner := Function.update s.owner l (some t) }
    else none
  | .release l k =>
    if s.owner l = some t then
      some { s with pc := Function.update s.pc t k, owner := Function.update s.owner l none }
    else none
  | .p x k =>
    if 0 < s.count x then
      some { s with
        pc := Function.update s.pc t k
        count := Function.update s.count x (s.count x - 1) }
    else none
  | .v x k =>
    some { s with
      pc := Function.update s.pc t k
      count := Function.update s.count x (s.count x + 1) }
  | .exec f =>
    some { s with pc := Function.update s.pc t (f s.data).2, data := (f s.data).1 }
  | .exit => none
  | .crash => none

/-- One step of each thread of `ts` in turn. -/
def Config.steps (code : P → Instr L X D P) : Config T L X D P → List T → Option (Config T L X D P)
  | s, [] => some s
  | s, t :: ts =>
    match s.step code t with
    | none => none
    | some s' => s'.steps code ts

/-- `met` holds of the state and the thread of each of these steps. -/
def Config.Along (code : P → Instr L X D P) (met : Config T L X D P → T → Prop) :
    Config T L X D P → List T → Prop
  | _, [] => True
  | s, t :: ts => met s t ∧ ∀ s' ∈ s.step code t, s'.Along code met ts

instance Config.decidableAlong (code : P → Instr L X D P) (met : Config T L X D P → T → Prop)
    [∀ s t, Decidable (met s t)] : ∀ s ts, Decidable (Config.Along code met s ts)
  | _, [] => inferInstanceAs (Decidable True)
  | s, t :: ts =>
    have (s' : Config T L X D P) := Config.decidableAlong code met s' ts
    inferInstanceAs (Decidable (met s t ∧ ∀ s' ∈ s.step code t, s'.Along code met ts))

/-- The runs of a program. `met` holds of the state and the thread of every step. -/
inductive Run (code : P → Instr L X D P) (met : Config T L X D P → T → Prop)
    (s₀ : Config T L X D P) : Config T L X D P → Prop
  | start : Run code met s₀ s₀
  | step {s s' : Config T L X D P} {t : T} (hr : Run code met s₀ s) (hm : met s t)
      (hs : s.step code t = some s') : Run code met s₀ s'

/-- The runs under no condition. -/
abbrev Reach (code : P → Instr L X D P) (s₀ s : Config T L X D P) : Prop :=
  Run code (fun _ _ => True) s₀ s

variable {code : P → Instr L X D P} {s s' : Config T L X D P} {t : T}

/-- What one step can do. -/
theorem Config.step_cases (h : s.step code t = some s') :
    (∃ l k, code (s.pc t) = .acquire l k ∧ s.owner l = none ∧
      s' = { s with
        pc := Function.update s.pc t k, owner := Function.update s.owner l (some t) }) ∨
    (∃ l k, code (s.pc t) = .release l k ∧ s.owner l = some t ∧
      s' = { s with pc := Function.update s.pc t k, owner := Function.update s.owner l none }) ∨
    (∃ x k, code (s.pc t) = .p x k ∧ 0 < s.count x ∧
      s' = { s with
        pc := Function.update s.pc t k
        count := Function.update s.count x (s.count x - 1) }) ∨
    (∃ x k, code (s.pc t) = .v x k ∧
      s' = { s with
        pc := Function.update s.pc t k
        count := Function.update s.count x (s.count x + 1) }) ∨
    (∃ f, code (s.pc t) = .exec f ∧
      s' = { s with pc := Function.update s.pc t (f s.data).2, data := (f s.data).1 }) := by
  unfold Config.step at h
  split at h
  · rename_i l k hc
    split at h
    · rename_i ho
      exact .inl ⟨l, k, hc, ho, (Option.some.inj h).symm⟩
    · cases h
  · rename_i l k hc
    split at h
    · rename_i ho
      exact .inr (.inl ⟨l, k, hc, ho, (Option.some.inj h).symm⟩)
    · cases h
  · rename_i x k hc
    split at h
    · rename_i hx
      exact .inr (.inr (.inl ⟨x, k, hc, hx, (Option.some.inj h).symm⟩))
    · cases h
  · rename_i x k hc
    exact .inr (.inr (.inr (.inl ⟨x, k, hc, (Option.some.inj h).symm⟩)))
  · rename_i f hc
    exact .inr (.inr (.inr (.inr ⟨f, hc, (Option.some.inj h).symm⟩)))
  · cases h
  · cases h

theorem Config.step_pc (h : s.step code t = some s') :
    ∃ k, (code (s.pc t)).next s.data = some k ∧ s'.pc = Function.update s.pc t k := by
  rcases Config.step_cases h with ⟨l, k, hc, -, rfl⟩ | ⟨l, k, hc, -, rfl⟩ | ⟨x, k, hc, -, rfl⟩ |
    ⟨x, k, hc, rfl⟩ | ⟨f, hc, rfl⟩ <;>
  exact ⟨_, by rw [hc]; rfl, rfl⟩

/-- What every instruction keeps of the program point of its thread holds in every run. -/
theorem Config.points_step {At : T → P → Prop}
    (hat : ∀ t c d k, At t c → (code c).next d = some k → At t k)
    (h : ∀ t, At t (s.pc t)) (hs : s.step code t = some s') : ∀ u, At u (s'.pc u) := by
  obtain ⟨k, hk, hpc⟩ := Config.step_pc hs
  intro u
  rw [hpc]
  by_cases hu : u = t
  · subst hu
    rw [Function.update_self]
    exact hat u _ _ _ (h u) hk
  · rw [Function.update_of_ne hu]
    exact h u

/-- The invariant rule. -/
theorem Run.invariant {met : Config T L X D P → T → Prop} {s₀ : Config T L X D P}
    {I : Config T L X D P → Prop} (h₀ : I s₀)
    (hstep : ∀ s s' t, I s → met s t → s.step code t = some s' → I s')
    (hr : Run code met s₀ s) : I s := by
  induction hr with
  | start => exact h₀
  | step _ hm hs ih => exact hstep _ _ _ ih hm hs

/-- Steps along which the condition holds make a run. -/
theorem Run.of_along {met : Config T L X D P → T → Prop} {ts : List T} {s₀ : Config T L X D P}
    (hr : Run code met s₀ s) (hm : s.Along code met ts) (h : s.steps code ts = some s') :
    Run code met s₀ s' := by
  induction ts generalizing s with
  | nil =>
    obtain rfl := Option.some.inj h
    exact hr
  | cons t ts ih =>
    rw [Config.steps] at h
    split at h
    · cases h
    · rename_i s₁ hs
      exact ih (.step hr hm.1 hs) (hm.2 s₁ hs) h

theorem Config.along_true (ts : List T) : s.Along code (fun _ _ => True) ts := by
  induction ts generalizing s with
  | nil => trivial
  | cons t ts ih => exact ⟨trivial, fun s' _ => ih⟩

theorem Run.of_steps {ts : List T} {s₀ : Config T L X D P} (hr : Reach code s₀ s)
    (h : s.steps code ts = some s') : Reach code s₀ s' :=
  hr.of_along (Config.along_true ts) h

/-! ## Mutual exclusion -/

/-- `holds` tells from a program point which locks its thread holds. -/
structure Follows (code : P → Instr L X D P) (holds : P → L → Prop) : Prop where
  acquire : ∀ c l k, code c = .acquire l k → ∀ l', holds k l' ↔ l' = l ∨ holds c l'
  release : ∀ c l k, code c = .release l k → ∀ l', holds k l' ↔ l' ≠ l ∧ holds c l'
  held : ∀ c l k, code c = .release l k → holds c l
  p : ∀ c x k, code c = .p x k → ∀ l, holds k l ↔ holds c l
  v : ∀ c x k, code c = .v x k → ∀ l, holds k l ↔ holds c l
  exec : ∀ c f, code c = .exec f → ∀ d l, holds (f d).2 l ↔ holds c l

/-- A lock is owned by the thread whose program point holds it. -/
def Config.Mutex (holds : P → L → Prop) (s : Config T L X D P) : Prop :=
  ∀ l t, s.owner l = some t ↔ holds (s.pc t) l

omit [DecidableEq T] [DecidableEq L] [DecidableEq X] in
theorem Config.Mutex.unique {holds : P → L → Prop} (h : s.Mutex holds) {l : L} {t u : T}
    (ht : holds (s.pc t) l) (hu : holds (s.pc u) l) : t = u :=
  Option.some.inj (((h l t).mpr ht).symm.trans ((h l u).mpr hu))

theorem Config.Mutex.step {holds : P → L → Prop} (hf : Follows code holds) (h : s.Mutex holds)
    (hs : s.step code t = some s') : s'.Mutex holds := by
  intro l' u
  have hother (k : P) (hu : u ≠ t) : Function.update s.pc t k u = s.pc u :=
    Function.update_of_ne hu k s.pc
  rcases Config.step_cases hs with ⟨l, k, hc, ho, rfl⟩ | ⟨l, k, hc, ho, rfl⟩ |
    ⟨x, k, hc, -, rfl⟩ | ⟨x, k, hc, rfl⟩ | ⟨f, hc, rfl⟩
  · by_cases hl : l' = l
    · subst hl
      by_cases hu : u = t
      · subst hu
        simp [hf.acquire _ _ _ hc]
      · have hno : ¬ holds (s.pc u) l' := fun hx => by
          rw [← h, ho] at hx
          cases hx
        simp [hother _ hu, Ne.symm hu, hno]
    · by_cases hu : u = t
      · subst hu
        simp [hl, hf.acquire _ _ _ hc, h l']
      · simp [hl, hother _ hu, h l']
  · by_cases hl : l' = l
    · subst hl
      by_cases hu : u = t
      · subst hu
        simp [hf.release _ _ _ hc]
      · have hno : ¬ holds (s.pc u) l' := fun hx => by
          rw [← h, ho] at hx
          exact hu (Option.some.inj hx).symm
        simp [hother _ hu, hno]
    · by_cases hu : u = t
      · subst hu
        simp [hl, hf.release _ _ _ hc, h l']
      · simp [hl, hother _ hu, h l']
  · by_cases hu : u = t
    · subst hu
      simp [hf.p _ _ _ hc, h l']
    · simp [hother _ hu, h l']
  · by_cases hu : u = t
    · subst hu
      simp [hf.v _ _ _ hc, h l']
    · simp [hother _ hu, h l']
  · by_cases hu : u = t
    · subst hu
      simp [hf.exec _ _ hc, h l']
    · simp [hother _ hu, h l']

/-! ## Waiting -/

/-- What a thread that cannot step is at: it holds what it releases. -/
theorem Config.Mutex.step_eq_none {holds : P → L → Prop} (hf : Follows code holds)
    (hm : s.Mutex holds) (h : s.step code t = none) :
    (∃ l k, code (s.pc t) = .acquire l k ∧ s.owner l ≠ none) ∨
    (∃ x k, code (s.pc t) = .p x k ∧ s.count x = 0) ∨
    code (s.pc t) = .exit ∨ code (s.pc t) = .crash := by
  unfold Config.step at h
  split at h
  · rename_i l k hc
    exact .inl ⟨l, k, hc, fun ho => by simp [ho] at h⟩
  · rename_i l k hc
    rw [if_pos ((hm l t).mpr (hf.held _ _ _ hc))] at h
    cases h
  · rename_i x k hc
    refine .inr (.inl ⟨x, k, hc, ?_⟩)
    by_contra hx
    rw [if_pos (Nat.pos_of_ne_zero hx)] at h
    cases h
  · cases h
  · cases h
  · rename_i hc
    exact .inr (.inr (.inl hc))
  · rename_i hc
    exact .inr (.inr (.inr hc))

end Steps

end Os161.Lib
