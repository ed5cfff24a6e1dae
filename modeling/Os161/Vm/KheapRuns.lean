import Os161.Vm.KheapAlloc
import Os161.Vm.KheapFree

/-! # The subpage allocator over runs -/
namespace Os161.Vm.Kheap
open Os161.Lib

variable {h h' : Heap} {live : List Block} {handed all : List Nat} {same free : Nat → List Nat}
  {i j : Nat}

/-! ## Runs -/

theorem Inv.write (hi : Inv h live handed all same free) {b : Block} (hb : b ∈ live) {x v : Nat}
    (hx : b.ptr ≤ x) (hx' : x < b.ptr + b.sz) :
    Inv { h with mem := Function.update h.mem x v } live handed all same free := by
  obtain ⟨i, hm, hblock, hout, hty⟩ := hi.live b hb
  have hle : b.sz ≤ sizes (typeOf h i) := by simpa using List.find?_some hty
  refine hi.change ⟨rfl, rfl, rfl⟩ (fun _ => ⟨rfl, rfl, rfl⟩) (fun j hj => ?_) hi.live hi.apart
  refine (hi.pages j hj).congr rfl fun c hc => Function.update_of_ne ?_ _ _
  have hcb := (hi.pages j hj).blocks c hc
  refine hi.outside hm hj hblock hx (by omega) hcb fun he => ?_
  subst he
  have hij := hi.page_unique hm hj hblock.low hblock.high hcb.low hcb.high
  exact hout (hij ▸ hc)

theorem Inv.boot (mem : Nat → Nat) :
    Inv (boot mem).heap [] [] [] (fun _ => []) (fun _ => []) where
  listed :=
    { allLinked := rfl
      allNodup := List.nodup_nil
      bits := fun i => iff_of_false (by simp [Heap.inuse, Kheap.boot]) List.not_mem_nil
      bound := fun _ h => absurd h List.not_mem_nil
      sameLinked := fun _ _ => rfl
      sameNodup := fun _ _ => List.nodup_nil
      sameMem := fun _ _ _ =>
        iff_of_false List.not_mem_nil fun h => absurd h.1 List.not_mem_nil }
  pages _ h := absurd h List.not_mem_nil
  handed _ h := absurd h List.not_mem_nil
  distinct _ h := absurd h List.not_mem_nil
  apart := List.nodup_nil
  live _ h := absurd h List.not_mem_nil

def Good (s : State) : Prop :=
  ∃ all same free, Inv s.heap s.live s.handed all same free ∧ Used s.heap all

/-- No step fails, and all keep the invariant. -/
theorem Good.step {s : State} (hg : Good s) {x : Act} (hx : Legit s x) :
    ∃ s', step s x = some s' ∧ Good s' := by
  obtain ⟨all, same, free, hi, hu⟩ := hg
  cases x with
  | kmalloc sz page =>
    obtain ⟨p, h', heq, hal⟩ := hi.subpageKmalloc hu hx.1 hx.2
    refine ⟨{ heap := h', live := if p = 0 then s.live else ⟨p, sz⟩ :: s.live,
              handed := page :: s.handed }, ?_, hal⟩
    rw [Kheap.step, heq]
  | kfree b =>
    obtain ⟨i, hm, hblock, hout, -⟩ := hi.live b hx
    obtain ⟨h', heq, -, hal⟩ := hi.subpageKfree hu hx hm hblock hout
    refine ⟨{ s with heap := h', live := s.live.erase b }, ?_, hal⟩
    rw [Kheap.step, heq]
  | write b x v => exact ⟨_, rfl, all, same, free, hi.write hx.1 hx.2.1 hx.2.2.1, hu⟩

/-- The states of the allocator in any sequence of calls. -/
inductive Reachable (mem : Nat → Nat) : State → Prop
  | boot : Reachable mem (boot mem)
  | step {s s' : State} (x : Act) (h : Reachable mem s) (hx : Legit s x)
      (hstep : step s x = some s') : Reachable mem s'

theorem Reachable.good {mem : Nat → Nat} {s : State} (h : Reachable mem s) : Good s := by
  induction h with
  | boot => exact ⟨[], _, _, Inv.boot mem, fun _ h => absurd h List.not_mem_nil⟩
  | step x _ hx hstep ih =>
    obtain ⟨s', heq, hg⟩ := ih.step hx
    rw [hstep] at heq
    exact Option.some.inj heq ▸ hg

/-- The bytes of a block are those of its size class. -/
def Block.Apart (b c : Block) : Prop :=
  ∀ t u, Heap.blocktype b.sz = some t → Heap.blocktype c.sz = some u →
    b.ptr + sizes t ≤ c.ptr ∨ c.ptr + sizes u ≤ b.ptr

/-- The page of a block in use, and the place of the block in it. -/
structure Placed (h : Heap) (b : Block) (i t : Nat) : Prop where
  type : Heap.blocktype b.sz = some t
  large : b.sz ≤ sizes t
  aligned : b.ptr % sizes t = 0
  found : h.findPage b.ptr = some (some i)
  used : h.inuse i = true
  page : typeOf h i = t
  low : pageOf h i ≤ b.ptr
  high : b.ptr + sizes t ≤ pageOf h i + pageSize

/-- What `checksubpages` and `checksubpage` assert, and that live blocks are apart. -/
structure Sound (s : State) : Prop where
  checked : ∃ (all : List Nat) (same free : Nat → List Nat), Listed s.heap all same ∧
    ∀ i ∈ all, Checked s.heap i (free i)
  placed : ∀ b ∈ s.live, ∃ i t, Placed s.heap b i t
  apart : s.live.Pairwise Block.Apart

theorem Inv.placed (hi : Inv h live handed all same free) {b : Block} (hm : i ∈ all)
    (hblock : IsBlock (pageOf h i) (sizes (typeOf h i)) b.ptr)
    (hty : Heap.blocktype b.sz = some (typeOf h i)) : Placed h b i (typeOf h i) := by
  have hs := sizes_class (hi.pages i hm).type
  refine ⟨hty, by simpa using List.find?_some hty, ?_, hi.findPage hm hblock,
    (hi.listed.bits i).mpr hm, rfl, hblock.low, hblock.end_le hs⟩
  obtain ⟨k, -, hk⟩ := (isBlock_iff hs).mp hblock
  obtain ⟨m, hpage⟩ := Nat.dvd_of_mod_eq_zero (pageOf_aligned h i)
  have hdvd : pageSize = pageSize / sizes (typeOf h i) * sizes (typeOf h i) := hs.dvd.symm
  rw [hk, hpage, Nat.add_mul_mod_self_right, hdvd, Nat.mul_right_comm, Nat.mul_mod_left]

theorem Inv.pairwise (hi : Inv h live handed all same free) : live.Pairwise Block.Apart := by
  refine (List.pairwise_map.mp hi.apart).imp_of_mem fun {b c} hb hc hne t u ht hu => ?_
  obtain ⟨i, hm, hp, -, hty⟩ := hi.live b hb
  obtain ⟨j, hj, hp', -, hty'⟩ := hi.live c hc
  cases ht.symm.trans hty
  cases hu.symm.trans hty'
  have hs := sizes_class (hi.pages i hm).type
  have hs' := sizes_class (hi.pages j hj).type
  by_cases hij : i = j
  · subst hij
    exact hp.apart hp' hs hne
  · have hend := hp.end_le hs
    have hend' := hp'.end_le hs'
    have hlow := hp.low
    have hlow' := hp'.low
    have hal := pageOf_aligned h i
    have hal' := pageOf_aligned h j
    have hpages : pageOf h i ≠ pageOf h j := fun he => hij (hi.distinct i hm j hj he)
    simp only [pageSize] at hend hend' hal hal'
    omega

/-- In any sequence of calls, with words of live blocks written in between, the lists are in
order, live blocks have the size asked for and do not overlap, no call fails, and `subpage_kfree`
finds the page of each live block and puts the block on its free list. -/
theorem subpage_sound (mem : Nat → Nat) (s : State) (h : Reachable mem s) :
    Sound s ∧ (∀ x, Legit s x → ∃ s', step s x = some s') ∧
    ∀ b ∈ s.live, ∃ i t l h', Placed s.heap b i t ∧
      s.heap.subpageKfree b.ptr = some (true, h') ∧ Freed s.heap b.ptr i l h' := by
  obtain ⟨all, same, free, hi, hu⟩ := h.good
  refine ⟨⟨⟨all, same, free, hi.listed, hi.pages⟩, fun b hb => ?_, hi.pairwise⟩, fun x hx => ?_,
    fun b hb => ?_⟩
  · obtain ⟨i, hm, hblock, -, hty⟩ := hi.live b hb
    exact ⟨i, _, hi.placed hm hblock hty⟩
  · obtain ⟨s', hs, -⟩ := Good.step ⟨all, same, free, hi, hu⟩ hx
    exact ⟨s', hs⟩
  · obtain ⟨i, hm, hblock, hout, hty⟩ := hi.live b hb
    obtain ⟨h', hfree, hfreed, -⟩ := hi.subpageKfree hu hb hm hblock hout
    exact ⟨i, _, _, h', hi.placed hm hblock hty, hfree, hfreed⟩

/-- Two blocks of a page are allocated and the first is freed. -/
theorem subpage_sound_kfree : ∃ s₁ s₂ s₃,
    step (boot fun _ => 0) (.kmalloc 100 0x80000000) = some s₁ ∧
    step s₁ (.kmalloc 100 0) = some s₂ ∧
    s₂.live = [⟨0x80000f00, 100⟩, ⟨0x80000f80, 100⟩] ∧ Sound s₂ ∧
    step s₂ (.kfree ⟨0x80000f80, 100⟩) = some s₃ ∧ Sound s₃ := by
  have hfirst : Legit (boot fun _ => 0) (.kmalloc 100 0x80000000) :=
    ⟨by decide, .inr ⟨by decide, by decide, by decide, List.not_mem_nil⟩⟩
  obtain ⟨s₁, h₁⟩ := (subpage_sound (fun _ => 0) _ .boot).2.1 _ hfirst
  have hr₁ := Reachable.boot.step _ hfirst h₁
  have hsecond : Legit s₁ (.kmalloc 100 0) := ⟨by decide, .inl rfl⟩
  obtain ⟨s₂, h₂⟩ := (subpage_sound _ s₁ hr₁).2.1 _ hsecond
  have hr₂ := hr₁.step _ hsecond h₂
  have hlive : ((step (boot fun _ => 0) (.kmalloc 100 0x80000000)).bind
      (step · (.kmalloc 100 0))).map State.live =
      some [⟨0x80000f00, 100⟩, ⟨0x80000f80, 100⟩] := by decide +kernel
  rw [h₁, Option.bind_some, h₂, Option.map_some, Option.some.injEq] at hlive
  have hfree : Legit s₂ (.kfree ⟨0x80000f80, 100⟩) := by
    rw [Legit, hlive]
    decide
  obtain ⟨s₃, h₃⟩ := (subpage_sound _ s₂ hr₂).2.1 _ hfree
  exact ⟨s₁, s₂, s₃, h₁, h₂, hlive, (subpage_sound _ s₂ hr₂).1, h₃,
    (subpage_sound _ s₃ (hr₂.step _ hfree h₃)).1⟩

end Os161.Vm.Kheap
