import Os161.Sfs.PathCalls

/-! # Runs of operations on paths

Which references an operation on paths holds at each point, and that it comes back with those it
came with. -/
namespace Os161.Sfs
open Os161.Lib Kern Vol

variable {p q vn : Ptr} {i j : UInt32} {w w' : World} {r r' r₀ : Register} {m : Mounts}
  {a b : PathArg} {path : CString} {n : Node} {s s' : Flat} {op : FsOp}
  {x : Except Errno FsRet} {l l' : List (Ptr × UInt32)}

/-! ## References -/

/-- The references in `l`, each to a vnode and its inode, were taken since the register was `r₀`;
and those of that time are still there. -/
structure Owns (r₀ r : Register) (w : World) (l : List (Ptr × UInt32)) : Prop
    extends Keeps True r w where
  balanced : r.Balanced
  handle : ∀ y ∈ l, r.handles y.1 = some y.2
  base : ∀ q i, r₀.handles q = some i → r.handles q = some i ∧ 0 < r₀.refs i
  spare : ∀ i, r₀.refs i + (l.map Prod.snd).count i ≤ r.refs i
  opens_le_base : ∀ i, r.opens i ≤ r₀.refs i

/-- No name and no link count has changed. -/
structure Tracks (r r' : Register) : Prop where
  slots : r'.slots = r.slots
  links : r'.links = r.links

theorem Tracks.refl (r : Register) : Tracks r r := ⟨rfl, rfl⟩

theorem Tracks.trans {r'' : Register} (h : Tracks r r') (h' : Tracks r' r'') : Tracks r r'' :=
  ⟨h'.slots.trans h.slots, h'.links.trans h.links⟩

/-- The references behind a node. -/
def Node.own (i : UInt32) : Node → List (Ptr × UInt32)
  | .here p => [(p, i)]
  | .elsewhere => []

/-- The vnodes in `m` are those of directories of `r`. -/
structure Mounts.Held (m : Mounts) (r : Register) : Prop where
  cwd : ∀ p, m.tCwd = some (.here p) → r.handles p = some sfsRootLocation
  bootfs : ∀ p, m.bootfsVnode = some (.here p) → r.handles p = some sfsRootLocation

namespace Owns

theorem start (h : Keeps True r w) (hb : r.Balanced) : Owns r r w [] where
  toKeeps := h
  balanced := hb
  handle _ hy := absurd hy List.not_mem_nil
  base _ _ hq := ⟨hq, h.refs_pos hq⟩
  spare _ := Nat.le_refl _
  opens_le_base := h.opens_le

theorem perm (h : Owns r₀ r w l) (hp : l'.Perm l) : Owns r₀ r w l' where
  toKeeps := h.toKeeps
  balanced := h.balanced
  handle y hy := h.handle y (hp.mem_iff.mp hy)
  base := h.base
  spare i := by
    rw [(hp.map Prod.snd).count_eq]
    exact h.spare i
  opens_le_base := h.opens_le_base

variable (h : Owns r₀ r w l)
include h

theorem shows : Shows w r.flat := ⟨r, h.toKeeps, h.balanced, rfl⟩

theorem stay (h' : Keeps True r w') : Owns r₀ r w' l := { h with toKeeps := h' }

/-- A reference was taken through `p`. -/
theorem taken (h' : Keeps True (r.take p i) w') (hi : r.live i)
    (ho : r.handles p = some i ∨ r.handles p = none ∧ r.refs i = 0) :
    Owns r₀ (r.take p i) w' ((p, i) :: l) := by
  have hkeep {q : Ptr} {k : UInt32} (hq : r.handles q = some k) :
      (r.take p i).handles q = some k := by
    show Function.update r.handles p (some i) q = some k
    by_cases hqp : q = p
    · subst hqp
      rw [Function.update_self]
      rcases ho with ho | ⟨ho, -⟩
      · rw [← ho, hq]
      · rw [ho] at hq
        cases hq
    · rwa [Function.update_of_ne hqp]
  refine ⟨h', h.balanced.take hi, fun y hy => ?_,
    fun q k hq => ⟨hkeep (h.base q k hq).1, (h.base q k hq).2⟩, fun k => ?_, h.opens_le_base⟩
  · rcases List.mem_cons.mp hy with rfl | hy
    · exact Function.update_self ..
    · exact hkeep (h.handle y hy)
  · have hs := h.spare k
    show r₀.refs k + (i :: l.map Prod.snd).count k ≤ Function.update r.refs i (r.refs i + 1) k
    by_cases hk : k = i
    · rw [hk, List.count_cons_self, Function.update_self]
      rw [hk] at hs
      omega
    · rw [List.count_cons_of_ne (Ne.symm hk), Function.update_of_ne hk]
      exact hs

theorem wp_incref {Q : Post machine Unit} (hp : r.handles p = some i)
    (hok : ∀ w', Owns r₀ (r.take p i) w' ((p, i) :: l) → Q.ok () w') :
    (vnodeIncref p).wp Q w := by
  obtain ⟨-, -, hi⟩ := h.toKeeps.file hp
  exact h.toKeeps.wp_incref hp fun w' h' => hok w' (h.taken h' hi (.inl hp))

end Owns

/-- A reference that was taken is given back. -/
theorem Owns.wp_decref {Q : Post machine Unit} (h : Owns r₀ r w ((p, i) :: l))
    (hok : ∀ r' w', Tracks r r' → Owns r₀ r' w' l → Q.ok () w') : (vnodeDecref p).wp Q w := by
  have hp : r.handles p = some i := h.handle (p, i) List.mem_cons_self
  obtain ⟨-, -, hi⟩ := h.toKeeps.file hp
  have hspare (k : UInt32) : r₀.refs k + (i :: l.map Prod.snd).count k ≤ r.refs k := h.spare k
  have hi' := hspare i
  rw [List.count_cons_self] at hi'
  have hopen := h.opens_le_base i
  have hpos := h.refs_pos hp
  refine h.release h.balanced hp (by omega) fun w' h' => hok (r.drop p i) w' ⟨rfl, rfl⟩ ?_
  -- a vnode that others refer to stays
  have hkeep {q : Ptr} {k : UInt32} (hq : r.handles q = some k)
      (hk : k = i → 1 < r.refs i) : (r.drop p i).handles q = some k := by
    show (if r.refs i = 1 then Function.update r.handles p none else r.handles) q = some k
    split
    · next h1 =>
      have hne : q ≠ p := by
        rintro rfl
        rw [hp] at hq
        cases hq
        have := hk rfl
        omega
      rwa [Function.update_of_ne hne]
    · exact hq
  refine ⟨h', h.balanced.drop hi hpos, fun y hy => ?_, fun q k hq => ?_, fun k => ?_,
    h.opens_le_base⟩
  · refine hkeep (h.handle y (List.mem_cons_of_mem _ hy)) fun he => ?_
    have : 0 < (l.map Prod.snd).count i :=
      List.count_pos_iff.mpr (he ▸ List.mem_map_of_mem (f := Prod.snd) hy)
    omega
  · obtain ⟨hr, hpos₀⟩ := h.base q k hq
    refine ⟨hkeep hr fun he => ?_, hpos₀⟩
    rw [he] at hpos₀
    omega
  · have hs := hspare k
    show r₀.refs k + (l.map Prod.snd).count k ≤ Function.update r.refs i (r.refs i - 1) k
    by_cases hk : k = i
    · subst hk
      rw [Function.update_self]
      omega
    · rw [List.count_cons_of_ne (Ne.symm hk)] at hs
      rwa [Function.update_of_ne hk]

/-! ## Where a path leads -/

namespace Node

/-- A node of the volume is one through which `r` leads to inode `i`. -/
def Leads (n : Node) (r : Register) (i : UInt32) : Prop := ∀ p, n = .here p → r.handles p = some i

end Node

section References

variable (h : Owns r₀ r w l)
include h

theorem Owns.wp_nodeIncref {Q : Post machine Unit} (hn : n.Leads r i)
    (hok : ∀ r' w', Tracks r r' → Owns r₀ r' w' (n.own i ++ l) → Q.ok () w') :
    n.incref.wp Q w := by
  cases n with
  | here p =>
    exact h.wp_incref (hn p rfl) fun w' h' => hok (r.take p i) w' ⟨rfl, rfl⟩ h'
  | elsewhere =>
    rw [Node.incref, Prog.wp_pure]
    exact hok r w (.refl r) h

theorem Owns.wp_sfsGetroot {Q : Post machine Ptr}
    (hok : ∀ p r' w', Tracks r r' → Owns r₀ r' w' ((p, sfsRootLocation) :: l) → Q.ok p w') :
    sfsGetroot.wp Q w :=
  h.wp_getroot (fun p w' h' ho => hok p (r.take p sfsRootLocation) w' ⟨rfl, rfl⟩
    (h.taken h' h.balanced.root ho))
    fun hM => absurd trivial hM

theorem Owns.wp_nodeGetroot {Q : Post machine Node}
    (hok : ∀ n' r' w', (n' = .elsewhere ↔ n = .elsewhere) → Tracks r r' →
      Owns r₀ r' w' (n'.own sfsRootLocation ++ l) → Q.ok n' w') : n.getroot.wp Q w := by
  cases n with
  | here p =>
    rw [Node.getroot, Prog.wp_bind]
    refine h.wp_sfsGetroot fun p r' w' ht h' => ?_
    dsimp only
    rw [Prog.wp_pure]
    exact hok (.here p) r' w' (iff_of_false (by rintro ⟨⟩) (by rintro ⟨⟩)) ht h'
  | elsewhere =>
    rw [Node.getroot, Prog.wp_pure]
    exact hok .elsewhere r w Iff.rfl (.refl r) h

end References

theorem Owns.wp_nodeDecref {Q : Post machine Unit} (h : Owns r₀ r w (n.own i ++ l))
    (hok : ∀ r' w', Tracks r r' → Owns r₀ r' w' l → Q.ok () w') : n.decref.wp Q w := by
  cases n with
  | here p => exact Owns.wp_decref h hok
  | elsewhere =>
    rw [Node.decref, Prog.wp_pure]
    exact hok r w (.refl r) h

/-- The end of an operation: the node is given back, whatever the result is. -/
theorem wp_release {α : Type} {op : Kern α} {Q : Post machine α}
    (hop : op.wp ⟨fun x w' => n.decref.wp ⟨fun _ w'' => Q.ok x w'', Q.err, Q.stopped⟩ w',
      fun e w' => n.decref.wp ⟨fun _ w'' => Q.err e w'', Q.err, Q.stopped⟩ w', Q.stopped⟩ w) :
    (n.release op).wp Q w := by
  rw [Node.release, Prog.wp_bind, wp_attempt]
  refine hop.mono (fun x w' hx => ?_) (fun e w' hx => ?_) fun _ _ hx => hx
  · dsimp only
    rw [Prog.wp_bind]
    refine hx.mono (fun _ w'' hx => ?_) (fun _ _ hx => hx) fun _ _ hx => hx
    dsimp only
    rw [Prog.wp_pure]
    exact hx
  · dsimp only
    rw [Prog.wp_bind]
    refine hx.mono (fun _ w'' hx => ?_) (fun _ _ hx => hx) fun _ _ hx => hx
    dsimp only
    rw [Prog.wp_fail]
    exact hx

/-! ## Prefixes -/

namespace Mounts

/-- What is left of a path, if it leads to the volume. -/
def ofNode (sub : CString) : Node → Option CString
  | .here _ => some sub
  | .elsewhere => none

/-- The rest of a path that leads to the volume. -/
def leads (m : Mounts) (path : CString) : Option CString :=
  match Vfs.firstSeparator path.bytes 0 with
  | none => m.tCwd.bind (ofNode path)
  | some (i, c) =>
    if c = 47 ∧ i ≠ 0 then m.tCwd.bind (ofNode path)
    else if c = 58 ∧ i > 0 then
      match m.getroot (path.bytes.take i) with
      | .ok true => some (path.subpath i)
      | _ => none
    else if c = 47 then m.bootfsVnode.bind (ofNode (path.subpath 0))
    else m.tCwd.bind (ofNode (path.subpath 0))

/-- What a lookup may come to: the subpath, with the node it starts from and that is held now. -/
structure Starts (m : Mounts) (path : CString) (r₀ r : Register) (l : List (Ptr × UInt32))
    (sub : CString) (n : Node) (r' : Register) (w' : World) : Prop where
  leads : m.leads path = ofNode sub n
  tracks : Tracks r r'
  owns : Owns r₀ r' w' (n.own sfsRootLocation ++ l)

end Mounts

section Paths

variable (h : Owns r₀ r w l) (hm : m.Held r₀)
include h hm

theorem Owns.wp_getcurdir {Q : Post machine Node}
    (hok : ∀ n r' w', m.tCwd = some n → Tracks r r' →
      Owns r₀ r' w' (n.own sfsRootLocation ++ l) → Q.ok n w')
    (herr : m.tCwd = none → Q.err .enoent w) : m.vfsGetcurdir.wp Q w := by
  rw [Mounts.vfsGetcurdir]
  cases hc : m.tCwd with
  | none =>
    dsimp only
    rw [Prog.wp_fail]
    exact herr hc
  | some n =>
    dsimp only
    rw [Prog.wp_bind]
    refine h.wp_nodeIncref (i := sfsRootLocation) ?_ fun r' w' ht h' => ?_
    · rintro p rfl
      exact (h.base p _ (hm.cwd p hc)).1
    · dsimp only
      rw [Prog.wp_pure]
      exact hok n r' w' hc ht h'

theorem Owns.wp_getdevice {Q : Post machine (CString × Node)}
    (hok : ∀ sub n r' w', m.Starts path r₀ r l sub n r' w' → Q.ok (sub, n) w')
    (herr : ∀ e, m.leads path = none → Q.err e w) :
    (m.getdevice path).wp Q w := by
  have hcur (heq : m.leads path = m.tCwd.bind (Mounts.ofNode path)) :
      (do return (path, ← m.vfsGetcurdir) : Kern (CString × Node)).wp Q w := by
    rw [Prog.wp_bind]
    refine h.wp_getcurdir hm (fun n r' w' hc ht h' => ?_) fun hc => herr _ (by rw [heq, hc]; rfl)
    dsimp only
    rw [Prog.wp_pure]
    refine hok path n r' w' ⟨?_, ht, h'⟩
    rw [heq, hc, Option.bind_some]
  rw [Mounts.getdevice]
  cases hsep : Vfs.firstSeparator path.bytes 0 with
  | none => exact hcur (by rw [Mounts.leads, hsep])
  | some x =>
    obtain ⟨i, c⟩ := x
    dsimp only
    by_cases hrel : c = 47 ∧ i ≠ 0
    · rw [if_pos hrel]
      exact hcur (by rw [Mounts.leads, hsep]; exact if_pos hrel)
    rw [if_neg hrel]
    by_cases hdev : c = 58 ∧ i > 0
    · -- device:path
      have heq : m.leads path = match m.getroot (path.bytes.take i) with
          | .ok true => some (path.subpath i)
          | _ => none := by
        rw [Mounts.leads, hsep]
        dsimp only
        rw [if_neg hrel, if_pos hdev]
      rw [if_pos hdev, Prog.wp_bind, Mounts.vfsGetroot]
      cases hg : m.getroot (path.bytes.take i) with
      | error e =>
        dsimp only
        rw [Prog.wp_fail]
        exact herr e (by rw [heq, hg])
      | ok volume =>
        cases volume with
        | false =>
          dsimp only
          rw [Prog.wp_pure]
          dsimp only
          rw [Prog.wp_pure]
          exact hok _ .elsewhere r w ⟨by rw [heq, hg]; rfl, .refl r, h⟩
        | true =>
          dsimp only
          rw [Prog.wp_bind]
          refine h.wp_sfsGetroot fun p r' w' ht h' => ?_
          dsimp only
          rw [Prog.wp_pure]
          dsimp only
          rw [Prog.wp_pure]
          exact hok _ (.here p) r' w' ⟨by rw [heq, hg]; rfl, ht, h'⟩
    rw [if_neg hdev]
    by_cases hslash : c = 47
    · -- /path
      have heq : m.leads path = m.bootfsVnode.bind (Mounts.ofNode (path.subpath 0)) := by
        rw [Mounts.leads, hsep]
        dsimp only
        rw [if_neg hrel, if_neg hdev, if_pos hslash]
      rw [if_pos hslash]
      cases hb : m.bootfsVnode with
      | none =>
        dsimp only
        rw [Prog.wp_fail]
        exact herr _ (by rw [heq, hb]; rfl)
      | some n =>
        dsimp only
        rw [Prog.wp_bind]
        refine h.wp_nodeIncref (i := sfsRootLocation) ?_ fun r' w' ht h' => ?_
        · rintro p rfl
          exact (h.base p _ (hm.bootfs p hb)).1
        · dsimp only
          rw [Prog.wp_pure]
          exact hok _ n r' w' ⟨by rw [heq, hb, Option.bind_some], ht, h'⟩
    · -- :path
      have heq : m.leads path = m.tCwd.bind (Mounts.ofNode (path.subpath 0)) := by
        rw [Mounts.leads, hsep]
        dsimp only
        rw [if_neg hrel, if_neg hdev, if_neg hslash]
      rw [if_neg hslash, Prog.wp_bind]
      refine h.wp_getcurdir hm (fun n r₁ w₁ hc ht₁ h₁ => ?_) fun hc => herr _ (by rw [heq, hc]; rfl)
      dsimp only
      rw [Prog.wp_bind]
      refine h₁.wp_nodeGetroot (n := n) fun n' r₂ w₂ hn ht₂ h₂ => ?_
      dsimp only
      rw [Prog.wp_bind]
      have hperm : (n.own sfsRootLocation ++ (n'.own sfsRootLocation ++ l)).Perm
          (n'.own sfsRootLocation ++ (n.own sfsRootLocation ++ l)) := by
        rw [← List.append_assoc, ← List.append_assoc]
        exact List.perm_append_comm.append_right l
      refine (h₂.perm hperm).wp_nodeDecref fun r₃ w₃ ht₃ h₃ => ?_
      dsimp only
      rw [Prog.wp_pure]
      refine hok _ n' r₃ w₃ ⟨?_, ht₁.trans (ht₂.trans ht₃), h₃⟩
      rw [heq, hc, Option.bind_some]
      cases n with
      | here q =>
        cases n' with
        | here q' => rfl
        | elsewhere => cases hn.mp rfl
      | elsewhere => rw [hn.mpr rfl]

end Paths

/-! ## Lookups -/

namespace Mounts

/-- The name that a path gives an operation on the root directory. -/
def name (m : Mounts) (path : CString) : Option CString :=
  (m.leads path).filter fun sub => sub.length ≠ 0 ∧ sub.length ≤ Vfs.nameMax

/-- The inode a path leads to. -/
def target (m : Mounts) (t : Slots CString UInt32) (path : CString) : Option UInt32 :=
  (m.leads path).bind fun sub => if sub.length = 0 then some sfsRootLocation else t.find sub

end Mounts

section Lookups

variable (h : Owns r₀ r w l) (hm : m.Held r₀)
include h hm

theorem Owns.wp_vfsLookparent {Q : Post machine (Node × CString)}
    (hok : ∀ n name r' w', m.name a.path = Mounts.ofNode name n → Tracks r r' →
      Owns r₀ r' w' (n.own sfsRootLocation ++ l) → Q.ok (n, name) w')
    (herr : ∀ e r' w', m.name a.path = none → Owns r₀ r' w' l → Q.err e w') :
    (m.vfsLookparent a (Vfs.nameMax + 1)).wp Q w := by
  rw [Mounts.vfsLookparent, Prog.wp_bind]
  refine h.wp_getdevice hm (fun sub n r₁ w₁ hs => ?_) fun e hleads =>
    herr e r w (by rw [Mounts.name, hleads]; rfl) h
  obtain ⟨hleads, ht₁, h₁⟩ := hs
  dsimp only
  refine wp_release ?_
  have hfail (e : Errno) (hnone : m.name a.path = none) :
      n.decref.wp ⟨fun _ w'' => Q.err e w'', Q.err, Q.stopped⟩ w₁ :=
    h₁.wp_nodeDecref fun r₂ w₂ _ h₂ => herr e r₂ w₂ hnone h₂
  have hnone (hbad : ¬ (sub.length ≠ 0 ∧ sub.length ≤ Vfs.nameMax)) : m.name a.path = none := by
    rw [Mounts.name, hleads]
    cases n with
    | here p =>
      rw [Mounts.ofNode, Option.filter_some, if_neg]
      rwa [decide_eq_true_eq]
    | elsewhere => rfl
  by_cases h0 : sub.length = 0
  · rw [if_pos h0, Prog.wp_fail]
    exact hfail .einval (hnone fun hx => hx.1 h0)
  rw [if_neg h0]
  cases n with
  | elsewhere =>
    have hname : m.name a.path = none := by
      rw [Mounts.name, hleads]
      rfl
    rw [Node.lookparent, Prog.wp_bind]
    cases a.lookup with
    | error e =>
      rw [answer, Prog.wp_fail]
      exact hfail e hname
    | ok _ =>
      rw [answer, Prog.wp_pure]
      dsimp only
      rw [Prog.wp_pure]
      refine h₁.wp_nodeDecref fun r₂ w₂ ht₂ h₂ => ?_
      exact hok .elsewhere sub r₂ w₂ hname (ht₁.trans ht₂) h₂
  | here p =>
    have hp : r₁.handles p = some sfsRootLocation :=
      h₁.handle (p, sfsRootLocation) List.mem_cons_self
    rw [Node.lookparent, Prog.wp_bind]
    refine h₁.wp_lookparent hp (fun hlen w₂ h₂ => ?_) fun hlen =>
      hfail .enametoolong (hnone fun hx => ?_)
    · dsimp only
      rw [Prog.wp_pure]
      have h₂' := h₁.taken h₂ h₁.balanced.root (.inl hp)
      refine Owns.wp_nodeDecref (n := .here p) h₂' fun r₃ w₃ ht₃ h₃ => ?_
      refine hok (.here p) sub r₃ w₃ ?_ ⟨ht₃.slots.trans ht₁.slots,
        ht₃.links.trans ht₁.links⟩ h₃
      rw [Mounts.name, hleads, Mounts.ofNode, Option.filter_some, if_pos]
      rw [decide_eq_true_eq]
      exact ⟨h0, by omega⟩
    · have := hx.2
      omega

theorem Owns.wp_vfsLookup {Q : Post machine Node}
    (hok : ∀ n i r' w', (∀ p, n = .here p → m.target r.slots a.path = some i) → Tracks r r' →
      Owns r₀ r' w' (n.own i ++ l) → Q.ok n w')
    (herr : ∀ e r' w', Owns r₀ r' w' l → Q.err e w') :
    (m.vfsLookup a).wp Q w := by
  rw [Mounts.vfsLookup, Prog.wp_bind]
  refine h.wp_getdevice hm (fun sub n r₁ w₁ hs => ?_) fun e _ => herr e r w h
  obtain ⟨hleads, ht₁, h₁⟩ := hs
  dsimp only
  by_cases h0 : sub.length = 0
  · rw [if_pos h0, Prog.wp_pure]
    refine hok n sfsRootLocation r₁ w₁ (fun p hp => ?_) ht₁ h₁
    rw [Mounts.target, hleads, hp, Mounts.ofNode, Option.bind_some, if_pos h0]
  rw [if_neg h0]
  refine wp_release ?_
  have hfail (e : Errno) (w₂ : World) (h₂ : Owns r₀ r₁ w₂ (n.own sfsRootLocation ++ l)) :
      n.decref.wp ⟨fun _ w'' => Q.err e w'', Q.err, Q.stopped⟩ w₂ :=
    h₂.wp_nodeDecref fun r₃ w₃ _ h₃ => herr e r₃ w₃ h₃
  cases n with
  | elsewhere =>
    rw [Node.lookup, Prog.wp_bind]
    cases a.lookup with
    | error e =>
      rw [answer, Prog.wp_fail]
      exact hfail e w₁ h₁
    | ok _ =>
      rw [answer, Prog.wp_pure]
      dsimp only
      rw [Prog.wp_pure]
      refine h₁.wp_nodeDecref fun r₂ w₂ ht₂ h₂ => ?_
      exact hok .elsewhere sfsRootLocation r₂ w₂ (by rintro p ⟨⟩) (ht₁.trans ht₂) h₂
  | here p =>
    have hp : r₁.handles p = some sfsRootLocation :=
      h₁.handle (p, sfsRootLocation) List.mem_cons_self
    rw [Node.lookup, Prog.wp_bind]
    refine h₁.wp_lookup hp h₁.balanced (fun i q w₂ hn h₂ ho => ?_)
      (fun w₂ hn h₂ => ?_) fun hM => absurd trivial hM
    · dsimp only
      rw [Prog.wp_pure]
      have h₂' := h₁.taken h₂ (h₁.live_of_name hn) ho
      refine Owns.wp_nodeDecref (n := .here p) (h₂'.perm (.swap _ _ l)) fun r₃ w₃ ht₃ h₃ => ?_
      refine hok (.here q) i r₃ w₃ (fun _ _ => ?_) ⟨ht₃.slots.trans ht₁.slots,
        ht₃.links.trans ht₁.links⟩ h₃
      rw [Mounts.target, hleads, Mounts.ofNode, Option.bind_some, if_neg h0, ← ht₁.slots]
      exact hn
    · exact hfail .enoent w₂ (h₁.stay h₂)

end Lookups

/-! ## Operations of the file system -/

/-- The operation gives no reference back, and does not open or close one. -/
def FsOp.KeepsRefs : FsOp → Prop
  | .decref _ | .incopen _ | .decopen _ => False
  | _ => True

theorem counts_take (s : Flat) (p : Ptr) (i j : UInt32) :
    s.counts j + [i].count j ≤ (s.take p i).counts j := by
  show _ ≤ Function.update s.counts i (s.counts i + 1) j
  by_cases hj : j = i
  · rw [hj, Function.update_self, List.count_singleton_self]
  · rw [Function.update_of_ne hj, List.count_cons_of_ne (Ne.symm hj), List.count_nil, Nat.add_zero]

theorem Answers.counts_le (h : Answers s op x s') (hop : op.KeepsRefs) (j : UInt32) :
    s.counts j ≤ s'.counts j := by
  have htake {t : Flat} {p : Ptr} {i : UInt32} (ht : t.counts = s.counts) :
      s.counts j ≤ (t.take p i).counts j := by
    have := counts_take t p i j
    rw [ht] at this
    omega
  cases h with
  | getroot _ => exact htake rfl
  | lookparent _ _ => exact htake rfl
  | lookup _ _ => exact htake rfl
  | creatOld _ _ => exact htake rfl
  | creatNew _ _ _ _ _ => exact htake rfl
  | incref _ => exact htake rfl
  | remove _ =>
    rw [NamedStore.counts_reap]
    exact Nat.le_refl _
  | decref _ => exact hop.elim
  | _ => exact Nat.le_refl _

theorem Answers.opens_eq (h : Answers s op x s') (hop : op.KeepsRefs) : s'.opens = s.opens := by
  cases h with
  | remove _ => exact NamedStore.opens_reap _
  | decref _ => exact hop.elim
  | incopen _ => exact hop.elim
  | decopen _ => exact hop.elim
  | _ => rfl

/-- `sfs_creat` hands a reference to the vnode it returns out. -/
theorem Answers.created {dir : Ptr} {name : CString} {excl : Bool} {y : FsRet}
    (h : Answers s (.creat dir name excl) (.ok y) s') : ∃ p i, y = .vnode p ∧
      s'.handles p = some i ∧ ∀ j, s.counts j + [i].count j ≤ s'.counts j := by
  cases h with
  | @creatOld _ _ i p _ _ => exact ⟨p, i, rfl, Function.update_self .., counts_take s p i⟩
  | @creatNew _ _ _ i p hn _ _ _ _ => exact ⟨p, i, rfl, Function.update_self .., counts_take s p i⟩

section Operations

variable (h : Owns r₀ r w l)
include h

theorem Owns.after (ha : Answers r.flat op x r'.flat) (hop : op.KeepsRefs)
    (h' : Keeps True r' w') (hb : r'.Balanced) : Owns r₀ r' w' l := by
  have hkeep {q : Ptr} {i : UInt32} (hq : r.handles q = some i) : r'.handles q = some i :=
    ha.handle (by rintro rfl; exact hop) hq
  exact
    { toKeeps := h'
      balanced := hb
      handle := fun y hy => hkeep (h.handle y hy)
      base := fun q i hq => ⟨hkeep (h.base q i hq).1, (h.base q i hq).2⟩
      spare := fun i => Nat.le_trans (h.spare i) (ha.counts_le hop i)
      opens_le_base := fun i => by
        rw [show r'.opens = r.opens from ha.opens_eq hop]
        exact h.opens_le_base i }

theorem Owns.after_creat {dir : Ptr} {name : CString} {excl : Bool}
    (ha : Answers r.flat (.creat dir name excl) (.ok (.vnode p)) r'.flat)
    (h' : Keeps True r' w') (hb : r'.Balanced) : ∃ i, Owns r₀ r' w' ((p, i) :: l) := by
  obtain ⟨q, i, hq, hp, hcount⟩ := ha.created
  cases hq
  have h₁ := h.after ha trivial h' hb
  refine ⟨i, { h₁ with
    handle := fun y hy => ?_
    spare := fun j => ?_ }⟩
  · rcases List.mem_cons.mp hy with rfl | hy
    · exact hp
    · exact h₁.handle y hy
  · have hj : r.refs j + [i].count j ≤ r'.refs j := hcount j
    have hs := h.spare j
    show r₀.refs j + ([i] ++ l.map Prod.snd).count j ≤ r'.refs j
    rw [List.count_append]
    omega

/-- An operation on the volume, in the middle of one on paths. -/
theorem Owns.answered (hv : op.Allowed w) :
    op.call.wp ⟨fun x w' => ∃ r', Keeps True r' w' ∧ r'.Balanced ∧
        Answers r.flat op (.ok x) r'.flat,
      fun e w' => ∃ r', Keeps True r' w' ∧ r'.Balanced ∧ Answers r.flat op (.error e) r'.flat,
      fun _ _ => False⟩ w := by
  refine (FsOp.answered h.shows hv).mono (fun x w' hx => ?_) (fun e w' hx => ?_) fun _ _ hx => hx
  · obtain ⟨s', ⟨r', h', hb, rfl⟩, ha, -⟩ := hx
    exact ⟨r', h', hb, ha⟩
  · obtain ⟨s', ⟨r', h', hb, rfl⟩, ha, -⟩ := hx
    exact ⟨r', h', hb, ha⟩

theorem Owns.hasRoot (hp : (p, sfsRootLocation) ∈ l) : HasRoot p w := by
  rw [HasRoot, h.handles]
  exact h.handle _ hp

end Operations

/-- The references of `r₀` are there again, and those in `l`. -/
def Back {α : Type} (r₀ : Register) (l : List (Ptr × UInt32)) : Post machine α where
  ok _ w' := ∃ r', Owns r₀ r' w' l
  err _ w' := ∃ r', Owns r₀ r' w' l
  stopped _ _ := False

theorem Owns.wp_releaseBack {α : Type} {op : Kern α} {i : UInt32}
    (hop : op.wp (Back r₀ (n.own i ++ l)) w) : (n.release op).wp (Back r₀ l) w := by
  refine wp_release (hop.mono (fun x w' hx => ?_) (fun e w' hx => ?_) fun _ _ hx => hx)
  · obtain ⟨r', h'⟩ := hx
    exact h'.wp_nodeDecref fun r'' w'' _ h'' => ⟨r'', h''⟩
  · obtain ⟨r', h'⟩ := hx
    exact h'.wp_nodeDecref fun r'' w'' _ h'' => ⟨r'', h''⟩

section Ends

variable (h : Owns r₀ r w l)
include h

theorem Owns.wp_fail {α : Type} (e : Errno) : (Prog.fail e : Kern α).wp (Back r₀ l) w := by
  rw [Prog.wp_fail]
  exact ⟨r, h⟩

theorem Owns.wp_answer (y : Except Errno Unit) : (answer y).wp (Back r₀ l) w := by
  cases y with
  | ok _ => exact (Prog.wp_pure _).mpr ⟨r, h⟩
  | error e => exact h.wp_fail e

/-- An operation on the volume that hands nothing back. -/
theorem Owns.wp_op {body : Kern Unit} (hv : op.Allowed w) (hop : op.KeepsRefs)
    (hcall : op.call = do
      body
      return .done) : body.wp (Back r₀ l) w := by
  have hrun := h.answered hv
  rw [hcall, Prog.wp_bind] at hrun
  refine hrun.mono (fun x w' hx => ?_) (fun e w' hx => ?_) fun _ _ hx => hx
  · obtain ⟨r', h', hb, ha⟩ := (Prog.wp_pure _).mp hx
    exact ⟨r', h.after ha hop h' hb⟩
  · obtain ⟨r', h', hb, ha⟩ := hx
    exact ⟨r', h.after ha hop h' hb⟩

/-- The link count of a file with a name, or of the root directory. -/
theorem Owns.linkcount (hi : r.live i) : ((vol w).inode i).sfiLinkcount.toNat = r.links i :=
  h.links i hi

end Ends

/-! ## Operations on paths -/

section Paths

variable (h : Owns r₀ r w l) (hm : m.Held r₀)
include h hm

theorem Owns.wp_vfsRemove : (m.vfsRemove a).wp (Back r₀ l) w := by
  rw [Mounts.vfsRemove, Prog.wp_bind]
  refine h.wp_vfsLookparent hm (fun n name r₁ w₁ _ _ h₁ => ?_) fun e r' w' _ h' => ⟨r', h'⟩
  dsimp only
  refine Owns.wp_releaseBack (i := sfsRootLocation) ?_
  cases n with
  | elsewhere => exact h₁.wp_answer a.result
  | here p =>
    have hv : (FsOp.remove p name).Allowed w₁ := ⟨h₁.hasRoot List.mem_cons_self, trivial, trivial⟩
    exact h₁.wp_op hv trivial rfl

theorem Owns.wp_vfsRename (hfits : ∀ i old new, m.name a.path = some old →
      r.slots.find old = some i → m.name b.path = some new → i ≠ sfsRootLocation ∧
      NameFits r.slots new ∧ (r.slots.find new = none → r.links i + 1 < 2 ^ 16)) :
    (m.vfsRename a b).wp (Back r₀ l) w := by
  rw [Mounts.vfsRename, Prog.wp_bind]
  refine h.wp_vfsLookparent hm (fun n old r₁ w₁ hold ht₁ h₁ => ?_) fun e r' w' _ h' => ⟨r', h'⟩
  dsimp only
  refine Owns.wp_releaseBack (i := sfsRootLocation) ?_
  rw [Prog.wp_bind]
  refine h₁.wp_vfsLookparent hm (fun n' new r₂ w₂ hnew ht₂ h₂ => ?_) fun e r' w' _ h' => ⟨r', h'⟩
  dsimp only
  refine Owns.wp_releaseBack (i := sfsRootLocation) ?_
  cases n with
  | elsewhere =>
    cases n' with
    | elsewhere => exact h₂.wp_answer a.result
    | here p => exact h₂.wp_fail .exdev
  | here p =>
    cases n' with
    | elsewhere => exact h₂.wp_fail .exdev
    | here p' =>
      have ht := ht₁.trans ht₂
      have hv : (FsOp.rename p old p' new).Allowed w₂ := by
        refine ⟨⟨h₂.hasRoot (List.mem_cons_of_mem _ List.mem_cons_self),
          h₂.hasRoot List.mem_cons_self⟩, fun i hi hroot => ?_, fun hi => ?_⟩
        · rw [h₂.toDescribes.slots] at hi ⊢
          rw [h₂.linkcount (h₂.live_of_name hi), ht.links]
          rw [ht.slots] at hi ⊢
          exact (hfits i old new (hold) hi (hnew)).2
        · rw [h₂.toDescribes.slots, ht.slots] at hi
          exact (hfits _ old new (hold) hi (hnew)).1 rfl
      exact h₂.wp_op hv trivial rfl

theorem Owns.wp_vfsLink (hfits : ∀ i new, m.target r.slots a.path = some i →
      m.name b.path = some new → NameFits r.slots new ∧
      (r.slots.find new = none → r.links i + 1 < 2 ^ 16)) :
    (m.vfsLink a b).wp (Back r₀ l) w := by
  rw [Mounts.vfsLink, Prog.wp_bind]
  refine h.wp_vfsLookup hm (fun n i r₁ w₁ htarget ht₁ h₁ => ?_) fun e r' w' h' => ⟨r', h'⟩
  dsimp only
  refine Owns.wp_releaseBack (i := i) ?_
  rw [Prog.wp_bind]
  refine h₁.wp_vfsLookparent hm (fun n' new r₂ w₂ hnew ht₂ h₂ => ?_) fun e r' w' _ h' => ⟨r', h'⟩
  dsimp only
  refine Owns.wp_releaseBack (i := sfsRootLocation) ?_
  cases n with
  | elsewhere =>
    cases n' with
    | elsewhere => exact h₂.wp_answer a.result
    | here p => exact h₂.wp_fail .exdev
  | here p =>
    cases n' with
    | elsewhere => exact h₂.wp_fail .exdev
    | here p' =>
      have ht := ht₁.trans ht₂
      have hp : r₂.handles p = some i :=
        h₂.handle (p, i) (List.mem_cons_of_mem _ List.mem_cons_self)
      obtain ⟨hroom, hmax⟩ := hfits i new (htarget p rfl) (hnew)
      have hv : (FsOp.link p' new p).Allowed w₂ := by
        refine ⟨⟨h₂.hasRoot List.mem_cons_self, ?_⟩, ⟨?_, fun hnone => ?_⟩, trivial⟩
        · rw [Has, h₂.handles, hp]
          exact Option.some_ne_none i
        · rw [h₂.toDescribes.slots, ht.slots]
          exact hroom
        · rw [h₂.toDescribes.slots, ht.slots] at hnone
          rw [(h₂.linkcount_of_handle hp).2, ht.links]
          exact hmax hnone
      exact h₂.wp_op hv trivial rfl

/-- The vnode that `vfs_open` opens comes with a reference. -/
theorem Owns.wp_openTarget {openflags : UInt32}
    (hfits : openflags &&& Vfs.oCreat ≠ 0 → ∀ name, m.name a.path = some name →
      NameFits r.slots name) :
    (m.openTarget a openflags).wp ⟨fun n w' => ∃ i r', Owns r₀ r' w' (n.own i ++ l),
      fun _ w' => ∃ r', Owns r₀ r' w' l, fun _ _ => False⟩ w := by
  rw [Mounts.openTarget]
  by_cases hc : openflags &&& Vfs.oCreat ≠ 0
  · rw [if_pos hc, Prog.wp_bind]
    refine h.wp_vfsLookparent hm (fun n name r₁ w₁ hname ht₁ h₁ => ?_) fun e r' w' _ h' => ⟨r', h'⟩
    dsimp only
    refine wp_release ?_
    cases n with
    | elsewhere =>
      rw [Node.creat, Prog.wp_bind]
      cases a.result with
      | ok _ =>
        rw [answer, Prog.wp_pure]
        dsimp only
        rw [Prog.wp_pure]
        exact h₁.wp_nodeDecref fun r' w' _ h' => ⟨sfsRootLocation, r', h'⟩
      | error e =>
        rw [answer, Prog.wp_fail]
        exact h₁.wp_nodeDecref fun r' w' _ h' => ⟨r', h'⟩
    | here p =>
      have hv : (FsOp.creat p name (openflags &&& Vfs.oExcl ≠ 0)).Allowed w₁ := by
        refine ⟨h₁.hasRoot List.mem_cons_self, ?_, trivial⟩
        rw [FsOp.Fits, h₁.toDescribes.slots, ht₁.slots]
        exact hfits hc name (hname)
      have hrun := h₁.answered hv
      rw [FsOp.call, Prog.wp_bind] at hrun
      rw [Node.creat, Prog.wp_bind]
      refine hrun.mono (fun q w' hx => ?_) (fun e w' hx => ?_) fun _ _ hx => hx
      · obtain ⟨r', h', hb, ha⟩ := (Prog.wp_pure _).mp hx
        obtain ⟨i, hq⟩ := h₁.after_creat ha h' hb
        dsimp only
        rw [Prog.wp_pure]
        refine Owns.wp_nodeDecref (n := .here p) (hq.perm (.swap _ _ l)) fun r'' w'' _ h'' => ?_
        exact ⟨i, r'', h''⟩
      · obtain ⟨r', h', hb, ha⟩ := hx
        exact (h₁.after ha trivial h' hb).wp_nodeDecref fun r'' w'' _ h'' => ⟨r'', h''⟩
  · rw [if_neg hc]
    exact h.wp_vfsLookup hm (fun n i r' w' _ _ h' => ⟨i, r', h'⟩) fun e r' w' h' => ⟨r', h'⟩

end Paths

/-! ## Opening and closing -/

/-- The volume carries a flat file system, and nothing panicked. -/
def Sound {α : Type} : Post machine α where
  ok _ w' := ∃ s, Shows w' s
  err _ w' := ∃ s, Shows w' s
  stopped _ _ := False

theorem Owns.wp_sound {α : Type} {op : Kern α} (hop : op.wp (Back r₀ l) w) : op.wp Sound w :=
  hop.mono (fun _ _ ⟨_, h'⟩ => ⟨_, h'.shows⟩) (fun _ _ ⟨_, h'⟩ => ⟨_, h'.shows⟩) fun _ _ hx => hx

/-- `vn` is open. -/
structure IsOpen (r : Register) (w : World) (vn : Ptr) (i : UInt32) : Prop
    extends Keeps True r w where
  balanced : r.Balanced
  handle : r.handles vn = some i
  pos : 0 < r.opens i

section Open

variable (h : IsOpen r w vn i)
include h

theorem IsOpen.wp_vfsClose {Q : Post machine Unit} (hok : ∀ w' s, Shows w' s → Q.ok () w') :
    (vfsClose vn).wp Q w := by
  have hle := h.opens_le i
  have hpos := h.pos
  rw [vfsClose, Prog.wp_bind]
  refine h.wp_decopen h.handle h.pos fun w₁ h₁ => ?_
  refine h₁.release (i := i) h.balanced.reopen h.handle ?_ fun w₂ h₂ => ?_
  · show Function.update r.opens i (r.opens i - 1) i < r.refs i
    rw [Function.update_self]
    omega
  · obtain ⟨-, -, hi⟩ := h.toKeeps.file h.handle
    exact hok w₂ _ ⟨_, h₂, h.balanced.reopen.drop hi (h.refs_pos h.handle), rfl⟩

theorem IsOpen.shows : Shows w r.flat := ⟨r, h.toKeeps, h.balanced, rfl⟩

theorem IsOpen.wp_truncate : (vopTruncate vn 0).wp ⟨fun _ w' => ∃ s, Shows w' s,
    fun _ w' => ∃ r', IsOpen r' w' vn i, fun _ _ => False⟩ w := by
  have hhas : Has vn w := by
    rw [Has, h.handles, h.handle]
    exact Option.some_ne_none i
  have hv : (FsOp.truncate vn 0).Allowed w := ⟨⟨hhas, Int.le_refl 0, by decide⟩, trivial, trivial⟩
  have hrun := FsOp.answered h.shows hv
  rw [FsOp.call, Prog.wp_bind] at hrun
  refine hrun.mono (fun x w' hx => ?_) (fun e w' hx => ?_) fun _ _ hx => hx
  · obtain ⟨s', hs', -⟩ := (Prog.wp_pure _).mp hx
    exact ⟨s', hs'⟩
  · obtain ⟨s', ⟨r', h', hb, hflat⟩, ha, -⟩ := hx
    cases ha with
    | truncateDir _ =>
      refine ⟨r', h', hb, ?_, ?_⟩
      · rw [show r'.handles = r.handles from congrArg NamedStore.handles hflat]
        exact h.handle
      · rw [show r'.opens = r.opens from congrArg NamedStore.opens hflat]
        exact h.pos

theorem IsOpen.wp_openTrunc {openflags : UInt32} {canwrite : Bool} :
    (Mounts.openTrunc vn openflags canwrite).wp Sound w := by
  rw [Mounts.openTrunc]
  split
  · have hbody : (if canwrite then vopTruncate vn 0 else Prog.fail .einval : Kern Unit).wp
        ⟨fun _ w' => ∃ s, Shows w' s, fun _ w' => ∃ r', IsOpen r' w' vn i, fun _ _ => False⟩
        w := by
      cases canwrite with
      | true => exact h.wp_truncate
      | false => exact (Prog.wp_fail _).mpr ⟨r, h⟩
    rw [Prog.wp_bind, wp_attempt]
    refine hbody.mono (fun _ w' hx => ?_) (fun e w' hx => ?_) fun _ _ hx => hx
    · dsimp only
      rw [Prog.wp_pure]
      exact hx
    · obtain ⟨r', h'⟩ := hx
      dsimp only
      rw [← Prog.bind_assoc, Prog.wp_bind]
      refine h'.wp_vfsClose fun w'' s hs => ?_
      dsimp only
      rw [Prog.wp_fail]
      exact ⟨s, hs⟩
  · rw [Prog.wp_pure]
    exact ⟨_, h.shows⟩

end Open

theorem wp_vopOpen {Q : Post machine Unit} {openflags : UInt32} (hok : Q.ok () w)
    (herr : ∀ e, Q.err e w) : (vopOpen vn openflags).wp Q w := by
  rw [vopOpen, Prog.wp_bind, wp_getVnode]
  dsimp only
  cases (w.st.fs.heap vn).vnOps with
  | sfsFileops =>
    dsimp only
    split
    · rw [Prog.wp_fail]
      exact herr _
    · rw [Prog.wp_pure]
      exact hok
  | sfsDirops =>
    dsimp only
    split
    · rw [Prog.wp_fail]
      exact herr _
    · split
      · rw [Prog.wp_fail]
        exact herr _
      · rw [Prog.wp_pure]
        exact hok

theorem Owns.wp_vfsOpen {openflags : UInt32} (h : Owns r₀ r w l) (hm : m.Held r₀)
    (hfits : openflags &&& Vfs.oAccmode ≠ Vfs.oAccmode → openflags &&& Vfs.oCreat ≠ 0 →
      ∀ name, m.name a.path = some name → NameFits r.slots name) :
    (m.vfsOpen a openflags).wp Sound w := by
  rw [Mounts.vfsOpen]
  dsimp only
  split
  · next how =>
    have hmode : openflags &&& Vfs.oAccmode ≠ Vfs.oAccmode := by
      rcases how with how | how | how <;>
        · rw [how]
          decide
    rw [Prog.wp_bind]
    refine (h.wp_openTarget hm (hfits hmode)).mono (fun n w₁ hx => ?_) (fun e w₁ hx => ?_)
      fun _ _ hx => hx
    · obtain ⟨i, r₁, h₁⟩ := hx
      cases n with
      | elsewhere =>
        dsimp only
        rw [Prog.wp_bind]
        refine (h₁.wp_answer a.result).mono (fun _ w₂ hx => ?_) (fun _ w₂ hx => ?_) fun _ _ hx => hx
        · obtain ⟨r₂, h₂⟩ := hx
          exact (Prog.wp_pure _).mpr ⟨_, h₂.shows⟩
        · obtain ⟨r₂, h₂⟩ := hx
          exact ⟨_, h₂.shows⟩
      | here vn =>
        have h₁ : Owns r₀ r₁ w₁ ((vn, i) :: l) := h₁
        have hp : r₁.handles vn = some i := h₁.handle (vn, i) List.mem_cons_self
        dsimp only
        rw [Prog.wp_bind, wp_attempt]
        refine wp_vopOpen ?_ fun e => ?_
        · dsimp only
          rw [Prog.wp_bind]
          have hspare := h₁.spare i
          have hbase := h₁.opens_le_base i
          rw [List.map_cons, List.count_cons_self] at hspare
          refine h₁.wp_incopen hp (by omega) fun w₂ h₂ => ?_
          dsimp only
          have hopened : IsOpen (r₁.reopen i (r₁.opens i + 1)) w₂ vn i :=
            ⟨h₂, h₁.balanced.reopen, hp, by
              show 0 < Function.update r₁.opens i (r₁.opens i + 1) i
              rw [Function.update_self]
              exact Nat.succ_pos _⟩
          rw [Prog.wp_bind]
          refine hopened.wp_openTrunc.mono (fun _ w₃ hx => ?_) (fun _ w₃ hx => hx) fun _ _ hx => hx
          exact (Prog.wp_pure _).mpr hx
        · dsimp only
          rw [Prog.wp_bind]
          refine h₁.wp_decref fun r₂ w₂ _ h₂ => ?_
          dsimp only
          rw [Prog.wp_fail]
          exact ⟨_, h₂.shows⟩
    · obtain ⟨r₁, h₁⟩ := hx
      exact ⟨_, h₁.shows⟩
  · rw [Prog.wp_fail]
    exact ⟨_, h.shows⟩

end Os161.Sfs
