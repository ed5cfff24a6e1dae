import Os161.Sfs.NamespaceRuns

/-! # The directory as a finite map

What a run of operations does to the table of the root directory: the names in it stay distinct, it
maps names to inode numbers as the operations say, and it gets longer only if no slot is free. -/
namespace Os161.Sfs
open Os161.Lib Kern Vol

variable {p : Ptr} {i : UInt32} {w w' : World} {s s' : Flat} {op : FsOp} {x : Except Errno FsRet}
  {M : Prop}

abbrev NameMap := CString → Option UInt32

/-- The inode number of each name in the directory. -/
def Vol.names (v : Vol) : NameMap := v.table.find

/-- The operation is on a file, not on the directory. -/
def FsOp.OnFile : FsOp → Prop
  | .io _ _ | .truncate _ _ | .fsync _ | .incref _ | .decref _ | .incopen _ | .decopen _ => True
  | _ => False

/-- Why a name that is not there is not bound. -/
def Unbindable (name : CString) (e : Errno) : Prop :=
  e = .enospc ∨ e = .enametoolong ∧ sfsNamelen < name.length + 1

/-- The answers to an operation, and the map after it; vnode `p` is of inode `ino p` before and
`ino' p` after the operation. -/
inductive MapAnswers (m : NameMap) (ino ino' : Ptr → UInt32) :
    FsOp → Except Errno FsRet → NameMap → Prop
  | getroot {p : Ptr} (hp : ino' p = sfsRootLocation) :
      MapAnswers m ino ino' .getroot (.ok (.vnode p)) m
  | lookparent {dir : Ptr} {path : CString} {buflen : Nat} {p : Ptr}
      (hlen : path.length + 1 ≤ buflen) (hp : ino' p = sfsRootLocation) :
      MapAnswers m ino ino' (.lookparent dir path buflen) (.ok (.parent p path)) m
  | lookparentFails {dir : Ptr} {path : CString} {buflen : Nat} (hlen : buflen < path.length + 1) :
      MapAnswers m ino ino' (.lookparent dir path buflen) (.error .enametoolong) m
  | lookup {dir : Ptr} {name : CString} {i : UInt32} {p : Ptr} (h : m name = some i)
      (hp : ino' p = i) : MapAnswers m ino ino' (.lookup dir name) (.ok (.vnode p)) m
  | lookupNone {dir : Ptr} {name : CString} (h : m name = none) :
      MapAnswers m ino ino' (.lookup dir name) (.error .enoent) m
  | creatOld {dir : Ptr} {name : CString} {i : UInt32} {p : Ptr} (h : m name = some i)
      (hp : ino' p = i) : MapAnswers m ino ino' (.creat dir name false) (.ok (.vnode p)) m
  | creatExcl {dir : Ptr} {name : CString} (h : m name ≠ none) :
      MapAnswers m ino ino' (.creat dir name true) (.error .eexist) m
  | creat {dir : Ptr} {name : CString} {excl : Bool} {i : UInt32} {p : Ptr} (h : m name = none)
      (hi : ∀ n, m n ≠ some i) (hp : ino' p = i) :
      MapAnswers m ino ino' (.creat dir name excl) (.ok (.vnode p))
        (Function.update m name (some i))
  | creatFails {dir : Ptr} {name : CString} {excl : Bool} {e : Errno} (h : m name = none)
      (he : Unbindable name e) : MapAnswers m ino ino' (.creat dir name excl) (.error e) m
  | link {dir : Ptr} {name : CString} {p : Ptr} (h : m name = none) :
      MapAnswers m ino ino' (.link dir name p) (.ok .done) (Function.update m name (some (ino p)))
  | linkOld {dir : Ptr} {name : CString} {p : Ptr} (h : m name ≠ none) :
      MapAnswers m ino ino' (.link dir name p) (.error .eexist) m
  | linkFails {dir : Ptr} {name : CString} {p : Ptr} {e : Errno} (h : m name = none)
      (he : Unbindable name e) : MapAnswers m ino ino' (.link dir name p) (.error e) m
  | remove {dir : Ptr} {name : CString} (h : m name ≠ none) :
      MapAnswers m ino ino' (.remove dir name) (.ok .done) (Function.update m name none)
  | removeNone {dir : Ptr} {name : CString} (h : m name = none) :
      MapAnswers m ino ino' (.remove dir name) (.error .enoent) m
  | rename {olddir newdir : Ptr} {old new : CString} {i : UInt32} (h : m old = some i)
      (hn : m new = none) :
      MapAnswers m ino ino' (.rename olddir old newdir new) (.ok .done)
        (Function.update (Function.update m new (some i)) old none)
  | renameNone {olddir newdir : Ptr} {old new : CString} (h : m old = none) :
      MapAnswers m ino ino' (.rename olddir old newdir new) (.error .enoent) m
  | renameOld {olddir newdir : Ptr} {old new : CString} (h : m old ≠ none) (hn : m new ≠ none) :
      MapAnswers m ino ino' (.rename olddir old newdir new) (.error .eexist) m
  | renameFails {olddir newdir : Ptr} {old new : CString} {e : Errno} (h : m old ≠ none)
      (hn : m new = none) (he : Unbindable new e) :
      MapAnswers m ino ino' (.rename olddir old newdir new) (.error e) m
  | onFile {op : FsOp} {x : Except Errno FsRet} (h : op.OnFile) : MapAnswers m ino ino' op x m

theorem Carries.distinct (h : Carries M w s) : (vol w).table.Distinct := by
  obtain ⟨r, h, -, -⟩ := h
  rw [h.slots]
  exact h.distinct

theorem Carries.names (h : Carries M w s) : (vol w).names = s.names := by
  obtain ⟨r, h, -, rfl⟩ := h
  rw [Vol.names, h.slots]
  rfl

theorem Carries.ino (h : Carries M w s) (hp : s.handles p = some i) : (vol w).ino p = i := by
  obtain ⟨r, h, -, rfl⟩ := h
  exact (h.handle_eq_some.mp hp).2

/-- A name stands for the root directory or for a file that is there. -/
theorem Carries.names_ne (h : Carries M w s) (hroot : i ≠ sfsRootLocation) (hi : s.objects i = none)
    (n : CString) : s.names n ≠ some i := by
  obtain ⟨r, h, -, rfl⟩ := h
  intro hn
  obtain ⟨j, hj⟩ := h.names_eq.mp hn
  rw [Register.objects_of_live (h.named j n i hj) hroot] at hi
  cases hi

theorem Refused.cases {name : CString} {e : Errno} (h : Refused s name e) :
    s.names name ≠ none ∧ e = .eexist ∨ s.names name = none ∧ Unbindable name e := by
  cases h with
  | eexist h => exact .inl ⟨h, rfl⟩
  | enametoolong h hlen => exact .inr ⟨h, .inr ⟨rfl, hlen⟩⟩
  | enospc h => exact .inr ⟨h, .inl rfl⟩

theorem Answers.map (h : Answers s op x s') (hs : Carries M w s) (hs' : Carries M w' s') :
    MapAnswers s.names (vol w).ino (vol w').ino op x s'.names := by
  have htaken {t : Flat} {p : Ptr} {i : UInt32} (ht : s' = t.take p i) : (vol w').ino p = i :=
    hs'.ino (by rw [ht]; exact Function.update_self ..)
  cases h with
  | getroot _ => exact .getroot (htaken rfl)
  | lookparent hlen _ => exact .lookparent hlen (htaken rfl)
  | lookparentFails hlen => exact .lookparentFails hlen
  | lookup hn _ => exact .lookup hn (htaken rfl)
  | lookupNone hn => exact .lookupNone hn
  | creatOld hn _ => exact .creatOld hn (htaken rfl)
  | creatExcl hn => exact .creatExcl hn
  | creatNew hn _ hroot hi _ => exact .creat hn (hs.names_ne hroot hi) (htaken rfl)
  | creatFails hn he =>
    rcases he.cases with ⟨hx, -⟩ | ⟨-, he⟩
    · exact absurd hn hx
    · exact .creatFails hn he
  | link hn _ hp =>
    have hi := hs.ino hp
    subst hi
    exact .link hn
  | linkFails he =>
    rcases he.cases with ⟨hx, rfl⟩ | ⟨hx, he⟩
    · exact .linkOld hx
    · exact .linkFails hx he
  | remove hn =>
    rw [NamedStore.names_reap]
    exact .remove (by rw [hn]; exact Option.some_ne_none _)
  | removeNone hn => exact .removeNone hn
  | rename ho hn _ => exact .rename ho hn
  | renameNone ho => exact .renameNone ho
  | renameFails ho he =>
    rcases he.cases with ⟨hx, rfl⟩ | ⟨hx, he⟩
    · exact .renameOld ho hx
    · exact .renameFails ho hx he
  | io _ _ _ => exact .onFile trivial
  | truncate _ _ _ => exact .onFile trivial
  | ioDir _ => exact .onFile trivial
  | truncateDir _ => exact .onFile trivial
  | fsync => exact .onFile trivial
  | incref _ => exact .onFile trivial
  | incopen _ => exact .onFile trivial
  | decopen _ => exact .onFile trivial
  | decref _ =>
    rw [NamedStore.names_reap]
    exact .onFile trivial

end Os161.Sfs
