import Mathlib.Data.List.Basic
import Mathlib.Logic.Function.Basic
import Os161.Files.OpenTable

/-! # The path buffer of `sys_open`

`sys_open` copies the path of its caller into one static buffer, and `vfs_open` reads it
there: `getdevice`, and after it each comparison of `sfs_dir_findname`, or `emu_open`. Threads may
be switched before every such read. -/
namespace Os161.Files.Path

def PATH_MAX : Nat := 1024
def NAME_MAX : Nat := 255

def nul : Char := Char.ofNat 0

/-- The string that starts at the head of `l`. -/
def cstr (l : List Char) : List Char := l.takeWhile (· ≠ nul)

/-- What `copyinstr` leaves in the buffer: the string and its null, or as much of it as
fits or as it reaches before a fault. -/
def copyinstr (buf path : List Char) (fault : Option Nat) : List Char × Option Errno :=
  match fault with
  | some k => (path.take (min k PATH_MAX) ++ buf.drop (min k PATH_MAX), some .EFAULT)
  | none =>
    if path.length < PATH_MAX then (path ++ nul :: buf.drop (path.length + 1), none)
    else (path.take PATH_MAX, some .ENAMETOOLONG)

structure Flags where
  accmode : Nat
  creat : Bool
  excl : Bool

/-- Which `VOP_LOOKUP` and `VOP_LOOKPARENT` a vnode has: those of an SFS directory, of an emufs
directory, of a raw device, or of a file. -/
inductive Kind where
  | sfsDir | emufsDir | device | file
  deriving DecidableEq

/-- Directories, devices and the vnodes of the files in them. `emuOpen` is what the host opens, or
creates, for a name in an emufs directory. -/
structure Env (T O : Type) where
  cwd : T → Option O
  getroot : List Char → Except Errno O
  fsroot : O → O
  bootfs : Option O
  kind : O → Kind
  vnode : O → Nat → O
  emuOpen : O → List Char → O

/-- Where the name that a directory scan looks for is kept: in the static buffer, or on
the stack of `vfs_open` if `vfs_lookparent` has copied it. -/
inductive Source where
  | shared (off : Nat)
  | own (name : List Char)

def Source.read (buf : List Char) : Source → List Char
  | .shared off => cstr (buf.drop off)
  | .own name => name

/-- Where a thread is in `sys_open`. `readdir` is about to read slot `i` of `n`, `compare`
has read it. In `emufsLookup` it waits for the card that is to open what the buffer holds, under
`O_CREAT` with the last component of the path in `name`; then `emufs_creat` opens that. -/
inductive Pc (O : Type) where
  | idle (last : Option (Except Errno O))
  | getdevice
  | getroot (off : Nat)
  | lookup (start : O) (off : Nat)
  | readdir (d : O) (src : Source) (i n : Nat) (found : Option Nat)
  | compare (d : O) (src : Source) (i n : Nat) (found : Option Nat) (tsd : Option (List Char × Nat))
  | create (d : O) (name : List Char)
  | emufsLookup (d : O) (off : Nat) (name : Option (List Char))
  | emufsCreat (d : O) (name : List Char)
  | opening (o : O)

/-- The object a completed call has opened. -/
def Pc.opened {O : Type} : Pc O → Option O
  | .idle (some (.ok o)) => some o
  | _ => none

/-- `linked` are all directory entries there ever were. -/
structure State (T O : Type) where
  pathname : List Char
  slots : O → List (Option (List Char × Nat))
  linked : List (O × List Char × Nat)
  path : T → List Char
  flags : T → Flags
  pc : T → Pc O
  panic : Bool

/-- `enter` is `sys_open` up to the call of `vfs_open`; `limit` is the error of the
descriptor search or of `oft_alloc`. `run` takes a thread to its next switch, `link` is
the rest of `sfs_creat` for a new file, `fail` any error on the way. -/
inductive Act (T : Type) where
  | enter (t : T) (path : List Char) (flags : Flags) (fault : Option Nat) (limit : Option Errno)
  | run (t : T)
  | link (t : T) (slot ino : Nat)
  | fail (t : T) (e : Errno)

def Act.thread {T : Type} : Act T → T
  | .enter t _ _ _ _ | .run t | .link t _ _ | .fail t _ => t

def separator (c : Char) : Bool := c = ':' || c = '/'

/-- What `getdevice` makes of the path in the buffer. -/
inductive Device where
  | relative
  | device (colon off : Nat)
  | boot (off : Nat)
  | current (off : Nat)

def slashes (l : List Char) : Nat := (l.takeWhile (· = '/')).length

def getdevice (buf : List Char) : Device :=
  match (cstr buf).findIdx? separator with
  | none => .relative
  | some i =>
    if (cstr buf)[i]? = some ':' then
      if 0 < i then .device i (i + 1 + slashes (buf.drop (i + 1)))
      else .current (1 + slashes (buf.drop 1))
    else if i = 0 then .boot (1 + slashes (buf.drop 1))
    else .relative

/-- Where the last `c` is. -/
def strrchr {α : Type} [DecidableEq α] (l : List α) (c : α) : Option Nat :=
  (l.reverse.findIdx? (· = c)).map fun k => l.length - 1 - k

section Strrchr

variable {α : Type} [DecidableEq α] {l : List α} {c : α} {i : Nat}

theorem strrchr_some (h : strrchr l c = some i) : ∃ hi : i < l.length, l[i] = c := by
  obtain ⟨k, hk, rfl⟩ := Option.map_eq_some_iff.mp h
  obtain ⟨hlt, hc, -⟩ := List.findIdx?_eq_some_iff_getElem.mp hk
  rw [List.getElem_reverse, decide_eq_true_iff] at hc
  rw [List.length_reverse] at hlt
  exact ⟨by omega, hc⟩

theorem strrchr_none : strrchr l c = none ↔ c ∉ l := by
  rw [strrchr, Option.map_eq_none_iff, List.findIdx?_eq_none_iff]
  simp only [List.mem_reverse, decide_eq_false_iff_not]
  exact ⟨fun h hc => h c hc rfl, fun h x hx heq => h (heq ▸ hx)⟩

end Strrchr

section Machine

variable {T O : Type} [DecidableEq T] [DecidableEq O] (env : Env T O)

def State.goto (s : State T O) (t : T) (pc : Pc O) : State T O :=
  { s with pc := Function.update s.pc t pc }

def State.error (s : State T O) (t : T) (e : Errno) : State T O :=
    s.goto t (.idle (some (.error e)))

def startAt (s : State T O) (t : T) (start : Option O) (off : Nat) : State T O :=
  match start with
  | some o => s.goto t (.lookup o off)
  | none => s.error t .ENOENT

/-- `sfs_dir_findname` over all slots there are when it starts. -/
def scan (s : State T O) (t : T) (d : O) (src : Source) : State T O :=
  s.goto t (.readdir d src 0 (s.slots d).length none)

/-- `VOP_LOOKUP` of the subpath at `off`, which is not empty. -/
def vopLookup (s : State T O) (t : T) (start : O) (off : Nat) : State T O :=
  match env.kind start with
  | .sfsDir => scan s t start (.shared off)
  | .emufsDir => s.goto t (.emufsLookup start off none)
  | .device => s.error t .ENOENT
  | .file => s.error t .ENOTDIR

/-- `VOP_LOOKPARENT` of it. In emufs it ends the directory part in the buffer. -/
def vopLookparent (s : State T O) (t : T) (start : O) (off : Nat) : State T O :=
  let subpath := cstr (s.pathname.drop off)
  match env.kind start with
  | .sfsDir =>
    if NAME_MAX < subpath.length then s.error t .ENAMETOOLONG else scan s t start (.own subpath)
  | .emufsDir =>
    match strrchr subpath '/' with
    | none =>
      if NAME_MAX < subpath.length then s.error t .ENAMETOOLONG
      else s.goto t (.emufsCreat start subpath)
    | some i =>
      let s := { s with pathname := s.pathname.set (off + i) nul }
      let name := subpath.drop (i + 1)
      if NAME_MAX < name.length then s.error t .ENAMETOOLONG
      else s.goto t (.emufsLookup start off (some name))
  | .device | .file => s.error t .ENOTDIR

/-- A thread runs from one switch to the next. -/
def run (s : State T O) (t : T) : Option (State T O) :=
  match s.pc t with
  | .idle _ | .create _ _ => none
  | .getdevice =>
    some (match getdevice s.pathname with
      | .relative => startAt s t (env.cwd t) 0
      | .device colon off => { s with pathname := s.pathname.set colon nul }.goto t (.getroot off)
      | .boot off => startAt s t env.bootfs off
      | .current off => startAt s t ((env.cwd t).map env.fsroot) off)
  | .getroot off =>
    some (match env.getroot (cstr s.pathname) with
      | .ok o => s.goto t (.lookup o off)
      | .error e => s.error t e)
  | .lookup start off =>
    let subpath := cstr (s.pathname.drop off)
    some (
      if (s.flags t).creat then
        if subpath = [] then s.error t .EINVAL else vopLookparent env s t start off
      else if subpath = [] then s.goto t (.opening start)
      else vopLookup env s t start off)
  | .readdir d src i n found =>
    some (
      if i < n then s.goto t (.compare d src i n found ((s.slots d)[i]?.join))
      else
        match found, src with
        | some ino, _ =>
          if (s.flags t).creat ∧ (s.flags t).excl then s.error t .EEXIST
          else s.goto t (.opening (env.vnode d ino))
        | none, .own name => s.goto t (.create d name)
        | none, .shared _ => s.error t .ENOENT)
  | .compare d src i n found tsd =>
    some (match tsd with
      | some (name, ino) =>
        if name = src.read s.pathname then
          if found = none then s.goto t (.readdir d src (i + 1) n (some ino))
          else { s with panic := true }
        else s.goto t (.readdir d src (i + 1) n found)
      | none => s.goto t (.readdir d src (i + 1) n found))
  | .emufsLookup d off name =>
    let o := env.emuOpen d (cstr (s.pathname.drop off))
    some (match name with
      | none => s.goto t (.opening o)
      | some name =>
        if env.kind o = .emufsDir then s.goto t (.emufsCreat o name) else s.error t .ENOTDIR)
  | .emufsCreat d name => some (s.goto t (.opening (env.emuOpen d name)))
  | .opening o => some (s.goto t (.idle (some (.ok o))))

/-- The next state, if this can happen now. -/
def step (s : State T O) : Act T → Option (State T O)
  | .enter t path flags fault limit =>
    match s.pc t with
    | .idle _ =>
      let (buf, e) := copyinstr s.pathname (cstr path) fault
      let s := { s with
        pathname := buf
        path := Function.update s.path t (cstr path)
        flags := Function.update s.flags t flags }
      match e, limit with
      | some e, _ | none, some e => some (s.error t e)
      | none, none =>
        if flags.accmode = 3 then some (s.error t .EINVAL) else some (s.goto t .getdevice)
    | _ => none
  | .run t => if s.panic then none else run env s t
  | .link t slot ino =>
    match s.pc t with
    | .create d name =>
      some ({ s with
        slots := Function.update s.slots d
          (if slot < (s.slots d).length then (s.slots d).set slot (some (name, ino))
          else s.slots d ++ [some (name, ino)])
        linked := (d, name, ino) :: s.linked }.goto t (.opening (env.vnode d ino)))
    | _ => none
  | .fail t e =>
    match s.pc t with
    | .idle _ => none
    | _ => some (s.error t e)

def runs (s : State T O) : List (Act T) → Option (State T O)
  | [] => some s
  | a :: as => (step env s a).bind fun s => runs s as

/-- Before any call; `linked` are the entries on the disk. -/
structure Start (s : State T O) : Prop where
  pc : ∀ t, s.pc t = .idle none
  linked : ∀ d name ino, (d, name, ino) ∈ s.linked ↔ some (name, ino) ∈ s.slots d

/-! ## Who reads the buffer -/

/-- The strings a thread has still to read from the buffer. -/
def Pc.view (buf : List Char) : Pc O → List (List Char)
  | .getdevice => [cstr buf]
  | .getroot off => [cstr buf, cstr (buf.drop off)]
  | .lookup _ off => [cstr (buf.drop off)]
  | .readdir _ (.shared off) _ _ _ | .compare _ (.shared off) _ _ _ _ => [cstr (buf.drop off)]
  | .emufsLookup _ off _ => [cstr (buf.drop off)]
  | _ => []

/-- Where the next step of a thread ends a string in the buffer: `getdevice` at the colon, and
`emufs_lookparent` at the last slash. -/
def cut (s : State T O) (t : T) : Option Nat :=
  match s.pc t with
  | .getdevice =>
    match getdevice s.pathname with
    | .device colon _ => some colon
    | _ => none
  | .lookup start off =>
    if (s.flags t).creat ∧ env.kind start = .emufsDir then
      (strrchr (cstr (s.pathname.drop off)) '/').map (off + ·)
    else none
  | _ => none

/-- The buffer after a step. -/
def buffer (s : State T O) : Act T → List Char
  | .enter _ path _ fault _ => (copyinstr s.pathname (cstr path) fault).1
  | .run t =>
    match cut env s t with
    | some k => s.pathname.set k nul
    | none => s.pathname
  | _ => s.pathname

/-- The step changes nothing that another open has still to read. -/
def Apart (s : State T O) (a : Act T) : Prop :=
  ∀ u, u ≠ a.thread → (s.pc u).view (buffer env s a) = (s.pc u).view s.pathname

/-- The steps of a run keep out of each other's paths. -/
def AllApart (s : State T O) (as : List (Act T)) : Prop :=
  ∀ bs a, bs ++ [a] <+: as → ∀ s', runs env s bs = some s' → Apart env s' a

/-! ## What a path names -/

/-- The directory and the name in it, read off the path itself. -/
def resolve (t : T) (path : List Char) : Except Errno (O × List Char) :=
  let start (o : Option O) (name : List Char) : Except Errno (O × List Char) :=
    match o with
    | some o => .ok (o, name)
    | none => .error .ENOENT
  match path.findIdx? separator with
  | none => start (env.cwd t) path
  | some i =>
    if path[i]? = some ':' then
      if 0 < i then (env.getroot (path.take i)).map fun o =>
        (o, (path.drop (i + 1)).dropWhile (· = '/'))
      else start ((env.cwd t).map env.fsroot) ((path.drop 1).dropWhile (· = '/'))
    else if i = 0 then start env.bootfs ((path.drop 1).dropWhile (· = '/'))
    else start (env.cwd t) path

/-- What a name in an emufs directory stands for: the host takes it as a whole, or
`emufs_lookparent` splits it at the last slash. -/
def Hosted (d : O) (name : List Char) (o : O) : Prop :=
  o = env.emuOpen d name ∨
    ∃ i, strrchr name '/' = some i ∧
      o = env.emuOpen (env.emuOpen d (name.take i)) (name.drop (i + 1))

/-- `o` is what the path of `t` names: the start itself, by an entry the SFS directory has or had,
or on the host. -/
def Names (linked : List (O × List Char × Nat)) (t : T) (path : List Char) (o : O) : Prop :=
  ∃ d name, resolve env t path = .ok (d, name) ∧
    (name = [] ∧ o = d ∨
      (env.kind d = .sfsDir ∧ ∃ ino, (d, name, ino) ∈ linked ∧ o = env.vnode d ino) ∨
      env.kind d = .emufsDir ∧ Hosted env d name o)

end Machine

end Os161.Files.Path
