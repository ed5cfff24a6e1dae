import Mathlib.Tactic.Common

/-! # printf

`__vprintf`: a state that takes the format character by character and sends text on. -/
namespace Os161.Libc

/-- One argument of the call. -/
inductive Arg where
  | word (w : UInt32)
  | str (s : Option (List Char))
  deriving DecidableEq

inductive Size where
  | INTSZ | LONGSZ
  deriving DecidableEq

/-- The state of `__vprintf`. `sent` is what `sendfunc` has been given. -/
structure PF where
  sent : List Char
  ap : List Arg
  charcount : Int32
  inPct : Bool
  size : Size
  num : UInt32
  sign : Int32
  spacing : Int32
  rightspc : Bool
  fillchar : Char
  base : Nat
  baseprefix : Bool
  altformat : Bool
  deriving DecidableEq

section Code

def pfPrint (pf : PF) (txt : List Char) : PF :=
  { pf with sent := pf.sent ++ txt, charcount := pf.charcount + Int32.ofNat txt.length }

def pfEndfield (pf : PF) : PF :=
  { pf with
    inPct := false, size := .INTSZ, num := 0, sign := 0, spacing := 0, rightspc := false,
    fillchar := ' ', base := 0, baseprefix := false, altformat := false }

/-- `none` is the failed assertion on a character that is no modifier. -/
def pfModifier (pf : PF) (ch : Char) : Option PF :=
  if ch = '#' then some { pf with altformat := true }
  else if ch = '-' then some { pf with rightspc := true }
  -- without USE_LONGLONG a second 'l' changes nothing
  else if ch = 'l' then some (if pf.size = .LONGSZ then pf else { pf with size := .LONGSZ })
  else if ch = 'q' then some { pf with size := .LONGSZ }
  else if ch = '0' then
    if pf.spacing > 0 then some { pf with spacing := pf.spacing * 10 }
    else some { pf with fillchar := '0' }
  else if '0' < ch ∧ ch ≤ '9' then
    some { pf with spacing := pf.spacing * 10 + Int32.ofNat (ch.toNat - '0'.toNat) }
  else none

/-- The next argument, if it is a word. -/
def vaArgWord (pf : PF) : Option (UInt32 × PF) :=
  match pf.ap with
  | .word w :: ap => some (w, { pf with ap })
  | _ => none

/-- Both sizes are a word. -/
def pfGetnum (pf : PF) (ch : Char) : Option PF :=
  (vaArgWord pf).map fun (w, pf) =>
    if ch = 'p' then { pf with num := w }
    else if ch = 'd' then
      let signednum : Int32 := w.toInt32
      if signednum < 0 then { pf with sign := -1, num := (-signednum).toUInt32 }
      else { pf with num := signednum.toUInt32 }
    else { pf with num := w }

def pfSetbase (pf : PF) (ch : Char) : PF :=
  let pf := if ch = 'd' ∨ ch = 'u' then { pf with base := 10 }
    else if ch = 'x' ∨ ch = 'p' then { pf with base := 16 }
    else if ch = 'o' then { pf with base := 8 }
    else pf
  if pf.altformat ∨ ch = 'p' then { pf with baseprefix := true } else pf

/-- `spc` turns of the loop of `__pf_fill`. -/
def pfFill (pf : PF) : Nat → PF
  | 0 => pf
  | spc + 1 => pfFill (pfPrint pf [pf.fillchar]) spc

def pfPrintstuff (pf : PF) (pre pre2 stuff : List Char) : PF :=
  let len : Int32 := Int32.ofNat (pre.length + pre2.length + stuff.length)
  let spc : Int32 := if pf.spacing > len then pf.spacing - len else 0
  let pf := if spc > 0 ∧ pf.rightspc = false ∧ pf.fillchar ≠ '0' then pfFill pf spc.toNatClampNeg
    else pf
  let pf := pfPrint (pfPrint pf pre) pre2
  let pf := if spc > 0 ∧ pf.rightspc = false ∧ pf.fillchar = '0' then pfFill pf spc.toNatClampNeg
    else pf
  let pf := pfPrint pf stuff
  if spc > 0 ∧ pf.rightspc = true then pfFill pf spc.toNatClampNeg else pf

/-- `sizeof(long) * CHAR_BIT / 3 + 2`, the size of `buf`. -/
def NUMBER_BUF_SIZE : Nat := 4 * 8 / 3 + 2

def digits : List Char := "0123456789abcdef".toList

/-- The loop of `__pf_printnum` with `slots` of `buf` left of the text `x`. `none` is a store
outside of `buf` or a load outside of `digits`. -/
def printnumLoop (base : Nat) : Nat → Nat → List Char → Option (List Char)
  | 0, _, _ => none
  | slots + 1, xnum, x =>
    (digits[xnum % base]?).bind fun digit =>
      if xnum / base > 0 then printnumLoop base slots (xnum / base) (digit :: x)
      else some (digit :: x)

def pfPrintnum (pf : PF) : Option PF :=
  -- the last slot has the NUL
  (printnumLoop pf.base (NUMBER_BUF_SIZE - 1) pf.num.toNat []).map fun x =>
    let bprefix := if pf.baseprefix ∧ pf.base = 16 then ['0', 'x']
      else if pf.baseprefix ∧ pf.base = 8 then ['0']
      else []
    let sprefix := if pf.sign ≠ 0 then ['-'] else []
    pfPrintstuff pf sprefix bprefix x

def modifierChars : List Char := "#-ql0123456789".toList

def integerTypes : List Char := "doupx".toList

def pfString (pf : PF) : Option PF :=
  match pf.ap with
  | .str s :: ap =>
    some (pfEndfield (pfPrintstuff { pf with ap } [] [] (s.getD "(null)".toList)))
  | _ => none

/-- A string of one character, which a NUL makes the empty one. -/
def oneChar (c : Char) : List Char := if c = '\x00' then [] else [c]

def pfChar (pf : PF) : Option PF :=
  (vaArgWord pf).map fun (w, pf) =>
    pfEndfield (pfPrintstuff pf [] [] (oneChar (Char.ofNat (w.toNat % 256))))

def pfSend (pf : PF) (ch : Char) : Option PF :=
  if ch = '\x00' then none
  else if pf.inPct = false ∧ ch ≠ '%' then some (pfPrint pf [ch])
  else if pf.inPct = false then some { pf with inPct := true }
  else if ch ∈ modifierChars then pfModifier pf ch
  else if ch ∈ integerTypes then
    ((pfGetnum pf ch).bind fun pf => pfPrintnum (pfSetbase pf ch)).map pfEndfield
  else if ch = 's' then pfString pf
  else if ch = 'c' then pfChar pf
  else some (pfEndfield (pfPrintstuff pf [] [] (oneChar ch)))

/-- The state before the first character. -/
def pfStart (ap : List Arg) : PF :=
  pfEndfield ⟨[], ap, 0, false, .INTSZ, 0, 0, 0, false, ' ', 0, false, false⟩

/-- `format` is without its NUL. -/
def vprintf (format : List Char) (ap : List Arg) : Option PF := format.foldlM pfSend (pfStart ap)

end Code

end Os161.Libc
