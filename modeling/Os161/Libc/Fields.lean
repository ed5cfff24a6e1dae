import Mathlib.Data.List.DropRight
import Os161.Lib.Digits
import Os161.Libc.Printf

/-! # Numeric fields of a format

What `__vprintf` sends for a field `% flags width modifier conversion`, and what a reader makes of
it. -/
namespace Os161.Libc
open Os161.Lib

inductive Flag where
  | alt | left | zero
  deriving DecidableEq

def Flag.ch : Flag → Char
  | .alt => '#'
  | .left => '-'
  | .zero => '0'

inductive Modifier where
  | l | q
  deriving DecidableEq

def Modifier.ch : Modifier → Char
  | .l => 'l'
  | .q => 'q'

inductive Conv where
  | d | u | x | o | p
  deriving DecidableEq

def Conv.ch : Conv → Char
  | .d => 'd'
  | .u => 'u'
  | .x => 'x'
  | .o => 'o'
  | .p => 'p'

def Conv.base : Conv → Nat
  | .d | .u => 10
  | .x | .p => 16
  | .o => 8

/-- The argument as the conversion takes it. -/
def Conv.value (c : Conv) (a : UInt32) : Int :=
  match c with
  | .d => a.toInt32.toInt
  | _ => a.toNat

/-- A field. Width 0 is none. -/
structure Field where
  flags : List Flag
  width : Nat
  mods : List Modifier
  conv : Conv
  width_lt : width < 2 ^ 31

def widthChars (width : Nat) : List Char := if width = 0 then [] else Nat.toDigits 10 width

/-- The field as it stands in the format. -/
def Field.format (f : Field) : List Char :=
  '%' :: (f.flags.map Flag.ch ++ (widthChars f.width ++ (f.mods.map Modifier.ch ++ [f.conv.ch])))

def Field.prefixed (f : Field) : Bool := .alt ∈ f.flags ∨ f.conv = .p

def Field.basePrefix (f : Field) : List Char :=
  if f.prefixed ∧ f.conv.base = 16 then ['0', 'x']
  else if f.prefixed ∧ f.conv.base = 8 then ['0']
  else []

def signChars (v : Int) : List Char := if v < 0 then ['-'] else []

/-- The digits of an argument, without its sign. -/
def Field.digits (f : Field) (a : UInt32) : List Char :=
  Nat.toDigits f.conv.base (f.conv.value a).natAbs

/-- The text of an argument without padding. -/
def Field.natural (f : Field) (a : UInt32) : List Char :=
  signChars (f.conv.value a) ++ f.basePrefix ++ f.digits a

/-- Removes the spaces on the side that the field pads. -/
def Field.strip (f : Field) (out : List Char) : List Char :=
  if .left ∈ f.flags then out.rdropWhile (· == ' ') else out.dropWhile (· == ' ')

/-- Reads what stands behind the sign. Zeros before the digits do not change them. -/
def Field.readDigits (f : Field) (txt : List Char) : Option Nat :=
  if f.basePrefix.isPrefixOf txt then numeral f.conv.base (txt.drop f.basePrefix.length) else none

/-- Removes the padding and reads the number. -/
def Field.readBack (f : Field) (out : List Char) : Option Int :=
  if (f.strip out).head? = some '-' then (f.readDigits (f.strip out).tail).map fun n => -(n : Int)
  else (f.readDigits (f.strip out)).map fun n => (n : Int)

/-- Zeros are put behind the digits. -/
def Field.PadsRightWithZeros (f : Field) (a : UInt32) : Prop :=
  .left ∈ f.flags ∧ .zero ∈ f.flags ∧ (f.natural a).length < f.width

/-! ## The digits -/

theorem digits_getElem {d : Nat} (h : d < 16) : Libc.digits[d]? = some d.digitChar := by
  interval_cases d <;> decide

/-- The loop writes the numeral, if it has the room. -/
theorem printnumLoop_toDigits {base : Nat} (hb : 1 < base) (hb' : base ≤ 16) (slots n : Nat)
    (x : List Char) (h : n < base ^ slots) (hs : 0 < slots) :
    printnumLoop base slots n x = some (Nat.toDigits base n ++ x) := by
  induction slots generalizing n x with
  | zero => omega
  | succ slots ih =>
    have hlt : n % base < base := Nat.mod_lt n (by omega)
    rw [printnumLoop, digits_getElem (by omega), Option.bind_some, Nat.toDigits_eq_if hb]
    by_cases hn : n < base
    · rw [if_neg (by rw [Nat.div_eq_of_lt hn]; omega), if_pos hn, Nat.mod_eq_of_lt hn]
      rfl
    · have hdiv : n / base < base ^ slots := by
        rw [Nat.div_lt_iff_lt_mul (by omega)]
        rwa [Nat.pow_succ] at h
      have hpos : 0 < n / base := Nat.div_pos (by omega) (by omega)
      have hslots : 0 < slots := by
        refine Nat.pos_of_ne_zero fun h0 => ?_
        rw [h0, Nat.pow_zero] at hdiv
        omega
      rw [if_pos hpos, if_neg hn, ih _ _ hdiv hslots, List.append_assoc]
      rfl

theorem Conv.base_gt (c : Conv) : 1 < c.base := by
  cases c <;> decide

theorem Conv.base_le (c : Conv) : c.base ≤ 16 := by
  cases c <;> decide

/-- Eleven digits are enough, also in base 8. -/
theorem printnumLoop_word (c : Conv) (n : UInt32) :
    printnumLoop c.base (NUMBER_BUF_SIZE - 1) n.toNat [] = some (Nat.toDigits c.base n.toNat) := by
  have hn : n.toNat < 4294967296 := n.toNat_lt
  have hpow : n.toNat < c.base ^ (NUMBER_BUF_SIZE - 1) := by
    have hsize : NUMBER_BUF_SIZE - 1 = 11 := rfl
    rw [hsize]
    cases c <;> simp only [Conv.base] <;> omega
  rw [printnumLoop_toDigits c.base_gt c.base_le _ _ _ hpow (by decide), List.append_nil]

/-! ## Sending -/

@[simp] theorem pfPrint_fillchar (pf : PF) (txt : List Char) :
    (pfPrint pf txt).fillchar = pf.fillchar := rfl

@[simp] theorem pfPrint_rightspc (pf : PF) (txt : List Char) :
    (pfPrint pf txt).rightspc = pf.rightspc := rfl

theorem pfPrint_nil (pf : PF) : pfPrint pf [] = pf := by
  have h0 : Int32.ofNat ([] : List Char).length = 0 := rfl
  rw [pfPrint, List.append_nil, h0, Int32.add_zero]

theorem pfPrint_pfPrint (pf : PF) (s t : List Char) :
    pfPrint (pfPrint pf s) t = pfPrint pf (s ++ t) := by
  simp only [pfPrint, List.append_assoc, List.length_append, Int32.ofNat_add, Int32.add_assoc]

theorem pfFill_eq (pf : PF) (spc : Nat) :
    pfFill pf spc = pfPrint pf (List.replicate spc pf.fillchar) := by
  induction spc generalizing pf with
  | zero => exact (pfPrint_nil pf).symm
  | succ spc ih =>
    rw [pfFill, ih, pfPrint_pfPrint]
    rfl

/-- What `__pf_printstuff` sends, with `spc` characters of padding. -/
def padded (rightspc : Bool) (fillchar : Char) (spc : Nat) (pre stuff : List Char) : List Char :=
  if rightspc then pre ++ stuff ++ List.replicate spc fillchar
  else if fillchar = '0' then pre ++ List.replicate spc '0' ++ stuff
  else List.replicate spc fillchar ++ (pre ++ stuff)

theorem padded_zero (r : Bool) (c : Char) (pre stuff : List Char) :
    padded r c 0 pre stuff = pre ++ stuff := by
  unfold padded
  split
  · simp
  · split <;> simp

theorem spc_eq {w l : Nat} (hw : w < 2 ^ 31) (hl : l < 2 ^ 31) :
    (if Int32.ofNat w > Int32.ofNat l then Int32.ofNat w - Int32.ofNat l else 0) =
      Int32.ofNat (w - l) := by
  by_cases h : l < w
  · rw [if_pos ((Int32.ofNat_lt_iff_lt hl hw).mpr h), Int32.ofNat_sub _ _ h.le]
  · rw [if_neg fun hgt => h ((Int32.ofNat_lt_iff_lt hl hw).mp hgt),
      Nat.sub_eq_zero_of_le (by omega)]
    rfl

theorem ofNat_pos {n : Nat} (h : n < 2 ^ 31) : Int32.ofNat n > 0 ↔ 0 < n :=
  Int32.ofNat_lt_iff_lt (a := 0) (by decide) h

theorem pfPrintstuff_eq {pf : PF} {w : Nat} (pre pre2 stuff : List Char)
    (hw : pf.spacing = Int32.ofNat w) (hlt : w < 2 ^ 31)
    (hl : pre.length + pre2.length + stuff.length < 2 ^ 31) :
    pfPrintstuff pf pre pre2 stuff =
      pfPrint pf (padded pf.rightspc pf.fillchar
        (w - (pre.length + pre2.length + stuff.length)) (pre ++ pre2) stuff) := by
  generalize hspc : w - (pre.length + pre2.length + stuff.length) = spc
  have hspc31 : spc < 2 ^ 31 := by omega
  simp only [pfPrintstuff, hw, spc_eq hlt hl, hspc, ofNat_pos hspc31,
    Int32.toNatClampNeg_ofNat_of_lt hspc31]
  by_cases h0 : 0 < spc
  · cases hr : pf.rightspc with
    | true => simp [h0, hr, padded, pfFill_eq, pfPrint_pfPrint]
    | false =>
      by_cases hc : pf.fillchar = '0' <;> simp [h0, hr, hc, padded, pfFill_eq, pfPrint_pfPrint]
  · have hz : spc = 0 := by omega
    simp [hz, padded_zero, pfPrint_pfPrint]

/-! ## The characters of a field -/

theorem pfSend_modifier {pf : PF} {ch : Char} (hin : pf.inPct = true) (h : ch ∈ modifierChars) :
    pfSend pf ch = pfModifier pf ch := by
  have hnul : '\x00' ∉ modifierChars := by decide
  have hne : ch ≠ '\x00' := fun heq => hnul (heq ▸ h)
  rw [pfSend, if_neg hne, if_neg (by simp [hin]), if_neg (by simp [hin]), if_pos h]

/-- The state behind the flags. -/
def PF.flagged (pf : PF) (flags : List Flag) : PF :=
  { pf with
    altformat := pf.altformat || decide (.alt ∈ flags),
    rightspc := pf.rightspc || decide (.left ∈ flags),
    fillchar := if .zero ∈ flags then '0' else pf.fillchar }

theorem pfSend_flag {pf : PF} (hin : pf.inPct = true) (hs : pf.spacing = 0) (g : Flag) :
    pfSend pf g.ch = some (pf.flagged [g]) := by
  cases g with
  | alt =>
    rw [pfSend_modifier hin (by decide)]
    simp [Flag.ch, pfModifier, PF.flagged]
  | left =>
    rw [pfSend_modifier hin (by decide)]
    simp [Flag.ch, pfModifier, PF.flagged]
  | zero =>
    have h0 : ¬ (0 : Int32) > 0 := by decide
    rw [pfSend_modifier hin (by decide)]
    simp [Flag.ch, pfModifier, PF.flagged, hs]

theorem flagged_flagged (pf : PF) (g : Flag) (flags : List Flag) :
    (pf.flagged [g]).flagged flags = pf.flagged (g :: flags) := by
  cases g <;> simp [PF.flagged]

theorem send_flags (pf : PF) (hin : pf.inPct = true) (hs : pf.spacing = 0) (flags : List Flag) :
    (flags.map Flag.ch).foldlM pfSend pf = some (pf.flagged flags) := by
  induction flags generalizing pf with
  | nil => simp [PF.flagged]
  | cons g flags ih =>
    rw [List.map_cons, List.foldlM_cons, pfSend_flag hin hs]
    exact (ih (pf.flagged [g]) hin hs).trans (congrArg some (flagged_flagged pf g flags))

theorem digit_mem_modifierChars {d : Nat} (h : d < 10) : d.digitChar ∈ modifierChars := by
  interval_cases d <;> decide

theorem pfModifier_digit {d : Nat} (h0 : 0 < d) (h : d < 10) (pf : PF) :
    pfModifier pf d.digitChar = some { pf with spacing := pf.spacing * 10 + Int32.ofNat d } := by
  interval_cases d <;> rfl

/-- A digit behind a width `w`, which is none if it is zero. -/
theorem pfSend_digit {pf : PF} {w d : Nat} (hin : pf.inPct = true)
    (hw : pf.spacing = Int32.ofNat w) (hlt : w < 2 ^ 31) (hd : d < 10) (hpos : 0 < 10 * w + d) :
    pfSend pf d.digitChar = some { pf with spacing := Int32.ofNat (10 * w + d) } := by
  rw [pfSend_modifier hin (digit_mem_modifierChars hd)]
  by_cases hd0 : d = 0
  · have hgt : Int32.ofNat w > 0 := (ofNat_pos hlt).mpr (by omega)
    have h10 : Int32.ofNat w * 10 = Int32.ofNat (10 * w + 0) := by
      rw [Nat.add_zero, Nat.mul_comm, Int32.ofNat_mul]
      rfl
    simp [hd0, pfModifier, hw, hgt, h10]
  · have hval : Int32.ofNat w * 10 = Int32.ofNat (10 * w) := by
      rw [Nat.mul_comm, Int32.ofNat_mul]
      rfl
    rw [pfModifier_digit (by omega) hd, hw, hval, Int32.ofNat_add]

theorem send_digits {pf : PF} (hin : pf.inPct = true) (hs : pf.spacing = 0) (w : Nat)
    (hlt : w < 2 ^ 31) (hpos : 0 < w) :
    (Nat.toDigits 10 w).foldlM pfSend pf = some { pf with spacing := Int32.ofNat w } := by
  induction w using Nat.base_induction 10 (by decide) with
  | single m hm =>
    have hstep := pfSend_digit (w := 0) hin hs (by decide) hm (by omega)
    rw [Nat.toDigits_of_lt_base hm, List.foldlM_cons, hstep, Nat.mul_zero, Nat.zero_add]
    rfl
  | digit m k hk hm ih =>
    have hstep := @pfSend_digit { pf with spacing := Int32.ofNat m } m k hin rfl (by omega) hk
      (by omega)
    rw [← Nat.toDigits_append_toDigits (by decide) hm hk, List.foldlM_append, ih (by omega) hm,
      Nat.toDigits_of_lt_base hk]
    exact (congrArg (· >>= fun pf => [].foldlM pfSend pf) hstep)

theorem send_width (pf : PF) (hin : pf.inPct = true) (hs : pf.spacing = 0) {w : Nat}
    (hlt : w < 2 ^ 31) :
    (widthChars w).foldlM pfSend pf = some { pf with spacing := Int32.ofNat w } := by
  by_cases h0 : w = 0
  · have hspc : Int32.ofNat w = pf.spacing := by
      rw [h0, hs]
      rfl
    rw [widthChars, if_pos h0, hspc]
    rfl
  · rw [widthChars, if_neg h0, send_digits hin hs w hlt (by omega)]

/-- Both sizes are words, so the modifiers change nothing else. -/
theorem send_mods (pf : PF) (hin : pf.inPct = true) (mods : List Modifier) :
    ∃ size, (mods.map Modifier.ch).foldlM pfSend pf = some { pf with size } := by
  induction mods generalizing pf with
  | nil => exact ⟨pf.size, rfl⟩
  | cons m mods ih =>
    have hstep : ∃ size, pfSend pf m.ch = some { pf with size } := by
      cases m with
      | l =>
        rw [pfSend_modifier hin (by decide)]
        by_cases hl : pf.size = .LONGSZ
        · exact ⟨pf.size, congrArg some (if_pos hl)⟩
        · exact ⟨.LONGSZ, congrArg some (if_neg hl)⟩
      | q =>
        rw [pfSend_modifier hin (by decide)]
        exact ⟨.LONGSZ, rfl⟩
    obtain ⟨size, hsend⟩ := hstep
    obtain ⟨size', hrest⟩ := ih { pf with size } hin
    refine ⟨size', ?_⟩
    rw [List.map_cons, List.foldlM_cons, hsend]
    exact hrest

/-! ## The conversion -/

theorem natAbs_of_neg {s : Int32} (h : s.toInt < 0) : (-s).toUInt32.toNat = s.toInt.natAbs := by
  have hneg : (-s).toUInt32.toNat = (-s.toBitVec).toNat := rfl
  have hint : s.toInt = s.toBitVec.toInt := rfl
  have hlt : s.toBitVec.toNat < 2 ^ 32 := s.toBitVec.isLt
  rw [hint, BitVec.toInt_eq_toNat_cond] at h ⊢
  rw [hneg, BitVec.toNat_neg]
  split at h <;> split <;> omega

theorem natAbs_of_nonneg {s : Int32} (h : ¬ s.toInt < 0) : s.toUInt32.toNat = s.toInt.natAbs := by
  have hnat : s.toUInt32.toNat = s.toBitVec.toNat := rfl
  have hint : s.toInt = s.toBitVec.toInt := rfl
  have hlt : s.toBitVec.toNat < 2 ^ 32 := s.toBitVec.isLt
  rw [hint, BitVec.toInt_eq_toNat_cond] at h ⊢
  rw [hnat]
  split at h <;> split <;> omega

/-- `num` is the absolute value, also of the least number. -/
theorem pfGetnum_word {pf : PF} {a : UInt32} {rest : List Arg} (hap : pf.ap = .word a :: rest)
    (c : Conv) :
    ∃ n : UInt32, n.toNat = (c.value a).natAbs ∧ pfGetnum pf c.ch = some { pf with
      ap := rest, num := n, sign := if c.value a < 0 then -1 else pf.sign } := by
  have hunsigned : ¬ ((a.toNat : Int) < 0) := by omega
  cases c with
  | d =>
    by_cases hneg : a.toInt32.toInt < 0
    · have hlt : a.toInt32 < 0 := Int32.lt_iff_toInt_lt.mpr hneg
      refine ⟨(-a.toInt32).toUInt32, natAbs_of_neg hneg, ?_⟩
      simp [pfGetnum, vaArgWord, hap, Conv.ch, Conv.value, hlt, hneg]
    · have hlt : ¬ a.toInt32 < 0 := fun h => hneg (Int32.lt_iff_toInt_lt.mp h)
      refine ⟨a.toInt32.toUInt32, natAbs_of_nonneg hneg, ?_⟩
      simp [pfGetnum, vaArgWord, hap, Conv.ch, Conv.value, hlt, hneg]
  | u | x | o | p =>
    refine ⟨a, by simp [Conv.value], ?_⟩
    simp [pfGetnum, vaArgWord, hap, Conv.ch, Conv.value, hunsigned]

theorem pfSetbase_eq (pf : PF) (c : Conv) :
    pfSetbase pf c.ch =
      { pf with
        base := c.base, baseprefix := pf.baseprefix || (pf.altformat || decide (c = .p)) } := by
  cases c <;> cases h : pf.altformat <;> simp [pfSetbase, Conv.ch, Conv.base, h]

theorem pfSend_conv {pf : PF} (hin : pf.inPct = true) (c : Conv) :
    pfSend pf c.ch =
      ((pfGetnum pf c.ch).bind fun pf => pfPrintnum (pfSetbase pf c.ch)).map pfEndfield := by
  have hnul : c.ch ≠ '\x00' := by cases c <;> decide
  have hmod : c.ch ∉ modifierChars := by cases c <;> decide
  have htype : c.ch ∈ integerTypes := by cases c <;> decide
  rw [pfSend, if_neg hnul, if_neg (by simp [hin]), if_neg (by simp [hin]), if_neg hmod,
    if_pos htype]

theorem natAbs_value_lt (c : Conv) (a : UInt32) : (c.value a).natAbs < 2 ^ 32 := by
  obtain ⟨n, hn, -⟩ := @pfGetnum_word (pfStart [.word a]) a [] rfl c
  rw [← hn]
  exact n.toNat_lt

theorem length_digits_le (f : Field) (a : UInt32) : (f.digits a).length ≤ 32 := by
  have hbase : 2 ≤ f.conv.base := f.conv.base_gt
  have hpow : 2 ^ 32 ≤ f.conv.base ^ 32 := Nat.pow_le_pow_left hbase 32
  exact (Nat.length_toDigits_le_iff f.conv.base_gt (by decide)).mpr
    (Nat.lt_of_lt_of_le (natAbs_value_lt f.conv a) hpow)

theorem length_natural_lt (f : Field) (a : UInt32) : (f.natural a).length < 2 ^ 31 := by
  have hsign : (signChars (f.conv.value a)).length ≤ 1 := by
    unfold signChars
    split <;> simp
  have hpre : f.basePrefix.length ≤ 2 := by
    unfold Field.basePrefix
    split
    · simp
    · split <;> simp
  have hdigits := length_digits_le f a
  rw [Field.natural, List.length_append, List.length_append]
  omega

theorem pfPrintnum_eq {pf : PF} {f : Field} {a : UInt32} (hbase : pf.base = f.conv.base)
    (hpre : pf.baseprefix = f.prefixed) (hnum : pf.num.toNat = (f.conv.value a).natAbs)
    (hsign : pf.sign = if f.conv.value a < 0 then -1 else 0) :
    pfPrintnum pf = some (pfPrintstuff pf (signChars (f.conv.value a)) f.basePrefix
      (f.digits a)) := by
  have hs : (if pf.sign ≠ 0 then ['-'] else []) = signChars (f.conv.value a) := by
    rw [hsign, signChars]
    split <;> rfl
  rw [pfPrintnum, hbase, printnumLoop_word, hpre, hnum, Option.map_some, hs]
  rfl

/-- What is sent for the field. -/
def Field.text (f : Field) (a : UInt32) : List Char :=
  padded (decide (.left ∈ f.flags)) (if .zero ∈ f.flags then '0' else ' ')
    (f.width - (f.natural a).length) (signChars (f.conv.value a) ++ f.basePrefix) (f.digits a)

theorem pfSend_percent {pf : PF} (hin : pf.inPct = false) :
    pfSend pf '%' = some { pf with inPct := true } := by
  simp [pfSend, hin]

theorem pfEndfield_pfPrint (pf : PF) (txt : List Char) :
    pfEndfield (pfPrint pf txt) = pfPrint (pfEndfield pf) txt := rfl

/-- The state before the conversion. -/
def PF.modified (pf : PF) (f : Field) (size : Size) : PF :=
  { ({ pf with inPct := true } : PF).flagged f.flags with spacing := Int32.ofNat f.width, size }

theorem send_modified {pf : PF} (hb : pfEndfield pf = pf) (f : Field) :
    ∃ size, f.format.foldlM pfSend pf = pfSend (pf.modified f size) f.conv.ch := by
  have hin : pf.inPct = false := congrArg PF.inPct hb.symm
  have hs : pf.spacing = 0 := congrArg PF.spacing hb.symm
  obtain ⟨size, hmods⟩ := send_mods (pf.modified f pf.size) rfl f.mods
  refine ⟨size, ?_⟩
  have hflags := send_flags { pf with inPct := true } rfl hs f.flags
  have hwidth := send_width (({ pf with inPct := true } : PF).flagged f.flags) rfl hs f.width_lt
  simp only [Field.format, List.foldlM_cons, List.foldlM_append, pfSend_percent hin,
    Option.bind_eq_bind, Option.bind_some, hflags, hwidth, List.foldlM_nil, Option.pure_def,
    Option.bind_fun_some]
  exact congrArg (Option.bind · _) hmods

/-- The number is sent with its padding, and the field is over. -/
theorem printnum_text {q p : PF} {f : Field} {a : UInt32} (hbase : q.base = f.conv.base)
    (hpre : q.baseprefix = f.prefixed) (hnum : q.num.toNat = (f.conv.value a).natAbs)
    (hsign : q.sign = if f.conv.value a < 0 then -1 else 0)
    (hright : q.rightspc = decide (.left ∈ f.flags))
    (hfill : q.fillchar = if .zero ∈ f.flags then '0' else ' ')
    (hwidth : q.spacing = Int32.ofNat f.width) (hend : pfEndfield q = p) :
    (pfPrintnum q).map pfEndfield = some (pfPrint p (f.text a)) := by
  have hlen : (signChars (f.conv.value a)).length + f.basePrefix.length + (f.digits a).length =
      (f.natural a).length := by
    rw [Field.natural, List.length_append, List.length_append]
  rw [pfPrintnum_eq hbase hpre hnum hsign, Option.map_some,
    pfPrintstuff_eq _ _ _ hwidth f.width_lt (hlen ▸ length_natural_lt f a), pfEndfield_pfPrint,
    hend, hlen, hright, hfill, Field.text]

theorem pfSend_modified {pf : PF} {a : UInt32} {rest : List Arg} (hb : pfEndfield pf = pf)
    (hap : pf.ap = .word a :: rest) (f : Field) (size : Size) :
    pfSend (pf.modified f size) f.conv.ch = some (pfPrint { pf with ap := rest } (f.text a)) := by
  have halt : pf.altformat = false := congrArg PF.altformat hb.symm
  have hpre : pf.baseprefix = false := congrArg PF.baseprefix hb.symm
  have hsign : (pf.modified f size).sign = 0 := congrArg PF.sign hb.symm
  have hright : pf.rightspc = false := congrArg PF.rightspc hb.symm
  have hfill : pf.fillchar = ' ' := congrArg PF.fillchar hb.symm
  obtain ⟨n, hn, hget⟩ := @pfGetnum_word (pf.modified f size) a rest hap f.conv
  rw [pfSend_conv rfl, hget, hsign, Option.bind_some, pfSetbase_eq]
  refine printnum_text rfl ?_ hn rfl ?_ ?_ rfl ?_
  · simp [PF.modified, PF.flagged, hpre, halt, Field.prefixed]
  · simp [PF.modified, PF.flagged, hright]
  · simp [PF.modified, PF.flagged, hfill]
  · exact congrArg (fun p : PF => { p with ap := rest }) hb

/-- A field sends its text, takes its argument and leaves no trace. -/
theorem send_field {pf : PF} {a : UInt32} {rest : List Arg} (hb : pfEndfield pf = pf)
    (hap : pf.ap = .word a :: rest) (f : Field) :
    f.format.foldlM pfSend pf = some (pfPrint { pf with ap := rest } (f.text a)) := by
  obtain ⟨size, hsend⟩ := send_modified hb f
  rw [hsend, pfSend_modified hb hap]

/-! ## Between two fields -/

/-- Outside of a field nothing is left of an earlier one. -/
def PF.Clean (pf : PF) : Prop := pf.inPct = false → pfEndfield pf = pf

theorem clean_pfEndfield (pf : PF) : (pfEndfield pf).Clean := fun _ => rfl

theorem pfModifier_inPct {pf pf' : PF} {ch : Char} (h : pfModifier pf ch = some pf') :
    pf'.inPct = pf.inPct := by
  unfold pfModifier at h
  split_ifs at h <;> cases h <;> rfl

theorem clean_pfSend {pf pf' : PF} {ch : Char} (hc : pf.Clean) (h : pfSend pf ch = some pf') :
    pf'.Clean := by
  unfold pfSend at h
  split_ifs at h with hnul htxt hin hmod hint hstr hchr
  · cases h
    intro hpct
    exact congrArg (pfPrint · [ch]) (hc hpct)
  · cases h
    intro hpct
    cases hpct
  · intro hpct
    exact absurd ((pfModifier_inPct h).symm.trans hpct) hin
  · obtain ⟨q, -, rfl⟩ := Option.map_eq_some_iff.mp h
    exact clean_pfEndfield q
  · unfold pfString at h
    split at h
    · cases h
      exact clean_pfEndfield _
    · cases h
  · obtain ⟨q, -, rfl⟩ := Option.map_eq_some_iff.mp h
    exact clean_pfEndfield _
  · cases h
    exact clean_pfEndfield _

theorem clean_foldlM {format : List Char} {pf pf' : PF} (hc : pf.Clean)
    (h : format.foldlM pfSend pf = some pf') : pf'.Clean := by
  induction format generalizing pf with
  | nil => cases h; exact hc
  | cons ch format ih =>
    rw [List.foldlM_cons] at h
    obtain ⟨q, hq, hrest⟩ := Option.bind_eq_some_iff.mp h
    exact ih (clean_pfSend hc hq) hrest

theorem clean_vprintf {format : List Char} {args : List Arg} {pf : PF}
    (h : vprintf format args = some pf) : pf.Clean :=
  clean_foldlM (clean_pfEndfield _) h

/-! ## Reading back -/

theorem length_padded (r : Bool) (c : Char) (spc : Nat) (pre stuff : List Char) :
    (padded r c spc pre stuff).length = pre.length + stuff.length + spc := by
  unfold padded
  split
  · simp [Nat.add_assoc]
  · split <;> simp <;> omega

theorem length_text (f : Field) (a : UInt32) :
    (f.text a).length = max f.width (f.natural a).length := by
  have hlen : (f.natural a).length =
      (signChars (f.conv.value a) ++ f.basePrefix).length + (f.digits a).length := by
    rw [Field.natural, List.length_append]
  rw [Field.text, length_padded]
  omega

theorem dropWhile_spaces {txt : List Char} (h : ' ' ∉ txt) (k : Nat) :
    (List.replicate k ' ' ++ txt).dropWhile (· == ' ') = txt := by
  induction k with
  | zero =>
    cases txt with
    | nil => rfl
    | cons c txt =>
      have hc : (c == ' ') = false := by
        rw [beq_eq_false_iff_ne]
        rintro rfl
        exact h (List.mem_cons_self ..)
      simp [hc]
  | succ k ih =>
    rw [List.replicate_succ, List.cons_append, List.dropWhile_cons_of_pos (by rfl), ih]

theorem rdropWhile_spaces {txt : List Char} (h : ' ' ∉ txt) (k : Nat) :
    (txt ++ List.replicate k ' ').rdropWhile (· == ' ') = txt := by
  rw [List.rdropWhile, List.reverse_append, List.reverse_replicate,
    dropWhile_spaces (by simpa using h), List.reverse_reverse]

theorem not_mem_digits (f : Field) (a : UInt32) {c : Char} (hc : digitValue c = none) :
    c ∉ f.digits a :=
  not_mem_toDigits f.conv.base_gt f.conv.base_le hc _

theorem basePrefix_cases (f : Field) :
    f.basePrefix = ['0', 'x'] ∨ f.basePrefix = ['0'] ∨ f.basePrefix = [] := by
  unfold Field.basePrefix
  split
  · exact Or.inl rfl
  · split
    · exact Or.inr (Or.inl rfl)
    · exact Or.inr (Or.inr rfl)

theorem space_not_mem_prefixes (f : Field) (v : Int) : ' ' ∉ signChars v ++ f.basePrefix := by
  unfold signChars
  obtain h | h | h := basePrefix_cases f <;> rw [h] <;> split <;> decide

theorem readDigits_append (f : Field) (ds : List Char) :
    f.readDigits (f.basePrefix ++ ds) = numeral f.conv.base ds := by
  rw [Field.readDigits, if_pos (by simp), List.drop_left]

/-- Reading behind the padding. -/
theorem readBack_of_strip {f : Field} {out ds : List Char} {v : Int} {m : Nat}
    (hs : f.strip out = signChars v ++ f.basePrefix ++ ds) (hm : numeral f.conv.base ds = some m)
    (hd : '-' ∉ ds) : f.readBack out = some (if v < 0 then -(m : Int) else m) := by
  by_cases hv : v < 0
  · have hsign : signChars v = ['-'] := if_pos hv
    rw [hsign, List.append_assoc, List.singleton_append] at hs
    rw [Field.readBack, hs, List.head?_cons, if_pos rfl, List.tail_cons, readDigits_append, hm,
      if_pos hv]
    rfl
  · have hsign : signChars v = [] := if_neg hv
    rw [hsign, List.nil_append] at hs
    have hhead : (f.basePrefix ++ ds).head? ≠ some '-' := by
      obtain h | h | h := basePrefix_cases f
      · simp [h]
      · simp [h]
      · rw [h, List.nil_append]
        exact fun hh => hd (List.mem_of_mem_head? hh)
    rw [Field.readBack, hs, if_neg hhead, readDigits_append, hm, if_neg hv]
    rfl

/-- Without spaces at its ends nothing is removed. -/
theorem strip_of_not_mem {f : Field} {txt : List Char} (h : ' ' ∉ txt) : f.strip txt = txt := by
  unfold Field.strip
  split
  · simpa using rdropWhile_spaces h 0
  · simpa using dropWhile_spaces h 0

theorem strip_spaces {f : Field} (a : UInt32) (hz : .zero ∉ f.flags) :
    f.strip (f.text a) = f.natural a := by
  have hsp : ' ' ∉ f.natural a := by
    rw [Field.natural, List.mem_append, not_or]
    exact ⟨space_not_mem_prefixes f _, not_mem_digits f a (by decide)⟩
  have hc : (' ' = '0') ↔ False := by decide
  simp only [Field.strip, Field.text, padded, hz, if_false, hc]
  by_cases hl : .left ∈ f.flags
  · rw [if_pos hl, if_pos (decide_eq_true hl), ← Field.natural, rdropWhile_spaces hsp]
  · rw [if_neg hl, if_neg (by simpa using hl), ← Field.natural, dropWhile_spaces hsp]

theorem strip_zeros_left {f : Field} (a : UInt32) (hz : .zero ∈ f.flags) (hl : .left ∉ f.flags) :
    f.strip (f.text a) = signChars (f.conv.value a) ++ f.basePrefix ++
      (List.replicate (f.width - (f.natural a).length) '0' ++ f.digits a) := by
  have htext : f.text a = signChars (f.conv.value a) ++ f.basePrefix ++
      (List.replicate (f.width - (f.natural a).length) '0' ++ f.digits a) := by
    rw [Field.text, padded, if_neg (by simpa using hl), if_pos (if_pos hz), List.append_assoc]
  rw [htext, strip_of_not_mem]
  simp only [List.mem_append, List.mem_replicate, not_or]
  rw [← not_or, ← List.mem_append]
  exact ⟨space_not_mem_prefixes f _, by simp, not_mem_digits f a (by decide)⟩

theorem strip_zeros_right {f : Field} (a : UInt32) (hz : .zero ∈ f.flags) (hl : .left ∈ f.flags) :
    f.strip (f.text a) = signChars (f.conv.value a) ++ f.basePrefix ++
      (f.digits a ++ List.replicate (f.width - (f.natural a).length) '0') := by
  have htext : f.text a = signChars (f.conv.value a) ++ f.basePrefix ++
      (f.digits a ++ List.replicate (f.width - (f.natural a).length) '0') := by
    rw [Field.text, padded, if_pos (decide_eq_true hl), if_pos hz, List.append_assoc]
  rw [htext, strip_of_not_mem]
  simp only [List.mem_append, List.mem_replicate, not_or]
  rw [← not_or, ← List.mem_append]
  exact ⟨space_not_mem_prefixes f _, not_mem_digits f a (by decide), by simp⟩

theorem signed_natAbs (v : Int) : (if v < 0 then -(v.natAbs : Int) else v.natAbs) = v := by
  split <;> omega

theorem dash_not_mem_zeros (k : Nat) : '-' ∉ List.replicate k '0' := by
  simp

/-- The number comes back unless zeros stand behind its digits. -/
theorem readBack_text_of_not {f : Field} {a : UInt32} (h : ¬ (.left ∈ f.flags ∧ .zero ∈ f.flags)) :
    f.readBack (f.text a) = some (f.conv.value a) := by
  have hdash : '-' ∉ f.digits a := not_mem_digits f a (by decide)
  by_cases hz : .zero ∈ f.flags
  · have hnum := numeral_zeros_toDigits f.conv.base_gt f.conv.base_le
      (f.width - (f.natural a).length) (f.conv.value a).natAbs
    rw [readBack_of_strip (strip_zeros_left a hz fun hl => h ⟨hl, hz⟩) hnum, signed_natAbs]
    rw [List.mem_append, not_or]
    exact ⟨dash_not_mem_zeros _, hdash⟩
  · have hnum := numeral_zeros_toDigits f.conv.base_gt f.conv.base_le 0 (f.conv.value a).natAbs
    rw [readBack_of_strip (strip_spaces a hz) hnum hdash, signed_natAbs]

/-- Zeros behind the digits multiply the number. -/
theorem readBack_text_of_both {f : Field} {a : UInt32} (hl : .left ∈ f.flags)
    (hz : .zero ∈ f.flags) :
    f.readBack (f.text a) =
      some (f.conv.base ^ (f.width - (f.natural a).length) * f.conv.value a) := by
  have hdash : '-' ∉ f.digits a := not_mem_digits f a (by decide)
  have hnum := numeral_toDigits_zeros f.conv.base_gt f.conv.base_le
    (f.width - (f.natural a).length) (f.conv.value a).natAbs
  rw [readBack_of_strip (strip_zeros_right a hz hl) hnum]
  · congr 1
    rw [Nat.cast_mul, Nat.cast_pow, ← mul_neg, ← mul_ite, signed_natAbs]
  · rw [List.mem_append, not_or]
    exact ⟨hdash, dash_not_mem_zeros _⟩

theorem value_eq_zero (c : Conv) (a : UInt32) : c.value a = 0 ↔ a = 0 := by
  obtain ⟨n, hn, -⟩ := @pfGetnum_word (pfStart [.word a]) a [] rfl c
  cases c with
  | d =>
    have h0 : a.toInt32.toInt = 0 ↔ a.toInt32 = 0 := by
      rw [← Int32.toInt_inj]
      rfl
    rw [Conv.value, h0]
    refine ⟨fun h => ?_, fun h => by rw [h]; rfl⟩
    rw [← a.toUInt32_toInt32, h]
    rfl
  | u | x | o | p =>
    simp only [Conv.value, Int.natCast_eq_zero]
    rw [← UInt32.toNat_inj]
    rfl

/-- One digit more is another number, except for zero. -/
theorem shifted_eq_iff (c : Conv) (a : UInt32) (k : Nat) :
    (c.base : Int) ^ k * c.value a = c.value a ↔ k = 0 ∨ a = 0 := by
  have hbase : 1 < c.base := c.base_gt
  by_cases ha : a = 0
  · simp [ha, (value_eq_zero c 0).mpr rfl]
  · have hv : c.value a ≠ 0 := fun h => ha ((value_eq_zero c a).mp h)
    have hpow : (c.base : Int) ^ k = 1 ↔ k = 0 := by
      rw [← Nat.cast_pow, Nat.cast_eq_one, Nat.pow_eq_one]
      omega
    rw [mul_eq_right₀ hv, hpow, or_iff_left ha]

theorem readBack_text_iff (f : Field) (a : UInt32) :
    f.readBack (f.text a) = some (f.conv.value a) ↔ ¬ (f.PadsRightWithZeros a ∧ a ≠ 0) := by
  by_cases h : .left ∈ f.flags ∧ .zero ∈ f.flags
  · rw [readBack_text_of_both h.1 h.2, Option.some.injEq, shifted_eq_iff, Field.PadsRightWithZeros,
      Nat.sub_eq_zero_iff_le, ← not_lt]
    tauto
  · exact ⟨fun _ hp => h ⟨hp.1.1, hp.1.2.1⟩, fun _ => readBack_text_of_not h⟩

/-! ## In a whole format -/

/-- The field has been sent: as many characters as it is wide, and the argument can be read back
from them. -/
def Field.SentExactly (f : Field) (pf : PF) (a : UInt32) : Prop :=
  ∃ pf' out, f.format.foldlM pfSend pf = some pf' ∧ pf'.sent = pf.sent ++ out ∧
    out.length = max f.width (f.natural a).length ∧ f.readBack out = some (f.conv.value a)

/-- A field behind any format `before` takes its argument, never leaves the digit buffer and sends
what its width asks for. The number can be read back from it unless `-` and `0` meet and the number
is padded: the zeros then stand behind the digits. -/
theorem field_sentExactly_iff {before : List Char} {args rest : List Arg} {pf : PF} {a : UInt32}
    (hbefore : vprintf before args = some pf) (hin : pf.inPct = false)
    (hap : pf.ap = .word a :: rest) (f : Field) :
    (∃ pf' out, vprintf (before ++ f.format) args = some pf' ∧ pf'.sent = pf.sent ++ out ∧
      out.length = max f.width (f.natural a).length ∧ pf'.ap = rest ∧ pf'.inPct = false) ∧
    (f.SentExactly pf a ↔ ¬ (f.PadsRightWithZeros a ∧ a ≠ 0)) := by
  have hsend := send_field (clean_vprintf hbefore hin) hap f
  refine ⟨⟨pfPrint { pf with ap := rest } (f.text a), f.text a, ?_, rfl, length_text f a, rfl,
    hin⟩, ?_⟩
  · rw [vprintf, List.foldlM_append]
    exact (congrArg (Option.bind · _) hbefore).trans hsend
  · rw [← readBack_text_iff]
    constructor
    · rintro ⟨pf', out, hfold, hsent, -, hread⟩
      rw [hsend, Option.some.injEq] at hfold
      have hout : pf.sent ++ f.text a = pf.sent ++ out := by
        rw [← hsent, ← hfold]
        rfl
      rwa [List.append_cancel_left hout]
    · intro hread
      exact ⟨_, f.text a, hsend, rfl, length_text f a, hread⟩

/-- The least number, zero padded. -/
theorem field_sentExactly_least :
    (Field.mk [.zero] 12 [.l] .d (by decide)).SentExactly (pfStart [.word 0x80000000]) 0x80000000 :=
  (@field_sentExactly_iff [] _ _ _ _ rfl rfl rfl _).2.mpr fun h => nomatch h.1.1

/-- `%-05d`. -/
def leftZeros : Field := ⟨[.left, .zero], 5, [], .d, by decide⟩

/-- It prints 12 as 12000. -/
theorem leftZeros_not_sentExactly :
    leftZeros.format = ['%', '-', '0', '5', 'd'] ∧
      (vprintf leftZeros.format [.word 12]).map PF.sent = some ['1', '2', '0', '0', '0'] ∧
      leftZeros.readBack ['1', '2', '0', '0', '0'] = some 12000 ∧
      ¬ leftZeros.SentExactly (pfStart [.word 12]) 12 := by
  have hsent : (vprintf leftZeros.format [.word 12]).map PF.sent =
      some ['1', '2', '0', '0', '0'] := by decide +kernel
  have hread : leftZeros.readBack ['1', '2', '0', '0', '0'] = some 12000 := by decide +kernel
  refine ⟨by decide +kernel, hsent, hread, ?_⟩
  rintro ⟨pf', out, hfold, hout, -, hback⟩
  rw [vprintf, hfold, Option.map_some, Option.some.injEq] at hsent
  have hnil : (pfStart [.word 12]).sent = [] := rfl
  rw [hsent, hnil, List.nil_append] at hout
  rw [← hout, hread] at hback
  exact absurd hback (by decide)

end Os161.Libc
