import SchemaGraph.Decimal.Integer
import SchemaGraph.Json.Document
import SchemaGraph.Text.Hex

/-!
Strings and numbers inside JSON text. Each scan gives two answers: the value, for whoever wants
it, and the text that follows, for whoever skips it.
-/

namespace SchemaGraph.Json

structure Scan (α : Type) where
  value : Except Fault α
  rest : Except Fault (List Char)

/-- A scan that cannot go on, whether or not its value is wanted. -/
def Scan.stop (f : Fault) : Scan α :=
  ⟨.error f, .error f⟩

def Scan.map (g : α → β) (s : Scan α) : Scan β :=
  ⟨s.value.map g, s.rest⟩

/-! ### Strings -/

/-- The fault of four hexadecimal digits that are not there: the text may just end too early. -/
def hexFault (s : List Char) : Fault :=
  if (s.take 4).foldl (fun n c => n + c.utf8Size) 0 < 4 then .truncated else .malformed

def isLeading (unit : Nat) : Bool :=
  0xD800 ≤ unit && unit < 0xDC00

def isTrailing (unit : Nat) : Bool :=
  0xDC00 ≤ unit && unit < 0xE000

def simpleEscape? : Char → Option Char
  | '"' => some '"'
  | '\\' => some '\\'
  | '/' => some '/'
  | 'b' => some '\x08'
  | 'f' => some '\x0c'
  | 'n' => some '\n'
  | 'r' => some '\r'
  | 't' => some '\t'
  | _ => none

/-- The character beyond the basic plane that a leading and a trailing surrogate stand for. -/
def pairedChar (leading trailing : Nat) : Char :=
  Char.ofNat (0x10000 + (leading - 0xD800) * 0x400 + (trailing - 0xDC00))

/-- A leading surrogate that waits for its partner takes the value of what follows instead. -/
def Scan.after : Option Nat → Scan α → Scan α
  | none, scan => scan
  | some _, scan => ⟨.error .malformed, scan.rest⟩

/-- A string from after its opening quote, or after a leading surrogate in it. A surrogate without
its partner has no value, but the string can be skipped. -/
def scanString : Option Nat → List Char → Scan (List Char)
  | _, [] => .stop .truncated
  | leading, '"' :: s => .after leading ⟨.ok [], .ok s⟩
  | _, ['\\'] => .stop .truncated
  | leading, '\\' :: 'u' :: a :: b :: c :: d :: s =>
    match Text.hexNumber? [a, b, c, d] with
    | none => .stop (hexFault (a :: b :: c :: d :: s))
    | some unit =>
      if isTrailing unit then
        match leading with
        | some l => (scanString none s).map (pairedChar l unit :: ·)
        | none => ⟨.error .malformed, (scanString none s).rest⟩
      else if isLeading unit then .after leading (scanString (some unit) s)
      else .after leading ((scanString none s).map (Char.ofNat unit :: ·))
  | _, '\\' :: 'u' :: s => .stop (hexFault s)
  | leading, '\\' :: e :: s =>
    match simpleEscape? e with
    | none => .stop .malformed
    | some c => .after leading ((scanString none s).map (c :: ·))
  | leading, c :: s =>
    if c.toNat < 0x20 then .stop .malformed
    else .after leading ((scanString none s).map (c :: ·))

/-! ### Numbers -/

/-- The digits of a number, scaled by a power of ten. -/
structure Digits where
  significand : Nat
  exponent : Int

/-- Adds the digits before the point. Once one does not fit, it and the rest only scale. -/
def Digits.addWhole (d : Digits) : List Char → Digits
  | [] => d
  | c :: cs =>
    let n := d.significand * 10 + Decimal.digitValue c
    if n ≤ Decimal.greatestUInt64 then Digits.addWhole ⟨n, d.exponent⟩ cs
    else ⟨d.significand, d.exponent + (cs.length + 1 : Nat)⟩

/-- Adds the digits after the point, up to the first that does not fit. -/
def Digits.addFraction (d : Digits) : List Char → Digits
  | [] => d
  | c :: cs =>
    let n := d.significand * 10 + Decimal.digitValue c
    if n ≤ Decimal.greatestUInt64 then Digits.addFraction ⟨n, d.exponent - 1⟩ cs else d

def powerOfTen (k : Nat) : Decimal.Binary64 :=
  Decimal.Binary64.ofRatio false (Decimal.tenPow k) 1

/-- `x` times ten to the power `e`, by steps that each round once; nothing if it is too large. -/
def scaleByTen (x : Decimal.Binary64) (e : Int) : Option Decimal.Binary64 :=
  if x.isZero then some x
  else if 308 < e then none
  else if 0 ≤ e then
    let y := x.mul (powerOfTen e.toNat)
    if y.isFinite then some y else none
  else if -308 ≤ e then some (x.div (powerOfTen (-e).toNat))
  else scaleByTen (x.div (powerOfTen 308)) (e + 308)
termination_by (-e).toNat
decreasing_by omega

def Digits.toFloat (d : Digits) (negative : Bool) : Except Fault Number :=
  match scaleByTen (Decimal.Binary64.ofRatio false d.significand 1) d.exponent with
  | some x => .ok (.float (if negative then x.neg else x))
  | none => .error .malformed

/-- A number without point and exponent is an integer if it fits in 64 bits and is not `-0`. -/
def wholeNumber (negative : Bool) (whole : List Char) : Except Fault Number :=
  let n := Decimal.valueOfDigits 0 whole
  if negative then
    if n = 0 ∨ (-n : Int) < Decimal.leastInt64 then (Digits.addWhole ⟨0, 0⟩ whole).toFloat true
    else .ok (.int (-n))
  else if n ≤ Decimal.greatestUInt64 then .ok (.int n)
  else (Digits.addWhole ⟨0, 0⟩ whole).toFloat false

/-- A number whose digits are missing: wanted, it may just end too early. -/
def missingDigits (rest : List Char) : Scan α :=
  ⟨.error (if rest.isEmpty then .truncated else .malformed), .error .malformed⟩

/-- The exponent, from after its letter. -/
def scanExponent (negative : Bool) (digits : Digits) (s : List Char) : Scan Number :=
  let (below, s) := match s with
    | '-' :: s => (true, s)
    | '+' :: s => (false, s)
    | s => (false, s)
  let (ds, rest) := s.span Char.isDigit
  if ds.isEmpty then missingDigits rest
  else
    let e : Int := Decimal.valueOfDigits 0 ds
    let exponent := digits.exponent + (if below then -e else e)
    ⟨(Digits.mk digits.significand exponent).toFloat negative, .ok rest⟩

/-- A number from after its sign. -/
def scanMagnitude (negative : Bool) (s : List Char) : Scan Number :=
  let (whole, rest) := s.span Char.isDigit
  match whole with
  | [] => missingDigits rest
  | '0' :: _ :: _ => .stop .malformed
  | _ =>
    match rest with
    | '.' :: s =>
      let (fraction, rest) := s.span Char.isDigit
      if fraction.isEmpty then missingDigits rest
      else
        let digits := (Digits.addWhole ⟨0, 0⟩ whole).addFraction fraction
        match rest with
        | 'e' :: s | 'E' :: s => scanExponent negative digits s
        | _ => ⟨digits.toFloat negative, .ok rest⟩
    | 'e' :: s | 'E' :: s => scanExponent negative (Digits.addWhole ⟨0, 0⟩ whole) s
    | _ => ⟨wholeNumber negative whole, .ok rest⟩

def scanNumber : List Char → Scan Number
  | '-' :: s => scanMagnitude true s
  | s => scanMagnitude false s

end SchemaGraph.Json
