import RouterPlan.Text.Blank
import RouterPlan.Text.Digit

/-!
# TOML scalars

Which runs of characters write a truth value, an integer, a floating-point number, a date or a time.
-/

namespace RouterPlan.Toml

/-- Digits with single underscores between them. -/
def isDigits (isDigit : Char → Bool) (cs : List Char) : Bool :=
  (Text.pieces (· == '_') cs).all fun piece => !piece.isEmpty && piece.all isDigit

/-- The text without the sign in front. -/
def unsigned : List Char → List Char
  | '+' :: cs => cs
  | '-' :: cs => cs
  | cs => cs

/-- A decimal number without leading zeros. -/
def isDecimal (cs : List Char) : Bool :=
  isDigits Char.isDigit cs && (cs.head? != some '0' || cs.length == 1)

/-- The number that digits write in a base; underscores do not count. -/
def numeral (base : Nat) (cs : List Char) : Nat :=
  (cs.filterMap Text.hexDigit?).foldl (fun n d => base * n + d) 0

/-- One more than the greatest integer of 64 bits with a sign. -/
def integerBound : Nat :=
  0x8000000000000000

/-- An integer of 64 bits. -/
def isInteger (cs : List Char) : Bool :=
  let radix (base : Nat) (digits : List Char) : Bool :=
    isDigits (fun c => (Text.hexDigit? c).any (· < base)) digits && numeral base digits < integerBound
  match cs with
  | '0' :: 'x' :: digits => radix 16 digits
  | '0' :: 'o' :: digits => radix 8 digits
  | '0' :: 'b' :: digits => radix 2 digits
  | '-' :: digits => isDecimal digits && numeral 10 digits ≤ integerBound
  | cs => isDecimal (unsigned cs) && numeral 10 (unsigned cs) < integerBound

/-- The exponent of a floating-point number, or nothing. -/
def isExponent : List Char → Bool
  | [] => true
  | mark :: cs => (mark == 'e' || mark == 'E') && isDigits Char.isDigit (unsigned cs)

/-- A floating-point number: it has a fraction or an exponent, or is infinite or not a number. -/
def isFloat (cs : List Char) : Bool :=
  let cs := unsigned cs
  let isMark (c : Char) : Bool := c == '.' || c == 'e' || c == 'E'
  match cs.span (!isMark ·) with
  | (whole, '.' :: rest) =>
    let (fraction, exponent) := rest.span (fun c => c.isDigit || c == '_')
    isDecimal whole && isDigits Char.isDigit fraction && isExponent exponent
  | (whole, []) => whole == "inf".toList || whole == "nan".toList
  | (whole, exponent) => isDecimal whole && isExponent exponent

/-- Two digits with a value in a range. -/
def isField (low high : Nat) (cs : List Char) : Bool :=
  cs.length == 2 && cs.all Char.isDigit && low ≤ numeral 10 cs && numeral 10 cs ≤ high

/-- How many days a month has. -/
def daysIn (year month : Nat) : Nat :=
  if month = 2 then if year % 4 = 0 ∧ (year % 100 ≠ 0 ∨ year % 400 = 0) then 29 else 28
  else if month = 4 ∨ month = 6 ∨ month = 9 ∨ month = 11 then 30
  else 31

/-- A date of year, month and day. -/
def isDate (cs : List Char) : Bool :=
  match Text.pieces (· == '-') cs with
  | [year, month, day] =>
    year.length == 4 && year.all Char.isDigit && isField 1 12 month &&
      isField 1 (daysIn (numeral 10 year) (numeral 10 month)) day
  | _ => false

/-- A time of hour, minute and second, perhaps with a fraction. -/
def isTime (cs : List Char) : Bool :=
  match Text.pieces (· == ':') cs with
  | [hour, minute, second] =>
    let (whole, fraction) := second.span (· != '.')
    isField 0 23 hour && isField 0 59 minute && isField 0 60 whole &&
      (fraction.isEmpty || (fraction.length > 1 && (fraction.drop 1).all Char.isDigit))
  | _ => false

/-- A difference of a zone, in hours and minutes. -/
def isOffset (cs : List Char) : Bool :=
  match Text.pieces (· == ':') cs with
  | [hour, minute] => isField 0 23 hour && isField 0 59 minute
  | _ => false

/-- A time with an optional zone. -/
def isZonedTime (cs : List Char) : Bool :=
  match cs.getLast? with
  | some 'Z' => isTime cs.dropLast
  | some 'z' => isTime cs.dropLast
  | _ =>
    match cs.span (fun c => c != '+' && c != '-') with
    | (time, []) => isTime time
    | (time, _ :: offset) => isTime time && isOffset offset

/-- A date, a time, or both. -/
def isMoment (cs : List Char) : Bool :=
  let (date, rest) := cs.splitAt 10
  match rest with
  | [] => isDate cs || isTime cs
  | mark :: time =>
    (isDate date && (mark == 'T' || mark == 't' || mark == ' ') && isZonedTime time) || isTime cs

/-- A value that is neither text nor made of other values. -/
def isScalar (cs : List Char) : Bool :=
  cs == "true".toList || cs == "false".toList || isInteger cs || isFloat cs || isMoment cs

end RouterPlan.Toml
