import NetArray.Fault

/-!
# Numbers, dates and times

An unquoted value is one word. This module says which words are integers, floats, dates and times, and
what number an integer stands for.

* `integer?` reads an integer of 64 bits with its sign.
* `isFloat` and `isDateTime` recognise the other words.
-/

namespace NetArray.Toml

/-! ### Digits -/

/-- Whether a word is digits of a class with single underscores between some of them. -/
def isDigits (accepts : Char → Bool) : List Char → Bool
  | [] => false
  | [c] => accepts c
  | c :: '_' :: rest => accepts c && isDigits accepts rest
  | c :: rest => accepts c && isDigits accepts rest

def digitValue (c : Char) : Nat :=
  if c.isDigit then c.toNat - '0'.toNat
  else if c.isLower then c.toNat - 'a'.toNat + 10
  else c.toNat - 'A'.toNat + 10

/-- The number that digits write, underscores aside. -/
def digitsValue (radix : Nat) (digits : List Char) : Nat :=
  (digits.filter (· ≠ '_')).foldl (fun n digit => n * radix + digitValue digit) 0

/-- Splits the sign off a word: whether it is a minus, and the rest. -/
def splitSign : List Char → Bool × List Char
  | '-' :: rest => (true, rest)
  | '+' :: rest => (false, rest)
  | word => (false, word)

/-- Whether a word is a decimal integer without a sign: no digit follows a leading zero. -/
def isDecimal : List Char → Bool
  | ['0'] => true
  | '0' :: _ => false
  | word => isDigits Char.isDigit word

/-! ### Integers -/

/-- A number, if it is an integer of 64 bits with its sign. -/
def signed? (n : Int) : Option Int :=
  if -signedBound ≤ n ∧ n < signedBound then some n else none

/-- The integer that a word with a radix in front writes, after that radix. -/
def radixInteger? (radix : Nat) (accepts : Char → Bool) (digits : List Char) : Option Int :=
  if isDigits accepts digits then signed? (digitsValue radix digits) else none

/-- The integer that a word writes. -/
def integer? : List Char → Option Int
  | '0' :: 'x' :: digits =>
    radixInteger? 16 (fun c => c.isDigit || 'a' ≤ c && c ≤ 'f' || 'A' ≤ c && c ≤ 'F') digits
  | '0' :: 'o' :: digits => radixInteger? 8 (fun c => '0' ≤ c && c ≤ '7') digits
  | '0' :: 'b' :: digits => radixInteger? 2 (fun c => c = '0' || c = '1') digits
  | word =>
    let (negative, digits) := splitSign word
    if isDecimal digits then
      signed? (if negative then -(digitsValue 10 digits) else digitsValue 10 digits)
    else
      none

/-! ### Floats -/

/-- Splits a word at the first character of a class, which belongs to neither part; the second part is
missing if there is no such character. -/
def splitAtFirst (stops : Char → Bool) (word : List Char) : List Char × Option (List Char) :=
  match word.span fun c => !stops c with
  | (front, []) => (front, none)
  | (front, _ :: back) => (front, some back)

def exponentValue (exponent : List Char) : Int :=
  let (negative, digits) := splitSign exponent
  if negative then -(digitsValue 10 digits) else digitsValue 10 digits

/-- Whether `mantissa * 10 ^ exponent` rounds to a finite number of double precision, that is, lies
below the middle between the largest one and the power of two after it. -/
def isFinite (mantissa : Nat) (exponent : Int) : Bool :=
  let bound := Nat.pow 2 1024 - Nat.pow 2 970
  if mantissa = 0 then
    true
  else if 0 ≤ exponent then
    exponent < 400 && mantissa * Nat.pow 10 exponent.toNat < bound
  else
    (toString mantissa).length ≤ exponent.natAbs || mantissa < bound * Nat.pow 10 exponent.natAbs

/-- Whether a word is a finite decimal fraction with a point, an exponent, or both. -/
def isFraction (word : List Char) : Bool :=
  let (negative, unsigned) := splitSign word
  let (number, exponent) := splitAtFirst (fun c => c = 'e' || c = 'E') unsigned
  let (whole, fraction) := splitAtFirst (· = '.') number
  let digits := fraction.getD []
  let shift := exponentValue (exponent.getD []) - (digits.filter (· ≠ '_')).length
  (fraction.isSome || exponent.isSome) && isDecimal whole &&
    fraction.all (isDigits Char.isDigit) &&
    exponent.all (fun power => isDigits Char.isDigit (splitSign power).2) &&
    (negative || isFinite (digitsValue 10 (whole ++ digits)) shift)

def isFloat (word : List Char) : Bool :=
  let unsigned := (splitSign word).2
  unsigned = ['i', 'n', 'f'] || unsigned = ['n', 'a', 'n'] || isFraction word

/-! ### Dates and times -/

/-- Whether two characters are digits of a number from `low` to `high`. -/
def isTwoDigits (low high : Nat) (tens units : Char) : Bool :=
  let n := digitsValue 10 [tens, units]
  tens.isDigit && units.isDigit && low ≤ n && n ≤ high

/-- The number of days of a month. -/
def daysOf (year month : Nat) : Nat :=
  if month = 2 then
    if year % 4 = 0 ∧ (year % 100 ≠ 0 ∨ year % 400 = 0) then 29 else 28
  else if month = 4 ∨ month = 6 ∨ month = 9 ∨ month = 11 then
    30
  else
    31

/-- Whether characters are a date, as in `1979-05-27`. -/
def isDate : List Char → Bool
  | [y1, y2, y3, y4, '-', m1, m2, '-', d1, d2] =>
    [y1, y2, y3, y4].all Char.isDigit && isTwoDigits 1 12 m1 m2 &&
      isTwoDigits 1 (daysOf (digitsValue 10 [y1, y2, y3, y4]) (digitsValue 10 [m1, m2])) d1 d2
  | _ => false

/-- Whether characters are nothing, or a point and the digits of a fraction of a second. -/
def isSecondFraction : List Char → Bool
  | [] => true
  | '.' :: digits => !digits.isEmpty && digits.all Char.isDigit
  | _ => false

/-- Whether a word is a time of day, as in `07:32:00.5`. -/
def isTime : List Char → Bool
  | h1 :: h2 :: ':' :: m1 :: m2 :: ':' :: s1 :: s2 :: fraction =>
    isTwoDigits 0 23 h1 h2 && isTwoDigits 0 59 m1 m2 && isTwoDigits 0 60 s1 s2 &&
      isSecondFraction fraction
  | _ => false

/-- Whether characters are the offset of a time zone. -/
def isOffset : List Char → Bool
  | ['Z'] => true
  | ['z'] => true
  | [sign, h1, h2, ':', m1, m2] =>
    (sign = '+' || sign = '-') && isTwoDigits 0 23 h1 h2 && isTwoDigits 0 59 m1 m2
  | _ => false

/-- Whether a word is a time of day, with or without the offset of a time zone. -/
def isZonedTime (word : List Char) : Bool :=
  let (time, offset) := word.span fun c => c.isDigit || c = ':' || c = '.'
  isTime time && (offset.isEmpty || isOffset offset)

/-- Whether a word is a date, a time, or a date and a time with a `T` or a blank between them. -/
def isDateTime (word : List Char) : Bool :=
  isDate word || isTime word ||
    match word.drop 10 with
    | separator :: time =>
      (separator = 'T' || separator = 't' || separator = ' ') && isDate (word.take 10) &&
        isZonedTime time
    | [] => false

end NetArray.Toml
