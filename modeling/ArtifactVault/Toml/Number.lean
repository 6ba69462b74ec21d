/-!
Numbers and times of a TOML document. Each is a run of characters that holds no blank, so a run is
read first and then classed as a whole.
-/
namespace ArtifactVault.Toml

def isDigit (c : Char) : Bool := '0' ≤ c && c ≤ '9'

def digitValue (c : Char) : Nat :=
  if isDigit c then c.toNat - 0x30 else if 'a' ≤ c then c.toNat - 0x57 else c.toNat - 0x37

def ofDigits (base : Nat) (digits : List Char) : Nat :=
  digits.foldl (fun n c => base * n + digitValue c) 0

def digits? (ok : Char → Bool) : List Char → Option (List Char)
  | [] => none
  | [c] => if ok c then some [c] else none
  | c :: '_' :: cs => if ok c then (digits? ok cs).map (c :: ·) else none
  | c :: cs => if ok c then (digits? ok cs).map (c :: ·) else none

def sign : List Char → Bool × List Char
  | '-' :: cs => (true, cs)
  | '+' :: cs => (false, cs)
  | cs => (false, cs)

def wholePart? (cs : List Char) : Option (List Char) :=
  match cs with
  | '0' :: _ :: _ => none
  | _ => digits? isDigit cs

def marked? (base : Nat) (ok : Char → Bool) (cs : List Char) : Option Int :=
  (digits? ok cs).map fun digits => (ofDigits base digits : Int)

def isHexDigit (c : Char) : Bool :=
  isDigit c || ('a' ≤ c && c ≤ 'f') || ('A' ≤ c && c ≤ 'F')

def integer? (cs : List Char) : Option Int := do
  let n ← match cs with
    | '0' :: 'x' :: cs => marked? 16 isHexDigit cs
    | '0' :: 'o' :: cs => marked? 8 (fun c => '0' ≤ c && c ≤ '7') cs
    | '0' :: 'b' :: cs => marked? 2 (fun c => c = '0' || c = '1') cs
    | _ =>
      let (negative, cs) := sign cs
      (wholePart? cs).map fun digits =>
        if negative then -(ofDigits 10 digits : Int) else ofDigits 10 digits
  if Int64.minValue.toInt ≤ n ∧ n ≤ Int64.maxValue.toInt then some n else none

def overflows (mantissa : Nat) (exponent : Int) : Bool :=
  let places : Int := (Nat.toDigits 10 mantissa).length
  if mantissa = 0 ∨ places + exponent < 300 then false
  else if 320 < places + exponent then true
  else
    let limit := Nat.pow 2 1024 - Nat.pow 2 970
    if exponent < 0 then limit * Nat.pow 10 exponent.natAbs ≤ mantissa
    else limit ≤ mantissa * Nat.pow 10 exponent.natAbs

def exponent? (cs : List Char) : Option Int :=
  let (negative, cs) := sign cs
  (digits? isDigit cs).map fun digits =>
    if negative then -(ofDigits 10 digits : Int) else ofDigits 10 digits

def isFloat (cs : List Char) : Bool :=
  let (negative, cs) := sign cs
  if cs = ['i', 'n', 'f'] ∨ cs = ['n', 'a', 'n'] then true
  else
    let isMark := fun c => c = 'e' || c = 'E'
    let number := cs.takeWhile (!isMark ·)
    let exponent := match cs.drop number.length with
      | [] => some 0
      | _ :: cs => exponent? cs
    let whole := number.takeWhile (· ≠ '.')
    let fraction := match number.drop whole.length with
      | [] => if number.length < cs.length then some [] else none
      | _ :: cs => digits? isDigit cs
    match wholePart? whole, fraction, exponent with
    | some whole, some fraction, some exponent =>
      negative || !overflows (ofDigits 10 (whole ++ fraction)) (exponent - fraction.length)
    | _, _, _ => false

def fixed? (width : Nat) (cs : List Char) : Option (Nat × List Char) :=
  let digits := cs.take width
  if digits.length = width ∧ digits.all isDigit then some (ofDigits 10 digits, cs.drop width)
  else none

def isLeapYear (year : Nat) : Bool := year % 4 = 0 && (year % 100 ≠ 0 || year % 400 = 0)

def daysIn (year month : Nat) : Nat :=
  if month = 2 then (if isLeapYear year then 29 else 28)
  else if month = 4 ∨ month = 6 ∨ month = 9 ∨ month = 11 then 30
  else 31

def oneOf? (wanted : List Char) : List Char → Option (List Char)
  | [] => none
  | c :: cs => if wanted.contains c then some cs else none

def date? (cs : List Char) : Option (List Char) := do
  let (year, cs) ← fixed? 4 cs
  let (month, cs) ← fixed? 2 (← oneOf? ['-'] cs)
  let (day, cs) ← fixed? 2 (← oneOf? ['-'] cs)
  if 1 ≤ month ∧ month ≤ 12 ∧ 1 ≤ day ∧ day ≤ daysIn year month then some cs else none

def clock? (cs : List Char) : Option (List Char) := do
  let (hour, cs) ← fixed? 2 cs
  let (minute, cs) ← fixed? 2 (← oneOf? [':'] cs)
  if hour ≤ 23 ∧ minute ≤ 59 then some cs else none

def time? (cs : List Char) : Option (List Char) := do
  let cs ← clock? cs
  let (second, cs) ← fixed? 2 (← oneOf? [':'] cs)
  if 60 < second then none
  match cs with
  | '.' :: cs =>
    let rest := cs.dropWhile isDigit
    if rest.length < cs.length then some rest else none
  | _ => some cs

def isOffset : List Char → Bool
  | [] => true
  | ['Z'] => true
  | ['z'] => true
  | '+' :: cs => clock? cs = some []
  | '-' :: cs => clock? cs = some []
  | _ => false

def isTimeOfDate (cs : List Char) : Bool :=
  match time? cs with
  | some rest => isOffset rest
  | none => false

def isDate (cs : List Char) : Bool := date? cs = some []

def isDateTime (cs : List Char) : Bool :=
  time? cs = some [] ||
  match date? cs with
  | some [] => true
  | some ('T' :: rest) => isTimeOfDate rest
  | some ('t' :: rest) => isTimeOfDate rest
  | _ => false

end ArtifactVault.Toml
