import Mathlib.Data.List.Sort
import Mathlib.Data.String.Basic

/-!
# `Json.lean` — JSON values and their canonical text

What a job payload is made of, and `json.dumps(…, sort_keys=True, separators=(",", ":"))`, whose
text is what two requests are compared by. An object is an association list in the order it was
written; as in Python, that order is not part of what it is (`Json.Same`). -/

set_option autoImplicit false

namespace CloudJob

inductive Json where
  | null
  | bool (b : Bool)
  | int (n : Int)
  | float (text : String)
  | str (s : String)
  | arr (items : List Json)
  | obj (members : List (String × Json))

namespace Json

/-- `payload.get(key)`. -/
def get? : Json → String → Option Json
  | .obj members, key => (members.find? (·.1 == key)).map (·.2)
  | _, _ => none

/-- Equality of values, the order of keys aside. -/
inductive Same : Json → Json → Prop where
  | null : Same .null .null
  | bool (b : Bool) : Same (.bool b) (.bool b)
  | int (n : Int) : Same (.int n) (.int n)
  | float (text : String) : Same (.float text) (.float text)
  | str (s : String) : Same (.str s) (.str s)
  | arr {xs ys : List Json} : xs.length = ys.length →
      (∀ (i : Nat) (x y : Json), xs[i]? = some x → ys[i]? = some y → Same x y) →
      Same (.arr xs) (.arr ys)
  | obj {xs ys : List (String × Json)} :
      (∀ key, ((obj xs).get? key).isSome = ((obj ys).get? key).isSome) →
      (∀ key x y, (obj xs).get? key = some x → (obj ys).get? key = some y → Same x y) →
      Same (.obj xs) (.obj ys)

/-! ## `json.dumps` -/

/-- A hexadecimal digit of `n`, in four of which a code unit is written. -/
def hexDigit (n : Nat) : Char := "0123456789abcdef".toList.getD (n % 16) '0'

/-- The escape of one UTF-16 code unit. -/
def escapeUnit (n : Nat) : String :=
  "\\u" ++ String.ofList [hexDigit (n / 4096), hexDigit (n / 256), hexDigit (n / 16), hexDigit n]

/-- A character inside a string, with `ensure_ascii`. -/
def escapeChar (ch : Char) : String :=
  if ch.toNat = 34 then "\\\""
  else if ch.toNat = 92 then "\\\\"
  else if ch.toNat = 10 then "\\n"
  else if ch.toNat = 13 then "\\r"
  else if ch.toNat = 9 then "\\t"
  else if ch.toNat = 8 then "\\b"
  else if ch.toNat = 12 then "\\f"
  else if 32 ≤ ch.toNat ∧ ch.toNat ≤ 126 then String.ofList [ch]
  else if ch.toNat < 65536 then escapeUnit ch.toNat
  else escapeUnit (55296 + (ch.toNat - 65536) / 1024) ++ escapeUnit
    (56320 + (ch.toNat - 65536) % 1024)

def quote (s : String) : String := "\"" ++ String.join (s.toList.map escapeChar) ++ "\""

mutual

def dumps : Json → String
  | .null => "null"
  | .bool b => if b then "true" else "false"
  | .int n => toString n
  | .float text => text
  | .str s => quote s
  | .arr items => "[" ++ ",".intercalate (dumpsItems items) ++ "]"
  | .obj members =>
      let sorted := (dumpsMembers members).insertionSort fun a b => a.1 ≤ b.1
      "\x7b" ++ ",".intercalate (sorted.map fun m => quote m.1 ++ ":" ++ m.2) ++ "\x7d"

def dumpsItems : List Json → List String
  | [] => []
  | item :: rest => item.dumps :: dumpsItems rest

def dumpsMembers : List (String × Json) → List (String × String)
  | [] => []
  | member :: rest => (member.1, member.2.dumps) :: dumpsMembers rest

end

/-! ## `float(…)` -/

/-- A decimal number, `mantissa · 10 ^ exponent`. -/
structure Decimal where
  mantissa : Int
  exponent : Int
deriving DecidableEq

/-- The digits of `text`, where an underscore may stand between two of them. -/
def digitPart (text : List Char) : Option (List Char) :=
  let parts := text.splitOn '_'
  if parts.all fun part => !part.isEmpty && part.all Char.isDigit then some parts.flatten else none

/-- As `digitPart`, of a text that may be missing. -/
def digitPart? : List Char → Option (List Char)
  | [] => some []
  | text => digitPart text

/-- A sign, and what follows it. -/
def signed : List Char → Int × List Char
  | '-' :: text => (-1, text)
  | '+' :: text => (1, text)
  | text => (1, text)

/-- What follows the digits: nothing, or `e` and a number. -/
def exponentPart : List Char → Option Int
  | [] => some 0
  | _ :: text => (digitPart (signed text).2).map fun digits =>
      (signed text).1 * (Nat.ofDigitChars 10 digits 0 : Nat)

/-- `text.strip()`. -/
def strip (text : List Char) : List Char :=
  ((text.dropWhile Char.isWhitespace).reverse.dropWhile Char.isWhitespace).reverse

/-- The number that `float(text)` reads. The value is not rounded to a float's precision, and the
texts for infinities and for what is not a number are not read. -/
def Decimal.read (text : String) : Option Decimal := do
  let (sign, number) := signed (strip text.toList)
  let (digits, exponent) := number.span fun ch => ch ≠ 'e' && ch ≠ 'E'
  let (whole, fraction) := digits.span (· ≠ '.')
  if whole.isEmpty && (fraction.drop 1).isEmpty then none
  else
    let whole ← digitPart? whole
    let fraction ← digitPart? (fraction.drop 1)
    let exponent ← exponentPart exponent
    some ⟨sign * (Nat.ofDigitChars 10 (whole ++ fraction) 0 : Nat), exponent - fraction.length⟩

def Decimal.scale (d : Decimal) (n : Int) : Decimal := ⟨n * d.mantissa, d.exponent⟩

/-- The least whole number that is not below `d`. -/
def Decimal.ceil (d : Decimal) : Int :=
  if 0 ≤ d.exponent then d.mantissa * Nat.pow 10 d.exponent.toNat
  else -(-d.mantissa / Nat.pow 10 (-d.exponent).toNat)

/-- `float(value)`, or the text of what it raises. -/
def toFloat : Json → Except String Decimal
  | .bool b => .ok ⟨b.toInt, 0⟩
  | .int n => .ok ⟨n, 0⟩
  | .float text => (Decimal.read text).elim (.error ("could not convert string to float: " ++ text))
      .ok
  | .str s => (Decimal.read s).elim (.error ("could not convert string to float: '" ++ s ++ "'"))
      .ok
  | .null => .error "float() argument must be a string or a real number, not 'NoneType'"
  | .arr _ => .error "float() argument must be a string or a real number, not 'list'"
  | .obj _ => .error "float() argument must be a string or a real number, not 'dict'"

end Json

end CloudJob
