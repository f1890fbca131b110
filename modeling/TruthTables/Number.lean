/-!
# Numbers — 53 binary places, read from decimals and written as such

    A number with a point is a sign, a significand and a power of two, or it
    is infinite.  A decimal is read as the nearest number with 53 binary
    places, a half going to the even neighbour; what is too great becomes
    infinite and what is too small becomes zero.  A number is written with
    the fewest decimal digits that are read as the same number, and of those
    the nearest to it.
-/

namespace TruthTables

/-- A number: `significand` times two to the `exponent`, or infinite. -/
inductive Number where
  | finite (negative : Bool) (significand : Nat) (exponent : Int)
  | infinite (negative : Bool)
deriving DecidableEq, Repr

namespace Number

/-- A whole number, exactly. -/
def ofInt (n : Int) : Number := .finite (n < 0) n.natAbs 0

/-- Whether the number is zero, of either sign. -/
def isZero : Number → Bool
  | .finite _ significand _ => significand = 0
  | .infinite _ => false

/-- Whether the number is infinite, of either sign. -/
def isInfinite : Number → Bool
  | .finite .. => false
  | .infinite _ => true

/-- Whether two numbers are equal.  The sign of zero makes no difference. -/
def same : Number → Number → Bool
  | .finite s m e, .finite t n f =>
      (m = 0 || s = t) && m * Nat.pow 2 (e - f).toNat = n * Nat.pow 2 (f - e).toNat
  | .infinite s, .infinite t => s = t
  | _, _ => false

/-! ## Reading decimals -/

/-- The natural number nearest to a quotient; a half goes to the even one. -/
def roundedQuotient (num den : Nat) : Nat :=
  let q := num / den
  let r := num % den
  if den < 2 * r ∨ (den = 2 * r ∧ q % 2 = 1) then q + 1 else q

/-- The last binary place that is kept of a positive quotient: 53 places
    from its first one, but none below the place 1074 after the point. -/
def lastPlace (num den : Nat) : Int :=
  let e : Int := (num.log2 : Int) - den.log2
  let first := if den * Nat.pow 2 e.toNat ≤ num * Nat.pow 2 (-e).toNat then e else e - 1
  max (first - 52) (-1074)

/-- The number nearest to a positive quotient; from two to the 1024th on it
    is infinite. -/
def nearest (negative : Bool) (num den : Nat) : Number :=
  let e := lastPlace num den
  let m := roundedQuotient (num * Nat.pow 2 (-e).toNat) (den * Nat.pow 2 e.toNat)
  if Nat.pow 2 1024 ≤ m * Nat.pow 2 e.toNat then .infinite negative else .finite negative m e

/-- The number nearest to `digits` times ten to the `exponent`.  More than
    330 places before the point are too many, and so are as many zeros after
    it. -/
def ofDecimal (negative : Bool) (digits : Nat) (exponent : Int) : Number :=
  let point : Int := (Nat.toDigits 10 digits).length + exponent
  if digits = 0 ∨ point < -330 then .finite negative 0 0
  else if 330 < point then .infinite negative
  else nearest negative (digits * Nat.pow 10 exponent.toNat) (Nat.pow 10 (-exponent).toNat)

/-! ## Writing decimals -/

/-- A decimal without its last `places` digits, rounded down and up, the
    nearer one first. -/
def cut (digits : Nat) (exponent : Int) (places : Nat) : List (Nat × Int) :=
  let unit := Nat.pow 10 places
  let low := (digits / unit, exponent + places)
  let high := (digits / unit + 1, exponent + places)
  if roundedQuotient digits unit = digits / unit then [low, high] else [high, low]

/-- The shortest decimal that is read as the positive number `m` times two to
    the `e`, as digits and a power of ten. -/
def shortest (m : Nat) (e : Int) : Nat × Int :=
  let exact := m * Nat.pow 2 e.toNat * Nat.pow 5 (-e).toNat
  let length := (Nat.toDigits 10 exact).length
  let isRead (d : Nat × Int) : Bool := (ofDecimal false d.1 d.2).same (.finite false m e)
  ((List.range 17).findSome? fun n => (cut exact (min e 0) (length - (n + 1))).find? isRead).getD
    (exact, min e 0)

/-- The layout of a decimal with the given digits, of which `point` stand
    before the point.  It is positional when its first digit stands between
    the fourth place after the point and the sixteenth before it, and always
    shows a point; otherwise it is scientific, with an exponent of at least
    two digits. -/
def layout (ds : List Char) (point : Int) : List Char :=
  let zeros (n : Int) : List Char := List.replicate n.toNat '0'
  if -4 < point ∧ point ≤ 16 then
    if point ≤ 0 then '0' :: '.' :: zeros (-point) ++ ds
    else if ds.length ≤ point then ds ++ zeros (point - ds.length) ++ ['.', '0']
    else ds.take point.toNat ++ '.' :: ds.drop point.toNat
  else
    let power := Nat.toDigits 10 (point - 1).natAbs
    let fraction := if ds.length ≤ 1 then [] else '.' :: ds.drop 1
    ds.take 1 ++ fraction ++ 'e' :: (if point - 1 < 0 then '-' else '+') ::
      List.replicate (2 - power.length) '0' ++ power

/-- The number in decimal digits. -/
def text (x : Number) : String :=
  let (negative, body) :=
    match x with
    | .infinite negative => (negative, ['i', 'n', 'f'])
    | .finite negative 0 _ => (negative, ['0', '.', '0'])
    | .finite negative m e =>
        let (digits, power) := shortest m e
        let ds := Nat.toDigits 10 digits
        (negative, layout (ds.reverse.dropWhile (· = '0')).reverse (ds.length + power))
  String.ofList (if negative then '-' :: body else body)

example : (ofDecimal false 1 23).text = "1e+23" := by decide +kernel
example : (ofDecimal true 30000000000000004 (-17)).text = "-0.30000000000000004" := by
  decide +kernel
example : (ofDecimal false 1 23).same (.ofInt (10 ^ 23)) = false := by decide +kernel

end Number

end TruthTables
