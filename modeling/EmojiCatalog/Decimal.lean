/-!
Decimal text of double precision numbers.

A positive finite number is a significand times a power of two.  The decimals that read back as this
number are those between the midpoints to its neighbours, the midpoints included when the
significand is even.  `shortest` takes the coarsest grid of powers of ten that has a point among
them, and of its points the one nearest to the number.  `rounded` takes the nearest point of a given
grid.  Everything is computed in whole numbers.
-/

namespace EmojiCatalog.Decimal

/-! ### Doubles -/

/-- A positive finite number: `significand * 2 ^ exponent`. -/
structure Double where
  significand : Nat
  exponent : Int
  /-- Whether the neighbour below is only half as far away as the neighbour above. -/
  isLowest : Bool
  deriving DecidableEq, Repr

/-- The absolute value of a finite number. -/
def Double.ofFloat (x : Float) : Double :=
  let bits := x.toBits.toNat
  let fraction := bits % Nat.pow 2 52
  let biased := bits / Nat.pow 2 52 % Nat.pow 2 11
  if biased = 0 then ⟨fraction, -1074, false⟩
  else ⟨fraction + Nat.pow 2 52, Int.subNatNat biased 1075, fraction = 0 && 1 < biased⟩

/-- Whether the sign bit of a number is set. -/
def isNegative (x : Float) : Bool := x.toBits.toNat / Nat.pow 2 63 == 1

/-! ### Grids -/

/-- The factors `(a, b)` for which `d * 10 ^ k` and `n * 2 ^ q` compare as `d * a` and `n * b`. -/
def commonScale (k q : Int) : Nat × Nat :=
  (Nat.pow 10 k.toNat * Nat.pow 2 (-q).toNat, Nat.pow 2 q.toNat * Nat.pow 10 (-k).toNat)

/-- A decimal number: `digits * 10 ^ exponent`. -/
structure Point where
  digits : Nat
  exponent : Int
  deriving DecidableEq, Repr

/-- The point of the grid of multiples of `10 ^ k` that reads back as the number; of two such points
the nearer, and of two equally near the even one. -/
def Double.pointOn? (x : Double) (k : Int) : Option Point :=
  let (a, b) := commonScale k (x.exponent - 2)
  let value := 4 * x.significand * b
  let low := (4 * x.significand - if x.isLowest then 1 else 2) * b
  let high := (4 * x.significand + 2) * b
  let below := value / a
  let readsBack (d : Nat) : Bool :=
    if x.significand % 2 = 0 then low ≤ d * a && d * a ≤ high else low < d * a && d * a < high
  let belowIsNearer :=
    let down := value - below * a
    let up := (below + 1) * a - value
    if down = up then below % 2 == 0 else down < up
  match readsBack below && below != 0, readsBack (below + 1) with
  | true, true => some ⟨if belowIsNearer then below else below + 1, k⟩
  | true, false => some ⟨below, k⟩
  | false, true => some ⟨below + 1, k⟩
  | false, false => none

/-- The exponent of the coarsest grid that any double needs. -/
def coarsest : Int := 309

/-- The number of grids down to the one that every double is on. -/
def gridCount : Nat := 1400

/-- The point on the coarsest grid that has one. -/
def Double.shortest (x : Double) : Point :=
  ((List.range gridCount).findSome? fun i : Nat => x.pointOn? (coarsest - i)).getD ⟨0, 0⟩

/-- A number in units of `10 ^ -places`, rounded to the nearest whole number, a half to the even
one.
-/
def Double.rounded (x : Double) (places : Nat) : Nat :=
  let (a, b) := commonScale (-places) x.exponent
  let value := x.significand * b
  let below := value / a
  let twice := 2 * (value % a)
  if a < twice || (twice == a && below % 2 == 1) then below + 1 else below

/-! ### Text -/

/-- So many zeros. -/
def zeros (n : Nat) : List Char := List.replicate n '0'

/-- The text of a point.  It is positional as long as the point stands at most sixteen digits behind
the first digit and at most five zeros before it. -/
def Point.chars (p : Point) : List Char :=
  let digits := Nat.toDigits 10 p.digits
  let size : Int := digits.length + p.exponent
  if 0 ≤ p.exponent ∧ size ≤ 16 then digits ++ zeros p.exponent.toNat ++ ['.', '0']
  else if 0 < size ∧ size ≤ 16 then digits.take size.toNat ++ '.' :: digits.drop size.toNat
  else if -5 < size ∧ size ≤ 0 then '0' :: '.' :: zeros (-size).toNat ++ digits
  else
    let power := (toString (size - 1)).toList
    match digits with
    | [d] => d :: 'e' :: power
    | d :: rest => d :: '.' :: rest ++ 'e' :: power
    | [] => []

/-- The shortest text that reads back as a finite number. -/
def shortest (x : Float) : List Char :=
  let sign := if isNegative x then ['-'] else []
  if x == 0.0 then sign ++ ['0', '.', '0'] else sign ++ (Double.ofFloat x).shortest.chars

/-- A finite number rounded to one decimal place. -/
def onePlace (x : Float) : List Char :=
  let tenths := (Double.ofFloat x).rounded 1
  (if isNegative x then ['-'] else [])
    ++ Nat.toDigits 10 (tenths / 10) ++ '.' :: Nat.toDigits 10 (tenths % 10)

end EmojiCatalog.Decimal
