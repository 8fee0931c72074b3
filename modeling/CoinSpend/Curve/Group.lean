import CoinSpend.Field.Arithmetic
import CoinSpend.Hash.Digest
import CoinSpend.Wire.Reader

/-!
# The group of a curve, secp256k1 and public keys

Points are added by the chord and the tangent rule and multiplied by doubling and adding. The curve
`y² = x³ + 7` over the field of `2 ^ 256 - 2 ^ 32 - 977` elements has a generator whose multiples
are the public keys. A public key has two SEC forms: a byte `0x04` and both coordinates, or a byte
that tells the parity of `y` and the x coordinate alone. Reading takes points of secp256k1 only.

* `Secp256k1.point_generator`: the generator satisfies the curve's equation.
-/

namespace CoinSpend

/-! ## Addition and multiples -/

namespace Point

/-- The point with the given coordinates, which must satisfy the curve's equation. Model of
`Point.new`. -/
def ofCoordinates (curve : Curve) (x y : FieldElement) : Except Error Point := do
  let left ← y.mul y
  let cube ← (← x.mul x).mul x
  let right ← (← cube.add (← curve.a.mul x)).add curve.b
  if left = right then .ok (affine curve x y) else .error (.notOnCurve x.num y.num)

/-- The slope of the line through two points with different x coordinates. Part of `add`. -/
def chordSlope (x₁ y₁ x₂ y₂ : FieldElement) : Except Error FieldElement := do
  let rise ← y₂.sub y₁
  let run ← x₂.sub x₁
  rise.div run

/-- The slope of the tangent at a point. Part of `add`. -/
def tangentSlope (curve : Curve) (x y : FieldElement) : Except Error FieldElement := do
  let square ← x.mul x
  let rise ← (square.scale 3).add curve.a
  rise.div (y.scale 2)

/-- The reflection of the third point on the line through `(x₁, y₁)` with the given slope, where
`x₂` is the x coordinate of the second point. Part of `add`. -/
def reflectThird (curve : Curve) (slope x₁ y₁ x₂ : FieldElement) : Except Error Point := do
  let square ← slope.mul slope
  let x₃ ← (← square.sub x₁).sub x₂
  let y₃ ← (← slope.mul (← x₁.sub x₃)).sub y₁
  .ok (affine curve x₃ y₃)

/-- The sum of two points of a curve. Model of `Point.add`. -/
def add (p q : Point) : Except Error Point :=
  if p.curve = q.curve then
    match p.coordinates, q.coordinates with
    | none, _ => .ok q
    | some _, none => .ok p
    | some (x₁, y₁), some (x₂, y₂) =>
      if x₁ ≠ x₂ then do
        reflectThird p.curve (← chordSlope x₁ y₁ x₂ y₂) x₁ y₁ x₂
      else if y₁ ≠ y₂ ∨ y₁.isZero then .ok (infinity p.curve)
      else do
        reflectThird p.curve (← tangentSlope p.curve x₁ y₁) x₁ y₁ x₂
  else .error (.differentCurves p q)

/-- `total` plus the `scalar`-fold sum of `p`: the bits of the scalar are taken from the lowest, and
`p` is doubled after each. Model of the loop of `Point.scalar_mul`. -/
def addMultiple (total p : Point) (scalar : Nat) : Except Error Point :=
  if scalar = 0 then .ok total
  else do
    let total ← if scalar % 2 = 1 then total.add p else .ok total
    let double ← p.add p
    addMultiple total double (scalar / 2)
termination_by scalar

/-- The `scalar`-fold sum of a point. Model of `Point.scalar_mul`. -/
def scalarMul (p : Point) (scalar : Nat) : Except Error Point :=
  addMultiple (infinity p.curve) p scalar

end Point

/-! ## The curve secp256k1 -/

namespace Secp256k1

/-- The field's modulus, `2 ^ 256 - 2 ^ 32 - 977`. Model of `P`. -/
def p : Nat := 0xfffffffffffffffffffffffffffffffffffffffffffffffffffffffefffffc2f

/-- The order of the generator. Model of `N`. -/
def n : Nat := 0xfffffffffffffffffffffffffffffffebaaedce6af48a03bbfd25e8cd0364141

/-- An element of the field. Model of `field`. -/
def field (num : Nat) : Except Error FieldElement := FieldElement.ofNat num p

/-- The curve. Model of `A` and `B`. -/
def curve : Curve where
  a := ⟨0, p, by decide, by decide⟩
  b := ⟨7, p, by decide, by decide⟩

/-- The generator. Model of `G`. -/
def generator : Point :=
  .affine curve
    ⟨0x79be667ef9dcbbac55a06295ce870b07029bfcdb2dce28d959f2815b16f81798, p, by decide, by decide⟩
    ⟨0x483ada7726a3c4655da4fbfc0e1108a8fd17b448a68554199c47d08ffb10d4b8, p, by decide, by decide⟩

/-- The point at infinity. Model of `infinity`. -/
def infinity : Point := .infinity curve

/-- The point with the given coordinates. Model of `point`. -/
def point (x y : Nat) : Except Error Point := do
  Point.ofCoordinates curve (← field x) (← field y)

/-- A square root in the field, if there is one: the modulus is 3 modulo 4, so the power to a
quarter of its successor squares back to every square. Model of `sqrt`. -/
def sqrt (x : FieldElement) : FieldElement := x.powNat ((p + 1) / 4)

/-- The multiple of a point by a scalar, which is first reduced modulo the order. Model of `mul`. -/
def mul (q : Point) (scalar : Nat) : Except Error Point := q.scalarMul (scalar % n)

/-- The multiple of the generator by a scalar. Model of `mul_generator`. -/
def mulGenerator (scalar : Nat) : Except Error Point := mul generator scalar

theorem point_generator :
    point 0x79be667ef9dcbbac55a06295ce870b07029bfcdb2dce28d959f2815b16f81798
      0x483ada7726a3c4655da4fbfc0e1108a8fd17b448a68554199c47d08ffb10d4b8 = .ok generator := by
  rfl

end Secp256k1

/-! ## Public keys as bytes -/

namespace Point

/-- The bytes of a point in the compressed or in the full form. Model of `sec`. -/
def toSec (point : Point) (compressed : Bool) : Except Error Bytes :=
  match point.coordinates with
  | none => .error .infinityPublicKey
  | some (x, y) => do
    let xBytes ← Wire.writeBE 32 x.num
    if compressed then
      return (if y.num % 2 = 1 then 0x03 else 0x02) :: xBytes.val
    else
      let yBytes ← Wire.writeBE 32 y.num
      return 0x04 :: xBytes.val ++ yBytes.val

/-- The point of secp256k1 with the given x coordinate whose y coordinate has the given parity.
Model of the compressed form in `parse_sec`. -/
def ofAbscissa (odd : Bool) (num : Nat) : Except Error Point := do
  let x ← Secp256k1.field num
  let square ← (← (← x.mul x).mul x).add Secp256k1.curve.b
  let root := Secp256k1.sqrt square
  if (← root.mul root) = square then
    let y ← if (root.num % 2 = 1) = odd then .ok root else root.zeroOf.sub root
    ofCoordinates Secp256k1.curve x y
  else .error (.noPointAt x.num)

/-- Reads a point of secp256k1 in either form. Model of `parse_sec`. -/
def ofSec : Bytes → Except Error Point
  | [] => .error .emptyPublicKey
  | form :: body =>
    if form = 0x04 ∧ body.length = 64 then
      Secp256k1.point (Bytes.toNatBE (body.take 32)) (Bytes.toNatBE (body.drop 32))
    else if (form = 0x02 ∨ form = 0x03) ∧ body.length = 32 then
      ofAbscissa (form = 0x03) (Bytes.toNatBE body)
    else if form = 0x02 ∨ form = 0x03 ∨ form = 0x04 then
      .error (.publicKeyLength form (body.length + 1))
    else .error (.publicKeyForm form)

/-- The hash that names a public key. Model of `hash160_point`. -/
def hash160 (point : Point) (compressed : Bool) : Except Error (FixedBytes 20) :=
  (point.toSec compressed).map Hash.hash160

end Point

end CoinSpend
