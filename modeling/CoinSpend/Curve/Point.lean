/-!
# Residues and points

A field element is a residue together with its modulus. The modulus is data, since elements of
different fields meet at run time and are then refused, and it need not be prime. A point carries
the coefficients of its curve `y² = x³ + a·x + b`, so that points of different curves are never
mixed.
-/

namespace CoinSpend

/-! ## Residues -/

/-- A residue `num` modulo `modulus`. Model of `FieldElement`. -/
structure FieldElement where
  num : Nat
  modulus : Nat
  one_lt_modulus : 1 < modulus
  num_lt_modulus : num < modulus
deriving DecidableEq, Repr

namespace FieldElement

theorem modulus_pos (x : FieldElement) : 0 < x.modulus := Nat.lt_of_succ_lt x.one_lt_modulus

/-- The residue of any number, in the field of `x`. -/
def withNum (x : FieldElement) (value : Nat) : FieldElement :=
  ⟨value % x.modulus, x.modulus, x.one_lt_modulus, Nat.mod_lt _ x.modulus_pos⟩

@[simp] theorem num_withNum (x : FieldElement) (value : Nat) :
    (x.withNum value).num = value % x.modulus := rfl

@[simp] theorem modulus_withNum (x : FieldElement) (value : Nat) :
    (x.withNum value).modulus = x.modulus := rfl

/-- The zero of the field of `x`. Model of `FieldElement.zero_of`. -/
def zeroOf (x : FieldElement) : FieldElement := x.withNum 0

/-- Whether the residue is zero. Model of `FieldElement.is_zero`. -/
def isZero (x : FieldElement) : Bool := x.num == 0

/-- The written form of an element. Model of the display of `FieldElement`. -/
def render (x : FieldElement) : String := s!"FieldElement_{x.modulus}({x.num})"

end FieldElement

/-! ## Points of a short Weierstrass curve -/

/-- The coefficients of the curve `y² = x³ + a·x + b`. -/
structure Curve where
  a : FieldElement
  b : FieldElement
deriving DecidableEq, Repr

/-- A point of a curve; the point at infinity has no coordinates. Model of `Point`. -/
structure Point where
  curve : Curve
  coordinates : Option (FieldElement × FieldElement)
deriving DecidableEq, Repr

namespace Point

/-- The point at infinity of a curve. Model of `Point.infinity`. -/
def infinity (curve : Curve) : Point := ⟨curve, none⟩

/-- The point with the given coordinates. Model of `Point.from_parts_unchecked`. -/
def affine (curve : Curve) (x y : FieldElement) : Point := ⟨curve, some (x, y)⟩

/-- Whether the point is the one at infinity. Model of `Point.is_infinity`. -/
def isInfinity (p : Point) : Bool := p.coordinates.isNone

/-- The written form of a point, with its curve's coefficients and its field's modulus. Model of the
display of `Point`. -/
def render (p : Point) : String :=
  match p.coordinates with
  | none => "Point(infinity)"
  | some (x, y) =>
    s!"Point({x.num},{y.num})_{p.curve.a.num}_{p.curve.b.num} FieldElement({x.modulus})"

end Point

end CoinSpend
