/-!
# Binary64 numbers and their decimal text

A real literal holds a binary64 word.  Every finite magnitude is a whole number of units, where a
unit is `2 ^ -1074`, so reading and writing need natural numbers only.  A whole number is written
with all its digits and `.0`; any other number is written with the fewest decimal places that read
back as the same word, and never with an exponent.
-/

namespace ModelLang

/-- A binary64 number, given by its word. -/
structure Binary64 where
  /-- Sign, eleven bits of exponent, and fifty-two bits of fraction. -/
  bits : UInt64
  deriving DecidableEq, Repr

namespace Binary64

/-- The sign bit is set. -/
def isNegative (x : Binary64) : Bool :=
  decide (Nat.pow 2 63 ≤ x.bits.toNat)

/-- The exponent field. -/
def exponentField (x : Binary64) : Nat :=
  x.bits.toNat / Nat.pow 2 52 % Nat.pow 2 11

/-- The fraction field. -/
def fraction (x : Binary64) : Nat :=
  x.bits.toNat % Nat.pow 2 52

/-- The word stands for no number. -/
def isNaN (x : Binary64) : Bool :=
  x.exponentField == 2047 && x.fraction != 0

/-- The word stands for one of the two infinities. -/
def isInfinite (x : Binary64) : Bool :=
  x.exponentField == 2047 && x.fraction == 0

/-- The word is one of the two zeros. -/
def isZero (x : Binary64) : Bool :=
  x.exponentField == 0 && x.fraction == 0

/-- Equality of values: the two zeros are one value, and so are all words that stand for no
number. -/
def same (x y : Binary64) : Bool :=
  (x.isNaN && y.isNaN) || (x.isZero && y.isZero) || x.bits == y.bits

/-- The significand of a finite word, with the implicit leading bit of a normal one. -/
def significand (x : Binary64) : Nat :=
  if x.exponentField = 0 then x.fraction else Nat.pow 2 52 + x.fraction

/-- Distance, in units of `2 ^ -1074`, from a finite magnitude to the next larger one. -/
def spacing (x : Binary64) : Nat :=
  Nat.pow 2 (x.exponentField - 1)

/-- The magnitude of a finite word in units of `2 ^ -1074`. -/
def units (x : Binary64) : Nat :=
  x.significand * x.spacing

/-- The number of units in one. -/
def unitsPerOne : Nat := Nat.pow 2 1074

/-- A finite word stands for a whole number. -/
def isWhole (x : Binary64) : Bool :=
  x.units % unitsPerOne == 0

/-- The next smaller magnitude is half as far away as the next larger one. -/
def isLeastOfBinade (x : Binary64) : Bool :=
  decide (1 < x.exponentField) && x.fraction == 0

/-- Quarters of a unit from zero to the smallest real that rounds to the magnitude. -/
def lowerBound (x : Binary64) : Nat :=
  4 * x.units - (if x.isLeastOfBinade then x.spacing else 2 * x.spacing)

/-- Quarters of a unit from zero to the largest real that rounds to the magnitude. -/
def upperBound (x : Binary64) : Nat :=
  4 * x.units + 2 * x.spacing

/-- The decimal `digits / 10 ^ places` rounds to the magnitude; a tie goes to an even
significand. -/
def ReadsBack (x : Binary64) (digits places : Nat) : Prop :=
  let point := digits * (4 * unitsPerOne)
  let lower := x.lowerBound * Nat.pow 10 places
  let upper := x.upperBound * Nat.pow 10 places
  if x.significand % 2 = 0 then lower ≤ point ∧ point ≤ upper else lower < point ∧ point < upper

instance (x : Binary64) (digits places : Nat) : Decidable (x.ReadsBack digits places) := by
  unfold ReadsBack
  infer_instance

/-- The decimal with this many places that is nearest to the magnitude among those that read back;
of two at the same distance, the larger. -/
def nearest? (x : Binary64) (places : Nat) : Option Nat :=
  let scaled := x.units * Nat.pow 10 places
  let below := scaled / unitsPerOne
  let above := below + 1
  if x.ReadsBack below places then
    if x.ReadsBack above places ∧ unitsPerOne ≤ 2 * (scaled % unitsPerOne) then some above
    else some below
  else if x.ReadsBack above places then some above
  else none

/-- The digits and places of the first decimal that reads back, trying `places` and then one place
more at a time; after all `tries` the exact decimal is taken. -/
def decimalFrom (x : Binary64) (places : Nat) : Nat → Nat × Nat
  | 0 => (x.units * Nat.pow 5 1074, 1074)
  | tries + 1 =>
      match x.nearest? places with
      | some digits => (digits, places)
      | none => x.decimalFrom (places + 1) tries

/-- Decimal digits with a point before the last `places` of them. -/
def positional (digits places : Nat) : String :=
  let decimals := Nat.repr (digits % Nat.pow 10 places)
  Nat.repr (digits / Nat.pow 10 places) ++ "." ++
    String.ofList (List.replicate (places - decimals.length) '0') ++ decimals

/-- The text of a finite magnitude: all digits and one place for a whole number, and otherwise the
fewest places that read back. -/
def magnitudeText (x : Binary64) : String :=
  if x.isWhole then
    Nat.repr (x.units / unitsPerOne) ++ ".0"
  else
    let (digits, places) := x.decimalFrom 1 1074
    positional digits places

/-- The text of a number. -/
def text (x : Binary64) : String :=
  if x.isNaN then "NaN"
  else (if x.isNegative then "-" else "") ++ (if x.isInfinite then "inf" else x.magnitudeText)

@[simp]
theorem same_refl (x : Binary64) : x.same x = true := by
  simp [same]

theorem same_comm (x y : Binary64) : x.same y = y.same x := by
  unfold same
  rw [Bool.and_comm, Bool.and_comm x.isZero, BEq.comm (a := x.bits)]

theorem not_isZero_of_isNaN {x : Binary64} (h : x.isNaN = true) : x.isZero = false := by
  simp only [isNaN, Bool.and_eq_true, beq_iff_eq] at h
  simp [isZero, h.1]

/-- Equality of values is transitive, since no word is both a zero and no number. -/
theorem same_trans {x y z : Binary64} (h₁ : x.same y = true) (h₂ : y.same z = true) :
    x.same z = true := by
  simp only [same, Bool.or_eq_true, Bool.and_eq_true, beq_iff_eq] at h₁ h₂ ⊢
  rcases h₁ with (⟨hx, hy⟩ | ⟨hx, hy⟩) | bits
  · rcases h₂ with (⟨-, hz⟩ | ⟨zero, -⟩) | bits
    · exact .inl (.inl ⟨hx, hz⟩)
    · simp [not_isZero_of_isNaN hy] at zero
    · obtain rfl : y = z := by cases y; cases z; simp_all
      exact .inl (.inl ⟨hx, hy⟩)
  · rcases h₂ with (⟨nan, -⟩ | ⟨-, hz⟩) | bits
    · simp [not_isZero_of_isNaN nan] at hy
    · exact .inl (.inr ⟨hx, hz⟩)
    · obtain rfl : y = z := by cases y; cases z; simp_all
      exact .inl (.inr ⟨hx, hy⟩)
  · obtain rfl : x = y := by cases x; cases y; simp_all
    exact h₂

end Binary64

end ModelLang
