/-!
# Settings of a build

Three numeric properties; those that switch something on or off are on unless they are zero.
-/

namespace ModelLang

/-- A property that can be set. -/
inductive Property where
  /-- How many diagnostics a build keeps; zero keeps all. -/
  | maxDiagnostics
  /-- Whether a build writes the type listing of its items. -/
  | listTypes
  /-- Whether two dims of one name need equal extents; comparable extents suffice otherwise. -/
  | strictDims
  deriving DecidableEq, Repr

/-- The value of a property that is not set. -/
def Property.default : Property → Nat
  | maxDiagnostics => 0
  | listTypes => 0
  | strictDims => 1

/-- The values of the properties. -/
structure Settings where
  /-- Value of `Property.maxDiagnostics`. -/
  maxDiagnostics : Nat := Property.maxDiagnostics.default
  /-- Value of `Property.listTypes`. -/
  listTypesValue : Nat := Property.listTypes.default
  /-- Value of `Property.strictDims`. -/
  strictDimsValue : Nat := Property.strictDims.default
  deriving DecidableEq, Repr

namespace Settings

/-- The value of a property. -/
def get (settings : Settings) : Property → Nat
  | .maxDiagnostics => settings.maxDiagnostics
  | .listTypes => settings.listTypesValue
  | .strictDims => settings.strictDimsValue

/-- Change one property. -/
def set (settings : Settings) (property : Property) (value : Nat) : Settings :=
  match property with
  | .maxDiagnostics => { settings with maxDiagnostics := value }
  | .listTypes => { settings with listTypesValue := value }
  | .strictDims => { settings with strictDimsValue := value }

/-- The type listing is written. -/
def listTypes (settings : Settings) : Bool :=
  settings.listTypesValue != 0

/-- Two dims of one name need equal extents. -/
def strictDims (settings : Settings) : Bool :=
  settings.strictDimsValue != 0

/-- A property reads as it was last set, and setting one leaves the others alone. -/
@[simp]
theorem get_set (settings : Settings) (changed read : Property) (value : Nat) :
    (settings.set changed value).get read =
      if read = changed then value else settings.get read := by
  cases changed <;> cases read <;> rfl

end Settings

end ModelLang
