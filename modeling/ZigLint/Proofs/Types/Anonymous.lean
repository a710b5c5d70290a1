import ZigLint.Types.Shape

namespace ZigLint

/-!
# Types without names

A container type carries the name of its declaration for display. Everything
else that is done with types is blind to this name: it can be done after the
names are dropped, with the same result.
-/

namespace TypeShape

/-- The shape without the names of containers. -/
def anonymous : TypeShape → TypeShape
  | .container kind node? hasFields _ => .container kind node? hasFields ""
  | .pointer target => .pointer target.anonymous
  | .optional payload => .optional payload.anonymous
  | .errorUnion payload => .errorUnion payload.anonymous
  | .array element => .array element.anonymous
  | shape => shape

@[simp] theorem anonymous_anonymous
    (shape : TypeShape) :
    shape.anonymous.anonymous = shape.anonymous := by
  induction shape <;> simp_all [anonymous]

@[simp] theorem strip_anonymous
    (shape : TypeShape) :
    shape.anonymous.strip = shape.strip.anonymous := by
  induction shape <;> simp_all [anonymous, strip]

@[simp] theorem optionalPayload?_anonymous
    (shape : TypeShape) :
    shape.anonymous.optionalPayload? = shape.optionalPayload?.map anonymous := by
  cases shape <;> rfl

@[simp] theorem errorUnionPayload?_anonymous
    (shape : TypeShape) :
    shape.anonymous.errorUnionPayload? = shape.errorUnionPayload?.map anonymous := by
  cases shape <;> rfl

@[simp] theorem pointerTarget?_anonymous
    (shape : TypeShape) :
    shape.anonymous.pointerTarget? = shape.pointerTarget?.map anonymous := by
  cases shape <;> rfl

@[simp] theorem arrayElement?_anonymous
    (shape : TypeShape) :
    shape.anonymous.arrayElement? = shape.arrayElement?.map anonymous := by
  rw [arrayElement?, arrayElement?, strip_anonymous]
  cases shape.strip <;> rfl

@[simp] theorem anonymous_beq_metaType
    (shape : TypeShape) :
    (shape.anonymous == .metaType) = (shape == .metaType) := by
  cases shape <;> rfl

/-- The declaration of a function and whether it returns a type. -/
def function? : TypeShape → Option (NodeIndex × Bool)
  | .function node returnsType => some (node, returnsType)
  | _ => none

theorem function?_anonymous
    (shape : TypeShape) :
    shape.anonymous.function? = shape.function? := by
  cases shape <;> rfl

end TypeShape

namespace ResolvedType

/-- The type without the names of containers. -/
def anonymous (type : ResolvedType) : ResolvedType :=
  { type with shape := type.shape.anonymous }

theorem normalize_anonymous
    (type : ResolvedType) :
    type.anonymous.normalize = type.normalize.anonymous := by
  simp only [anonymous, normalize, TypeShape.strip_anonymous]

end ResolvedType

/-- Two answers that are the same but for the names of containers. -/
def Alike (left right : Option ResolvedType) : Prop :=
  left.map ResolvedType.anonymous = right.map ResolvedType.anonymous

namespace Alike

variable {left right : Option ResolvedType}

theorem refl
    (answer : Option ResolvedType) :
    Alike answer answer :=
  rfl

theorem trans
    {middle : Option ResolvedType}
    (first : Alike left middle)
    (second : Alike middle right) :
    Alike left right :=
  Eq.trans first second

/-- Both answers are there or neither is. -/
theorem cases_on
    (alike : Alike left right) :
    (left = none ∧ right = none) ∨
      ∃ leftType rightType,
        left = some leftType ∧
          right = some rightType ∧ leftType.anonymous = rightType.anonymous := by
  cases left with
  | none =>
      cases right with
      | none => exact .inl ⟨rfl, rfl⟩
      | some rightType => cases alike
  | some leftType =>
      cases right with
      | none => cases alike
      | some rightType => exact .inr ⟨leftType, rightType, rfl, rfl, Option.some.inj alike⟩

theorem bind
    {leftNext rightNext : ResolvedType → Option ResolvedType}
    (alike : Alike left right)
    (next :
      ∀ leftType rightType, leftType.anonymous = rightType.anonymous →
        Alike (leftNext leftType) (rightNext rightType)) :
    Alike (left.bind leftNext) (right.bind rightNext) := by
  rcases alike.cases_on with ⟨rfl, rfl⟩ | ⟨leftType, rightType, rfl, rfl, same⟩
  · exact refl none
  · exact next leftType rightType same

theorem bind_left
    {leftNext rightNext : α → Option ResolvedType}
    (first : Option α)
    (next : ∀ value, Alike (leftNext value) (rightNext value)) :
    Alike (first.bind leftNext) (first.bind rightNext) := by
  cases first with
  | none => exact refl none
  | some value => exact next value

theorem ite
    {condition : Prop}
    [Decidable condition]
    {otherLeft otherRight : Option ResolvedType}
    (alike : Alike left right)
    (otherAlike : Alike otherLeft otherRight) :
    Alike (if condition then left else otherLeft) (if condition then right else otherRight) := by
  split
  · exact alike
  · exact otherAlike

theorem getD
    (alike : Alike left right)
    (default : ResolvedType) :
    (left.getD default).anonymous = (right.getD default).anonymous := by
  rcases alike.cases_on with ⟨rfl, rfl⟩ | ⟨leftType, rightType, rfl, rfl, same⟩
  · rfl
  · exact same

theorem isTypeValue_eq
    {leftType rightType : ResolvedType}
    (same : leftType.anonymous = rightType.anonymous) :
    leftType.isTypeValue = rightType.isTypeValue := by
  show leftType.anonymous.isTypeValue = rightType.anonymous.isTypeValue
  rw [same]

theorem filter_isTypeValue
    (alike : Alike left right) :
    Alike (left.filter ResolvedType.isTypeValue) (right.filter ResolvedType.isTypeValue) := by
  rcases alike.cases_on with ⟨rfl, rfl⟩ | ⟨leftType, rightType, rfl, rfl, same⟩
  · exact refl none
  · rw [Option.filter_some, Option.filter_some, isTypeValue_eq same]
    cases rightType.isTypeValue with
    | false => exact refl none
    | true => exact congrArg some same

/-- A step that is blind to names takes types alike to answers alike. -/
theorem of_blind
    {leftType rightType : ResolvedType}
    (step : ResolvedType → Option ResolvedType)
    (blind : ∀ type, Alike (step type) (step type.anonymous))
    (same : leftType.anonymous = rightType.anonymous) :
    Alike (step leftType) (step rightType) := by
  have leftBlind := blind leftType
  rw [same] at leftBlind
  exact leftBlind.trans (Eq.symm (blind rightType))

theorem instantiate
    (alike : Alike left right) :
    Alike (left.bind fun type => some type.instantiate)
      (right.bind fun type => some type.instantiate) := by
  refine alike.bind fun leftType rightType =>
    of_blind (fun type => some type.instantiate) fun type => ?_
  simp [Alike, ResolvedType.anonymous, ResolvedType.instantiate]

theorem wrap
    {wrapper : TypeShape → TypeShape}
    (alike : Alike left right)
    (wraps : ∀ shape, (wrapper shape).anonymous = wrapper shape.anonymous) :
    Alike (left.bind fun type => some (type.wrap wrapper))
      (right.bind fun type => some (type.wrap wrapper)) := by
  refine alike.bind fun leftType rightType =>
    of_blind (fun type => some (type.wrap wrapper)) fun type => ?_
  simp [Alike, ResolvedType.anonymous, ResolvedType.wrap, wraps]

theorem unwrap?
    {part? : TypeShape → Option TypeShape}
    (alike : Alike left right)
    (unwraps : ∀ shape, part? shape.anonymous = (part? shape).map TypeShape.anonymous) :
    Alike (left.bind fun type => type.unwrap? part?)
      (right.bind fun type => type.unwrap? part?) := by
  refine alike.bind fun leftType rightType =>
    of_blind (fun type => type.unwrap? part?) fun type => ?_
  cases part : part? type.shape <;>
    simp [Alike, ResolvedType.anonymous, ResolvedType.unwrap?, unwraps, part]

end Alike

end ZigLint
