import ZigLint.Declaration.Site
import ZigLint.Proofs.Syntax.Layout

namespace ZigLint

/-!
# Type kinds

A declaration without annotation gets the kind of a type when its value is a
type, and a value of the type `type` counts as one. Some kinds are read off the
form of the value before its type is looked at; the type says the same there.
The one exception are error sets, for which a value gets the kind of its type.
-/

namespace DeclarationKind

theorem isType_ofContainerType (kind : ContainerKind) (hasFields : Bool) :
    (ofContainerType kind hasFields).isType = true := by
  cases kind <;> cases hasFields <;> rfl

theorem isType_ofContainerValue (kind : ContainerKind) :
    (ofContainerValue kind).isType = false := by
  cases kind <;> rfl

/-- Every type value has the kind of a type. -/
theorem isType_ofTypeShape (shape : TypeShape) : (ofTypeShape shape).isType = true := by
  cases shape with
  | container kind _ hasFields _ => exact isType_ofContainerType kind hasFields
  | function _ returnsType => cases returnsType <;> rfl
  | errorSet | pointer _ | optional _ | errorUnion _ | array _ | primitive _ | metaType => rfl

/-- Of all values, only those of the type `type` have the kind of a type. -/
theorem isType_ofValueShape_iff {shape : TypeShape} :
    (ofValueShape shape).isType = true ↔ shape = .metaType := by
  cases shape with
  | container kind _ _ _ => simp [ofValueShape, isType_ofContainerValue]
  | function _ returnsType => cases returnsType <;> simp [ofValueShape, isType]
  | errorSet | pointer _ | optional _ | errorUnion _ | array _ | primitive _ | metaType =>
      simp [ofValueShape, isType]

/-- Error sets come first: their values have the kind of a type, too. -/
theorem isType_ofValueType_iff {type : ResolvedType} :
    (ofValueType type).isType = true ↔
      type.isTypeValue = true ∨ type.isMetaType = true ∨
        ofValueType type = .errorType ∧ type.isErrorSet = true := by
  unfold ofValueType
  by_cases isErrorSet : type.isErrorSet = true
  · simp [isErrorSet, isType]
  · by_cases isTypeValue : type.isTypeValue = true
    · simp [isErrorSet, isTypeValue, isType_ofTypeShape]
    · simp [isErrorSet, isTypeValue, isType_ofValueShape_iff, ResolvedType.isMetaType]

end DeclarationKind

namespace SyntaxTree

variable {tree : SyntaxTree} {index : NodeIndex}

theorem typeOf?_eq :
    tree.typeOf? index = typeOfNode? tree (tree.typeWithin? 64) index :=
  rfl

/-- A container is a type of the shape that its node describes. -/
theorem typeOf?_containerDecl
    {kind : ContainerKind}
    (found : tree.form? index = some (.containerDecl kind)) :
    ∃ shape, tree.typeOf? index = some (.typeValue shape) := by
  obtain ⟨node, node_eq, form_eq⟩ := Option.map_eq_some_iff.mp found
  simp only [typeOf?_eq, typeOfNode?, containerShape?, container?, node_eq, form_eq,
    Option.bind_eq_bind, Option.bind_some]
  exact ⟨_, rfl⟩

theorem typeOf?_errorSet
    {form : NodeForm}
    (found : tree.form? index = some form)
    (isErrorSet : form = .errorSetDecl ∨ form = .mergeErrorSets) :
    tree.typeOf? index = some (.typeValue .errorSet) := by
  obtain ⟨node, node_eq, rfl⟩ := Option.map_eq_some_iff.mp found
  rw [typeOf?_eq]
  obtain form_eq | form_eq := isErrorSet <;> simp [typeOfNode?, node_eq, form_eq]

/-- The builtins that answer a type do so whatever they are applied to. -/
theorem typeOf?_typeBuiltin
    (named : tree.builtinName? index = some "@TypeOf" ∨ tree.builtinName? index = some "@Type") :
    ∃ shape, tree.typeOf? index = some (.typeValue shape) := by
  cases node_eq : tree.node? index with
  | none => simp [builtinName?, node_eq] at named
  | some node =>
      by_cases isCall : node.form = .builtinCall
      · simp only [builtinName?, node_eq, isCall, Option.bind_eq_bind, Option.bind_some,
          Option.some.injEq] at named
        simp only [typeOf?_eq, typeOfNode?, node_eq, isCall, Option.bind_eq_bind, Option.bind_some]
        obtain isTypeOf | isType := named
        · rw [isTypeOf]
          simp only [typeOfBuiltin?]
          split <;> exact ⟨_, rfl⟩
        · rw [isType]
          exact ⟨_, rfl⟩
      · simp [builtinName?, node_eq] at named

/--
Either the form of a value shows that it is a type, and then its type is found
to be one, or the type of the value decides the kind.
-/
theorem kindOfValue_cases
    (tree : SyntaxTree)
    (value : NodeIndex) :
    (∃ shape, tree.typeOf? (tree.unwrapType value) = some (.typeValue shape) ∧
        (tree.kindOfValue value).isType = true) ∨
      tree.kindOfValue value =
        (tree.typeOf? (tree.unwrapType value)).elim .other fun type =>
          .ofValueType type.normalize := by
  unfold kindOfValue
  generalize tree.unwrapType value = index
  dsimp only
  split
  · split
    · rename_i named
      obtain ⟨shape, found⟩ := typeOf?_typeBuiltin named
      exact .inl ⟨shape, found, rfl⟩
    · right
      cases tree.typeOf? index <;> rfl
  · rename_i found
    exact .inl ⟨_, typeOf?_errorSet found (.inl rfl), rfl⟩
  · rename_i found
    exact .inl ⟨_, typeOf?_errorSet found (.inr rfl), rfl⟩
  · rename_i kind found
    obtain ⟨shape, found⟩ := typeOf?_containerDecl found
    exact .inl ⟨shape, found, DeclarationKind.isType_ofContainerType kind _⟩
  · right
    cases tree.typeOf? index <;> rfl

/--
A declaration without annotation has the kind of a type exactly if the type of
its value is found and the value is a type or of the type `type`, or else is a
value of an error set, which has the kind of an error set itself.
-/
theorem declarationKind?_isType_iff
    {site : DeclarationSite}
    {kind : DeclarationKind}
    (unannotated : site.type? = none)
    (answered : tree.declarationKind? site = some kind) :
    kind.isType = true ↔
      ∃ value type,
        site.value? = some value ∧ tree.typeOf? (tree.unwrapType value) = some type ∧
          (type.isTypeValue = true ∨ type.normalize.isMetaType = true ∨
            kind = .errorType ∧ type.normalize.isErrorSet = true) := by
  rw [declarationKind?, unannotated] at answered
  obtain ⟨value, value_eq, rfl⟩ := Option.map_eq_some_iff.mp answered
  obtain ⟨shape, found, isType⟩ | kind_eq := kindOfValue_cases tree value
  · exact ⟨fun _ => ⟨value, _, value_eq, found, .inl rfl⟩, fun _ => isType⟩
  · cases found : tree.typeOf? (tree.unwrapType value) with
    | none =>
        rw [found] at kind_eq
        rw [kind_eq]
        constructor
        · intro isType
          cases isType
        · rintro ⟨other, type, other_eq, otherFound, -⟩
          obtain rfl : value = other := Option.some.inj (value_eq.symm.trans other_eq)
          rw [found] at otherFound
          cases otherFound
    | some type =>
        rw [found] at kind_eq
        rw [kind_eq]
        refine Iff.trans DeclarationKind.isType_ofValueType_iff ?_
        constructor
        · intro isOne
          exact ⟨value, type, value_eq, found, isOne⟩
        · rintro ⟨other, otherType, other_eq, otherFound, isOne⟩
          obtain rfl : value = other := Option.some.inj (value_eq.symm.trans other_eq)
          obtain rfl : type = otherType := Option.some.inj (found.symm.trans otherFound)
          exact isOne

/-- The alias of a struct has the kind of a type, and its value is found to be one. -/
theorem declarationKind?_isType_iff_alias :
    ∃ tree,
      parse "const A = struct { x: u8 };\nconst B = A;" = .ok tree ∧
        tree.site? ⟨6⟩ = some { type? := none, value? := some ⟨5⟩ } ∧
          tree.declarationKind? { type? := none, value? := some ⟨5⟩ } = some .structType ∧
            ∃ type, tree.typeOf? (tree.unwrapType ⟨5⟩) = some type ∧
              (type.isTypeValue = true ∨ type.normalize.isMetaType = true) := by
  have facts :
      (parse "const A = struct { x: u8 };\nconst B = A;").toOption.map
          (fun tree => (tree.site? ⟨6⟩,
            tree.declarationKind? { type? := none, value? := some ⟨5⟩ })) =
        some (some { type? := none, value? := some ⟨5⟩ }, some .structType) := by
    decide +kernel
  obtain ⟨tree, hasTree, facts⟩ := Option.map_eq_some_iff.mp facts
  obtain ⟨site_eq, kind_eq⟩ := Prod.mk.inj facts
  refine ⟨tree, eq_ok_of_toOption hasTree, site_eq, kind_eq, ?_⟩
  obtain ⟨value, type, value_eq, found, isOne⟩ :=
    (declarationKind?_isType_iff rfl kind_eq).mp rfl
  obtain rfl : ⟨5⟩ = value := Option.some.inj value_eq
  refine ⟨type, found, ?_⟩
  obtain isTypeValue | isMetaType | ⟨isErrorType, -⟩ := isOne
  · exact .inl isTypeValue
  · exact .inr isMetaType
  · cases isErrorType

/-- A constant that holds an error has the kind of a type, although it is a value. -/
theorem declarationKind?_error_value :
    ∃ tree,
      parse "const e = error.A;" = .ok tree ∧
        tree.site? ⟨2⟩ = some { type? := none, value? := some ⟨1⟩ } ∧
          ∃ kind type,
            tree.declarationKind? { type? := none, value? := some ⟨1⟩ } = some kind ∧
              kind.isType = true ∧ tree.typeOf? (tree.unwrapType ⟨1⟩) = some type ∧
                ¬ (type.isTypeValue = true ∨ type.normalize.isMetaType = true) := by
  have facts :
      (parse "const e = error.A;").toOption.map
          (fun tree => (tree.site? ⟨2⟩,
            tree.declarationKind? { type? := none, value? := some ⟨1⟩ },
            tree.typeOf? (tree.unwrapType ⟨1⟩))) =
        some (some { type? := none, value? := some ⟨1⟩ }, some .errorType,
          some (.valueOf .errorSet)) := by
    decide +kernel
  obtain ⟨tree, hasTree, facts⟩ := Option.map_eq_some_iff.mp facts
  simp only [Prod.mk.injEq] at facts
  obtain ⟨site_eq, kind_eq, found⟩ := facts
  exact ⟨tree, eq_ok_of_toOption hasTree, site_eq, .errorType, .valueOf .errorSet, kind_eq, rfl,
    found, by decide⟩

end SyntaxTree

end ZigLint
