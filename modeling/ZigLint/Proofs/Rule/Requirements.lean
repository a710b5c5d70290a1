import ZigLint.Analyzer
import ZigLint.Proofs.Problem.Places
import ZigLint.Proofs.Syntax.Names

namespace ZigLint

/-!
# What the naming rules require

A naming rule asks each of some declared names to follow a style. The problems
of the rule are the requirements that names break, so which names a fix can
touch, and how, is read off the requirements. Every requirement is about the
name of one node, and no two requirements of any rules are about the same name.
-/

/-- A name token that a rule judges, the style that it asks for and how it calls the name. -/
structure NameRequirement where
  token : TokenIndex
  style : NamingStyle
  subject : String
  deriving Repr, DecidableEq

/-- The problem of a name that breaks a requirement. -/
def Document.brokenRequirement?
    (document : Document)
    (ruleId : String)
    (severity : Severity)
    (requirement : NameRequirement) :
    Option Problem :=
  document.nameProblem? ruleId severity requirement.style requirement.token requirement.subject

namespace Document

variable
  {document : Document}
  {ruleId : String}
  {severity : Severity}
  {requirement : NameRequirement}

/-- The fix turns a name that breaks a requirement into what the style makes of it. -/
structure Corrects
    (document : Document)
    (requirement : NameRequirement)
    (fix : Fix) :
    Prop where
  notQuoted : isQuotedName (document.tree.tokenText requirement.token) = false
  breaksStyle : requirement.style.check (document.tree.tokenText requirement.token) = false
  changes :
    requirement.style.convert (document.tree.tokenText requirement.token) ≠
      document.tree.tokenText requirement.token
  fix_eq :
    fix =
      {
        start := (document.tree.tokenSpan requirement.token).start
        stop := (document.tree.tokenSpan requirement.token).stop
        text := requirement.style.convert (document.tree.tokenText requirement.token)
      }

/-- The problem of a broken requirement stands where the name does. -/
theorem problem_of_brokenRequirement?
    {problem : Problem}
    (broken : document.brokenRequirement? ruleId severity requirement = some problem) :
    problem.ruleId = ruleId ∧
      problem.severity = severity ∧ problem.start = document.tokenLocation requirement.token := by
  rw [brokenRequirement?, nameProblem?] at broken
  split at broken
  · cases broken
  · cases broken
    exact ⟨rfl, rfl, problem_start ..⟩

/-- A broken requirement has a fix exactly if the style can change the name. -/
theorem fix_of_brokenRequirement?_iff
    {fix : Fix} :
    (document.brokenRequirement? ruleId severity requirement).bind Problem.fix? = some fix ↔
      document.Corrects requirement fix := by
  rw [brokenRequirement?, nameProblem?]
  constructor
  · intro hasFix
    obtain ⟨problem, problemEq, fixEq⟩ := Option.bind_eq_some_iff.mp hasFix
    split at problemEq
    · cases problemEq
    · rename_i breaks
      cases problemEq
      simp only [Bool.or_eq_true, not_or, Bool.not_eq_true] at breaks
      simp only [problem] at fixEq
      split at fixEq
      · cases fixEq
      · rename_i changes
        cases fixEq
        exact ⟨breaks.1, breaks.2, changes, rfl⟩
  · intro corrects
    rw [if_neg (by simp [corrects.notQuoted, corrects.breaksStyle]), Option.bind_some,
      corrects.fix_eq]
    exact if_neg corrects.changes

end Document

namespace DeclarationNaming

/-- What the rule requires of one declaration. -/
def requirement?
    (styles : DeclarationStyles)
    (declaration : NamedDeclaration) :
    Option NameRequirement :=
  if styles.excludeExtern && declaration.isExtern then
    none
  else
    some {
      token := declaration.name
      style := styles.styleOf declaration.kind declaration.isMutable
      subject := s!"{declaration.kind.title} name"
    }

/-- What the rule requires of the declarations of a document. -/
def requirements (styles : DeclarationStyles) (document : Document) : List NameRequirement :=
  document.namedDeclarations.filterMap (requirement? styles)

/-- The problems of the rule are the broken requirements. -/
theorem check_eq
    (styles : DeclarationStyles)
    (severity : Severity)
    (document : Document) :
    check styles severity document =
      (requirements styles document).filterMap (document.brokenRequirement? id severity) := by
  rw [check, requirements, List.filterMap_filterMap]
  congr 1
  funext declaration
  simp only [problem?, requirement?]
  split <;> rfl

end DeclarationNaming

namespace FieldNaming

/-- What the rule requires of the field at a node. -/
def requirement?
    (styles : FieldStyles)
    (document : Document)
    (node : NodeIndex) :
    Option NameRequirement := do
  let field ← document.tree.field? node
  let kind? := document.tree.declarationKind? { type? := field.type?, value? := field.value? }
  return {
    token := field.name
    style := styles.styleOf (document.containerKindAround node) kind?
    subject := "Field"
  }

/-- What the rule requires of the fields of a document. -/
def requirements (styles : FieldStyles) (document : Document) : List NameRequirement :=
  (document.nodesWithTag .containerField).filterMap (requirement? styles document)

/-- The problems of the rule are the broken requirements. -/
theorem check_eq
    (styles : FieldStyles)
    (severity : Severity)
    (document : Document) :
    check styles severity document =
      (requirements styles document).filterMap (document.brokenRequirement? id severity) := by
  rw [check, requirements, List.filterMap_filterMap]
  congr 1
  funext node
  simp only [problem?, requirement?]
  cases document.tree.field? node <;> rfl

end FieldNaming

namespace Rule

/-- What a built-in rule with the given table of options requires of the names of a document. -/
def requirements (rule : Rule) (table : Toml.Table) (document : Document) : List NameRequirement :=
  if rule.id = DeclarationNaming.id then
    let styles := (OptionField.decode DeclarationStyles.fields {} table).toOption.getD {}
    DeclarationNaming.requirements styles document
  else if rule.id = FieldNaming.id then
    let styles := (OptionField.decode FieldStyles.fields {} table).toOption.getD {}
    FieldNaming.requirements styles document
  else
    []

/-- The fixes of a built-in rule are those of broken requirements. -/
theorem filterMap_problems
    {rule : Rule}
    {select? : Problem → Option β}
    (isBuiltin : rule ∈ builtin)
    (onlyFixes : ∀ problem, problem.fix? = none → select? problem = none)
    (options : RuleOptions)
    (document : Document) :
    (rule.problems options document).filterMap select? =
      (rule.requirements options.table document).filterMap fun requirement =>
        (document.brokenRequirement? rule.id options.severity requirement).bind select? := by
  simp only [builtin, List.mem_cons, List.not_mem_nil, or_false] at isBuiltin
  rcases isBuiltin with rfl | rfl | rfl
  · show (DeclarationNaming.check _ _ document).filterMap select? = _
    rw [DeclarationNaming.check_eq, List.filterMap_filterMap]
    rfl
  · show (FieldNaming.check _ _ document).filterMap select? = _
    rw [FieldNaming.check_eq, List.filterMap_filterMap]
    rfl
  · show (NoUndefined.check _ _ document).filterMap select? = []
    rw [List.filterMap_eq_nil_iff]
    intro problem member
    obtain ⟨node, -, nodeProblem⟩ := List.mem_filterMap.mp member
    obtain ⟨span, -, rfl⟩ := Option.map_eq_some_iff.mp nodeProblem
    exact onlyFixes _ rfl

/-- A problem of a built-in rule with a fix is that of a broken requirement. -/
theorem exists_requirement
    {rule : Rule}
    {options : RuleOptions}
    {document : Document}
    {problem : Problem}
    {fix : Fix}
    (isBuiltin : rule ∈ builtin)
    (isProblem : problem ∈ rule.problems options document)
    (hasFix : problem.fix? = some fix) :
    ∃ requirement ∈ rule.requirements options.table document,
      document.brokenRequirement? rule.id options.severity requirement = some problem := by
  let withFix? (problem : Problem) : Option Problem := problem.fix?.map fun _ => problem
  have onlyFixes : ∀ problem, problem.fix? = none → withFix? problem = none := by
    intro problem noFix
    simp only [withFix?, noFix, Option.map_none]
  have member : problem ∈ (rule.problems options document).filterMap withFix? :=
    List.mem_filterMap.mpr ⟨problem, isProblem, by simp only [withFix?, hasFix, Option.map_some]⟩
  rw [filterMap_problems isBuiltin onlyFixes] at member
  obtain ⟨requirement, required, found⟩ := List.mem_filterMap.mp member
  obtain ⟨other, broken, isOther⟩ := Option.bind_eq_some_iff.mp found
  obtain ⟨_, -, rfl⟩ := Option.map_eq_some_iff.mp isOther
  exact ⟨requirement, required, broken⟩

end Rule

/-- The id of the rule that judges the names of nodes with the given tag. -/
def judgeOf? : NodeTag → Option String
  | .varDecl | .fnDecl => some DeclarationNaming.id
  | .containerField => some FieldNaming.id
  | _ => none

/-- Only function declarations have their tag. -/
theorem NodeForm.eq_fnDecl
    {form : NodeForm}
    (tagEq : form.tag = .fnDecl) :
    form = .fnDecl := by
  cases form with
  | fnDecl => rfl
  | _ => cases tagEq

/-- A child in some role is one of the children. -/
theorem Node.mem_childIndices
    {role : Role}
    {child : NodeIndex}
    (node : Node)
    (isChild : node.child? role = some child) :
    child ∈ node.childIndices := by
  obtain ⟨entry, found, rfl⟩ := Option.map_eq_some_iff.mp isChild
  exact List.mem_map_of_mem (List.mem_of_find?_eq_some found)

namespace SyntaxTree

variable {tree : SyntaxTree} {owner : NodeIndex}

theorem declaresName_of_namedBinding?
    {declaration : NamedDeclaration}
    (named : tree.namedBinding? owner = some declaration) :
    tree.DeclaresName declaration.name owner := by
  simp only [namedBinding?, Option.bind_eq_bind, Option.bind_eq_some_iff, Option.pure_def,
    Option.some.injEq] at named
  obtain ⟨binding, bound, kind, -, rfl⟩ := named
  simp only [binding?, Option.bind_eq_bind, Option.bind_eq_some_iff] at bound
  obtain ⟨node, found, formed⟩ := bound
  split at formed
  · rename_i head formEq
    cases formed
    refine .own found ?_ (by rw [formEq]; rfl)
    rw [NodeHead.tag, formEq]
    nofun
  · cases formed

theorem declaresName_of_namedFunction?
    {declaration : NamedDeclaration}
    (isFunction : tree.tag? owner = some .fnDecl)
    (named : tree.namedFunction? owner = some declaration) :
    tree.DeclaresName declaration.name owner := by
  simp only [namedFunction?, prototype?, Option.bind_eq_bind, Option.bind_eq_some_iff,
    Option.pure_def, Option.some.injEq] at named
  obtain ⟨prototype, ⟨node, found, formed⟩, name, nameEq, rfl⟩ := named
  have tagEq : node.form.tag = .fnDecl := by
    simpa [tag?, form?, found] using isFunction
  split at formed
  · obtain ⟨child, isChild, formed⟩ := Option.bind_eq_some_iff.mp formed
    simp only [ownPrototype?, Option.bind_eq_bind, Option.bind_eq_some_iff] at formed
    obtain ⟨prototypeNode, prototypeFound, formed⟩ := formed
    split at formed
    · rename_i head formEq
      cases formed
      refine .byPrototype found tagEq (node.mem_childIndices isChild) prototypeFound ?_ ?_
      · rw [NodeHead.tag, formEq]
        rfl
      · rw [formEq]
        exact nameEq
    · cases formed
  · rename_i notFunction
    exact (notFunction (NodeForm.eq_fnDecl tagEq)).elim

theorem declaresName_of_field?
    {field : Field}
    (named : tree.field? owner = some field) :
    tree.DeclaresName field.name owner := by
  simp only [field?, Option.bind_eq_bind, Option.bind_eq_some_iff] at named
  obtain ⟨node, found, formed⟩ := named
  split at formed
  · rename_i name formEq
    cases formed
    refine .own found ?_ (by rw [formEq]; rfl)
    rw [NodeHead.tag, formEq]
    nofun
  · cases formed

end SyntaxTree

namespace Document

variable {document : Document} {owner : NodeIndex} {tag : NodeTag}

theorem mem_nodesWithTag
    (member : owner ∈ document.nodesWithTag tag) :
    document.tree.tag? owner = some tag := by
  simpa using (List.mem_filter.mp member).2

theorem nodesWithTag_nodup
    (document : Document)
    (tag : NodeTag) :
    (document.nodesWithTag tag).Nodup := by
  refine List.Nodup.sublist List.filter_sublist ?_
  exact List.Pairwise.map _ (fun _ _ distinct same => distinct (NodeIndex.mk.inj same))
    List.nodup_range

end Document

/-- The name is declared by a node whose names the rule judges. -/
def JudgedName (tree : SyntaxTree) (ruleId : String) (name : TokenIndex) (owner : NodeIndex) :
    Prop :=
  tree.DeclaresName name owner ∧ ∃ tag, tree.tag? owner = some tag ∧ judgeOf? tag = some ruleId

/-- What is read off distinct nodes, each with a token to itself, is about distinct tokens. -/
theorem nodup_tokens
    {owners : List NodeIndex}
    {read? : NodeIndex → Option α}
    {token : α → TokenIndex}
    (owns : TokenIndex → NodeIndex → Prop)
    (owner_unique : ∀ {token first second}, owns token first → owns token second → first = second)
    (ownersNodup : owners.Nodup)
    (reads : ∀ owner ∈ owners, ∀ item, read? owner = some item → owns (token item) owner) :
    ((owners.filterMap read?).map token).Nodup := by
  rw [List.Nodup, List.pairwise_map, List.pairwise_filterMap]
  refine ownersNodup.imp_of_mem ?_
  intro first second isFirst isSecond distinct item firstReads other secondReads sameToken
  have firstOwns := reads first isFirst item firstReads
  have secondOwns := reads second isSecond other secondReads
  rw [← sameToken] at secondOwns
  exact distinct (owner_unique firstOwns secondOwns)

namespace DeclarationNaming

variable {styles : DeclarationStyles} {document : Document}

/-- What the rule requires of bindings and of functions, node by node. -/
theorem requirements_eq :
    requirements styles document =
      ((document.nodesWithTag .varDecl).filterMap fun owner =>
          (document.tree.namedBinding? owner).bind (requirement? styles)) ++
        (document.nodesWithTag .fnDecl).filterMap fun owner =>
          (document.tree.namedFunction? owner).bind (requirement? styles) := by
  rw [requirements, Document.namedDeclarations, List.filterMap_append, List.filterMap_filterMap,
    List.filterMap_filterMap]

theorem token_of_requirement?
    {declaration : NamedDeclaration}
    {requirement : NameRequirement}
    (required : requirement? styles declaration = some requirement) :
    requirement.token = declaration.name := by
  unfold requirement? at required
  split at required
  · cases required
  · cases required
    rfl

theorem declaresName_of_binding
    {owner : NodeIndex}
    {requirement : NameRequirement}
    (required :
      (document.tree.namedBinding? owner).bind (requirement? styles) = some requirement) :
    document.tree.DeclaresName requirement.token owner := by
  obtain ⟨declaration, named, required⟩ := Option.bind_eq_some_iff.mp required
  rw [token_of_requirement? required]
  exact SyntaxTree.declaresName_of_namedBinding? named

theorem declaresName_of_function
    {owner : NodeIndex}
    {requirement : NameRequirement}
    (isFunction : owner ∈ document.nodesWithTag .fnDecl)
    (required :
      (document.tree.namedFunction? owner).bind (requirement? styles) = some requirement) :
    document.tree.DeclaresName requirement.token owner := by
  obtain ⟨declaration, named, required⟩ := Option.bind_eq_some_iff.mp required
  rw [token_of_requirement? required]
  exact SyntaxTree.declaresName_of_namedFunction? (Document.mem_nodesWithTag isFunction) named

/-- The rule judges names of bindings and functions. -/
theorem judgedName
    {requirement : NameRequirement}
    (member : requirement ∈ requirements styles document) :
    ∃ owner, JudgedName document.tree id requirement.token owner := by
  rw [requirements_eq, List.mem_append] at member
  rcases member with isBinding | isFunction
  · obtain ⟨owner, hasTag, required⟩ := List.mem_filterMap.mp isBinding
    exact ⟨owner, declaresName_of_binding required, .varDecl, Document.mem_nodesWithTag hasTag, rfl⟩
  · obtain ⟨owner, hasTag, required⟩ := List.mem_filterMap.mp isFunction
    exact ⟨owner, declaresName_of_function hasTag required, .fnDecl,
      Document.mem_nodesWithTag hasTag, rfl⟩

/-- The rule judges no name twice. -/
theorem tokens_nodup
    {source : String}
    (parsed : SyntaxTree.parse source = .ok document.tree) :
    ((requirements styles document).map NameRequirement.token).Nodup := by
  rw [requirements_eq, List.map_append, List.nodup_append]
  refine ⟨?_, ?_, ?_⟩
  · exact nodup_tokens document.tree.DeclaresName (SyntaxTree.DeclaresName.owner_unique parsed)
      (document.nodesWithTag_nodup _) fun _ _ _ required => declaresName_of_binding required
  · exact nodup_tokens document.tree.DeclaresName (SyntaxTree.DeclaresName.owner_unique parsed)
      (document.nodesWithTag_nodup _)
      fun _ hasTag _ required => declaresName_of_function hasTag required
  · intro _ bindingToken _ functionToken sameToken
    obtain ⟨bindingRequirement, isBinding, rfl⟩ := List.mem_map.mp bindingToken
    obtain ⟨functionRequirement, isFunction, rfl⟩ := List.mem_map.mp functionToken
    obtain ⟨binding, bindingTag, bindingRequired⟩ := List.mem_filterMap.mp isBinding
    obtain ⟨function, functionTag, functionRequired⟩ := List.mem_filterMap.mp isFunction
    have functionDeclares := declaresName_of_function functionTag functionRequired
    rw [← sameToken] at functionDeclares
    obtain rfl := (declaresName_of_binding bindingRequired).owner_unique parsed functionDeclares
    have tags := (Document.mem_nodesWithTag bindingTag).symm.trans
      (Document.mem_nodesWithTag functionTag)
    cases tags

end DeclarationNaming

namespace FieldNaming

variable {styles : FieldStyles} {document : Document}

theorem declaresName_of_field
    {owner : NodeIndex}
    {requirement : NameRequirement}
    (required : requirement? styles document owner = some requirement) :
    document.tree.DeclaresName requirement.token owner := by
  obtain ⟨field, named, requirementEq⟩ := Option.bind_eq_some_iff.mp required
  cases requirementEq
  exact SyntaxTree.declaresName_of_field? named

/-- The rule judges names of fields. -/
theorem judgedName
    {requirement : NameRequirement}
    (member : requirement ∈ requirements styles document) :
    ∃ owner, JudgedName document.tree id requirement.token owner := by
  obtain ⟨owner, hasTag, required⟩ := List.mem_filterMap.mp member
  exact ⟨owner, declaresName_of_field required, .containerField, Document.mem_nodesWithTag hasTag,
    rfl⟩

/-- The rule judges no name twice. -/
theorem tokens_nodup
    {source : String}
    (parsed : SyntaxTree.parse source = .ok document.tree) :
    ((requirements styles document).map NameRequirement.token).Nodup :=
  nodup_tokens document.tree.DeclaresName (SyntaxTree.DeclaresName.owner_unique parsed)
    (document.nodesWithTag_nodup _) fun _ _ _ required => declaresName_of_field required

end FieldNaming

namespace Rule

variable {rule : Rule} {table : Toml.Table} {document : Document}

/-- A rule judges names that nodes with one of its tags declare. -/
theorem judgedName
    {requirement : NameRequirement}
    (member : requirement ∈ rule.requirements table document) :
    ∃ owner, JudgedName document.tree rule.id requirement.token owner := by
  unfold requirements at member
  split at member
  · rename_i isDeclarationNaming
    rw [isDeclarationNaming]
    exact DeclarationNaming.judgedName member
  · split at member
    · rename_i isFieldNaming
      rw [isFieldNaming]
      exact FieldNaming.judgedName member
    · cases member

/-- A rule judges no name twice. -/
theorem tokens_nodup
    {source : String}
    (parsed : SyntaxTree.parse source = .ok document.tree) :
    ((rule.requirements table document).map NameRequirement.token).Nodup := by
  unfold requirements
  split
  · exact DeclarationNaming.tokens_nodup parsed
  · split
    · exact FieldNaming.tokens_nodup parsed
    · exact .nil

/-- A name is judged by one rule only. -/
theorem judge_unique
    {source : String}
    {other : Rule}
    {otherTable : Toml.Table}
    {requirement otherRequirement : NameRequirement}
    (parsed : SyntaxTree.parse source = .ok document.tree)
    (member : requirement ∈ rule.requirements table document)
    (otherMember : otherRequirement ∈ other.requirements otherTable document)
    (sameToken : requirement.token = otherRequirement.token) :
    rule.id = other.id := by
  obtain ⟨owner, declares, tag, tagEq, judges⟩ := judgedName member
  obtain ⟨otherOwner, otherDeclares, otherTag, otherTagEq, otherJudges⟩ := judgedName otherMember
  rw [← sameToken] at otherDeclares
  obtain rfl := declares.owner_unique parsed otherDeclares
  obtain rfl : tag = otherTag := Option.some.inj (tagEq.symm.trans otherTagEq)
  exact Option.some.inj (judges.symm.trans otherJudges)

end Rule

end ZigLint
