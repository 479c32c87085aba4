import FailureTriage.Pattern.Search
import FailureTriage.Text.Find
import FailureTriage.Text.Lower

/-!
# Dependency rules

How a source text shows which types it depends on: by its imports, by the types of its fields, by
the configuration classes in its annotations, and by the variables whose methods it calls.

Each rule has one pattern, and a `RuleAction` that says what a match contributes.
-/

namespace FailureTriage

/-- What a rule makes of the text in the first group of each match. -/
inductive RuleAction where
  /-- A dotted name, unless it belongs to the test infrastructure. -/
  | importName
  /-- The type of an annotated field. -/
  | injectedField
  /-- The type of a field without an annotation. -/
  | roleField
  /-- The arguments of an annotation, in which every class literal counts. -/
  | configClassList
  /-- A variable, whose declared type counts. -/
  | receiverCall
  deriving DecidableEq, Repr

/-- The word for an action. -/
def RuleAction.label : RuleAction → String
  | .importName => "import"
  | .injectedField => "injected_field"
  | .roleField => "role_field"
  | .configClassList => "config_class_list"
  | .receiverCall => "receiver_call"

/-- A rule of dependency. -/
structure DependencyRule where
  name : String
  action : RuleAction
  pattern : Pattern

namespace DependencyRule

/-! ## Vocabulary -/

/-- What the name of a type with a role in the application ends in. -/
def roleSuffixes : List String :=
  ["Service", "Controller", "Repository", "Manager", "Helper", "Util", "Component", "Bean",
    "DAO", "Handler", "Processor", "Factory", "Builder"]

/-- Words, in lower case, that only the names of the test infrastructure contain. -/
def excludedKeywords : List String :=
  ["test", "junit", "mockito", "spring.test", "hamcrest", "assertj"]

/-- The annotations of a field that is filled from outside. -/
def injectionMarkers : List String :=
  ["MockBean", "SpyBean", "InjectMocks", "Autowired", "Inject", "Mock", "Spy", "Resource"]

/-- The annotations that name configuration classes. -/
def configAnnotations : List String :=
  ["ContextConfiguration", "SpringBootTest", "Import"]

/-- The packages of an application's layers. -/
def layerPackages : List String :=
  ["service", "controller", "repository", "util", "model", "config"]

/-- The first segments of the packages that count whatever follows. -/
def namespaces : List String :=
  ["com", "org", "io", "net"]

/-- Whether a name belongs to the test infrastructure. -/
def isExcluded (name : String) : Bool :=
  excludedKeywords.any fun keyword => Text.contains keyword.toList (Text.lower name.toList)

/-! ## Patterns -/

open Pattern

/-- One of some words. -/
private def oneOfWords (words : List String) : Pattern :=
  anyOf (words.map word)

/-- A character of a dotted name. -/
def inDottedName (c : Char) : Bool :=
  Text.isWord c || c == '.'

/-- A letter, a digit or an underscore of ASCII. -/
def inAsciiName (c : Char) : Bool :=
  c.isAlphanum || c == '_'

/-- The end of a declared variable. -/
private def declarationEnd : Pattern :=
  sequence [blanks, .one fun c => c == ';' || c == '=']

/-- The words that say how far a declaration can be seen. -/
def visibilities : List String :=
  ["private", "protected", "public"]

/-- One of these words, and the blanks after it. -/
private def visibility : Pattern :=
  sequence [oneOfWords visibilities, blanks1]

/-- A word before a declaration, and the blanks after it, or nothing. -/
private def optionalWord (text : String) : Pattern :=
  opt (sequence [word text, blanks1])

/-- An import of a name. -/
def importPattern (name : Pattern) : Pattern :=
  sequence [.lineStart, blanks, word "import", blanks1, .group 1 name, blanks, word ";"]

/-- A character inside the type arguments of a field. -/
def inTypeArguments (c : Char) : Bool :=
  !(c == ';' || c == '=' || c == '(' || c == ')')

/-- A capitalised ASCII name with an ending. -/
private def typeEndingIn (endings : List String) : Pattern :=
  sequence [.one (·.isUpper), zeroOrMore inAsciiName, oneOfWords endings]

/-- A class literal; the name of the class is the first group. -/
def classLiteral : Pattern :=
  sequence [
    .group 1 (sequence [.one (·.isUpper), oneOrMore inAsciiName]), word ".class", .wordEdge]

/-- A declaration of a variable; its type without type arguments is the first group. -/
def declaration (field : List Char) : Pattern :=
  sequence [
    opt (oneOfWords visibilities), blanks,
    .group 1 (sequence [.one (·.isUpper), oneOrMore inAsciiName]),
    opt (sequence [
      word "<", zeroOrMore (fun c => inTypeArguments c && c != '\x7b' && c != '\x7d'),
      word ">"]),
    blanks1, literal field, declarationEnd]

/-! ## The table -/

/-- An import of a type with a role. -/
def roleImport : DependencyRule where
  name := "role_import"
  action := .importName
  pattern := importPattern (sequence [
    zeroOrMore inDottedName, word ".", zeroOrMore inAsciiName, oneOfWords roleSuffixes])

/-- An import from a layer of the application. -/
def layerImport : DependencyRule where
  name := "layer_import"
  action := .importName
  pattern := importPattern (sequence [
    zeroOrMore inDottedName, word ".", oneOfWords layerPackages, word ".",
    oneOrMore inDottedName])

/-- An import from one of the top packages. -/
def namespaceImport : DependencyRule where
  name := "namespace_import"
  action := .importName
  pattern := importPattern (sequence [oneOfWords namespaces, word ".", oneOrMore inDottedName])

/-- An annotated field. -/
def injectedField : DependencyRule where
  name := "injected_field"
  action := .injectedField
  pattern := sequence [
    word "@", oneOfWords injectionMarkers, .wordEdge,
    opt (sequence [word "(", zeroOrMore (· != ')'), word ")"]), blanks,
    opt visibility, optionalWord "final",
    .group 1 (sequence [
      .one (·.isUpper), zeroOrMore inAsciiName,
      opt (sequence [word "<", .run inTypeArguments true, word ">"])]),
    blanks1, oneOrMore Text.isWord, declarationEnd]

/-- A field whose type has a role. -/
def roleField : DependencyRule where
  name := "role_field"
  action := .roleField
  pattern := sequence [
    visibility, optionalWord "static", optionalWord "final",
    .group 1 (typeEndingIn roleSuffixes), blanks1, oneOrMore Text.isWord, declarationEnd]

/-- The arguments of an annotation that names configuration classes. -/
def configClasses : DependencyRule where
  name := "config_classes"
  action := .configClassList
  pattern := sequence [
    word "@", oneOfWords configAnnotations, blanks, word "(", .group 1 (zeroOrMore (· != ')')),
    word ")"]

/-- A call of a method of a variable. -/
def receiverCall : DependencyRule where
  name := "receiver_call"
  action := .receiverCall
  pattern := sequence [
    .group 1 (oneOrMore Text.isWord), word ".", oneOrMore Text.isWord, blanks, word "("]

/-- All rules, in the order in which they are applied. -/
def table : List DependencyRule :=
  [roleImport, layerImport, namespaceImport, injectedField, roleField, configClasses,
    receiverCall]

/-! ## Applying a rule -/

/-- The texts matched by the first group, in match order. -/
def captured (pattern : Pattern) (text : List Char) : List (List Char) :=
  (pattern.findAll text).filterMap fun m => m.group? 1

/-- A type without its type arguments. -/
def stripGenerics (type : List Char) : List Char :=
  Text.trim (Text.beforeFirst '<' type)

/-- The type of the first declaration of a variable. -/
def declaredType? (text field : List Char) : Option (List Char) :=
  ((declaration field).find? text).bind fun m => m.group? 1

/-- The types that a rule finds in a text, in match order. -/
def typesIn (rule : DependencyRule) (text : List Char) : List String :=
  let found := captured rule.pattern text
  match rule.action with
  | .importName => (found.map String.ofList).filter fun name => !isExcluded name
  | .injectedField | .roleField =>
    (found.map stripGenerics).filterMap fun type =>
      if type.isEmpty then none else some (String.ofList type)
  | .configClassList =>
    found.flatMap fun arguments => (captured classLiteral arguments).map String.ofList
  | .receiverCall =>
    found.eraseDups.filterMap fun receiver => (declaredType? text receiver).map String.ofList

end DependencyRule

end FailureTriage
