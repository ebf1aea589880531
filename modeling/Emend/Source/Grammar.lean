import Emend.Source.Rule

/-!
# The grammar

The rule of each category. A word is a keyword only where a rule asks for it;
elsewhere it is a name. Operators are not grouped: an expression is a chain of
operands with operators between them, because grouping does not change which
texts are expressions. What may follow an operand depends on whether the operand
is a *place*, something that can be assigned to: a variable, or anything with a
subscript, a member or a call at its end.
-/

set_option autoImplicit false

namespace Emend.Grammar

open Rule

/-! ## Small parts -/

/-- A statement that is kept only by the name of what it is. -/
def other (construct : String) (rule : Rule) : Rule := node (.statement construct) rule

def plainVariable : Rule := all [mark "$", name]

/-- A value after an equals sign. -/
def initializer : Rule := all [mark "=", category .expression]

def reference : Rule := all [mark "&", category .place]

/-- A name that may begin with a separator. -/
def path : Rule := all [optional (mark "\\"), name, many (all [mark "\\", name])]

/-- Class names with commas between them, after a keyword. -/
def classClause (keyword : String) : Rule := all [word keyword, commaList (category .className)]

def attributes : Rule := optional (node .attributes (category .attributes))

/-- Statements between a colon and a keyword. -/
def colonBody (closer : String) : Rule :=
  all [category .colonBlock, word closer, category .semicolon]

/-- Operators between two operands. -/
def binaryOperators : List String :=
  ["+", "-", "*", "/", "%", "**", ".", "<<", ">>", "<", ">", "<=", ">=", "==", "!=", "<>", "===",
    "!==", "<=>", "&", "^", "|", "&&", "||", "??"]

def assignmentOperators : List String :=
  ["**=", "*=", "/=", "%=", "+=", "-=", ".=", "<<=", ">>=", "&=", "^=", "|=", "??="]

def unaryOperators : List String := ["+", "-", "~", "!", "@"]

/-- Types that are keywords where a type may stand. -/
def typeWords : List String :=
  ["array", "iterable", "bool", "float", "int", "string", "void", "mixed", "false", "null", "true"]

def cast : Rule := parens (words
  ["array", "binary", "bool", "boolean", "double", "int", "integer", "float", "object", "real",
    "string", "unset"])

/-- An operand with an operator before it. -/
def unary : Rule := all [marks unaryOperators, category .operand]

def conversion : Rule := all [cast, category .castOperand]

def copy : Rule := all [word "clone", category .cloneOperand, optional (category .instanceOf)]

/-- A new object that subscripts, members and calls may follow. -/
def newObject : Rule :=
  all [word "new",
    any [all [category .classReference, category .arguments], category .anonymousClass]]

/-- A number, a truth value, or nothing. -/
def scalar : Rule :=
  any [terminal .integer, terminal .float, words ["true", "false", "null"]]

/-- One part of a literal that embeds code: plain text, an escape sequence, a
variable, or an expression in braces. -/
def part (quote : Quote) : Rule :=
  let index := any [terminal .integer, all [mark "-", terminal .integer], name, plainVariable]
  let access := any [terminal (.text quote true), all [marks ["->", "?->"], name], brackets index]
  any [terminal (.text quote false), terminal .escape, mark "\\u",
    all [mark "$", any [all [name, optional access], braces (category .expression)]],
    braces (category .expression)]

def doubleQuoted : Rule :=
  all [marks ["\"", "b\"", "B\""], many (category .doublePart), mark "\""]

def heredoc : Rule :=
  let lines := all [terminal .lineEnd,
    many (any [category .heredocPart, terminal .lineEnd]), terminal .lastLineEnd,
    terminal .closingTag]
  all [mark "<<<", optional (mark "\""), terminal .openingTag, optional (terminal (.tight "\"")),
    any [terminal .closingTag, lines]]

/-- A heredoc that embeds no code. -/
def nowdoc : Rule :=
  let lines := all [terminal .lineEnd, many (terminal .nowdocLine), optional (terminal .lineEnd),
    terminal .closingTag]
  all [mark "<<<", mark "'", terminal .openingTag, terminal (.tight "'"),
    any [terminal .closingTag, lines]]

/-- The elements of a list of places, some of which may be missing. -/
def items (item : Category) : Rule :=
  all [optional (category item), many (all [mark ",", optional (category item)])]

/-- An element of a list of places: a place, a nested list, or one of them with a
key. -/
def item (pattern : Category) : Rule :=
  let target := any [category pattern, reference, category .place]
  any [target, all [category .expression, mark "=>", target]]

def elements : Rule := all [optional (commaList (category .arrayElement)), optional (mark ",")]

/-! ## Operands -/

/-- Operands that a conversion or `instanceof` may be applied to, by what may
follow a place and what may follow any other value. -/
def terms (onPlace onValue : Category) : Rule :=
  let test := optional (category .instanceOf)
  any [
    all [category .simpleVariable, optional (category onPlace)],
    all [category .derefBase, optional (category onValue)],
    all [category .reserved, any [
      all [category .placeSuffix, optional (category onPlace)],
      all [category .constantSuffix, optional (category onValue)]]],
    all [word "new", any [
      all [category .classReference, optional (any [
        all [category .arguments, optional (category onValue)], category .instanceOf])],
      all [category .anonymousClass, optional (category onValue)]]],
    all [scalar, test],
    all [category .shellCommand, test],
    all [category .closure, test],
    category .arrowFunction,
    all [words ["print", "throw"], category .operand],
    all [marks ["++", "--"], category .place, test]]

def followPlace (onPlace onValue : Category) : Rule :=
  any [
    all [marks ["++", "--"], optional (category .instanceOf)],
    all [category .placeSuffix, optional (category onPlace)],
    all [category .constantSuffix, optional (category onValue)],
    category .instanceOf]

def followValue (onPlace onValue : Category) : Rule :=
  any [
    all [category .placeSuffix, optional (category onPlace)],
    all [category .constantSuffix, optional (category onValue)],
    category .instanceOf]

/-! ## Statements and declarations -/

def ifStatement : Rule :=
  let branches (body : Rule) : Rule :=
    all [body, many (all [word "elseif", category .condition, body]),
      optional (all [word "else", body])]
  all [word "if", category .condition, any [
    branches (category .statement),
    all [branches (category .colonBlock), word "endif", category .semicolon]]]

/-- Loops over a list of values. -/
def foreachStatement : Rule :=
  let target := any [
    category .foreachValue,
    all [category .expression, mark "=>", category .foreachValue]]
  all [word "foreach", parens (all [category .expression, word "as", target]),
    any [category .semicolon, category .statement, colonBody "endforeach"]]

def forStatement : Rule :=
  let values := optional (commaList (category .expression))
  all [word "for", parens (all [values, mark ";", values, mark ";", values]),
    any [category .semicolon, category .statement, colonBody "endfor"]]

def switchStatement : Rule :=
  let cases := many (category .switchCase)
  all [word "switch", category .condition, any [
    braces cases,
    all [mark ":", cases, word "endswitch", category .semicolon]]]

def tryStatement : Rule :=
  let types := all [category .qualifiedName, many (all [mark "|", category .qualifiedName])]
  let handler := any [
    all [word "catch", parens (all [types, optional plainVariable]), category .block],
    all [word "finally", category .block]]
  all [word "try", category .block, handler, many handler]

/-- Directives: one of three names with a literal. -/
def directive : Rule :=
  let setting := all [node .settingName (any (["ticks", "encoding", "strict_types"].map spelled)),
    mark "=", node .settingValue (any [scalar, category .text])]
  all [word "declare", parens setting,
    any [category .semicolon, category .statement, colonBody "enddeclare"]]

/-- Namespaces: a name and a semicolon, or statements in braces. -/
def namespaceStatement : Rule :=
  let body := node .body (category .block)
  all [word "namespace", any [
    all [node .spaceName path, any [category .semicolon, body]],
    body]]

def importKind : Rule := optional (node .importKind (words ["function", "const"]))

def importAlias (rule : Rule) : Rule := optional (all [word "as", node .importAlias rule])

/-- One of the clauses of a group. -/
def groupClause : Rule :=
  node .importClause (all [importKind, node .importName path, importAlias name])

/-- Imports: names with commas between them, or one group. -/
def importStatement : Rule :=
  all [word "use", any [
    commaList (category .useClause),
    all [importKind, node .importGroup path, mark "\\", braces (commaList groupClause)]],
    category .semicolon]

def elementValue : Rule := all [mark "=", node .elementValue (category .expression)]

def constantElement : Rule :=
  node .element (all [node .elementName (any [name, category .reserved]), elementValue])

def constants : Rule :=
  all [many (category .modifier), word "const", optional (category .type),
    commaList constantElement, category .semicolon]

def properties : Rule :=
  let element := node .element (all [node .elementName plainVariable, optional elementValue])
  all [category .modifier, many (category .modifier), optional (category .type),
    commaList element, any [category .semicolon, category .hookList]]

def method : Rule :=
  node .method (all [attributes, many (category .modifier), word "function", optional (mark "&"),
    node .methodName (any [name, category .reserved]), node .parameters (category .parameters),
    optional (category .returnType), any [node .body (category .block), category .semicolon]])

def traitUse : Rule :=
  node .traitUse (all [word "use", commaList (node .traitName (category .className)),
    any [node .adaptations (braces (many (category .adaptation))), category .semicolon]])

def classStatement : Rule :=
  node .class (all [attributes, many (category .modifier), word "class", node .typeName name,
    optional (classClause "extends"), optional (classClause "implements"),
    node .body (category .memberList)])

def interfaceStatement : Rule :=
  node .interface (all [attributes, word "interface", node .typeName name,
    optional (classClause "extends"), node .body (category .memberList)])

def traitStatement : Rule :=
  node .trait (all [attributes, word "trait", node .typeName name,
    node .body (category .memberList)])

def enumStatement : Rule :=
  all [attributes, word "enum", name, optional (category .returnType),
    optional (classClause "implements"), braces (many (category .enumMember))]

def functionStatement : Rule :=
  all [attributes, word "function", optional (mark "&"), any [name, category .reserved],
    category .parameters, optional (category .returnType), category .block]

def statement : Rule :=
  let ends := category .semicolon
  let value := optional (category .expression)
  any [
    node .emptyStatement (mark ";"),
    other "compound_statement" (category .block),
    other "named_label_statement" (all [name, mark ":"]),
    other "expression_statement" (all [category .expression, ends]),
    other "if_statement" ifStatement,
    other "switch_statement" switchStatement,
    other "while_statement" (all [word "while", category .condition,
      any [category .statement, colonBody "endwhile"]]),
    other "do_statement" (all [word "do", category .statement, word "while", category .condition,
      ends]),
    other "for_statement" forStatement,
    other "foreach_statement" foreachStatement,
    other "goto_statement" (all [word "goto", name, ends]),
    other "continue_statement" (all [word "continue", value, ends]),
    other "break_statement" (all [word "break", value, ends]),
    other "return_statement" (all [word "return", value, ends]),
    other "try_statement" tryStatement,
    node .directive directive,
    other "echo_statement" (all [word "echo", commaList (category .expression), ends]),
    other "exit_statement" (all [word "exit", optional (parens value), ends]),
    other "unset_statement" (all [spelled "unset",
      parens (all [commaList (category .place), optional (mark ",")]), ends]),
    other "const_declaration" constants,
    other "function_definition" functionStatement,
    classStatement,
    interfaceStatement,
    traitStatement,
    other "enum_declaration" enumStatement,
    node .space namespaceStatement,
    node .imports importStatement,
    other "global_declaration" (all [word "global", commaList (category .simpleVariable), ends]),
    other "function_static_declaration" (all [word "static",
      commaList (all [plainVariable, optional initializer]), ends])]

/-! ## The rules -/

def rule : Category → Rule
  | .statement => statement
  | .colonBlock => all [mark ":", many (category .statement)]
  | .switchCase =>
    all [any [all [word "case", category .expression], word "default"],
      any [mark ":", category .semicolon], many (category .statement)]
  | .enumMember => any [
      all [attributes, word "case", name, optional initializer, category .semicolon],
      method,
      traitUse]
  | .member => any [
      node .constants (all [attributes, constants]),
      node .properties (all [attributes, properties]),
      method,
      traitUse]
  | .adaptation =>
    let newName := any [
      all [category .visibility, optional name],
      name]
    all [any [category .constantAccess, name],
      any [all [word "insteadof", name], all [word "as", newName]], category .semicolon]
  | .hookList => braces (many (category .hook))
  | .hook =>
    all [attributes, optional (word "final"), optional (mark "&"), name,
      optional (category .parameters),
      any [all [mark "=>", category .expression, category .semicolon], category .block,
        category .semicolon]]
  | .parameters =>
    parens (all [optional (commaList (category .parameter)), optional (mark ",")])
  | .parameter =>
    let promoted := all [category .visibility, optional (word "readonly"),
      optional (category .type), any [reference, plainVariable], optional initializer,
      optional (category .hookList)]
    let plain := all [optional (category .type), optional (mark "&"), any [
      all [mark "...", plainVariable],
      all [plainVariable, optional initializer]]]
    all [attributes, any [promoted, plain]]
  | .returnType => all [mark ":", node .returnType (any [category .type, spelled "never"])]
  | .attributes =>
    let one := all [category .className, optional (category .arguments)]
    let group := enclosed "#[" (all [commaList one, optional (mark ",")]) "]"
    all [group, many group]
  | .arguments =>
    all [mark "(", any [
      mark ")",
      all [mark "...", mark ")"],
      all [commaList (category .argument), optional (mark ","), mark ")"]]]
  | .argument =>
    let label := any [name,
      words ["array", "fn", "function", "match", "namespace", "null", "static", "throw", "true",
        "false"],
      spelled "self", spelled "parent"]
    all [optional (all [label, mark ":"]), optional (mark "&"), any [
      category .reserved,
      all [mark "...", category .expression],
      category .expression]]
  | .arrayElement => any [
      reference,
      all [mark "...", category .expression],
      all [category .expression,
        optional (all [mark "=>", any [reference, category .expression]])]]
  | .matchArm =>
    let condition := any [
      all [commaList (category .expression), optional (mark ",")],
      word "default"]
    all [condition, mark "=>", category .expression]
  | .foreachValue => any [reference, category .expression, category .listPattern,
      category .bracketPattern]
  | .expression =>
    let choice := all [mark "?", optional (category .expression), mark ":", category .operand]
    all [category .operand, many (any [
      all [any [marks binaryOperators, words ["and", "or", "xor"]], category .operand],
      choice])]
  | .operand => any [
      category .term,
      unary,
      conversion,
      copy,
      all [words ["include", "include_once", "require", "require_once"], category .operand],
      all [word "yield", eager (any [
        category .arrayElement,
        all [word "from", category .operand]])],
      all [word "match", category .condition,
        braces (all [optional (commaList (category .matchArm)), optional (mark ",")])],
      all [any [category .listPattern, category .bracketPattern], mark "=", optional (mark "&"),
        category .operand]]
  | .castOperand => any [
      category .term,
      unary,
      conversion,
      copy,
      all [words ["include", "include_once"], category .operand]]
  | .cloneOperand => any [category .plainTerm, all [cast, category .place]]
  | .term => terms .afterPlace .afterValue
  | .plainTerm => terms .plainAfterPlace .plainAfterValue
  | .listPattern => all [word "list", parens (items .listItem)]
  | .listItem => item .listPattern
  | .bracketPattern => brackets (items .bracketItem)
  | .bracketItem => item .bracketPattern
  | .afterPlace => any [
      all [mark "=", optional (mark "&"), category .operand],
      all [marks assignmentOperators, category .operand],
      followPlace .afterPlace .afterValue]
  | .afterValue => followValue .afterPlace .afterValue
  | .plainAfterPlace => followPlace .plainAfterPlace .plainAfterValue
  | .plainAfterValue => followValue .plainAfterPlace .plainAfterValue
  | .place => any [
      all [category .simpleVariable, optional (category .placeRest)],
      all [any [category .derefBase, category .reserved, newObject], category .placeRest],
      all [cast, category .place]]
  | .placeRest => any [
      all [category .placeSuffix, optional (category .placeRest)],
      all [category .constantSuffix, category .placeRest]]
  | .constantAccess =>
    all [any [category .simpleVariable, category .derefBase, category .reserved, newObject],
      category .constantRest]
  | .constantRest => any [
      all [category .constantSuffix, optional (category .constantRest)],
      all [category .placeSuffix, category .constantRest]]
  | .classReference =>
    let step := any [
      brackets (optional (category .expression)),
      all [marks ["->", "?->"], any [name, category .reserved, category .simpleVariable,
        braces (category .expression)]],
      all [mark "::", category .simpleVariable]]
    any [
      all [category .simpleVariable, many step],
      all [category .className,
        optional (all [mark "::", category .simpleVariable, many step])],
      parens (category .expression)]
  | .anonymousClass =>
    all [attributes, many (category .modifier), word "class", optional (category .arguments),
      optional (classClause "extends"), optional (classClause "implements"), category .memberList]
  | .closure =>
    let capture := parens (all [
      commaList (all [optional (mark "&"), plainVariable]), optional (mark ",")])
    all [attributes, optional (word "static"), word "function", optional (mark "&"),
      category .parameters, optional (all [word "use", capture]), optional (category .returnType),
      category .block]
  | .arrowFunction =>
    all [attributes, optional (word "static"), word "fn", optional (mark "&"),
      category .parameters, optional (category .returnType), mark "=>", category .operand]
  | .derefBase => any [category .qualifiedName, parens (category .expression),
      category .arrayCreation, category .text]
  | .placeSuffix =>
    let member := any [name, category .reserved, category .simpleVariable,
      braces (category .expression)]
    any [
      brackets (optional (category .expression)),
      all [marks ["->", "?->"], member],
      all [mark "::", category .simpleVariable],
      category .arguments]
  | .constantSuffix =>
    all [mark "::", any [name, category .reserved, braces (category .expression)]]
  | .instanceOf => all [word "instanceof", category .classReference]
  | .condition => parens (category .expression)
  | .arrayCreation => any [all [word "array", parens elements], brackets elements]
  | .text => any [
      node .literal (terminal .quoted),
      node .literal doubleQuoted,
      node .literal heredoc,
      node .literal nowdoc]
  | .doublePart => part .double
  | .shellPart => part .shell
  | .heredocPart => part .heredoc
  | .shellCommand => node .literal (enclosed "\x60" (many (category .shellPart)) "\x60")
  | .block => braces (many (category .statement))
  | .memberList => braces (many (category .member))
  | .useClause =>
    node .importClause (all [importKind, node .importName (category .className),
      importAlias (any [name, category .reserved])])
  | .type =>
    let intersection := all [category .simpleType, many (all [mark "&", category .simpleType])]
    let group := parens intersection
    let alternatives := all [mark "|", any [category .simpleType, group]]
    let conjuncts := all [mark "&", category .simpleType]
    any [
      all [category .simpleType, optional (any [
        all [conjuncts, many conjuncts],
        all [alternatives, many alternatives]])],
      all [group, many alternatives]]
  | .simpleType =>
    all [optional (mark "?"), any [category .qualifiedName, any (typeWords.map spelled),
      word "callable"]]
  | .modifier => any [category .visibility,
      words ["var", "static", "final", "abstract", "readonly"]]
  | .visibility =>
    let operation := all [terminal (.tight "("), terminal .tightWord, terminal (.tight ")")]
    all [words ["public", "protected", "private"], optional operation]
  | .className => any [category .reserved, category .qualifiedName]
  | .qualifiedName => path
  | .reserved => any [spelled "self", spelled "parent", word "static"]
  | .simpleVariable =>
    all [mark "$", any [name, braces (category .expression), category .simpleVariable]]
  | .semicolon => any [mark ";", terminal .impliedSemicolon]

/-- The rule of a whole file after its first tag. -/
def file : Rule := all [many (category .statement), terminal .endOfText]

/-- Any sequence of tokens. Literals are read whole, everything else token by
token. -/
def loose : Rule :=
  let openings := ["\"", "b\"", "B\"", "'", "\x60", "<<<", "\\u"]
  let single := any (terminal .name :: scalar ::
    (Lexeme.symbols.filter fun s => !openings.contains s).map mark)
  all [many (any [category .text, category .shellCommand, single]), terminal .endOfText]

/-! ## First terminals -/

def categories : List Category :=
  [.statement, .colonBlock, .switchCase, .enumMember, .member, .adaptation, .hookList, .hook,
    .parameters, .parameter, .returnType, .argument, .arrayElement, .matchArm, .foreachValue,
    .listItem, .bracketItem, .expression, .operand, .castOperand, .cloneOperand, .term,
    .plainTerm, .listPattern, .bracketPattern, .afterPlace, .afterValue, .plainAfterPlace,
    .plainAfterValue, .place, .placeRest, .constantAccess, .constantRest, .classReference,
    .anonymousClass, .closure, .arrowFunction, .attributes, .derefBase, .placeSuffix,
    .constantSuffix, .arguments, .instanceOf, .condition, .arrayCreation, .text, .doublePart,
    .shellPart, .heredocPart, .shellCommand, .block, .memberList, .useClause, .type, .simpleType,
    .modifier, .visibility, .className, .qualifiedName, .reserved, .simpleVariable, .semicolon]

/-- The terminals each category can begin with, by the places of the categories in
`categories`. A category stands before those it may begin with, so one pass from
the last category to the first finds them all. -/
def firstTable : Array (List Terminal) :=
  let size := categories.length
  categories.reverse.foldl (fun table c =>
    let ofCategory (c : Category) : List Terminal := (table[c.ctorIdx]?).getD []
    table.setIfInBounds c.ctorIdx ((rule c).firstTerminals ofCategory).eraseDups)
    (Array.replicate size [])

def mayBegin (c : Category) (t : Terminal) : Bool :=
  ((firstTable[c.ctorIdx]?).getD []).contains t

end Emend.Grammar
